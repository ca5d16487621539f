import Mathlib.Data.List.Infix
import Mathlib.Tactic.Common

/-! # `LIKE` patterns

A pattern is read into tokens: `%` stands for any run of characters, `_` for one, the escape character
takes the next one literally. Matching backtracks over the runs. A text escaped character by character
reads back as itself, so between two `%` it matches exactly the texts that contain it.
-/

namespace Like
set_option autoImplicit false

inductive Token where
  | lit (c : Char)
  | one
  | many
  deriving DecidableEq, Repr

def token (c : Char) : Token :=
  if c = '%' then .many else if c = '_' then .one else .lit c

/-- The tokens of a pattern; `none` where it ends in the escape character, which is an error. -/
def parse (esc : Char) : List Char → Option (List Token)
  | [] => some []
  | c :: p =>
    if c = esc then
      match p with
      | [] => none
      | d :: p => (parse esc p).map (.lit d :: ·)
    else (parse esc p).map (token c :: ·)

/-- `many` tries every point of the text for the rest of the pattern. -/
def Matches : List Token → List Char → Bool
  | [], text => text.isEmpty
  | .lit c :: p, d :: text => c = d && Matches p text
  | .lit _ :: _, [] => false
  | .one :: p, _ :: text => Matches p text
  | .one :: _, [] => false
  | .many :: p, text => text.tails.any (Matches p)

/-! ## Reading an escaped text -/

/-- The characters a pattern does not take literally. -/
def Special (esc c : Char) : Prop := c = esc ∨ c = '%' ∨ c = '_'

instance (esc c : Char) : Decidable (Special esc c) :=
  inferInstanceAs (Decidable (c = esc ∨ c = '%' ∨ c = '_'))

def escaped (esc : Char) (text : List Char) : List Char :=
  text.flatMap fun c => if Special esc c then [esc, c] else [c]

theorem escaped_cons (esc c : Char) (text : List Char) :
    escaped esc (c :: text) = (if Special esc c then [esc, c] else [c]) ++ escaped esc text := by
  simp [escaped]

theorem escaped_append (esc : Char) (a b : List Char) :
    escaped esc (a ++ b) = escaped esc a ++ escaped esc b := by
  simp [escaped]

theorem escaped_of_plain {esc : Char} {text : List Char} (h : ∀ c ∈ text, ¬Special esc c) :
    escaped esc text = text := by
  induction text with
  | nil => rfl
  | cons c text ih =>
    rw [escaped_cons, if_neg (h c List.mem_cons_self), ih fun d hd => h d (List.mem_cons_of_mem _ hd)]
    rfl

theorem parse_esc (esc d : Char) (p : List Char) :
    parse esc (esc :: d :: p) = (parse esc p).map (.lit d :: ·) := by
  rw [parse, if_pos rfl]

theorem parse_of_ne {esc c : Char} (h : c ≠ esc) (p : List Char) :
    parse esc (c :: p) = (parse esc p).map (token c :: ·) := by
  rw [parse.eq_def]
  exact if_neg h

theorem parse_many {esc : Char} (hesc : esc ≠ '%') (p : List Char) :
    parse esc ('%' :: p) = (parse esc p).map (.many :: ·) :=
  parse_of_ne hesc.symm p

theorem parse_plain {esc c : Char} (h : ¬Special esc c) (p : List Char) :
    parse esc (c :: p) = (parse esc p).map (.lit c :: ·) := by
  obtain ⟨hesc, hmany, hone⟩ : c ≠ esc ∧ c ≠ '%' ∧ c ≠ '_' := by
    simpa only [Special, not_or] using h
  rw [parse_of_ne hesc, token, if_neg hmany, if_neg hone]

/-- Each character is literal again, runs of escape characters included. -/
theorem parse_escaped (esc : Char) (text p : List Char) :
    parse esc (escaped esc text ++ p) = (parse esc p).map (text.map .lit ++ ·) := by
  induction text with
  | nil => simp [escaped]
  | cons c text ih =>
    rw [escaped_cons]
    have hrest : (parse esc (escaped esc text ++ p)).map (Token.lit c :: ·)
        = (parse esc p).map ((c :: text).map .lit ++ ·) := by
      rw [ih, Option.map_map]
      rfl
    by_cases h : Special esc c
    · rw [if_pos h]
      exact (parse_esc esc c _).trans hrest
    · rw [if_neg h]
      exact (parse_plain h _).trans hrest

/-- What an escaped text between two `%` is read as. -/
theorem parse_between {esc : Char} (hesc : esc ≠ '%') (text : List Char) :
    parse esc ('%' :: (escaped esc text ++ ['%'])) = some (.many :: (text.map .lit ++ [.many])) := by
  have hlast : parse esc ['%'] = some [.many] := parse_many hesc []
  rw [parse_many hesc, parse_escaped, hlast]
  rfl

/-! ## Matching -/

theorem matches_many (p : List Token) (text : List Char) :
    Matches (.many :: p) text = true ↔ ∃ front rest, front ++ rest = text ∧ Matches p rest = true := by
  simp only [Matches, List.any_eq_true, List.mem_tails]
  constructor
  · rintro ⟨rest, ⟨front, hsplit⟩, hrest⟩
    exact ⟨front, rest, hsplit, hrest⟩
  · rintro ⟨front, rest, hsplit, hrest⟩
    exact ⟨rest, ⟨front, hsplit⟩, hrest⟩

theorem matches_lits (w : List Char) (p : List Token) (text : List Char) :
    Matches (w.map .lit ++ p) text = true ↔ ∃ rest, w ++ rest = text ∧ Matches p rest = true := by
  induction w generalizing text with
  | nil => simp
  | cons c w ih =>
    cases text with
    | nil => simp [Matches]
    | cons d text =>
      simp only [List.map_cons, List.cons_append, Matches, Bool.and_eq_true, decide_eq_true_eq, ih,
        List.cons.injEq]
      constructor
      · rintro ⟨rfl, rest, hsplit, hrest⟩
        exact ⟨rest, ⟨rfl, hsplit⟩, hrest⟩
      · rintro ⟨rest, ⟨rfl, hsplit⟩, hrest⟩
        exact ⟨rfl, rest, hsplit, hrest⟩

theorem matches_everything (text : List Char) : Matches [.many] text = true :=
  (matches_many [] text).mpr ⟨text, [], List.append_nil text, rfl⟩

/-- Between two runs a text is matched exactly where it occurs. -/
theorem matches_between (w text : List Char) :
    Matches (.many :: (w.map .lit ++ [.many])) text = true ↔ w <:+: text := by
  rw [matches_many]
  constructor
  · rintro ⟨front, rest, hfront, hrest⟩
    obtain ⟨back, hback, -⟩ := (matches_lits w [.many] rest).mp hrest
    exact ⟨front, back, by rw [List.append_assoc, hback, hfront]⟩
  · rintro ⟨front, back, hsplit⟩
    refine ⟨front, w ++ back, by rw [← List.append_assoc, hsplit], ?_⟩
    exact (matches_lits w [.many] _).mpr ⟨back, rfl, matches_everything back⟩

/-! ## Case-folded matching -/

/-- A case folding, character by character, that leaves the special characters alone: they have no
case, and no letter folds into one. -/
structure CaseFold (esc : Char) where
  fold : Char → List Char
  special : ∀ c, Special esc c → fold c = [c]
  plain : ∀ c, ¬Special esc c → ∀ d ∈ fold c, ¬Special esc d

variable {esc : Char}

def CaseFold.text (F : CaseFold esc) (s : List Char) : List Char := s.flatMap F.fold

/-- `ILIKE`: both sides are folded first. A malformed pattern matches nothing. -/
def CaseFold.ilike (F : CaseFold esc) (pattern s : List Char) : Bool :=
  ((parse esc (F.text pattern)).map fun p => Matches p (F.text s)).getD false

theorem CaseFold.text_append (F : CaseFold esc) (a b : List Char) :
    F.text (a ++ b) = F.text a ++ F.text b := by
  simp [CaseFold.text]

theorem CaseFold.text_special (F : CaseFold esc) {c : Char} (h : Special esc c) : F.text [c] = [c] := by
  simpa [CaseFold.text] using F.special c h

/-- Escaping and folding commute. -/
theorem CaseFold.text_escaped (F : CaseFold esc) (s : List Char) :
    F.text (escaped esc s) = escaped esc (F.text s) := by
  induction s with
  | nil => rfl
  | cons c s ih =>
    have hsplit : F.text (c :: s) = F.fold c ++ F.text s := by simp [CaseFold.text]
    rw [escaped_cons, F.text_append, ih, hsplit, escaped_append]
    congr 1
    by_cases h : Special esc c
    · have hesc : F.fold esc = [esc] := F.special esc (.inl rfl)
      rw [if_pos h, F.special c h]
      simp [CaseFold.text, escaped, hesc, F.special c h, h]
    · rw [if_neg h, escaped_of_plain (F.plain c h)]
      simp [CaseFold.text]

/-- The pattern that looks for an escaped text, folded: two runs and literal characters between. -/
theorem CaseFold.parse_between (F : CaseFold esc) (hesc : esc ≠ '%') (s : List Char) :
    parse esc (F.text ('%' :: (escaped esc s ++ ['%'])))
      = some (.many :: ((F.text s).map .lit ++ [.many])) := by
  have hmany : F.text ['%'] = ['%'] := F.text_special (.inr (.inl rfl))
  have hfold : F.text ('%' :: (escaped esc s ++ ['%'])) = '%' :: (escaped esc (F.text s) ++ ['%']) := by
    calc F.text ('%' :: (escaped esc s ++ ['%']))
        = F.text ['%'] ++ (F.text (escaped esc s) ++ F.text ['%']) := by
          rw [← F.text_append, ← F.text_append]; rfl
      _ = '%' :: (escaped esc (F.text s) ++ ['%']) := by rw [hmany, F.text_escaped]; rfl
  rw [hfold, Like.parse_between hesc]

theorem CaseFold.ilike_between (F : CaseFold esc) (hesc : esc ≠ '%') (s name : List Char) :
    F.ilike ('%' :: (escaped esc s ++ ['%'])) name = true ↔ F.text s <:+: F.text name := by
  rw [CaseFold.ilike, F.parse_between hesc]
  exact matches_between _ _

end Like
