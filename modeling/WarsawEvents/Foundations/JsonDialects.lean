import WarsawEvents.Foundations.JsonRoundTrip

/-! # Readers of JSON that accept more than others

A dialect lies within another when the other reads every scalar that it reads, to the same worth; then the
other reads every document that it reads. `Dialect.plain` is a dialect without its extra words. -/

namespace Json
set_option autoImplicit false

variable {ν : Type}

/-- The dialect without words of its own: numbers are what JSON calls numbers. -/
def Dialect.plain (d : Dialect ν) : Dialect ν := { d with constants := [] }

structure Dialect.Within (d e : Dialect ν) : Prop where
  joins : d.joinsPairs = e.joinsPairs
  scalar : ∀ {text : Text} {r : Value ν × Text}, readScalar d text = some r → readScalar e text = some r

/-- No word of the dialect opens like a number. -/
def Dialect.WordsApart (d : Dialect ν) : Prop :=
  ∀ p ∈ d.constants, ∀ rest, isNumber ((p.1 ++ rest).takeWhile isNumberChar) = false

theorem Dialect.plain_within {d : Dialect ν} (hd : d.WordsApart) : d.plain.Within d where
  joins := rfl
  scalar := by
    intro text r h
    have hplain : words d.plain = [(ascii "null", .null), (ascii "true", .bool true),
        (ascii "false", .bool false)] := rfl
    have hwords : words d = words d.plain ++ d.constants.map fun p => (p.1, .num p.2) := by
      rw [hplain]
      rfl
    unfold readScalar at h ⊢
    rw [hwords, List.find?_append]
    cases hword : (words d.plain).find? fun p => p.1.isPrefixOf text with
    | some p =>
      rw [hword] at h
      exact h
    | none =>
      rw [hword] at h
      simp only [Option.none_or] at h ⊢
      split
      next q hq =>
        -- a word of the dialect, where the plain one has found a number
        have hprefix := List.find?_some hq
        obtain ⟨p, hp, rfl⟩ := List.mem_map.mp (List.mem_of_find?_eq_some hq)
        obtain ⟨rest, rfl⟩ := List.isPrefixOf_iff_prefix.mp hprefix
        rw [hd p hp rest] at h
        simp at h
      next => exact h

/-! ## What the wider reader reads -/

/-- `y` has every result that `x` has. -/
def Below {α : Type} (x y : Option α) : Prop := ∀ a, x = some a → y = some a

section
variable {α β : Type}

theorem Below.refl (x : Option α) : Below x x := fun _ h => h

theorem Below.none (y : Option α) : Below none y := fun _ h => absurd h (by simp)

theorem Below.bind {x y : Option α} {f g : α → Option β} (hx : Below x y)
    (hf : ∀ a, Below (f a) (g a)) : Below (x >>= f) (y >>= g) := by
  intro b h
  obtain ⟨a, ha, hb⟩ := Option.bind_eq_some_iff.mp h
  exact Option.bind_eq_some_iff.mpr ⟨a, hx a ha, hf a b hb⟩

/-- Only what comes after differs. -/
theorem Below.after (x : Option α) {f g : α → Option β} (hf : ∀ a, Below (f a) (g a)) :
    Below (x >>= f) (x >>= g) := Below.bind (Below.refl x) hf

/-- What comes after is the same. -/
theorem Below.before {x y : Option α} (hx : Below x y) (f : α → Option β) :
    Below (x >>= f) (y >>= f) := Below.bind hx fun a => Below.refl (f a)

theorem Below.ite {p : Prop} [Decidable p] {x x' y y' : Option α} (hx : Below x x') (hy : Below y y') :
    Below (if p then x else y) (if p then x' else y') := by
  split
  next => exact hx
  next => exact hy

end

section
variable {d e : Dialect ν} (hde : d.Within e)
include hde

/-- The three readers with one fuel: each hands its parts to the others with less of it. -/
theorem Dialect.Within.readers (fuel : ℕ) :
    (∀ text, Below (readValue d fuel text) (readValue e fuel text)) ∧
      (∀ text, Below (readElems d fuel text) (readElems e fuel text)) ∧
      ∀ text, Below (readMembers d fuel text) (readMembers e fuel text) := by
  induction fuel with
  | zero =>
    refine ⟨?_, ?_, ?_⟩
    · intro text
      rw [readValue]
      exact Below.none _
    · intro text
      rw [readElems]
      exact Below.none _
    · intro text
      rw [readMembers]
      exact Below.none _
  | succ fuel ih =>
    obtain ⟨hvalue, helems, hmembers⟩ := ih
    refine ⟨?_, ?_, ?_⟩
    · intro text
      rw [readValue, readValue, hde.joins]
      apply Below.after
      rintro ⟨c, rest⟩
      apply Below.ite (Below.refl _)
      apply Below.ite
      · apply Below.after
        rintro ⟨c', rest'⟩
        exact Below.ite (Below.refl _) ((helems rest).before _)
      · apply Below.ite
        · apply Below.after
          rintro ⟨c', rest'⟩
          exact Below.ite (Below.refl _) ((hmembers rest).before _)
        · exact fun _ => hde.scalar
    · intro text
      rw [readElems, readElems]
      apply Below.bind (hvalue text)
      rintro ⟨v, rest⟩
      apply Below.after
      rintro ⟨c, rest⟩
      exact Below.ite ((helems rest).before _) (Below.refl _)
    · intro text
      rw [readMembers, readMembers, hde.joins]
      apply Below.after
      rintro ⟨c, rest⟩
      apply Below.ite (Below.refl _)
      apply Below.after
      rintro ⟨k, rest⟩
      apply Below.after
      rintro ⟨c, rest⟩
      apply Below.ite (Below.refl _)
      apply Below.bind (hvalue rest)
      rintro ⟨v, rest⟩
      apply Below.after
      rintro ⟨c, rest⟩
      exact Below.ite ((hmembers rest).before _) (Below.refl _)

theorem Dialect.Within.read {text : Text} {v : Value ν} (h : read d text = some v) :
    read e text = some v := by
  unfold Json.read at h ⊢
  exact ((hde.readers _).1 text).before _ v h

end

/-! ## Objects and braces -/

section
variable {d : Dialect ν}

theorem readValue_of_read {text : Text} {v : Value ν} (h : read d text = some v) :
    ∃ rest, readValue d (text.length + 1) text = some (v, rest) := by
  obtain ⟨⟨w, rest⟩, hread, hw⟩ := Option.bind_eq_some_iff.mp h
  dsimp only at hw
  split at hw
  next =>
    obtain rfl := Option.some.inj hw
    exact ⟨rest, hread⟩
  next => simp at hw

theorem readValue_brace {fuel : ℕ} {text : Text} {r : Value ν × Text}
    (h : readValue d fuel (0x7b :: text) = some r) : ∃ ms, r.1 = .obj ms := by
  cases fuel with
  | zero => simp [readValue] at h
  | succ fuel =>
    rw [readValue, next_cons (by decide)] at h
    simp only [Option.bind_eq_bind, Option.bind_some] at h
    rw [if_neg (by decide), if_neg (by decide), if_pos trivial] at h
    obtain ⟨⟨c, rest⟩, _, hrest⟩ := Option.bind_eq_some_iff.mp h
    split at hrest
    next =>
      obtain rfl := Option.some.inj hrest
      exact ⟨[], rfl⟩
    next =>
      obtain ⟨⟨ms, rest⟩, _, hms⟩ := Option.bind_eq_some_iff.mp hrest
      obtain rfl := Option.some.inj hms
      exact ⟨ms, rfl⟩

/-- A document that opens with a brace is an object. -/
theorem read_brace {text : Text} {v : Value ν} (h : read d (0x7b :: text) = some v) :
    ∃ ms, v = .obj ms := by
  obtain ⟨rest, hread⟩ := readValue_of_read h
  exact readValue_brace hread

theorem readScalar_not_obj {text : Text} {r : Value ν × Text} (h : readScalar d text = some r)
    (ms : List (Text × Value ν)) : r.1 ≠ .obj ms := by
  unfold readScalar at h
  split at h
  next p hp =>
    obtain rfl := Option.some.inj h
    have hmem := List.mem_of_find?_eq_some hp
    unfold words at hmem
    obtain hword | hconstant := List.mem_append.mp hmem
    · simp only [List.mem_cons, List.not_mem_nil, or_false] at hword
      obtain rfl | rfl | rfl := hword <;> simp
    · obtain ⟨q, _, rfl⟩ := List.mem_map.mp hconstant
      simp
  next =>
    simp only at h
    split at h
    next =>
      obtain ⟨x, _, rfl⟩ := Option.map_eq_some_iff.mp h
      simp
    next => simp at h

/-- An object opens with a brace. -/
theorem next_of_read {text : Text} {ms : List (Text × Value ν)} (h : read d text = some (.obj ms)) :
    ∃ rest, next text = some (0x7b, rest) := by
  obtain ⟨after, hread⟩ := readValue_of_read h
  rw [readValue] at hread
  obtain ⟨⟨c, rest⟩, hnext, hc⟩ := Option.bind_eq_some_iff.mp hread
  simp only at hc
  split at hc
  next =>
    obtain ⟨_, _, heq⟩ := Option.bind_eq_some_iff.mp hc
    simp at heq
  next =>
    split at hc
    next =>
      obtain ⟨_, _, heq⟩ := Option.bind_eq_some_iff.mp hc
      split at heq
      next => simp at heq
      next =>
        obtain ⟨_, _, heq⟩ := Option.bind_eq_some_iff.mp heq
        simp at heq
    next =>
      split at hc
      next hbrace => exact ⟨rest, hbrace ▸ hnext⟩
      next => exact absurd rfl (readScalar_not_obj hc ms)

end

end Json
