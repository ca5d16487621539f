import WarsawEvents.Foundations.Like
import WarsawEvents.RowSecurity.Endpoints

/-! # Name search is literal

`search_users` escapes the term in three passes, the escape character first, and looks for it between
two `%`. Whatever the term contains, the pattern matches the names that contain it.
-/

namespace WarsawEvents.Friends
set_option autoImplicit false

open Like (CaseFold Special)
open RowSecurity (Env Person escapeLike publicUser searchUsers)

/-! ## The three replacements -/

/-- `term.replace("\\", "\\\\")`, then `.replace("%", "\\%")`, then `.replace("_", "\\_")`. -/
def escapedTerm (term : String) : String :=
  PyText.replaceChar (PyText.replaceChar (PyText.replaceChar term '\\' "\\\\") '%' "\\%") '_' "\\_"

theorem toList_escapeLike (term : String) :
    (escapeLike term).toList = Like.escaped '\\' term.toList := by
  simp only [escapeLike, Like.escaped, String.toList_ofList]
  congr 1
  funext c
  by_cases h : Special '\\' c
  · have hor : (c = '\\' || c = '%' || c = '_') = true := by simpa [Special, or_assoc] using h
    rw [if_pos h, if_pos hor]
  · have hor : ¬(c = '\\' || c = '%' || c = '_') = true := by simpa [Special, or_assoc] using h
    rw [if_neg h, if_neg hor]

/-- Later passes leave the escape characters of the earlier ones alone, so one pass does the same. -/
theorem escapedTerm_eq (term : String) : escapedTerm term = escapeLike term := by
  rw [← String.toList_inj, toList_escapeLike]
  simp only [escapedTerm, PyText.replaceChar, String.toList_ofList, List.flatMap_assoc, Like.escaped]
  congr 1
  funext c
  rcases eq_or_ne c '\\' with rfl | hback
  · decide
  rcases eq_or_ne c '%' with rfl | hmany
  · decide
  rcases eq_or_ne c '_' with rfl | hone
  · decide
  simp [Special, hback, hmany, hone]

/-- The pattern is the escaped term between two runs. -/
theorem toList_pattern (term : String) :
    ("%" ++ escapedTerm term ++ "%").toList = '%' :: (Like.escaped '\\' term.toList ++ ['%']) := by
  rw [escapedTerm_eq, String.toList_append, String.toList_append, toList_escapeLike]
  rfl

/-- The folded pattern: a run, the folded term character by character, a run. -/
theorem parse_pattern (F : CaseFold '\\') (term : String) :
    Like.parse '\\' (F.text ("%" ++ escapedTerm term ++ "%").toList)
      = some (.many :: ((F.text term.toList).map .lit ++ [.many])) := by
  rw [toList_pattern]
  exact F.parse_between (by decide) term.toList

theorem ilike_pattern (F : CaseFold '\\') (term name : String) :
    F.ilike ("%" ++ escapedTerm term ++ "%").toList name.toList = true
      ↔ F.text term.toList <:+: F.text name.toList := by
  rw [toList_pattern]
  exact F.ilike_between (by decide) term.toList name.toList

/-! ## The search -/

/-- `ILIKE` over a case folding, with backslash as the escape character. -/
def withIlike (env : Env) (F : CaseFold '\\') : Env :=
  { env with ilike := fun pattern name => F.ilike pattern.toList name.toList }

/-- A search that looks for the folded text itself, without a pattern. -/
def withContains (env : Env) (F : CaseFold '\\') (text : String) : Env :=
  { env with ilike := fun _ name => decide (F.text text.toList <:+: F.text name.toList) }

theorem searchUsers_congr (env : Env) {f g : String → String → Bool} (me : ℕ) (q : String)
    (h : f ("%" ++ escapeLike (PyText.strip q) ++ "%") = g ("%" ++ escapeLike (PyText.strip q) ++ "%")) :
    searchUsers { env with ilike := f } me q = searchUsers { env with ilike := g } me q := by
  have hpublic : publicUser { env with ilike := f } = publicUser { env with ilike := g } := rfl
  unfold searchUsers
  generalize "%" ++ escapeLike (PyText.strip q) ++ "%" = pattern at h
  simp only [h, hpublic]

/-- The pattern of a query is read as its own characters between two runs, it matches exactly the names
that contain them, and the endpoint answers as one that looks for the text itself. -/
theorem name_search_is_literal (F : CaseFold '\\') (env : Env) (me : ℕ) (q : String) :
    Like.parse '\\' (F.text ("%" ++ escapedTerm (PyText.strip q) ++ "%").toList)
        = some (.many :: ((F.text (PyText.strip q).toList).map .lit ++ [.many])) ∧
      (∀ name : String,
        F.ilike ("%" ++ escapedTerm (PyText.strip q) ++ "%").toList name.toList = true
          ↔ F.text (PyText.strip q).toList <:+: F.text name.toList) ∧
      searchUsers (withIlike env F) me q = searchUsers (withContains env F (PyText.strip q)) me q := by
  refine ⟨parse_pattern F _, ilike_pattern F _, ?_⟩
  refine searchUsers_congr env me q (funext fun name => ?_)
  rw [← escapedTerm_eq, Bool.eq_iff_iff, decide_eq_true_iff]
  exact ilike_pattern F (PyText.strip q) name

/-! ## A folding -/

theorem toLower_special {c : Char} (h : Special '\\' c.toLower) : Special '\\' c := by
  unfold Char.toLower at h
  split at h
  case isFalse => exact h
  case isTrue hup =>
    -- a capital letter is lowered into the range of the small ones
    exfalso
    have hlow : 'A'.val.toNat ≤ c.val.toNat := hup.1
    have hhigh : c.val.toNat ≤ 'Z'.val.toNat := hup.2
    rcases h with h | h | h <;>
    · have hval := congrArg (fun d : Char => d.val.toNat) h
      simp at hval hlow hhigh
      omega

theorem toLower_of_special {c : Char} (h : Special '\\' c) : c.toLower = c := by
  rcases h with rfl | rfl | rfl <;> decide

/-- The folding of a database with the C locale. -/
def asciiFold : CaseFold '\\' where
  fold c := [c.toLower]
  special c h := by rw [toLower_of_special h]
  plain c h d hd hspecial := h (toLower_special (List.mem_singleton.mp hd ▸ hspecial))

example : asciiFold.ilike ("%" ++ escapedTerm "50%_\\" ++ "%").toList "Only 50%_\\ off".toList = true ∧
    asciiFold.ilike ("%" ++ escapedTerm "50%" ++ "%").toList "Only 500 off".toList = false := by decide +kernel

end WarsawEvents.Friends
