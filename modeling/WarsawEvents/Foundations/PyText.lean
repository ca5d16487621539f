import Mathlib.Data.List.Basic
import Mathlib.Data.Nat.Notation

/-! # Python's text operations where they differ from Lean's

`str.strip` trims every character that `str.isspace` accepts, Unicode blanks included, while Lean's
`String.trim` knows the ASCII ones only. -/

namespace PyText
set_option autoImplicit false

/-- `str.isspace` of one code point: bidirectional type WS, B or S, or category Zs. -/
def isSpace (c : ℕ) : Bool :=
  (0x09 ≤ c && c ≤ 0x0d) || (0x1c ≤ c && c ≤ 0x20) || c == 0x85 || c == 0xa0 || c == 0x1680 ||
    (0x2000 ≤ c && c ≤ 0x200a) || c == 0x2028 || c == 0x2029 || c == 0x202f || c == 0x205f ||
    c == 0x3000

/-- A list without the marked elements at its two ends. -/
def trimBy {α : Type} (p : α → Bool) (t : List α) : List α :=
  ((t.dropWhile p).reverse.dropWhile p).reverse

/-- `str.strip()`, of a text as its code points. -/
def trim (t : List ℕ) : List ℕ := trimBy isSpace t

/-- `str.strip()`. -/
def strip (s : String) : String := String.ofList (trimBy (fun c => isSpace c.toNat) s.toList)

example : strip " \u2003New Name\t" = "New Name" := by decide

theorem mem_trimBy {α : Type} {p : α → Bool} {t : List α} {c : α} (h : c ∈ trimBy p t) : c ∈ t := by
  unfold trimBy at h
  have hback := (List.dropWhile_sublist p).mem (List.mem_reverse.mp h)
  exact (List.dropWhile_sublist p).mem (List.mem_reverse.mp hback)

theorem mem_strip {s : String} {c : Char} (h : c ∈ (strip s).toList) : c ∈ s.toList := by
  rw [strip, String.toList_ofList] at h
  exact mem_trimBy h

theorem trimBy_eq_self {α : Type} {p : α → Bool} {t : List α} (h : ∀ c ∈ t, p c = false) :
    trimBy p t = t := by
  unfold trimBy
  have hkept : ∀ l : List α, (∀ c ∈ l, p c = false) → l.dropWhile p = l := by
    intro l hl
    cases l with
    | nil => rfl
    | cons c l => rw [List.dropWhile_cons_of_neg (by simp [hl c])]
  rw [hkept t h, hkept t.reverse fun c hc => h c (List.mem_reverse.mp hc), List.reverse_reverse]

/-- `s or None` for a text: Python's truth test drops the empty one. -/
def orNone (s : String) : Option String := if s = "" then none else some s

/-- `s.replace(c, new)` for a text `c` of one character. -/
def replaceChar (s : String) (c : Char) (new : String) : String :=
  String.ofList (s.toList.flatMap fun d => if d = c then new.toList else [d])

end PyText
