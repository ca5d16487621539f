import Mathlib.Data.Option.Basic

/-! # Writing a stale copy back

A unit of work reads a value, computes a new one from its copy, and at commit writes it only if it
differs from the copy. `writeBack base new cur` is what is stored when the value has become `cur`
meanwhile: with no lock and no version check, an unchanged copy keeps `cur` and a changed one
overwrites it. -/

namespace WriteBack
set_option autoImplicit false

variable {α : Type*} [DecidableEq α] {base new cur : α}

def writeBack (base new cur : α) : α := if new = base then cur else new

@[simp] theorem writeBack_unchanged (base cur : α) : writeBack base base cur = cur := if_pos rfl

/-- Nothing came in between: the new value is stored. -/
@[simp] theorem writeBack_alone (base new : α) : writeBack base new base = new := by
  unfold writeBack
  split
  · rename_i h
    exact h.symm
  · rfl

theorem writeBack_changed (h : new ≠ base) : writeBack base new cur = new := if_neg h

theorem writeBack_cases (base new cur : α) :
    (new = base ∧ writeBack base new cur = cur) ∨ (new ≠ base ∧ writeBack base new cur = new) := by
  by_cases h : new = base
  · exact Or.inl ⟨h, if_pos h⟩
  · exact Or.inr ⟨h, if_neg h⟩

end WriteBack
