import WarsawEvents.Foundations.Coupling

/-! # Programs that leave the state alone

`ReadOnly m`: from any state, `m` returns or raises in the state it was started in. -/

namespace Coupling
set_option autoImplicit false

variable {σ ε α β : Type}

def ReadOnly (m : Prog σ ε α) : Prop := ∀ s, (exec m s).2 = s

theorem ReadOnly.pure (a : α) : ReadOnly (Pure.pure a : Prog σ ε α) := fun _ => rfl

theorem ReadOnly.throw (e : ε) : ReadOnly (MonadExcept.throw e : Prog σ ε α) := fun _ => rfl

/-- The result of a read-only program, with the state it was started in. -/
theorem ReadOnly.exec_eq {m : Prog σ ε α} (h : ReadOnly m) (s : σ) : exec m s = ((exec m s).1, s) :=
  Prod.ext rfl (h s)

theorem ReadOnly.bind {m : Prog σ ε α} {f : α → Prog σ ε β} (h : ReadOnly m)
    (hf : ∀ a, ReadOnly (f a)) : ReadOnly (m >>= f) := by
  intro s
  have hm := h.exec_eq s
  generalize (exec m s).1 = result at hm
  cases result with
  | error e => rw [exec_bind_error hm]
  | ok a =>
    rw [exec_bind_ok hm]
    exact hf a s

theorem ReadOnly.ite {c : Prop} [Decidable c] {m n : Prog σ ε α} (hm : ReadOnly m)
    (hn : ReadOnly n) : ReadOnly (if c then m else n) := by
  by_cases hc : c
  · rw [if_pos hc]
    exact hm
  · rw [if_neg hc]
    exact hn

end Coupling
