import Mathlib.Data.Nat.Notation
import Mathlib.Tactic.Common

/-! # Sending a request again

A request is sent up to a fixed number of times. Each attempt ends the loop, or asks for another one; it
may depend on its number and on a state, and leaves a new state.
-/

namespace Retry
set_option autoImplicit false

inductive Verdict (α : Type) where
  | again
  | ends (result : α)

variable {σ α : Type}

/-- From attempt number `k` on; none when the last attempt, too, asks for another one. -/
def loop (attempt : ℕ → σ → Verdict α × σ) (k : ℕ) : ℕ → σ → Option α × σ
  | 0, s => (none, s)
  | left + 1, s =>
    match attempt k s with
    | (.ends result, s) => (some result, s)
    | (.again, s) => loop attempt (k + 1) left s

/-- From attempt number `k` on, `j` attempts in a row ask for another one. -/
inductive Again (attempt : ℕ → σ → Verdict α × σ) : ℕ → σ → ℕ → σ → Prop
  | none {k : ℕ} {s : σ} : Again attempt k s 0 s
  | next {k j : ℕ} {s mid s' : σ} : attempt k s = (.again, mid) → Again attempt (k + 1) mid j s' →
      Again attempt k s (j + 1) s'

variable {attempt : ℕ → σ → Verdict α × σ} {k j left : ℕ} {s s' : σ} {result : α}

theorem loop_ends_iff : loop attempt k left s = (some result, s') ↔
    ∃ j < left, ∃ mid, Again attempt k s j mid ∧ attempt (k + j) mid = (.ends result, s') := by
  induction left generalizing k s with
  | zero => simp [loop]
  | succ left ih =>
    rcases hfirst : attempt k s with ⟨verdict, mid⟩
    cases verdict with
    | ends r =>
      simp only [loop, hfirst]
      constructor
      · intro h
        cases h
        exact ⟨0, Nat.succ_pos left, s, .none, hfirst⟩
      · rintro ⟨j, _, m, hagain, hlast⟩
        cases hagain with
        | none =>
          rw [Nat.add_zero, hfirst] at hlast
          cases hlast
          rfl
        | next hstep _ =>
          rw [hfirst] at hstep
          cases hstep
    | again =>
      simp only [loop, hfirst]
      rw [ih]
      constructor
      · rintro ⟨j, hj, m, hagain, hlast⟩
        have hnumber : k + (j + 1) = k + 1 + j := by omega
        exact ⟨j + 1, Nat.succ_lt_succ hj, m, .next hfirst hagain, by rw [hnumber]; exact hlast⟩
      · rintro ⟨j, hj, m, hagain, hlast⟩
        cases hagain with
        | none =>
          rw [Nat.add_zero, hfirst] at hlast
          cases hlast
        | @next _ j _ mid' _ hstep hrest =>
          rw [hfirst] at hstep
          cases hstep
          have hnumber : k + (j + 1) = k + 1 + j := by omega
          rw [hnumber] at hlast
          exact ⟨j, Nat.lt_of_succ_lt_succ hj, m, hrest, hlast⟩

/-- A loop whose last attempt ends it has a result. -/
theorem loop_isSome (h : ∀ s, (attempt (k + left) s).1 ≠ .again) :
    (loop attempt k (left + 1) s).1.isSome = true := by
  induction left generalizing k s with
  | zero =>
    rcases hfirst : attempt k s with ⟨verdict, mid⟩
    cases verdict with
    | ends r => simp [loop, hfirst]
    | again => exact absurd (congrArg Prod.fst hfirst) (h s)
  | succ left ih =>
    rcases hfirst : attempt k s with ⟨verdict, mid⟩
    unfold loop
    cases verdict with
    | ends r => simp [hfirst]
    | again =>
      simp only [hfirst]
      refine ih fun s => ?_
      have hnumber : k + 1 + left = k + (left + 1) := by omega
      rw [hnumber]
      exact h s

/-- What each further attempt keeps, any number of them keeps. -/
theorem Again.keeps {I : ℕ → σ → Prop} (h : Again attempt k s j s') (hs : I k s)
    (hstep : ∀ k s mid, I k s → attempt k s = (.again, mid) → I (k + 1) mid) : I (k + j) s' := by
  induction h with
  | none => exact hs
  | @next k j s mid s' hfirst _ ih =>
    have hnumber : k + (j + 1) = k + 1 + j := by omega
    rw [hnumber]
    exact ih (hstep k s mid hs hfirst)

end Retry
