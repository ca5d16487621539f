import Mathlib.Logic.Function.Basic
import Mathlib.Algebra.Order.Group.Unbundled.Int

/-! # Counters that disappear when their time is over

A store of counters under keys, with the instants at which they expire. `incr` counts one up, from
nothing when the counter is not there any more; `expire` sets the time that is left. Both answer by
what is there at the instant of the command.
-/

namespace ExpiringCounter
set_option autoImplicit false

variable {κ : Type*}

structure Counter where
  used : ℕ
  expiry : Option ℤ := none
  deriving DecidableEq

/-- Still there at the instant. -/
def Counter.liveAt (c : Counter) (now : ℤ) : Bool :=
  match c.expiry with
  | none => true
  | some e => decide (now < e)

abbrev Store (κ : Type*) := κ → Option Counter

def Store.read (s : Store κ) (now : ℤ) (k : κ) : Option Counter := (s k).filter (Counter.liveAt · now)

/-- The count at the instant, 0 for a counter that is not there. -/
def Store.count (s : Store κ) (now : ℤ) (k : κ) : ℕ := ((s.read now k).map Counter.used).getD 0

variable {s : Store κ} {now : ℤ} {k k' : κ} {c : Counter}

theorem Store.read_of_live (h : s k = some c) (hlive : c.liveAt now = true) :
    s.read now k = some c := by
  unfold Store.read
  rw [h]
  exact Option.filter_some_pos hlive

theorem Store.read_of_gone (h : s k = some c) (hgone : c.liveAt now = false) :
    s.read now k = none := by
  unfold Store.read
  rw [h]
  exact Option.filter_some_neg (by simp [hgone])

theorem Store.count_of_live (h : s k = some c) (hlive : c.liveAt now = true) :
    s.count now k = c.used := by
  unfold Store.count
  rw [Store.read_of_live h hlive]
  rfl

variable [DecidableEq κ]

/-- `INCR`, which keeps the expiry of a counter that is there. -/
def Store.incr (s : Store κ) (now : ℤ) (k : κ) : ℕ × Store κ :=
  let expiry := (s.read now k).bind Counter.expiry
  (s.count now k + 1, Function.update s k (some ⟨s.count now k + 1, expiry⟩))

/-- `EXPIRE`, which misses a counter that is not there. -/
def Store.expire (s : Store κ) (now : ℤ) (k : κ) (ttl : ℤ) : Store κ :=
  match s.read now k with
  | none => s
  | some c => Function.update s k (some { c with expiry := some (now + ttl) })

theorem Store.incr_other (hk : k' ≠ k) : (s.incr now k).2 k' = s k' := Function.update_of_ne hk _ _

theorem Store.expire_other {ttl : ℤ} (hk : k' ≠ k) : s.expire now k ttl k' = s k' := by
  unfold Store.expire
  cases s.read now k with
  | none => rfl
  | some c => exact Function.update_of_ne hk _ _

theorem Store.incr_self : (s.incr now k).2 k =
    some ⟨s.count now k + 1, (s.read now k).bind Counter.expiry⟩ := Function.update_self _ _ _

/-- What is there after `EXPIRE`: what was, with the new time if it was still there. -/
theorem Store.expire_self {ttl : ℤ} (h : s k = some c) : s.expire now k ttl k =
    some (if c.liveAt now then { c with expiry := some (now + ttl) } else c) := by
  unfold Store.expire
  cases hlive : c.liveAt now with
  | true =>
    rw [Store.read_of_live h hlive]
    exact Function.update_self _ _ _
  | false =>
    rw [Store.read_of_gone h hlive]
    exact h

theorem Store.expire_missing {ttl : ℤ} (h : s k = none) : s.expire now k ttl = s := by
  have hnone : s.read now k = none := by
    unfold Store.read
    rw [h]
    rfl
  unfold Store.expire
  rw [hnone]

/-- `EXPIRE` counts nothing. -/
theorem Store.expire_used {ttl : ℤ} (k' : κ) :
    (s.expire now k ttl k').map Counter.used = (s k').map Counter.used := by
  by_cases hk : k' = k
  · subst hk
    cases h : s k' with
    | none => rw [Store.expire_missing h, h]
    | some c =>
      rw [Store.expire_self h]
      cases c.liveAt now with
      | true => rfl
      | false => rfl
  · rw [Store.expire_other hk]

end ExpiringCounter
