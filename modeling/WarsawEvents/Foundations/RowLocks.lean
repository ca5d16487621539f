import Mathlib.Data.List.Basic

/-! # Transactions that lock rows

Transactions under way, in a list, each at one of its statements. `holds` says which lock a transaction
holds there: a row lock, kept until it commits or aborts. A statement that asks for a lock runs when the
lock is free, so at most one transaction holds each.

`Exclusive.facts` is what a lock is for. A transaction that moves on keeps what the others rely on,
except what they rely on under a lock of its own, and that is nothing. -/

namespace RowLocks
set_option autoImplicit false

variable {π κ : Type*} {holds : π → Option κ} {txs : List π} {a b : π} {i : ℕ} {k : κ}

/-- Two holders of one lock are one. -/
def Exclusive (holds : π → Option κ) (txs : List π) : Prop :=
  ∀ (i j : ℕ) a b k, txs[i]? = some a → txs[j]? = some b → holds a = some k → holds b = some k → i = j

theorem exclusive_nil : Exclusive holds [] := by
  intro i j a b k hi
  cases hi

/-- A transaction begins without a lock. -/
theorem Exclusive.append (h : Exclusive holds txs) (ha : holds a = none) :
    Exclusive holds (txs ++ [a]) := by
  have hold : ∀ (i : ℕ) b k, (txs ++ [a])[i]? = some b → holds b = some k → txs[i]? = some b := by
    intro i b k hi hk
    by_cases hlt : i < txs.length
    · rwa [List.getElem?_append_left hlt] at hi
    · rw [List.getElem?_append_right (Nat.le_of_not_lt hlt), List.getElem?_singleton] at hi
      split at hi
      · cases hi
        rw [ha] at hk
        cases hk
      · cases hi
  intro i j b c k hi hj hb hc
  exact h i j b c k (hold i b k hi hb) (hold j c k hj hc) hb hc

/-- What the transactions rely on, after one of them moved on. -/
theorem Exclusive.facts {fact fact' : π → Prop} (h : Exclusive holds txs) (hi : txs[i]? = some a)
    (hall : ∀ c ∈ txs, fact c)
    (hothers : ∀ c ∈ txs, (∀ k, holds a = some k → holds c ≠ some k) → fact c → fact' c)
    (hself : fact' b) : ∀ c ∈ txs.set i b, fact' c := by
  intro c hc
  obtain ⟨j, hj⟩ := List.mem_iff_getElem?.mp hc
  rw [List.getElem?_set] at hj
  split at hj
  · split at hj
    · cases hj
      exact hself
    · cases hj
  · rename_i hij
    have hmem : c ∈ txs := List.mem_of_getElem? hj
    apply hothers c hmem ?_ (hall c hmem)
    intro k ha hck
    exact hij (h i j a c k hi hj ha hck)

variable [DecidableEq κ]

/-- No transaction holds the lock. -/
def free (holds : π → Option κ) (txs : List π) (k : κ) : Bool := txs.all fun a => holds a ≠ some k

theorem holds_ne_of_free (h : free holds txs k = true) (ha : a ∈ txs) : holds a ≠ some k :=
  of_decide_eq_true (List.all_eq_true.mp h a ha)

/-- It moves on with the locks it has, or takes a free one. -/
theorem Exclusive.set (h : Exclusive holds txs) (hi : txs[i]? = some a)
    (hb : ∀ k, holds b = some k → holds a = some k ∨ free holds txs k = true) :
    Exclusive holds (txs.set i b) := by
  have hself : ∀ (j : ℕ) c k, txs[j]? = some c → holds c = some k → holds b = some k → i = j := by
    intro j c k hj hc hk
    obtain hheld | hfree := hb k hk
    · exact h i j a c k hi hj hheld hc
    · exact absurd hc (holds_ne_of_free hfree (List.mem_of_getElem? hj))
  intro j l c d k hj hl hc hd
  rw [List.getElem?_set] at hj hl
  split at hj
  · rename_i hij
    split at hl
    · rename_i hil
      exact hij.symm.trans hil
    · split at hj
      · cases hj
        exact hij.symm.trans (hself l d k hl hd hc)
      · cases hj
  · split at hl
    · rename_i hil
      split at hl
      · cases hl
        exact (hself j c k hj hc hd).symm.trans hil
      · cases hl
    · exact h j l c d k hj hl hc hd

end RowLocks
