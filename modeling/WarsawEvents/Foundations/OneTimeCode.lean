import Mathlib.Data.List.Induction

/-! # One-time codes, read off a history

A `Reading` says what the labels of a history do to the codes of one owner: issue one, retire the
one that is out, miss it. `Outstanding R past k n`: `k` is the last code issued in `past`, nothing has
retired it since, and it has been missed `n` times.

* `outstanding_snoc`: what one more label changes.
* `live`: the same by one pass over the history; `live_eq_some_iff` makes `Outstanding` decidable and
  its code unique.
-/

namespace OneTimeCode
set_option autoImplicit false

variable {ε κ : Type*}

/-- What the labels do to the codes of one owner. -/
structure Reading (ε κ : Type*) where
  issued : ε → Option κ
  retires : ε → Bool
  misses : κ → ε → Bool

/-- The label says nothing about the codes. -/
structure Reading.Silent (R : Reading ε κ) (e : ε) : Prop where
  issued : R.issued e = none
  retires : R.retires e = false
  misses : ∀ k, R.misses k e = false

def Outstanding (R : Reading ε κ) (past : List ε) (k : κ) (n : ℕ) : Prop :=
  ∃ pre e post, past = pre ++ e :: post ∧ R.issued e = some k ∧
    (∀ e' ∈ post, R.issued e' = none ∧ R.retires e' = false) ∧ post.countP (R.misses k) = n

variable {R : Reading ε κ} {past : List ε} {e : ε} {k k' : κ} {n n' : ℕ}

theorem not_outstanding_nil : ¬ Outstanding R [] k n := by
  intro h
  obtain ⟨pre, e, post, hsplit, _⟩ := h
  have hlen := congrArg List.length hsplit
  simp at hlen

theorem Outstanding.issue (h : R.issued e = some k) : Outstanding R (past ++ [e]) k 0 :=
  ⟨past, e, [], rfl, h, by simp, rfl⟩

theorem Outstanding.keep (h : Outstanding R past k n) (hi : R.issued e = none)
    (hr : R.retires e = false) :
    Outstanding R (past ++ [e]) k (n + if R.misses k e then 1 else 0) := by
  obtain ⟨pre, e₀, post, rfl, hk, hpost, rfl⟩ := h
  refine ⟨pre, e₀, post ++ [e], by simp, hk, ?_, ?_⟩
  · intro e' he'
    obtain hold | hnew := List.mem_append.mp he'
    · exact hpost e' hold
    · obtain rfl := List.mem_singleton.mp hnew
      exact ⟨hi, hr⟩
  · rw [List.countP_append, List.countP_singleton]

theorem outstanding_snoc : Outstanding R (past ++ [e]) k n ↔
    (R.issued e = some k ∧ n = 0) ∨
      (R.issued e = none ∧ R.retires e = false ∧
        ∃ m, Outstanding R past k m ∧ n = m + if R.misses k e then 1 else 0) := by
  constructor
  · intro h
    obtain ⟨pre, e₀, post, hsplit, hk, hpost, rfl⟩ := h
    cases post using List.reverseRecOn with
    | nil =>
      obtain ⟨_, he⟩ := List.append_inj' hsplit rfl
      obtain rfl := List.singleton_inj.mp he
      exact .inl ⟨hk, rfl⟩
    | append_singleton post e' _ =>
      have hcat : past ++ [e] = (pre ++ e₀ :: post) ++ [e'] := by simpa using hsplit
      obtain ⟨hpast, he⟩ := List.append_inj' hcat rfl
      obtain rfl := List.singleton_inj.mp he
      obtain ⟨hi, hr⟩ := hpost e (by simp)
      refine .inr ⟨hi, hr, post.countP (R.misses k), ⟨pre, e₀, post, hpast, hk, ?_, rfl⟩, ?_⟩
      · intro e' he'
        exact hpost e' (List.mem_append_left _ he')
      · rw [List.countP_append, List.countP_singleton]
  · intro h
    obtain ⟨hk, rfl⟩ | ⟨hi, hr, m, hm, rfl⟩ := h
    · exact Outstanding.issue hk
    · exact hm.keep hi hr

theorem Outstanding.silent (h : Outstanding R past k n) (he : R.Silent e) :
    Outstanding R (past ++ [e]) k n := by
  have hkeep := h.keep he.issued he.retires
  rw [he.misses k] at hkeep
  simpa using hkeep

theorem Outstanding.before (h : Outstanding R (past ++ [e]) k n) (hi : R.issued e = none) :
    ∃ m, Outstanding R past k m := by
  obtain ⟨hk, _⟩ | ⟨_, _, m, hm, _⟩ := outstanding_snoc.mp h
  · rw [hi] at hk
    cases hk
  · exact ⟨m, hm⟩

/-- Once retired, a code is not outstanding. -/
theorem not_outstanding_retired (hi : R.issued e = none) (hr : R.retires e = true) :
    ¬ Outstanding R (past ++ [e]) k n := by
  intro h
  obtain ⟨hk, _⟩ | ⟨_, hkept, _⟩ := outstanding_snoc.mp h
  · rw [hi] at hk
    cases hk
  · rw [hr] at hkept
    cases hkept

/-! ## By one pass -/

def Reading.next (R : Reading ε κ) (state : Option (κ × ℕ)) (e : ε) : Option (κ × ℕ) :=
  match R.issued e with
  | some k => some (k, 0)
  | none => if R.retires e then none
    else state.map fun s => (s.1, s.2 + if R.misses s.1 e then 1 else 0)

def live (R : Reading ε κ) (past : List ε) : Option (κ × ℕ) := past.foldl R.next none

theorem live_snoc (past : List ε) (e : ε) : live R (past ++ [e]) = R.next (live R past) e := by
  simp [live]

theorem live_eq_some_iff (past : List ε) (k : κ) (n : ℕ) :
    live R past = some (k, n) ↔ Outstanding R past k n := by
  induction past using List.reverseRecOn generalizing n with
  | nil =>
    have hnot : ¬ Outstanding R [] k n := not_outstanding_nil
    simp [live, hnot]
  | append_singleton past e ih =>
    rw [live_snoc, outstanding_snoc]
    unfold Reading.next
    cases hi : R.issued e with
    | some k₀ =>
      simp only [Option.some.injEq, Prod.mk.injEq, reduceCtorEq, false_and, or_false]
      exact and_congr_right fun _ => eq_comm
    | none =>
      cases hr : R.retires e with
      | true => simp
      | false =>
        simp only [Bool.false_eq_true, if_false, Option.map_eq_some_iff, reduceCtorEq, false_and,
          true_and, false_or, Prod.exists, Prod.mk.injEq]
        constructor
        · intro h
          obtain ⟨k₁, m, hlive, rfl, rfl⟩ := h
          exact ⟨m, (ih m).mp hlive, rfl⟩
        · intro h
          obtain ⟨m, hm, rfl⟩ := h
          exact ⟨k, m, (ih m).mpr hm, rfl, rfl⟩

theorem Outstanding.unique (h : Outstanding R past k n) (h' : Outstanding R past k' n') :
    k' = k ∧ n' = n := by
  have hlive := (live_eq_some_iff past k n).mpr h
  rw [(live_eq_some_iff past k' n').mpr h'] at hlive
  simpa using hlive

instance [DecidableEq κ] (past : List ε) (k : κ) (n : ℕ) : Decidable (Outstanding R past k n) :=
  decidable_of_iff _ (live_eq_some_iff past k n)

end OneTimeCode
