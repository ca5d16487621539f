import Mathlib.Data.Finset.Card
import Mathlib.Data.Finset.Dedup
import Mathlib.Data.Finset.SDiff
import Mathlib.Data.List.Basic

/-! # Following a partial map

`walk` follows a map from a starting point until it is not defined, or until it comes back to a point
it has left. The list of points left makes it end on any map with finitely many keys, and where the
chain never repeats it ends where the chain does.
-/

namespace Chase
set_option autoImplicit false

variable {α β : Type}

/-! ## Chains -/

variable (next : α → Option α)

/-- The point after a number of steps. -/
def after : ℕ → α → Option α
  | 0, a => some a
  | n + 1, a => (after n a).bind next

/-- The chain from `a` never comes back to a point. -/
def Acyclic (a : α) : Prop := ∀ m n p, after next m a = some p → after next n a = some p → m = n

/-- Where the chain from `a` ends. -/
def EndsAt (a e : α) : Prop := (∃ n, after next n a = some e) ∧ next e = none

variable {next}

theorem after_add_eq_none {a e : α} {n : ℕ} (h : after next n a = some e) (hend : next e = none)
    (k : ℕ) : after next (n + (k + 1)) a = none := by
  induction k with
  | zero =>
    rw [after, h]
    exact hend
  | succ k ih =>
    show (after next (n + (k + 1)) a).bind next = none
    rw [ih]
    rfl

/-- A chain has one end at most. -/
theorem EndsAt.unique {a e e' : α} (h : EndsAt next a e) (h' : EndsAt next a e') : e = e' := by
  obtain ⟨⟨n, hn⟩, hend⟩ := h
  obtain ⟨⟨n', hn'⟩, hend'⟩ := h'
  rcases Nat.lt_trichotomy n n' with hlt | rfl | hlt
  · obtain ⟨k, rfl⟩ := Nat.exists_eq_add_of_lt hlt
    have hnone : after next (n + k + 1) a = none := after_add_eq_none hn hend k
    rw [hnone] at hn'
    cases hn'
  · exact Option.some.inj (hn.symm.trans hn')
  · obtain ⟨k, rfl⟩ := Nat.exists_eq_add_of_lt hlt
    have hnone : after next (n' + k + 1) a = none := after_add_eq_none hn' hend' k
    rw [hnone] at hn
    cases hn

theorem after_add_congr {a : α} {m n : ℕ} (h : after next m a = after next n a) (k : ℕ) :
    after next (m + k) a = after next (n + k) a := by
  induction k with
  | zero => exact h
  | succ k ih =>
    show (after next (m + k) a).bind next = (after next (n + k) a).bind next
    rw [ih]

/-- A chain that comes back has no end. -/
theorem EndsAt.acyclic {a e : α} (h : EndsAt next a e) : Acyclic next a := by
  obtain ⟨⟨last, hlast⟩, hend⟩ := h
  have hback : ∀ m d p, after next m a = some p → after next (m + (d + 1)) a = some p → False := by
    intro m d p hm hn
    rcases Nat.lt_or_ge last m with hlt | hle
    · obtain ⟨k, rfl⟩ := Nat.exists_eq_add_of_lt hlt
      rw [Nat.add_assoc, after_add_eq_none hlast hend k] at hm
      cases hm
    · obtain ⟨k, rfl⟩ := Nat.exists_eq_add_of_le hle
      have hsame := after_add_congr (hm.trans hn.symm) k
      have hplace : m + (d + 1) + k = m + k + (d + 1) := by omega
      rw [hplace, hlast, after_add_eq_none hlast hend d] at hsame
      cases hsame
  intro m n p hm hn
  rcases Nat.lt_trichotomy m n with hlt | heq | hlt
  · obtain ⟨d, rfl⟩ := Nat.exists_eq_add_of_lt hlt
    exact (hback m d p hm hn).elim
  · exact heq
  · obtain ⟨d, rfl⟩ := Nat.exists_eq_add_of_lt hlt
    exact (hback n d p hn hm).elim

/-! ## The walk ends -/

variable [DecidableEq α]

variable (next) in
/-- The loop, for a number of turns; `none` when they are used up. -/
def walk : ℕ → α → List α → Option α
  | 0, _, _ => none
  | turns + 1, a, seen =>
    match next a with
    | none => some a
    | some b => if seen.contains a then some a else walk turns b (a :: seen)

/-- Each turn leaves a key it has not left before, so there are no more turns than keys. -/
theorem walk_isSome {keys : Finset α} (hkeys : ∀ k, (next k).isSome = true → k ∈ keys) (turns : ℕ) :
    ∀ a seen, (keys \ seen.toFinset).card < turns → (walk next turns a seen).isSome = true := by
  induction turns with
  | zero => intro a seen h; omega
  | succ turns ih =>
    intro a seen h
    unfold walk
    cases hnext : next a with
    | none => rfl
    | some b =>
      dsimp only
      by_cases hseen : seen.contains a = true
      · rw [if_pos hseen]
        rfl
      · rw [if_neg hseen]
        apply ih
        have hfresh : a ∈ keys \ seen.toFinset := by
          refine Finset.mem_sdiff.mpr ⟨hkeys a (by rw [hnext]; rfl), fun hmem => hseen ?_⟩
          simpa using hmem
        have hless : keys \ (a :: seen).toFinset ⊆ (keys \ seen.toFinset).erase a := by
          intro x hx
          simp only [List.toFinset_cons, Finset.mem_sdiff, Finset.mem_insert, not_or] at hx
          exact Finset.mem_erase.mpr ⟨hx.2.1, Finset.mem_sdiff.mpr ⟨hx.1, hx.2.2⟩⟩
        have hcard := Finset.card_le_card hless
        rw [Finset.card_erase_of_mem hfresh] at hcard
        have hpos := Finset.card_pos.mpr ⟨a, hfresh⟩
        omega

/-- More turns than the walk needs change nothing. -/
theorem walk_mono {turns : ℕ} {a r : α} {seen : List α} (h : walk next turns a seen = some r)
    {more : ℕ} (hmore : turns ≤ more) : walk next more a seen = some r := by
  induction turns generalizing a seen more with
  | zero => cases h
  | succ turns ih =>
    obtain ⟨more, rfl⟩ : ∃ m, more = m + 1 := ⟨more - 1, by omega⟩
    unfold walk at h ⊢
    cases hnext : next a with
    | none => rwa [hnext] at h
    | some b =>
      rw [hnext] at h
      dsimp only at h ⊢
      split at h
      next hseen => rw [if_pos hseen, h]
      next hseen =>
        rw [if_neg hseen]
        exact ih h (by omega)

/-! ## Where it ends -/

/-- The result lies on the chain: at its end, or at a point passed earlier on. -/
theorem walk_result {turns : ℕ} {a p r : α} {seen : List α} {n : ℕ} (hp : after next n a = some p)
    (hseen : ∀ x ∈ seen, ∃ m < n, after next m a = some x) (h : walk next turns p seen = some r) :
    ∃ k, after next k a = some r ∧ (next r = none ∨ ∃ m < k, after next m a = some r) := by
  induction turns generalizing p seen n with
  | zero => cases h
  | succ turns ih =>
    unfold walk at h
    cases hnext : next p with
    | none =>
      rw [hnext] at h
      obtain rfl := Option.some.inj h
      exact ⟨n, hp, .inl hnext⟩
    | some b =>
      rw [hnext] at h
      dsimp only at h
      split at h
      next hmem =>
        obtain rfl := Option.some.inj h
        exact ⟨n, hp, .inr (hseen p (List.contains_iff_mem.mp hmem))⟩
      next =>
        have hb : after next (n + 1) a = some b := by
          rw [after, hp]
          exact hnext
        refine ih hb (fun x hx => ?_) h
        rcases List.mem_cons.mp hx with rfl | hx
        · exact ⟨n, Nat.lt_succ_self n, hp⟩
        · obtain ⟨m, hm, hafter⟩ := hseen x hx
          exact ⟨m, Nat.lt_succ_of_lt hm, hafter⟩

/-- On a chain that never repeats the walk reaches the end. -/
theorem walk_of_acyclic {turns : ℕ} {a r : α} (hacyclic : Acyclic next a)
    (h : walk next turns a [] = some r) : EndsAt next a r := by
  obtain ⟨k, hk, hend | ⟨m, hm, hback⟩⟩ := walk_result (n := 0) rfl (by simp) h
  · exact ⟨⟨k, hk⟩, hend⟩
  · exact absurd (hacyclic m k r hback hk) hm.ne

/-! ## Maps from lists -/

/-- The map a dict comprehension builds: of two entries with one key the later counts. -/
def dict (pairs : List (α × β)) (k : α) : Option β :=
  (pairs.reverse.find? fun p => p.1 = k).map Prod.snd

theorem mem_of_dict {pairs : List (α × β)} {k : α} {v : β} (h : dict pairs k = some v) :
    (k, v) ∈ pairs := by
  obtain ⟨p, hp, rfl⟩ := Option.map_eq_some_iff.mp h
  have hkey : p.1 = k := by simpa using List.find?_some hp
  subst hkey
  exact List.mem_reverse.mp (List.mem_of_find?_eq_some hp)

theorem mem_keys_of_dict {pairs : List (α × β)} {k : α} {v : β} (h : dict pairs k = some v) :
    k ∈ pairs.map Prod.fst :=
  List.mem_map_of_mem (mem_of_dict h)

theorem dict_eq_some {pairs : List (α × β)} {k : α} {v : β} (hmem : k ∈ pairs.map Prod.fst)
    (hvalue : ∀ p ∈ pairs, p.1 = k → p.2 = v) : dict pairs k = some v := by
  obtain ⟨p, hp, hk⟩ := List.mem_map.mp hmem
  have hsome : (pairs.reverse.find? fun p => p.1 = k).isSome = true :=
    List.find?_isSome.mpr ⟨p, List.mem_reverse.mpr hp, decide_eq_true hk⟩
  obtain ⟨found, hfound⟩ := Option.isSome_iff_exists.mp hsome
  have hkey : found.1 = k := by simpa using List.find?_some hfound
  rw [dict, hfound, Option.map_some,
    hvalue found (List.mem_reverse.mp (List.mem_of_find?_eq_some hfound)) hkey]

theorem dict_eq_none {pairs : List (α × β)} {k : α} (h : k ∉ pairs.map Prod.fst) :
    dict pairs k = none := by
  cases hfound : dict pairs k with
  | none => rfl
  | some v => exact absurd (mem_keys_of_dict hfound) h

end Chase
