import Mathlib.Order.Lattice
import Mathlib.Data.List.Induction

/-! # The first candidate of highest score

A scan that keeps the best candidate so far and replaces it by a strictly better one only: what it
ends with is the first candidate of highest score, provided that score is above the floor it started
from. -/

namespace BestScore
set_option autoImplicit false

variable {α β : Type} [LinearOrder β] (score : α → β) (floor : β)

/-- One candidate, against the best so far and its score. -/
def keep (acc : Option α × β) (x : α) : Option α × β :=
  if acc.2 < score x then (some x, score x) else acc

def scan (xs : List α) : Option α × β := xs.foldl (keep score) (none, floor)

/-- `b` scores above the floor, more than every candidate before it and no less than any after. -/
def Wins (xs : List α) (b : α) : Prop :=
  ∃ before after, xs = before ++ b :: after ∧ floor < score b ∧
    (∀ a ∈ before, score a < score b) ∧ ∀ a ∈ after, score a ≤ score b

variable {score floor} {xs : List α} {b : α}

theorem Wins.mem (h : Wins score floor xs b) : b ∈ xs := by
  obtain ⟨before, after, rfl, _⟩ := h
  exact List.mem_append_right _ List.mem_cons_self

theorem Wins.le (h : Wins score floor xs b) : ∀ a ∈ xs, score a ≤ score b := by
  obtain ⟨before, after, rfl, _, hbefore, hafter⟩ := h
  rw [List.forall_mem_append, List.forall_mem_cons]
  exact ⟨fun a ha => le_of_lt (hbefore a ha), le_refl _, hafter⟩

theorem Wins.append_le {x : α} (h : Wins score floor xs b) (hx : score x ≤ score b) :
    Wins score floor (xs ++ [x]) b := by
  obtain ⟨before, after, rfl, hfloor, hbefore, hafter⟩ := h
  refine ⟨before, after ++ [x], by simp, hfloor, hbefore, ?_⟩
  rw [List.forall_mem_append, List.forall_mem_singleton]
  exact ⟨hafter, hx⟩

/-- What a scan can end with. -/
inductive Scanned (score : α → β) (floor : β) (xs : List α) : Option α × β → Prop
  | none : (∀ a ∈ xs, score a ≤ floor) → Scanned score floor xs (none, floor)
  | some {b : α} : Wins score floor xs b → Scanned score floor xs (some b, score b)

variable (score floor) in
theorem scan_scanned (xs : List α) : Scanned score floor xs (scan score floor xs) := by
  induction xs using List.reverseRecOn with
  | nil => exact Scanned.none fun a ha => absurd ha List.not_mem_nil
  | append_singleton xs x ih =>
    have hstep : scan score floor (xs ++ [x]) = keep score (scan score floor xs) x :=
      by
      unfold scan
      rw [List.foldl_append, List.foldl_cons, List.foldl_nil]
    rw [hstep]
    generalize scan score floor xs = acc at ih
    cases ih with
    | none hle =>
      unfold keep
      by_cases hx : floor < score x
      · rw [if_pos hx]
        refine Scanned.some ⟨xs, [], rfl, hx, fun a ha => ?_, fun a ha => absurd ha List.not_mem_nil⟩
        exact lt_of_le_of_lt (hle a ha) hx
      · rw [if_neg hx]
        refine Scanned.none ?_
        rw [List.forall_mem_append, List.forall_mem_singleton]
        exact ⟨hle, not_lt.mp hx⟩
    | @some b hb =>
      unfold keep
      by_cases hx : score b < score x
      · rw [if_pos hx]
        have hfloor : floor < score x := by
          obtain ⟨_, _, _, hb, _⟩ := hb
          exact lt_trans hb hx
        refine Scanned.some ⟨xs, [], rfl, hfloor, fun a ha => ?_,
          fun a ha => absurd ha List.not_mem_nil⟩
        exact lt_of_le_of_lt (hb.le a ha) hx
      · rw [if_neg hx]
        exact Scanned.some (hb.append_le (not_lt.mp hx))

theorem foldl_keep_of_le {acc : Option α × β} (h : ∀ a ∈ xs, score a ≤ acc.2) :
    xs.foldl (keep score) acc = acc := by
  induction xs with
  | nil => rfl
  | cons x xs ih =>
    have hx : keep score acc x = acc := if_neg (not_lt.mpr (h x List.mem_cons_self))
    rw [List.foldl_cons, hx]
    exact ih fun a ha => h a (List.mem_cons_of_mem _ ha)

theorem Wins.scan_eq (h : Wins score floor xs b) :
    scan score floor xs = (some b, score b) := by
  obtain ⟨before, after, rfl, hfloor, hbefore, hafter⟩ := h
  have hlt : (scan score floor before).2 < score b := by
    have hscanned := scan_scanned score floor before
    generalize scan score floor before = acc at hscanned
    cases hscanned with
    | none _ => exact hfloor
    | some hc => exact hbefore _ hc.mem
  unfold scan at hlt ⊢
  rw [List.foldl_append, List.foldl_cons]
  have hkeep : keep score (before.foldl (keep score) (none, floor)) b = (some b, score b) :=
    if_pos hlt
  rw [hkeep]
  exact foldl_keep_of_le hafter

theorem scan_wins_iff : (scan score floor xs).1 = some b ↔ Wins score floor xs b := by
  constructor
  · intro h
    have hscanned := scan_scanned score floor xs
    generalize scan score floor xs = acc at h hscanned
    cases hscanned with
    | none _ => cases h
    | some hb =>
      cases h
      exact hb
  · intro h
    rw [h.scan_eq]

theorem Wins.unique {c : α} (hb : Wins score floor xs b) (hc : Wins score floor xs c) : b = c := by
  have hscan := hb.scan_eq.symm.trans hc.scan_eq
  exact Option.some.inj (congrArg Prod.fst hscan)

/-! ## Winners among the selected, and among images -/

theorem Wins.congr {score' : α → β} (h : Wins score floor xs b) (hscore : ∀ a ∈ xs, score a = score' a) :
    Wins score' floor xs b := by
  obtain ⟨before, after, rfl, hfloor, hbefore, hafter⟩ := h
  rw [List.forall_mem_append, List.forall_mem_cons] at hscore
  obtain ⟨hleft, hb, hright⟩ := hscore
  refine ⟨before, after, rfl, hb ▸ hfloor, ?_, ?_⟩
  · intro a ha
    rw [← hleft a ha, ← hb]
    exact hbefore a ha
  · intro a ha
    rw [← hright a ha, ← hb]
    exact hafter a ha

/-- A winner among the selected candidates, at its place among all. -/
theorem wins_filter_iff {p : α → Bool} : Wins score floor (xs.filter p) b ↔
    ∃ before after, xs = before ++ b :: after ∧ p b = true ∧ floor < score b ∧
      (∀ a ∈ before, p a = true → score a < score b) ∧
      ∀ a ∈ after, p a = true → score a ≤ score b := by
  constructor
  · rintro ⟨before, after, hsplit, hfloor, hbefore, hafter⟩
    obtain ⟨left, right, rfl, rfl, hright⟩ := List.filter_eq_append_iff.mp hsplit
    obtain ⟨skipped, rest, rfl, hskipped, hb, rfl⟩ := List.filter_eq_cons_iff.mp hright
    refine ⟨left ++ skipped, rest, by simp, hb, hfloor, ?_, ?_⟩
    · intro a ha hp
      rcases List.mem_append.mp ha with hleft | hskip
      · exact hbefore a (List.mem_filter.mpr ⟨hleft, hp⟩)
      · exact absurd hp (hskipped a hskip)
    · intro a ha hp
      exact hafter a (List.mem_filter.mpr ⟨ha, hp⟩)
  · rintro ⟨before, after, rfl, hb, hfloor, hbefore, hafter⟩
    refine ⟨before.filter p, after.filter p, ?_, hfloor, ?_, ?_⟩
    · rw [List.filter_append, List.filter_cons_of_pos hb]
    · intro a ha
      exact hbefore a (List.mem_filter.mp ha).1 (List.mem_filter.mp ha).2
    · intro a ha
      exact hafter a (List.mem_filter.mp ha).1 (List.mem_filter.mp ha).2

/-- Winning two selections is winning their union, and being in both. -/
theorem wins_both_iff {p q : α → Bool} :
    Wins score floor (xs.filter p) b ∧ Wins score floor (xs.filter q) b ↔
      p b = true ∧ q b = true ∧ Wins score floor (xs.filter fun a => p a || q a) b := by
  rw [wins_filter_iff, wins_filter_iff, wins_filter_iff]
  constructor
  · rintro ⟨⟨before, after, hsplit, hp, hfloor, hbefore, hafter⟩,
      ⟨before', after', hsplit', hq, _, hbefore', hafter'⟩⟩
    have hsame : before = before' ∧ b :: after = b :: after' := by
      have happend : before ++ b :: after = before' ++ b :: after' := hsplit.symm.trans hsplit'
      rcases List.append_eq_append_iff.mp happend with ⟨gap, rfl, hgap⟩ | ⟨gap, rfl, hgap⟩
      · cases gap with
        | nil => exact ⟨by simp, by simpa using hgap⟩
        | cons g gap =>
          obtain ⟨rfl, _⟩ := List.cons.inj hgap
          exact absurd (hbefore' b (by simp) hq) (lt_irrefl _)
      · cases gap with
        | nil => exact ⟨by simp, by simpa using hgap.symm⟩
        | cons g gap =>
          obtain ⟨rfl, _⟩ := List.cons.inj hgap
          exact absurd (hbefore b (by simp) hp) (lt_irrefl _)
    obtain ⟨rfl, htail⟩ := hsame
    obtain rfl := (List.cons.inj htail).2
    refine ⟨hp, hq, before, after, hsplit, by simp [hp], hfloor, ?_, ?_⟩
    · intro a ha hpq
      rcases Bool.or_eq_true_iff.mp hpq with hpa | hqa
      · exact hbefore a ha hpa
      · exact hbefore' a ha hqa
    · intro a ha hpq
      rcases Bool.or_eq_true_iff.mp hpq with hpa | hqa
      · exact hafter a ha hpa
      · exact hafter' a ha hqa
  · rintro ⟨hp, hq, before, after, hsplit, _, hfloor, hbefore, hafter⟩
    refine ⟨⟨before, after, hsplit, hp, hfloor, ?_, ?_⟩, ⟨before, after, hsplit, hq, hfloor, ?_, ?_⟩⟩
    · exact fun a ha hpa => hbefore a ha (by simp [hpa])
    · exact fun a ha hpa => hafter a ha (by simp [hpa])
    · exact fun a ha hqa => hbefore a ha (by simp [hqa])
    · exact fun a ha hqa => hafter a ha (by simp [hqa])

/-- The winner among images is the image of the winner. -/
theorem wins_map_iff {γ : Type} {f : γ → α} {ys : List γ} : Wins score floor (ys.map f) b ↔
    ∃ c, f c = b ∧ Wins (fun c => score (f c)) floor ys c := by
  constructor
  · rintro ⟨before, after, hsplit, hfloor, hbefore, hafter⟩
    obtain ⟨left, right, rfl, rfl, hright⟩ := List.map_eq_append_iff.mp hsplit
    obtain ⟨c, rest, rfl, rfl, rfl⟩ := List.map_eq_cons_iff.mp hright
    refine ⟨c, rfl, left, rest, rfl, hfloor, ?_, ?_⟩
    · exact fun a ha => hbefore (f a) (List.mem_map_of_mem ha)
    · exact fun a ha => hafter (f a) (List.mem_map_of_mem ha)
  · rintro ⟨c, rfl, before, after, rfl, hfloor, hbefore, hafter⟩
    refine ⟨before.map f, after.map f, by simp, hfloor, ?_, ?_⟩
    · rw [List.forall_mem_map]
      exact hbefore
    · rw [List.forall_mem_map]
      exact hafter

end BestScore
