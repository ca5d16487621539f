import Mathlib.Data.List.Nodup
import Mathlib.Order.Lattice

/-! # ORDER BY and LIMIT

What a database engine may make of the rows of a query. An order with ties leaves their order open, and an
approximate index may miss rows; both are up to the engine, which is a parameter. -/

namespace OrderBy
set_option autoImplicit false

structure Engine where
  /-- The rows by ascending key, as far as the engine finds them. -/
  order : ∀ {α κ : Type} [LinearOrder κ], (α → κ) → List α → List α
  /-- The rows of a query without an order. -/
  scan : ∀ {α : Type}, List α → List α
  order_subset : ∀ {α κ : Type} [LinearOrder κ] (key : α → κ) (rows : List α), order key rows ⊆ rows
  scan_perm : ∀ {α : Type} (rows : List α), (scan rows).Perm rows

/-- An engine that finds every row, and puts them in order. -/
structure Engine.Exact (e : Engine) : Prop where
  perm : ∀ {α κ : Type} [LinearOrder κ] (key : α → κ) (rows : List α), (e.order key rows).Perm rows
  sorted : ∀ {α κ : Type} [LinearOrder κ] (key : α → κ) (rows : List α),
    (e.order key rows).Pairwise fun a b => key a ≤ key b

/-- The engine that sorts and keeps the order of ties. -/
def stable : Engine where
  order key rows := rows.mergeSort fun a b => key a ≤ key b
  scan rows := rows
  order_subset key rows := (List.mergeSort_perm rows fun a b => key a ≤ key b).subset
  scan_perm rows := List.Perm.refl rows

theorem stable_exact : stable.Exact where
  perm key rows := List.mergeSort_perm rows fun a b => key a ≤ key b
  sorted key rows := by
    have hsorted := @List.pairwise_mergeSort _ (fun a b => decide (key a ≤ key b))
      (fun a b c hab hbc => by
        rw [decide_eq_true_eq] at hab hbc ⊢
        exact le_trans hab hbc)
      (fun a b => by
        rw [Bool.or_eq_true, decide_eq_true_eq, decide_eq_true_eq]
        exact le_total _ _)
      rows
    exact hsorted.imp fun h => of_decide_eq_true h

variable {α κ : Type} [LinearOrder κ] {e : Engine} {key : α → κ} {rows sorted : List α} {a b : α}

/-- Rows without ties have one order. -/
theorem eq_of_sorted (hperm : rows.Perm sorted) (hrows : rows.Pairwise fun a b => key a ≤ key b)
    (hsorted : sorted.Pairwise fun a b => key a < key b) : rows = sorted := by
  refine List.Perm.eq_of_pairwise ?_ hrows (hsorted.imp fun hab => le_of_lt hab) hperm
  intro a b ha hb hab hba
  have hkeys : (sorted.map key).Nodup := List.pairwise_map.mpr (hsorted.imp fun hlt => ne_of_lt hlt)
  exact List.inj_on_of_nodup_map hkeys (hperm.subset ha) hb (le_antisymm hab hba)

theorem Engine.Exact.order_eq (h : e.Exact) (hperm : rows.Perm sorted)
    (hsorted : sorted.Pairwise fun a b => key a < key b) : e.order key rows = sorted :=
  eq_of_sorted ((h.perm key rows).trans hperm) (h.sorted key rows) hsorted

theorem Engine.order_nil (e : Engine) (key : α → κ) : e.order key [] = [] :=
  List.eq_nil_of_subset_nil (e.order_subset key [])

/-! ## The top of an order -/

/-- A row with a smaller key than one of the first `n` is among the first `n`. -/
theorem mem_take_of_key_lt {n : ℕ} (hsorted : sorted.Pairwise fun a b => key a ≤ key b)
    (ha : a ∈ sorted.take n) (hb : b ∈ sorted) (hlt : key b < key a) : b ∈ sorted.take n := by
  by_contra hnot
  have hsplit : sorted.take n ++ sorted.drop n = sorted := List.take_append_drop n sorted
  rw [← hsplit] at hsorted hb
  have hdrop : b ∈ sorted.drop n := (List.mem_append.mp hb).resolve_left hnot
  have hle := (List.pairwise_append.mp hsorted).2.2 a ha b hdrop
  exact absurd hlt (not_lt.mpr hle)

/-- And it stands before that one. -/
theorem mem_before_of_key_lt {before after : List α}
    (hsorted : (before ++ a :: after).Pairwise fun a b => key a ≤ key b)
    (hb : b ∈ before ++ a :: after) (hlt : key b < key a) : b ∈ before := by
  rcases List.mem_append.mp hb with hbefore | hrest
  · exact hbefore
  · exfalso
    have htail := (List.pairwise_append.mp hsorted).2.1
    rcases List.mem_cons.mp hrest with rfl | hafter
    · exact lt_irrefl _ hlt
    · exact not_lt.mpr ((List.pairwise_cons.mp htail).1 b hafter) hlt

theorem key_le_of_notMem_take {n : ℕ} (hsorted : sorted.Pairwise fun a b => key a ≤ key b)
    (ha : a ∈ sorted.take n) (hb : b ∈ sorted) (hnot : b ∉ sorted.take n) : key a ≤ key b := by
  by_contra hlt
  exact hnot (mem_take_of_key_lt hsorted ha hb (not_le.mp hlt))

/-- What is left of the first rows stands first. -/
theorem filter_take_prefix (p : α → Bool) (rows : List α) (n : ℕ) :
    (rows.take n).filter p <+: (rows.filter p).take n := by
  have hsplit : (rows.take n).filter p ++ (rows.drop n).filter p = rows.filter p := by
    rw [← List.filter_append, List.take_append_drop]
  have hshort : ((rows.take n).filter p).length ≤ n :=
    (List.length_filter_le p _).trans (List.length_take_le n rows)
  rw [List.prefix_take_iff]
  exact ⟨⟨_, hsplit⟩, hshort⟩

/-- Where the rows with `p` come before the others, the first of them are among the first. -/
theorem filter_take_of_first {p : α → Bool} {rows : List α}
    (h : rows.Pairwise fun a b => p b = true → p a = true) (n : ℕ) :
    (rows.take n).filter p = (rows.filter p).take n := by
  induction rows generalizing n with
  | nil => simp
  | cons a rows ih =>
    obtain ⟨hfirst, hrest⟩ := List.pairwise_cons.mp h
    cases n with
    | zero => rfl
    | succ n =>
      rw [List.take_succ_cons, List.filter_cons, List.filter_cons]
      cases ha : p a with
      | true => rw [if_pos rfl, if_pos rfl, List.take_succ_cons, ih hrest]
      | false =>
        have hnone : rows.filter p = [] := by
          refine List.filter_eq_nil_iff.mpr fun b hb hpb => ?_
          rw [hfirst b hb hpb] at ha
          cases ha
        rw [if_neg Bool.false_ne_true, if_neg Bool.false_ne_true, ih hrest, hnone, List.take_nil,
          List.take_nil]

/-- Two orders of rows with the same keys agree on the keys. -/
theorem map_key_eq {rows' : List α} (hperm : (rows.map key).Perm (rows'.map key))
    (hrows : rows.Pairwise fun a b => key a ≤ key b) (hrows' : rows'.Pairwise fun a b => key a ≤ key b) :
    rows.map key = rows'.map key :=
  List.Perm.eq_of_pairwise (fun _ _ _ _ hab hba => le_antisymm hab hba) (List.pairwise_map.mpr hrows)
    (List.pairwise_map.mpr hrows') hperm

/-- Up to ties, the order of some of the rows is their order among all; the two orders may be made by
different engines. -/
theorem Engine.Exact.map_order_filter {e' : Engine} (h : e.Exact) (h' : e'.Exact) (p : α → Bool) :
    (e'.order key (rows.filter p)).map key = ((e.order key rows).filter p).map key :=
  map_key_eq (((h'.perm key (rows.filter p)).trans ((h.perm key rows).filter p).symm).map key) (h'.sorted key _)
    ((h.sorted key rows).filter p)

/-- Without ties there is nothing left open. -/
theorem Engine.Exact.order_filter {e' : Engine} (h : e.Exact) (h' : e'.Exact) (p : α → Bool)
    (hkeys : (rows.map key).Nodup) : e'.order key (rows.filter p) = (e.order key rows).filter p := by
  have hdistinct : ((e.order key rows).map key).Nodup := ((h.perm key rows).map key).nodup_iff.mpr hkeys
  have hstrict : (e.order key rows).Pairwise fun a b => key a < key b :=
    (h.sorted key rows).imp₂ (fun _ _ hle hne => lt_of_le_of_ne hle hne) (List.pairwise_map.mp hdistinct)
  exact h'.order_eq ((h.perm key rows).filter p).symm (hstrict.filter p)

end OrderBy
