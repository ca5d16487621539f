import Mathlib.Data.Finset.Card
import Mathlib.Tactic.Linarith
import Mathlib.Tactic.Positivity
import WarsawEvents.Retrieval.Filters

/-! # Reciprocal rank fusion

What the fused list owes to the two legs: agreement of the legs counts more than any rank in one of them,
and of two cards the one that is ranked better throughout comes first. Both hold for every order that the
engine may give to ties, and with rounded scores.
-/

namespace WarsawEvents.Retrieval
open Ingestion (Card)
open Json (Text)
set_option autoImplicit false

/-! ## Rankings -/

/-- What a leg hands over: different ids, the best first. -/
structure Ranking where
  ids : List ℕ
  nodup : ids.Nodup
  short : ids.length ≤ candidatePool

namespace Ranking

/-- The rows of the leg, ranked from 1. -/
def rows (r : Ranking) : List (ℕ × ℕ) := r.ids.zipIdx 1

def rank (r : Ranking) (id : ℕ) : Option ℕ :=
  if id ∈ r.ids then some (r.ids.idxOf id + 1) else none

variable {r : Ranking} {id n : ℕ}

theorem rank_isSome : (r.rank id).isSome = true ↔ id ∈ r.ids := by
  unfold rank
  by_cases h : id ∈ r.ids
  · simp [h]
  · simp [h]

theorem rank_bounds (h : r.rank id = some n) : 1 ≤ n ∧ n ≤ 50 := by
  unfold rank at h
  by_cases hid : id ∈ r.ids
  · rw [if_pos hid] at h
    obtain rfl := Option.some.inj h
    have hlt := List.idxOf_lt_length_of_mem hid
    have hshort : r.ids.length ≤ 50 := r.short
    omega
  · rw [if_neg hid] at h
    cases h

/-- The ranks under an id, in a list of different ids that is numbered from `k` on. -/
theorem zipIdx_ranks {l : List ℕ} (hl : l.Nodup) (k : ℕ) :
    ((l.zipIdx k).filter fun row => row.1 = id).map Prod.snd =
      if id ∈ l then [l.idxOf id + k] else [] := by
  induction l generalizing k with
  | nil => rfl
  | cons a l ih =>
    obtain ⟨ha, hl⟩ := List.nodup_cons.mp hl
    rw [List.zipIdx_cons, List.filter_cons]
    by_cases hid : a = id
    · subst hid
      have hrest := ih hl (k + 1)
      rw [if_neg ha] at hrest
      simp [hrest]
    · have hne : id ≠ a := fun h => hid h.symm
      have hcons : (id ∈ a :: l) ↔ id ∈ l := by simp [hne]
      simp only [hid, decide_false, Bool.false_eq_true, if_false, hcons, ih hl]
      split
      · rw [List.idxOf_cons_ne l hid]
        congr 1
        omega
      · rfl

theorem rows_ranks : (r.rows.filter fun row => row.1 = id).map Prod.snd = (r.rank id).toList := by
  unfold rows rank
  rw [zipIdx_ranks r.nodup]
  split
  · rfl
  · rfl

end Ranking

/-! ## Scores -/

section Scores
variable (scores : Scores)

/-- The score of a card by its ranks in the two legs. -/
def Scores.of (lexical semantic : Option ℕ) : ℚ :=
  match lexical, semantic with
  | none, none => 0
  | some n, none => scores.inverse (rrfK + n)
  | none, some n => scores.inverse (rrfK + n)
  | some n, some k => scores.plus (scores.inverse (rrfK + n)) (scores.inverse (rrfK + k))

/-- The reciprocal of a rank, up to rounding. -/
theorem inverse_bounds {n : ℕ} (h : 1 ≤ n ∧ n ≤ 50) :
    1 / 110 - 1 / 1000000000000000 ≤ scores.inverse (rrfK + n) ∧
      scores.inverse (rrfK + n) ≤ 1 / 61 + 1 / 1000000000000000 := by
  have hnear := abs_le.mp (scores.inverse_near (rrfK + n) (by unfold rrfK; omega)
    (by unfold rrfK; omega))
  have hlow : (61 : ℚ) ≤ ((rrfK + n : ℕ) : ℚ) := by
    unfold rrfK
    exact_mod_cast (by omega : 61 ≤ 60 + n)
  have hhigh : ((rrfK + n : ℕ) : ℚ) ≤ 110 := by
    unfold rrfK
    exact_mod_cast (by omega : 60 + n ≤ 110)
  have hbest : 1 / ((rrfK + n : ℕ) : ℚ) ≤ 1 / 61 := one_div_le_one_div_of_le (by norm_num) hlow
  have hworst : 1 / 110 ≤ 1 / ((rrfK + n : ℕ) : ℚ) :=
    one_div_le_one_div_of_le (by linarith) hhigh
  constructor
  · linarith [hnear.1]
  · linarith [hnear.2]

/-- A better rank scores more by far more than the rounding. -/
theorem inverse_gap {n k : ℕ} (hn : 1 ≤ n) (hnk : n < k) (hk : k ≤ 50) :
    scores.inverse (rrfK + k) + 1 / 13000 ≤ scores.inverse (rrfK + n) := by
  have hnear := abs_le.mp (scores.inverse_near (rrfK + n) (by unfold rrfK; omega)
    (by unfold rrfK; omega))
  have hnear' := abs_le.mp (scores.inverse_near (rrfK + k) (by unfold rrfK; omega)
    (by unfold rrfK; omega))
  have hpos : (0 : ℚ) < ((rrfK + n : ℕ) : ℚ) := by
    exact_mod_cast (by unfold rrfK; omega : 0 < rrfK + n)
  have hpos' : (0 : ℚ) < ((rrfK + k : ℕ) : ℚ) := by
    exact_mod_cast (by unfold rrfK; omega : 0 < rrfK + k)
  have hlt : ((rrfK + n : ℕ) : ℚ) + 1 ≤ ((rrfK + k : ℕ) : ℚ) := by
    exact_mod_cast (by omega : rrfK + n + 1 ≤ rrfK + k)
  have hhigh : ((rrfK + k : ℕ) : ℚ) ≤ 110 := by
    unfold rrfK
    exact_mod_cast (by omega : 60 + k ≤ 110)
  have hgap : 1 / ((rrfK + k : ℕ) : ℚ) + 1 / 12100 ≤ 1 / ((rrfK + n : ℕ) : ℚ) := by
    rw [div_add_div _ _ (ne_of_gt hpos') (by norm_num), div_le_div_iff₀ (by positivity) hpos]
    nlinarith
  linarith [hnear.1, hnear'.2]

theorem inverse_lt {n k : ℕ} (hn : 1 ≤ n) (hnk : n < k) (hk : k ≤ 50) :
    scores.inverse (rrfK + k) < scores.inverse (rrfK + n) := by
  have hgap := inverse_gap scores hn hnk hk
  linarith

/-- The sum of two scores, up to rounding. -/
theorem plus_bounds {n k : ℕ} (hn : 1 ≤ n ∧ n ≤ 50) (hk : 1 ≤ k ∧ k ≤ 50) :
    |scores.plus (scores.inverse (rrfK + n)) (scores.inverse (rrfK + k)) -
      (scores.inverse (rrfK + n) + scores.inverse (rrfK + k))| ≤ 1 / 1000000000000000 := by
  obtain ⟨hlow, hhigh⟩ := inverse_bounds scores hn
  obtain ⟨hlow', hhigh'⟩ := inverse_bounds scores hk
  exact scores.plus_near _ _ (by linarith) (by linarith) (by linarith) (by linarith)

variable {scores}

/-- A rank that a leg can give. -/
def Ranks (rank : Option ℕ) : Prop := ∀ n ∈ rank, 1 ≤ n ∧ n ≤ 50

variable {lexical semantic lexical' semantic' : Option ℕ}

/-- The worst two ranks score more than the best single one. -/
theorem single_lt_double {n i j : ℕ} (hn : 1 ≤ n ∧ n ≤ 50) (hi : 1 ≤ i ∧ i ≤ 50)
    (hj : 1 ≤ j ∧ j ≤ 50) :
    scores.inverse (rrfK + n) <
      scores.plus (scores.inverse (rrfK + i)) (scores.inverse (rrfK + j)) := by
  have hsum := abs_le.mp (plus_bounds scores hi hj)
  have hsingle := (inverse_bounds scores hn).2
  have hfirst := (inverse_bounds scores hi).1
  have hsecond := (inverse_bounds scores hj).1
  linarith [hsum.1]

/-- Better in the first leg and no worse in the second, or the other way round. -/
theorem double_lt_double {i j i' j' : ℕ} (hi : 1 ≤ i) (hj : 1 ≤ j) (hi' : i' ≤ 50) (hj' : j' ≤ 50)
    (hle : i ≤ i' ∧ j ≤ j') (hlt : i < i' ∨ j < j') :
    scores.plus (scores.inverse (rrfK + i')) (scores.inverse (rrfK + j')) <
      scores.plus (scores.inverse (rrfK + i)) (scores.inverse (rrfK + j)) := by
  have hsum := abs_le.mp (plus_bounds scores ⟨hi, by omega⟩ ⟨hj, by omega⟩)
  have hsum' := abs_le.mp (plus_bounds scores (n := i') (k := j') ⟨by omega, hi'⟩
    ⟨by omega, hj'⟩)
  have hmono : ∀ {n k : ℕ}, 1 ≤ n → n ≤ k → k ≤ 50 →
      scores.inverse (rrfK + k) ≤ scores.inverse (rrfK + n) := by
    intro n k hn hnk hk
    rcases Nat.eq_or_lt_of_le hnk with rfl | hlt
    · exact le_refl _
    · exact le_of_lt (inverse_lt scores hn hlt hk)
  have hfirst := hmono hi hle.1 hi'
  have hsecond := hmono hj hle.2 hj'
  rcases hlt with hlt | hlt
  · linarith [inverse_gap scores hi hlt hi', hsum.1, hsum'.2]
  · linarith [inverse_gap scores hj hlt hj', hsum.1, hsum'.2]

/-- A card of one leg scores less than a card of both. -/
theorem of_agreement (hlexical : Ranks lexical) (hsemantic : Ranks semantic)
    (hlexical' : Ranks lexical') (hsemantic' : Ranks semantic')
    (hone : lexical = none ∨ semantic = none) (hsome : lexical ≠ none ∨ semantic ≠ none)
    (hboth : lexical' ≠ none ∧ semantic' ≠ none) :
    scores.of lexical semantic < scores.of lexical' semantic' := by
  obtain ⟨i, rfl⟩ := Option.ne_none_iff_exists'.mp hboth.1
  obtain ⟨j, rfl⟩ := Option.ne_none_iff_exists'.mp hboth.2
  have hi := hlexical' i rfl
  have hj := hsemantic' j rfl
  cases lexical with
  | none =>
    cases semantic with
    | none => simp at hsome
    | some n => exact single_lt_double (hsemantic n rfl) hi hj
  | some n =>
    cases semantic with
    | none => exact single_lt_double (hlexical n rfl) hi hj
    | some k => simp at hone

/-- The ranks of the first card are at least as good where the second has any, and better in one leg. -/
structure Better (lexical semantic lexical' semantic' : Option ℕ) : Prop where
  first : ∀ n ∈ lexical', ∃ k ∈ lexical, k ≤ n
  second : ∀ n ∈ semantic', ∃ k ∈ semantic, k ≤ n
  once : (∃ n ∈ lexical', ∃ k ∈ lexical, k < n) ∨ ∃ n ∈ semantic', ∃ k ∈ semantic, k < n

theorem of_dominance (hlexical : Ranks lexical) (hsemantic : Ranks semantic)
    (hlexical' : Ranks lexical') (hsemantic' : Ranks semantic')
    (h : Better lexical semantic lexical' semantic') :
    scores.of lexical' semantic' < scores.of lexical semantic := by
  cases lexical' with
  | none =>
    cases semantic' with
    | none =>
      rcases h.once with ⟨n, hn, _⟩ | ⟨n, hn, _⟩
      · cases hn
      · cases hn
    | some n =>
      have hlt : ∃ k ∈ semantic, k < n := by
        rcases h.once with ⟨m, hm, _⟩ | ⟨m, hm, hk⟩
        · cases hm
        · cases hm
          exact hk
      obtain ⟨k, rfl, hkn⟩ := hlt
      cases lexical with
      | none => exact inverse_lt scores (hsemantic k rfl).1 hkn (hsemantic' n rfl).2
      | some i => exact single_lt_double (hsemantic' n rfl) (hlexical i rfl) (hsemantic k rfl)
  | some n =>
    obtain ⟨k, rfl, hkn⟩ := h.first n rfl
    cases semantic' with
    | none =>
      have hlt : k < n := by
        rcases h.once with ⟨m, hm, i, hi, hlt⟩ | ⟨m, hm, _⟩
        · cases hm
          cases hi
          exact hlt
        · cases hm
      cases semantic with
      | none => exact inverse_lt scores (hlexical k rfl).1 hlt (hlexical' n rfl).2
      | some j => exact single_lt_double (hlexical' n rfl) (hlexical k rfl) (hsemantic j rfl)
    | some m =>
      obtain ⟨j, rfl, hjm⟩ := h.second m rfl
      have honce : k < n ∨ j < m := by
        rcases h.once with ⟨_, hn, _, hk, hlt⟩ | ⟨_, hm, _, hj, hlt⟩
        · cases hn
          cases hk
          exact Or.inl hlt
        · cases hm
          cases hj
          exact Or.inr hlt
      exact double_lt_double (hlexical k rfl).1 (hsemantic j rfl).1 (hlexical' n rfl).2
        (hsemantic' m rfl).2 ⟨hkn, hjm⟩ honce

end Scores

/-! ## The fused list -/

/-- `a` is listed, and `b` is not before it. -/
def Precedes (out : List ℕ) (a b : ℕ) : Prop := ∃ before after, out = before ++ a :: after ∧ b ∉ before

structure FusedWell (lexical semantic : Ranking) (limit : ℕ) (out : List ℕ) : Prop where
  nodup : out.Nodup
  union : ∀ id ∈ out, id ∈ lexical.ids ∨ id ∈ semantic.ids
  length : out.length = min limit (lexical.ids.toFinset ∪ semantic.ids.toFinset).card
  agreement : ∀ a b, ¬ (a ∈ lexical.ids ∧ a ∈ semantic.ids) → b ∈ lexical.ids → b ∈ semantic.ids →
    ¬ Precedes out a b
  dominance : ∀ a b, Better (lexical.rank a) (semantic.rank a) (lexical.rank b) (semantic.rank b) →
    ¬ Precedes out b a

section Fused
variable {δ σ : Type} {pg : Postgres δ σ} {table : ItemTable} {best : List (ℕ × ℚ)}
  {lexical semantic : Ranking} {limit : ℕ}

/-- The groups of the union, each id with the score of its ranks. -/
theorem scored_rows (lexical semantic : Ranking) : scored pg (lexical.rows ++ semantic.rows) =
    (lexical.ids ++ semantic.ids).dedup.map fun id =>
      (id, pg.of (lexical.rank id) (semantic.rank id)) := by
  unfold scored
  have hids : (lexical.rows ++ semantic.rows).map Prod.fst = lexical.ids ++ semantic.ids := by
    rw [List.map_append]
    unfold Ranking.rows
    rw [List.zipIdx_map_fst, List.zipIdx_map_fst]
  rw [hids]
  apply List.map_congr_left
  intro id _
  rw [List.filter_append, List.map_append, Ranking.rows_ranks, Ranking.rows_ranks]
  cases lexical.rank id with
  | none => cases semantic.rank id <;> rfl
  | some n => cases semantic.rank id <;> rfl

/-- The rows of the join are the fused ids with their scores, each once. -/
theorem join_perm (hnodup : (best.map Prod.fst).Nodup)
    (hstored : ∀ f ∈ best, f.1 ∈ table.cards.map Card.id) :
    ((table.cards.flatMap fun c => (best.filter fun f => c.id = f.1).map fun f => (c, f.2)).map
      fun row => (row.1.id, row.2)).Perm best := by
  have hflat : (table.cards.flatMap fun c => (best.filter fun f => c.id = f.1).map
      fun f => (c, f.2)).map (fun row => (row.1.id, row.2)) =
      (table.cards.map Card.id).flatMap fun id => best.filter fun f => id = f.1 := by
    rw [List.map_flatMap, List.flatMap_map]
    congr 1
    funext c
    rw [List.map_map]
    conv_rhs => rw [← List.map_id (best.filter fun f => c.id = f.1)]
    apply List.map_congr_left
    intro f hf
    have hid : c.id = f.1 := of_decide_eq_true (List.mem_filter.mp hf).2
    show (c.id, f.2) = f
    rw [hid]
  rw [hflat]
  refine (List.perm_ext_iff_of_nodup ?_ hnodup.of_map).mpr ?_
  · rw [List.nodup_flatMap]
    refine ⟨fun id _ => hnodup.of_map.filter _, ?_⟩
    refine table.keyed.imp fun hne => ?_
    intro f hf hf'
    have hid := of_decide_eq_true (List.mem_filter.mp hf).2
    have hid' := of_decide_eq_true (List.mem_filter.mp hf').2
    exact hne (hid.trans hid'.symm)
  · intro f
    rw [List.mem_flatMap]
    constructor
    · rintro ⟨id, _, hf⟩
      exact (List.mem_filter.mp hf).1
    · intro hf
      exact ⟨f.1, hstored f hf, List.mem_filter.mpr ⟨hf, decide_eq_true rfl⟩⟩

variable (table best) in
/-- What is returned, with its scores. -/
theorem joined_scores (hexact : pg.Exact) (hnodup : (best.map Prod.fst).Nodup)
    (hstored : ∀ f ∈ best, f.1 ∈ table.cards.map Card.id) :
    ∃ listed : List (ℕ × ℚ), listed.Perm best ∧
      (listed.Pairwise fun f g => OrderDual.toDual f.2 ≤ OrderDual.toDual g.2) ∧
      (joined pg table best).map Card.id = listed.map Prod.fst := by
  refine ⟨(pg.order (fun row : Card × ℚ => OrderDual.toDual row.2) (table.cards.flatMap fun c =>
    (best.filter fun f => c.id = f.1).map fun f => (c, f.2))).map fun row => (row.1.id, row.2), ?_, ?_, ?_⟩
  · exact ((hexact.perm _ _).map _).trans (join_perm hnodup hstored)
  · rw [List.pairwise_map]
    exact hexact.sorted (fun row : Card × ℚ => OrderDual.toDual row.2) _
  · unfold joined
    rw [List.map_map, List.map_map]
    rfl

theorem Ranking.ranks (r : Ranking) (id : ℕ) : Ranks (r.rank id) := fun _ hn => r.rank_bounds hn

theorem Ranking.rank_ne_none {r : Ranking} {id : ℕ} : r.rank id ≠ none ↔ id ∈ r.ids := by
  rw [← Ranking.rank_isSome, Option.isSome_iff_ne_none]

/-- The ids of two legs, fused. -/
def fusedIds (pg : Postgres δ σ) (table : ItemTable) (lexical semantic : Ranking) (limit : ℕ) : List ℕ :=
  (joined pg table (fused pg (lexical.rows ++ semantic.rows) limit)).map Card.id

/-- The ids of the two legs, each with its score. -/
theorem mem_scored {f : ℕ × ℚ} : f ∈ scored pg (lexical.rows ++ semantic.rows) ↔
    (f.1 ∈ lexical.ids ∨ f.1 ∈ semantic.ids) ∧
      f.2 = pg.of (lexical.rank f.1) (semantic.rank f.1) := by
  rw [scored_rows, List.mem_map]
  constructor
  · rintro ⟨id, hid, rfl⟩
    exact ⟨List.mem_append.mp (List.mem_dedup.mp hid), rfl⟩
  · rintro ⟨hid, hscore⟩
    refine ⟨f.1, List.mem_dedup.mpr (List.mem_append.mpr hid), ?_⟩
    rw [← hscore]

variable (pg) in
theorem scored_ids : (scored pg (lexical.rows ++ semantic.rows)).map Prod.fst =
    (lexical.ids ++ semantic.ids).dedup := by
  rw [scored_rows, List.map_map]
  exact List.map_id _

theorem fused_ids_nodup (hexact : pg.Exact) :
    ((fused pg (lexical.rows ++ semantic.rows) limit).map Prod.fst).Nodup := by
  have hperm := (hexact.perm (fun f : ℕ × ℚ => OrderDual.toDual f.2)
    (scored pg (lexical.rows ++ semantic.rows))).map Prod.fst
  rw [scored_ids] at hperm
  unfold fused
  rw [List.map_take]
  exact (hperm.nodup_iff.mpr (List.nodup_dedup _)).sublist (List.take_sublist _ _)

theorem mem_fused_scored {f : ℕ × ℚ} (h : f ∈ fused pg (lexical.rows ++ semantic.rows) limit) :
    f ∈ scored pg (lexical.rows ++ semantic.rows) :=
  pg.order_subset _ _ (List.mem_of_mem_take h)

variable (limit) in
/-- What is returned: the fused ids in the order of their scores. -/
theorem fusedIds_listed (hexact : pg.Exact)
    (hstored : ∀ id, id ∈ lexical.ids ∨ id ∈ semantic.ids → id ∈ table.cards.map Card.id) :
    ∃ listed : List (ℕ × ℚ), listed.Perm (fused pg (lexical.rows ++ semantic.rows) limit) ∧
      (listed.Pairwise fun f g => OrderDual.toDual f.2 ≤ OrderDual.toDual g.2) ∧
      fusedIds pg table lexical semantic limit = listed.map Prod.fst := by
  refine joined_scores table _ hexact (fused_ids_nodup hexact) ?_
  intro f hf
  exact hstored f.1 (mem_scored.mp (mem_fused_scored hf)).1

/-- A card that scores less than another one of the legs does not come before it. -/
theorem not_precedes (hexact : pg.Exact)
    (hstored : ∀ id, id ∈ lexical.ids ∨ id ∈ semantic.ids → id ∈ table.cards.map Card.id) {a b : ℕ}
    (hb : b ∈ lexical.ids ∨ b ∈ semantic.ids)
    (hlt : pg.of (lexical.rank a) (semantic.rank a) < pg.of (lexical.rank b) (semantic.rank b)) :
    ¬ Precedes (fusedIds pg table lexical semantic limit) a b := by
  rintro ⟨before, after, hsplit, hnot⟩
  obtain ⟨listed, hperm, hsorted, hout⟩ := fusedIds_listed limit hexact hstored
  rw [hout] at hsplit
  obtain ⟨first, rest, rfl, rfl, hrest⟩ := List.map_eq_append_iff.mp hsplit
  obtain ⟨f, last, rfl, rfl, rfl⟩ := List.map_eq_cons_iff.mp hrest
  have hf : f ∈ fused pg (lexical.rows ++ semantic.rows) limit :=
    hperm.subset (List.mem_append_right _ List.mem_cons_self)
  have hbetter : OrderDual.toDual (pg.of (lexical.rank b) (semantic.rank b)) <
      OrderDual.toDual f.2 := by
    rw [(mem_scored.mp (mem_fused_scored hf)).2]
    exact hlt
  have hscored : (b, pg.of (lexical.rank b) (semantic.rank b)) ∈
      scored pg (lexical.rows ++ semantic.rows) := mem_scored.mpr ⟨hb, rfl⟩
  -- It is among the best that are kept, and among them it is before.
  have hkept := OrderBy.mem_take_of_key_lt (hexact.sorted _ _) hf
    ((hexact.perm _ _).symm.subset hscored) hbetter
  have hbefore := OrderBy.mem_before_of_key_lt hsorted (hperm.symm.subset hkept) hbetter
  exact hnot (List.mem_map_of_mem hbefore)

variable (limit) in
theorem fusedIds_fusedWell (hexact : pg.Exact)
    (hstored : ∀ id, id ∈ lexical.ids ∨ id ∈ semantic.ids → id ∈ table.cards.map Card.id) :
    FusedWell lexical semantic limit (fusedIds pg table lexical semantic limit) := by
  obtain ⟨listed, hperm, _, hout⟩ := fusedIds_listed limit hexact hstored
  refine ⟨?_, ?_, ?_, ?_, ?_⟩
  · rw [hout]
    exact (hperm.map Prod.fst).nodup_iff.mpr (fused_ids_nodup hexact)
  · intro id hid
    rw [hout] at hid
    obtain ⟨f, hf, rfl⟩ := List.mem_map.mp hid
    exact (mem_scored.mp (mem_fused_scored (hperm.subset hf))).1
  · have hunion : (lexical.ids.toFinset ∪ semantic.ids.toFinset).card =
        (scored pg (lexical.rows ++ semantic.rows)).length := by
      rw [← List.toFinset_append, List.card_toFinset, ← scored_ids pg, List.length_map]
    rw [hout, List.length_map, hperm.length_eq, hunion]
    unfold fused
    rw [List.length_take, (hexact.perm _ _).length_eq]
  · intro a b hone hlexical hsemantic hprecedes
    have hlisted : a ∈ lexical.ids ∨ a ∈ semantic.ids := by
      obtain ⟨before, after, hsplit, _⟩ := hprecedes
      have ha : a ∈ listed.map Prod.fst := by
        rw [← hout, hsplit]
        exact List.mem_append_right _ List.mem_cons_self
      obtain ⟨f, hf, rfl⟩ := List.mem_map.mp ha
      exact (mem_scored.mp (mem_fused_scored (hperm.subset hf))).1
    refine not_precedes hexact hstored (Or.inl hlexical) ?_ hprecedes
    refine of_agreement (lexical.ranks a) (semantic.ranks a) (lexical.ranks b) (semantic.ranks b) ?_ ?_
      ⟨Ranking.rank_ne_none.mpr hlexical, Ranking.rank_ne_none.mpr hsemantic⟩
    · rw [← Ranking.rank_ne_none, ← Ranking.rank_ne_none] at hone
      tauto
    · rwa [Ranking.rank_ne_none, Ranking.rank_ne_none]
  · intro a b hbetter
    have hlisted : a ∈ lexical.ids ∨ a ∈ semantic.ids := by
      rcases hbetter.once with ⟨_, _, k, hk, _⟩ | ⟨_, _, k, hk, _⟩
      · exact Or.inl (Ranking.rank_isSome.mp (Option.isSome_of_mem hk))
      · exact Or.inr (Ranking.rank_isSome.mp (Option.isSome_of_mem hk))
    exact not_precedes hexact hstored hlisted
      (of_dominance (lexical.ranks a) (semantic.ranks a) (lexical.ranks b) (semantic.ranks b) hbetter)

end Fused

/-! ## The legs are rankings -/

section Legs
variable {δ σ : Type} {pg : Postgres δ σ} {table : ItemTable}

theorem take_zipIdx {α : Type} (l : List α) (k n : ℕ) : (l.zipIdx k).take n = (l.take n).zipIdx k := by
  refine List.ext_getElem? fun i => ?_
  rw [List.getElem?_zipIdx, List.getElem?_take, List.getElem?_take, List.getElem?_zipIdx]
  split
  · rfl
  · rfl

theorem ranking_rows {cards : List Card} (h : (cards.map Card.id).Nodup) :
    ∃ r : Ranking, ranking cards = r.rows ∧ r.ids = (cards.map Card.id).take candidatePool := by
  have hshort : ((cards.map Card.id).take candidatePool).length ≤ candidatePool := by
    rw [List.length_take]
    exact Nat.min_le_left _ _
  refine ⟨⟨(cards.map Card.id).take candidatePool, h.sublist (List.take_sublist _ _), hshort⟩, ?_, rfl⟩
  unfold ranking Ranking.rows
  exact take_zipIdx _ _ _

variable (table) in
/-- A leg, whatever it keeps of the table and orders it by. -/
theorem leg_rows {κ : Type} [LinearOrder κ] (hexact : pg.Exact) (key : Card → κ) (kept : Card → Bool) :
    ∃ r : Ranking, ranking (pg.order key (table.cards.filter kept)) = r.rows ∧
      r.ids = ((pg.order key (table.cards.filter kept)).map Card.id).take candidatePool ∧
      ∀ id ∈ r.ids, id ∈ table.cards.map Card.id := by
  have hperm := (hexact.perm key (table.cards.filter kept)).map Card.id
  have hkept : ((table.cards.filter kept).map Card.id).Sublist (table.cards.map Card.id) :=
    List.filter_sublist.map Card.id
  obtain ⟨r, hrows, hids⟩ := ranking_rows (hperm.nodup_iff.mpr (table.keyed.sublist hkept))
  refine ⟨r, hrows, hids, fun id hid => ?_⟩
  rw [hids] at hid
  exact hkept.subset (hperm.subset (List.mem_of_mem_take hid))

variable [LinearOrder δ] [LinearOrder σ]

/-- Fusion of any two rankings of stored cards; and the two legs of a hybrid search are such. -/
theorem hybrid_fused_well (pg : Postgres δ σ) (hexact : pg.Exact) (table : ItemTable) (limit : ℕ) :
    (∀ lexical semantic : Ranking,
      (∀ id, id ∈ lexical.ids ∨ id ∈ semantic.ids → id ∈ table.cards.map Card.id) →
        FusedWell lexical semantic limit (fusedIds pg table lexical semantic limit)) ∧
    ∀ (settings : Settings δ) (intent : Intent) (embedding : List ℚ) (textQuery : Text),
      ∃ lexical semantic : Ranking,
        lexicalLeg pg table textQuery (filterConditions pg intent) = lexical.rows ∧
        semanticLeg pg settings table embedding (filterConditions pg intent) = semantic.rows ∧
        FusedWell lexical semantic limit
          ((hybridSearch pg intent settings table (some embedding) textQuery limit).map Card.id) := by
  constructor
  · intro lexical semantic hstored
    exact fusedIds_fusedWell _ hexact hstored
  · intro settings intent embedding textQuery
    obtain ⟨lexical, hlexical, _, hids⟩ := leg_rows table hexact
      (fun c => OrderDual.toDual (pg.wordSimilarity c.name textQuery))
      (fun c => pg.wordMatch c.name textQuery && meets (filterConditions pg intent) c)
    obtain ⟨semantic, hsemantic, _, hids'⟩ := leg_rows table hexact (distanceTo pg embedding)
      (fun c => isNear pg settings embedding c && meets (filterConditions pg intent) c)
    have hstored : ∀ id, id ∈ lexical.ids ∨ id ∈ semantic.ids → id ∈ table.cards.map Card.id := by
      rintro id (hid | hid)
      · exact hids id hid
      · exact hids' id hid
    refine ⟨lexical, semantic, hlexical, hsemantic, ?_⟩
    have hwell := fusedIds_fusedWell limit hexact hstored
    have hsearch : hybridSearch pg intent settings table (some embedding) textQuery limit =
        joined pg table (fused pg (lexical.rows ++ semantic.rows) limit) := by
      rw [← hlexical, ← hsemantic]
      rfl
    rw [hsearch]
    exact hwell

end Legs

/-! ## Two legs of two cards -/

def threeConcerts : ItemTable :=
  ⟨[eveningConcert 1 20673, eveningConcert 2 20673, eveningConcert 3 20673], by decide⟩

/-- The card of both legs comes first, and one of the others has to go. -/
theorem shared_card_first : FusedWell ⟨[1, 2], by decide, by decide⟩ ⟨[3, 2], by decide, by decide⟩ 2
    (fusedIds utcPostgres threeConcerts ⟨[1, 2], by decide, by decide⟩
      ⟨[3, 2], by decide, by decide⟩ 2) := by
  refine (hybrid_fused_well utcPostgres OrderBy.stable_exact threeConcerts 2).1 _ _ ?_
  intro id hid
  have hids : id = 1 ∨ id = 2 ∨ id = 3 := by
    simp only [List.mem_cons, List.not_mem_nil, or_false] at hid
    omega
  rcases hids with rfl | rfl | rfl
  · decide
  · decide
  · decide

end WarsawEvents.Retrieval
