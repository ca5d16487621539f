import WarsawEvents.Retrieval.Fusion

/-! # The path without fusion

A fusion of one leg is that leg. So a hybrid search of which the names match nothing is the plain semantic
search, and one without an embedding is its lexical leg.
-/

namespace WarsawEvents.Retrieval
open Ingestion (Card)
open Json (Text)
set_option autoImplicit false

variable {δ σ : Type} {pg : Postgres δ σ} {table : ItemTable}

/-! ## One leg -/

theorem scored_single (r : Ranking) : scored pg r.rows =
    r.ids.map fun id => (id, pg.inverse (rrfK + (r.ids.idxOf id + 1))) := by
  unfold scored
  have hids : r.rows.map Prod.fst = r.ids := List.zipIdx_map_fst 1 r.ids
  rw [hids, r.nodup.dedup]
  apply List.map_congr_left
  intro id hid
  rw [Ranking.rows_ranks]
  unfold Ranking.rank
  rw [if_pos hid]
  rfl

variable (pg) in
/-- The scores fall from rank to rank. -/
theorem scored_single_strict (r : Ranking) : (scored pg r.rows).Pairwise fun f g =>
    OrderDual.toDual f.2 < OrderDual.toDual g.2 := by
  rw [scored_single, List.pairwise_map, List.pairwise_iff_getElem]
  intro i j hi hj hij
  have hshort : r.ids.length ≤ 50 := r.short
  rw [r.nodup.idxOf_getElem, r.nodup.idxOf_getElem, OrderDual.toDual_lt_toDual]
  have hgap := inverse_gap pg.toScores (n := i + 1) (k := j + 1) (by omega) (by omega)
    (by omega)
  linarith

/-- The fusion of one leg is the leg. -/
theorem joined_single (hexact : pg.Exact) (r : Ranking)
    (hstored : ∀ id ∈ r.ids, id ∈ table.cards.map Card.id) (limit : ℕ) :
    (joined pg table (fused pg r.rows limit)).map Card.id = r.ids.take limit := by
  have hstrict := scored_single_strict pg r
  have hids : (scored pg r.rows).map Prod.fst = r.ids := by
    rw [scored_single, List.map_map]
    exact List.map_id _
  have hfused : fused pg r.rows limit = (scored pg r.rows).take limit := by
    unfold fused
    rw [hexact.order_eq (List.Perm.refl _) hstrict]
  have htaken : ((scored pg r.rows).take limit).map Prod.fst = r.ids.take limit := by
    rw [List.map_take, hids]
  rw [hfused]
  have hnodup : (((scored pg r.rows).take limit).map Prod.fst).Nodup := by
    rw [htaken]
    exact r.nodup.sublist (List.take_sublist _ _)
  obtain ⟨listed, hperm, hsorted, hout⟩ := joined_scores table _ hexact hnodup (by
    intro f hf
    have hid : f.1 ∈ r.ids := by
      rw [← hids]
      exact List.mem_map_of_mem (List.mem_of_mem_take hf)
    exact hstored f.1 hid)
  rw [hout, OrderBy.eq_of_sorted hperm hsorted (hstrict.sublist (List.take_sublist _ _)), htaken]

/-- Cards of the table are known by their ids. -/
theorem eq_of_ids {l l' : List Card} (hl : ∀ c ∈ l, c ∈ table.cards) (hl' : ∀ c ∈ l', c ∈ table.cards)
    (h : l.map Card.id = l'.map Card.id) : l = l' := by
  induction l generalizing l' with
  | nil => exact (List.map_eq_nil_iff.mp h.symm).symm
  | cons c l ih =>
    cases l' with
    | nil => cases h
    | cons d l' =>
      obtain ⟨hid, hrest⟩ := List.cons.inj h
      rw [List.forall_mem_cons] at hl hl'
      rw [eq_of_id hl.1 hl'.1 hid, ih hl.2 hl'.2 hrest]

/-! ## The two paths -/

variable [LinearOrder δ] [LinearOrder σ] {settings : Settings δ} {intent : Intent} {textQuery : Text}

omit [LinearOrder σ] in
/-- The order that the plain path makes, and the semantic leg with it. -/
theorem semanticSearch_eq (embedding : List ℚ) (limit : ℕ) :
    semanticSearch pg intent settings table (some embedding) limit =
      (pg.order (distanceTo pg embedding) (table.cards.filter fun c =>
        isNear pg settings embedding c && meets (filterConditions pg intent) c)).take limit := by
  unfold semanticSearch
  simp only [List.filter_filter]

omit [LinearOrder δ] in
theorem lexicalLeg_unmatched {conds : List (Card → Bool)}
    (h : ∀ c ∈ table.cards, pg.wordMatch c.name textQuery = false) :
    lexicalLeg pg table textQuery conds = [] := by
  have hnone : (table.cards.filter fun c => pg.wordMatch c.name textQuery && meets conds c) = [] := by
    rw [List.filter_eq_nil_iff]
    intro c hc
    rw [h c hc]
    exact Bool.false_ne_true
  unfold lexicalLeg
  rw [hnone, pg.order_nil]
  rfl

/-- With no name that matches, the hybrid search returns what the plain one does, up to the size of a leg.
Without an embedding it returns the first of its lexical leg. -/
theorem hybrid_refines_plain (pg : Postgres δ σ) (hexact : pg.Exact) (table : ItemTable)
    (settings : Settings δ) (intent : Intent) (textQuery : Text) (limit : ℕ) :
    (∀ embedding : List ℚ, limit ≤ candidatePool →
      (∀ c ∈ table.cards, pg.wordMatch c.name textQuery = false) →
        hybridSearch pg intent settings table (some embedding) textQuery limit =
          semanticSearch pg intent settings table (some embedding) limit) ∧
    (hybridSearch pg intent settings table none textQuery limit).map Card.id =
      ((lexicalLeg pg table textQuery (filterConditions pg intent)).map Prod.fst).take limit := by
  constructor
  · intro embedding hlimit hunmatched
    obtain ⟨r, hrows, hids, hstored⟩ := leg_rows table hexact (distanceTo pg embedding)
      (fun c => isNear pg settings embedding c && meets (filterConditions pg intent) c)
    have hsearch : hybridSearch pg intent settings table (some embedding) textQuery limit =
        joined pg table (fused pg r.rows limit) := by
      rw [← hrows]
      unfold hybridSearch
      simp only [lexicalLeg_unmatched hunmatched, List.nil_append]
      rfl
    refine eq_of_ids (fun c hc => (hybridSearch_meets hc).1) (fun c hc => (semanticSearch_meets hc).1) ?_
    rw [hsearch, joined_single hexact r hstored, hids, semanticSearch_eq, List.take_take, List.map_take,
      Nat.min_eq_left hlimit]
  · obtain ⟨r, hrows, _, hstored⟩ := leg_rows table hexact
      (fun c => OrderDual.toDual (pg.wordSimilarity c.name textQuery))
      (fun c => pg.wordMatch c.name textQuery && meets (filterConditions pg intent) c)
    have hleg : lexicalLeg pg table textQuery (filterConditions pg intent) = r.rows := hrows
    have hids : r.rows.map Prod.fst = r.ids := List.zipIdx_map_fst 1 r.ids
    unfold hybridSearch
    simp only [List.append_nil, hleg]
    rw [joined_single hexact r hstored, hids]

theorem opera_by_distance :
    hybridSearch utcPostgres fromSaturday ⟨true, 1⟩ threeConcerts (some []) (Json.ascii "opera") 30 =
      semanticSearch utcPostgres fromSaturday ⟨true, 1⟩ threeConcerts (some []) 30 :=
  (hybrid_refines_plain utcPostgres OrderBy.stable_exact threeConcerts ⟨true, 1⟩ fromSaturday
    (Json.ascii "opera") 30).1 [] (by decide) (by decide)

end WarsawEvents.Retrieval
