import WarsawEvents.Foundations.SideBySide
import WarsawEvents.Ingestion.Provenance

/-! # When a run leaves the catalog as it is

No new row, and every card with the references it had: exactly when every item the run merges is listed
on that card already, and every item that nothing matches has its own row.
-/

namespace WarsawEvents.Ingestion
set_option autoImplicit false

variable {m : Matching} {v : Voyage} {existing : List Card} {adjudicate : Option Adjudicator}
  {items canonical : List RawItem} {catalog : Catalog} {x : RawItem}

/-! ## What a run leaves alone -/

/-- The same card, with the same set of references. -/
def SameCard (c c' : Card) : Prop := c'.id = c.id ∧ ∀ ref, ref ∈ c'.refs ↔ ref ∈ c.refs

/-- No new row, and every card with the references it had. -/
def Settled (before after : List Card) : Prop := List.Forall₂ SameCard before after

theorem created_eq_nil_iff {fresh : Bool} :
    (cardRule fresh).created catalog items = [] ↔ ∀ x ∈ items, Known catalog.rows x := by
  constructor
  · intro h x hx
    by_contra hunknown
    obtain ⟨c, hc, _⟩ := exists_created fresh hx hunknown
    rw [h] at hc
    cases hc
  · intro h
    refine List.eq_nil_iff_forall_not_mem.mpr fun c hc => ?_
    obtain ⟨x, hx, hunknown, _⟩ := mem_created hc
    exact hunknown (h x hx)

variable (v catalog) in
/-- The two upserts: the old cards refreshed, and new ones exactly for the unknown keys. -/
theorem write_rows (hfree : RepeatFree canonical) : ∃ (f : Card → Card) (extra : List Card),
    (write v canonical catalog).catalog.rows = catalog.rows.map f ++ extra ∧
      (∀ c, (f c).id = c.id ∧ (f c).sources = c.sources ∧ (f c).key = c.key) ∧
      (extra = [] ↔ ∀ c ∈ canonical, Known catalog.rows c) := by
  obtain ⟨first, second, hfirst, hsecond, hwrite⟩ := write_succeeds v catalog hfree
  refine ⟨(cardRule false).refreshed (notEmbedded v canonical) ∘
    (cardRule true).refreshed (embedded v canonical),
    ((cardRule true).created catalog (embedded v canonical)).map
      ((cardRule false).refreshed (notEmbedded v canonical)) ++
      (cardRule false).created first (notEmbedded v canonical), ?_, ?_, ?_⟩
  · rw [hwrite]
    simp only
    rw [upsert_rows hsecond, upsert_rows hfirst, List.map_append, List.map_map, List.append_assoc]
  · intro c
    simp
  · rw [List.append_eq_nil_iff, List.map_eq_nil_iff, created_eq_nil_iff, created_eq_nil_iff]
    constructor
    · rintro ⟨hin, hout⟩ c hc
      obtain ⟨w, hw, hkey, _⟩ := mem_embedded_or_notEmbedded (v := v) hc
      rw [← known_congr hkey]
      rcases List.mem_append.mp hw with hw | hw
      · exact hin w hw
      · rcases (upsert_known_iff hfirst).mp (hout w hw) with hknown | ⟨hsome, u, hu, hsame⟩
        · exact hknown
        · exact absurd hsame (written_key_ne hfree hu hw (hsame ▸ hsome))
    · intro h
      have hwritten : ∀ w ∈ embedded v canonical ++ notEmbedded v canonical,
          Known catalog.rows w := by
        intro w hw
        obtain ⟨c, hc, vector, rfl⟩ := of_mem_written hw
        exact h c hc
      refine ⟨fun w hw => hwritten w (List.mem_append_left _ hw), fun w hw => ?_⟩
      exact (upsert_known_iff hfirst).mpr (Or.inl (hwritten w (List.mem_append_right _ hw)))

/-- A card after the merges has the references it had when each of them was listed before. -/
theorem sameCard_iff {c : Card} {f : Card → Card} {merges : List (ℕ × Ref)}
    (hf : ∀ c, (f c).id = c.id ∧ (f c).sources = c.sources ∧ (f c).key = c.key) :
    SameCard c (f (c.mergeAll merges)) ↔ ∀ ref, (c.id, ref) ∈ merges → ref ∈ c.refs := by
  have hrefs : (f (c.mergeAll merges)).refs = (c.mergeAll merges).refs := by
    unfold RawItem.refs
    rw [(hf _).2.1]
  unfold SameCard
  rw [hrefs, (hf _).1, Card.mergeAll_id]
  constructor
  · intro h ref hmerge
    exact (h.2 ref).mp (mem_refs_mergeAll_iff.mpr (Or.inr hmerge))
  · intro h
    refine ⟨rfl, fun ref => ⟨fun href => ?_, fun href => mem_refs_mergeAll_iff.mpr (Or.inl href)⟩⟩
    rcases mem_refs_mergeAll_iff.mp href with hold | hmerge
    · exact hold
    · exact h ref hmerge

theorem canonical_known_iff :
    (∀ c ∈ (deduplicate m items existing adjudicate).canonical, Known existing c) ↔
      ∀ pre x post, items = pre ++ x :: post →
        Unmatched m existing adjudicate (acceptedAfter m existing adjudicate pre) x →
        Known existing x := by
  constructor
  · rintro h pre x post rfl hun
    obtain ⟨c, hc, hbare⟩ := exists_accepted post hun
    exact (known_congr (key_of_bare hbare)).mp (h c hc)
  · intro h c hc
    obtain ⟨pre, x, post, hitems, hbare, hun⟩ := exists_unmatched hc
    exact (known_congr (key_of_bare hbare)).mpr (h pre x post hitems hun)

theorem merges_listed_iff (hids : (existing.map Card.id).Nodup) :
    (∀ c ∈ existing, ∀ ref, (c.id, ref) ∈ (deduplicate m items existing adjudicate).merges →
      ref ∈ c.refs) ↔
    ∀ pre x post, items = pre ++ x :: post → ∀ e,
      Matches m Card.toRawItem adjudicate x (rivals m existing x) e → x.ref ∈ e.refs := by
  constructor
  · intro h pre x post hitems e he
    have hmem : e ∈ existing := (List.mem_filter.mp he.wins.mem).1
    have htook : Took m existing adjudicate items x.ref
        (acceptedAfter m existing adjudicate pre).length (.merge e) :=
      ⟨pre, x, post, hitems, rfl, rfl, branch_eq_merge_iff.mpr he⟩
    exact h e hmem x.ref (mem_merges_iff.mpr ⟨_, e, rfl, htook⟩)
  · intro h c hc ref hmerge
    obtain ⟨n, e, hid, pre, x, post, hitems, rfl, _, hbranch⟩ := mem_merges_iff.mp hmerge
    have he := branch_eq_merge_iff.mp hbranch
    have hmem : e ∈ existing := (List.mem_filter.mp he.wins.mem).1
    rw [← List.inj_on_of_nodup_map hids hmem hc hid]
    exact h pre x post hitems e he

/-- One run leaves the catalog settled exactly when every merge is listed already and every item that
nothing matches has its row. -/
theorem run_settled_iff (hkeyed : Keyed catalog.rows) (hperm : existing.Perm catalog.rows)
    (hrefs : (items.map RawItem.ref).Nodup) :
    Settled catalog.rows (run m v adjudicate items existing catalog).catalog.rows ↔
    ∀ pre x post, items = pre ++ x :: post →
      (∀ e, Matches m Card.toRawItem adjudicate x (rivals m existing x) e → x.ref ∈ e.refs) ∧
      (Unmatched m existing adjudicate (acceptedAfter m existing adjudicate pre) x →
        Known existing x) := by
  unfold run Settled
  simp only
  rw [commitMerges_alone hperm hkeyed.ids]
  obtain ⟨f, extra, hrows, hf, hextra⟩ := write_rows v
    { catalog with rows := catalog.rows.map (Card.mergeAll
        (deduplicate m items existing adjudicate).merges) }
    (canonical_repeatFree m existing adjudicate hrefs)
  have hids : (existing.map Card.id).Nodup := (hkeyed.perm hperm).ids
  rw [hrows]
  simp only
  rw [List.map_map, SideBySide.map_append_iff, hextra]
  simp only [known_mergeAll_iff hperm, Function.comp_apply, sameCard_iff hf]
  rw [canonical_known_iff]
  have hmerges : (∀ c ∈ catalog.rows, ∀ ref,
      (c.id, ref) ∈ (deduplicate m items existing adjudicate).merges → ref ∈ c.refs) ↔
      ∀ pre x post, items = pre ++ x :: post → ∀ e,
        Matches m Card.toRawItem adjudicate x (rivals m existing x) e → x.ref ∈ e.refs := by
    rw [← merges_listed_iff hids]
    simp only [hperm.mem_iff]
  rw [hmerges]
  constructor
  · rintro ⟨hnew, hmerge⟩ pre x post hitems
    exact ⟨hmerge pre x post hitems, hnew pre x post hitems⟩
  · intro h
    exact ⟨fun pre x post hitems => (h pre x post hitems).2,
      fun pre x post hitems => (h pre x post hitems).1⟩

/-! ## The constraints of the table -/

/-- The constraints of the table, with ids that the supply has given out. -/
structure Sound (catalog : Catalog) : Prop where
  keyed : Keyed catalog.rows
  below : ∀ c ∈ catalog.rows, c.id < catalog.nextId

theorem Sound.upsert {fresh : Bool} {catalog' : Catalog} (hsound : Sound catalog)
    (h : upsert items fresh catalog = some catalog') : Sound catalog' := by
  unfold Ingestion.upsert at h
  split at h
  · cases h
    exact hsound
  · obtain ⟨hfree, rfl⟩ := KeyedRows.Rule.upsert_eq_some_iff.mp h
    obtain ⟨hids, hbelow⟩ := KeyedRows.Rule.insertAll_ids (R := cardRule fresh) Card.id
      (fun _ _ => rfl) (fun _ _ => rfl) hfree hsound.keyed.ids hsound.below
    exact ⟨⟨hids, KeyedRows.Rule.insertAll_keys_nodup hfree hsound.keyed.keys⟩, hbelow⟩

theorem Sound.write (hsound : Sound catalog) : Sound (write v canonical catalog).catalog := by
  unfold Ingestion.write
  split
  · exact hsound
  · next first hfirst =>
    split
    · exact hsound.upsert hfirst
    · next second hsecond => exact (hsound.upsert hfirst).upsert hsecond

theorem Sound.run (hsound : Sound catalog) (hperm : existing.Perm catalog.rows) :
    Sound (run m v adjudicate items existing catalog).catalog := by
  unfold Ingestion.run
  simp only
  rw [commitMerges_alone hperm hsound.keyed.ids]
  refine Sound.write ⟨⟨?_, ?_⟩, ?_⟩
  · have hids : (catalog.rows.map (Card.mergeAll
        (deduplicate m items existing adjudicate).merges)).map Card.id =
        catalog.rows.map Card.id := by
      rw [List.map_map]
      exact List.map_congr_left fun c _ => Card.mergeAll_id
    rw [hids]
    exact hsound.keyed.ids
  · have hkeys : ((catalog.rows.map (Card.mergeAll
        (deduplicate m items existing adjudicate).merges)).filterMap fun c => c.key) =
        catalog.rows.filterMap fun c => c.key := by
      rw [List.filterMap_map]
      exact List.filterMap_congr fun c _ => Card.mergeAll_key
    rw [hkeys]
    exact hsound.keyed.keys
  · intro c' hc'
    obtain ⟨c, hc, rfl⟩ := List.mem_map.mp hc'
    rw [Card.mergeAll_id]
    exact hsound.below c hc

end WarsawEvents.Ingestion
