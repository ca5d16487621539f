import WarsawEvents.Ingestion.CleanCatalog

/-! # The vectors of a run

Whatever batches fail, the two upserts write each canonical item into one row. The row of an item whose
batch got its vectors holds the vector of its own text; any other row holds the vector it held before
the run, and a new row none.
-/

namespace WarsawEvents.Ingestion
set_option autoImplicit false

/-- An item with its key and the columns that every upsert refreshes. -/
def RawItem.listing (item : RawItem) : RawItem :=
  { item with kind := .event, embedding := none, sources := none }

/-- The vector of the row with this id; none when there is no such row. -/
def embeddingBefore (rows : List Card) (id : ℕ) : Option (List ℚ) :=
  (rows.find? fun c => c.id = id).bind fun c => c.embedding

/-- The row of the canonical item at a place. -/
structure CarriedBy (v : Voyage) (before : List Card) (p : Placed) (c : Card) : Prop where
  listing : c.listing = p.1.listing
  fresh : ∀ vector, v.apiKey = true → v.batch (p.2 / batchSize * batchSize) = some vector →
    c.embedding = some (vector (cardText c.toRawItem))
  kept : v.embeds p.2 = false → c.embedding = embeddingBefore before c.id

variable {v : Voyage} {canonical items : List RawItem} {catalog catalog' first : Catalog}
  {fresh : Bool} {x : RawItem} {c w : Card} {p : Placed}

theorem cardText_congr {a b : RawItem} (h : a.listing = b.listing) : cardText a = cardText b := by
  have htext : cardText a.listing = cardText b.listing := by rw [h]
  exact htext

theorem withVector_listing (p : Placed) : (withVector v p).1.listing = p.1.listing := by
  unfold withVector
  cases v.batch (p.2 / batchSize * batchSize) <;> rfl

theorem embeddingBefore_of_mem {rows : List Card} (hids : (rows.map Card.id).Nodup) (hc : c ∈ rows) :
    embeddingBefore rows c.id = c.embedding := by
  unfold embeddingBefore
  rw [find?_id hids hc]
  rfl

theorem embeddingBefore_eq_none {rows : List Card} {id : ℕ} (h : ∀ c ∈ rows, c.id ≠ id) :
    embeddingBefore rows id = none := by
  unfold embeddingBefore
  have hnone : (rows.find? fun c => c.id = id) = none := by
    rw [List.find?_eq_none]
    intro c hc
    simp [h c hc]
  rw [hnone]
  rfl

/-! ## The row of one written item -/

theorem upsert_puts (hkeys : (catalog.rows.filterMap fun c => c.key).Nodup)
    (h : upsert items fresh catalog = some catalog') :
    ∃ written, catalog'.rows.Perm
        (catalog.rows.filter (fun c => !keyAmong items c.view) ++ written) ∧
      List.Forall₂ ((cardRule fresh).Put catalog) items written := by
  unfold upsert at h
  split at h
  · next hempty =>
    cases h
    rw [List.isEmpty_iff] at hempty
    subst hempty
    exact ⟨[], by simp [keyAmong], List.Forall₂.nil⟩
  · obtain ⟨hfree, rfl⟩ := KeyedRows.Rule.upsert_eq_some_iff.mp h
    exact KeyedRows.Rule.insertAll_puts hfree hkeys

theorem listing_of_put (h : (cardRule fresh).Put catalog x w) : w.listing = x.listing := by
  cases h with
  | created hnone hid => rfl
  | @refreshed c hc hclash =>
    obtain ⟨hsome, hkey⟩ := KeyedRows.Rule.clashes_iff.mp hclash
    have href : x.ref = c.ref := (key_eq_iff_ref_eq hsome).mp hkey
    have hsource : x.source = c.source := congrArg Ref.source href
    have hurl : x.sourceUrl = c.sourceUrl := congrArg Ref.sourceUrl href
    show (refreshCard fresh x c).listing = x.listing
    unfold refreshCard RawItem.listing
    rw [hsource, hurl]

theorem embedding_of_put (h : (cardRule true).Put catalog x w) : w.embedding = x.embedding := by
  cases h with
  | created hnone hid => rfl
  | refreshed hc hclash => rfl

/-- An item with a vector. -/
theorem carriedBy_of_embeds {before : List Card} (hembeds : v.embeds p.2 = true)
    (h : (cardRule true).Put catalog (withVector v p).1 w) : CarriedBy v before p w := by
  have hlisting : w.listing = p.1.listing := (listing_of_put h).trans (withVector_listing p)
  refine ⟨hlisting, fun vector _ hbatch => ?_, fun hnot => ?_⟩
  · rw [embedding_of_put h, cardText_congr hlisting]
    unfold withVector
    rw [hbatch]
  · rw [hembeds] at hnot
    cases hnot

/-- An item without one: its row was there before the run, or is new. -/
theorem carriedBy_of_not_embeds (hsound : Sound catalog) (hsound' : Sound first)
    (hkeep : ∀ c ∈ catalog.rows, ∃ c' ∈ first.rows, c'.id = c.id)
    (hold : ∀ c ∈ first.rows, c.key ≠ none → c.key = p.1.key → c ∈ catalog.rows)
    (hnone : p.1.embedding = none) (hembeds : v.embeds p.2 = false)
    (h : (cardRule false).Put first p.1 w) : CarriedBy v catalog.rows p w := by
  refine ⟨listing_of_put h, fun vector hkey hbatch => ?_, fun _ => ?_⟩
  · unfold Voyage.embeds at hembeds
    rw [hkey, hbatch] at hembeds
    cases hembeds
  · cases h with
    | @refreshed c hc hclash =>
      obtain ⟨hsome, hkey⟩ := KeyedRows.Rule.clashes_iff.mp hclash
      have hsame : c.key = p.1.key := hkey.symm
      have hmem : c ∈ catalog.rows := hold c hc (hsame ▸ hsome) hsame
      exact (embeddingBefore_of_mem hsound.keyed.ids hmem).symm
    | @created id hnew hid =>
      have habove : ∀ c ∈ catalog.rows, c.id ≠ id := by
        intro c hc hsame
        obtain ⟨c', hc', hid'⟩ := hkeep c hc
        have hlt := hsound'.below c' hc'
        omega
      show p.1.embedding = embeddingBefore catalog.rows id
      rw [embeddingBefore_eq_none habove, hnone]

/-! ## The row of every canonical item -/

variable (v) in
/-- The two upserts, and the rows they write. -/
theorem write_puts (hsound : Sound catalog) (hfree : RepeatFree canonical) :
    ∃ (first : Catalog) (withVectors without : List Card),
      upsert (embedded v canonical) true catalog = some first ∧
      (write v canonical catalog).raised = false ∧
      upsert (notEmbedded v canonical) false first = some (write v canonical catalog).catalog ∧
      List.Forall₂ ((cardRule true).Put catalog) (embedded v canonical) withVectors ∧
      List.Forall₂ ((cardRule false).Put first) (notEmbedded v canonical) without ∧
      (∀ c ∈ first.rows, (∃ u ∈ embedded v canonical, c.key = u.key) ∨ c ∈ catalog.rows) ∧
      (write v canonical catalog).catalog.rows.Perm
        (catalog.rows.filter (fun c => !keyAmong canonical c.view) ++ (withVectors ++ without)) := by
  obtain ⟨first, second, hfirst, hsecond, hwrite⟩ := write_succeeds v catalog hfree
  obtain ⟨withVectors, hperm, hputs⟩ := upsert_puts hsound.keyed.keys hfirst
  obtain ⟨without, hperm', hputs'⟩ := upsert_puts (hsound.upsert hfirst).keyed.keys hsecond
  have hkey : ∀ c ∈ withVectors, ∃ u ∈ embedded v canonical, c.key = u.key := by
    intro c hc
    obtain ⟨u, hu, hput⟩ := SideBySide.exists_left hputs hc
    exact ⟨u, hu, hput.stored⟩
  rw [hwrite]
  refine ⟨first, withVectors, without, hfirst, rfl, hsecond, hputs, hputs', ?_, ?_⟩
  · intro c hc
    rcases List.mem_append.mp (hperm.mem_iff.mp hc) with hold | hnew
    · exact Or.inr (List.mem_filter.mp hold).1
    · exact Or.inl (hkey c hnew)
  · -- the second upsert leaves the rows of the first one alone
    have hkept : withVectors.filter (fun c => !keyAmong (notEmbedded v canonical) c.view) =
        withVectors := by
      refine List.filter_eq_self.mpr fun c hc => ?_
      obtain ⟨u, hu, hsame⟩ := hkey c hc
      rw [Bool.not_eq_true', keyAmong, List.any_eq_false]
      intro w hw hboth
      obtain ⟨hsome, heq⟩ := (Bool.and_eq_true _ _).mp hboth
      have hwu : u.key = w.key := hsame.symm.trans (of_decide_eq_true heq).symm
      exact written_key_ne hfree hu hw (hwu ▸ Option.isSome_iff_ne_none.mp hsome) hwu
    have hboth : (catalog.rows.filter fun c => !keyAmong (embedded v canonical) c.view).filter
        (fun c => !keyAmong (notEmbedded v canonical) c.view) =
        catalog.rows.filter fun c => !keyAmong canonical c.view := by
      rw [List.filter_filter]
      refine List.filter_congr fun c _ => ?_
      have hall : (keyAmong (embedded v canonical) c.view ||
          keyAmong (notEmbedded v canonical) c.view) = keyAmong canonical c.view :=
        keyAmong_written c.view
      rw [← hall, Bool.not_or, Bool.and_comm]
    have hrest := hperm.filter fun c => !keyAmong (notEmbedded v canonical) c.view
    rw [List.filter_append, hkept, hboth] at hrest
    refine hperm'.trans ?_
    rw [← List.append_assoc]
    exact hrest.append_right _

/-- Every canonical item has one row of its own, and no other row is touched. -/
theorem write_carried (hsound : Sound catalog) (hfree : RepeatFree canonical)
    (hbare : ∀ x ∈ canonical, x.embedding = none) :
    ∃ written, (write v canonical catalog).catalog.rows.Perm
        (catalog.rows.filter (fun c => !keyAmong canonical c.view) ++ written) ∧
      List.Forall₂ (CarriedBy v catalog.rows) canonical.zipIdx written := by
  obtain ⟨first, withVectors, without, hfirst, _, _, hputs, hputs', hfrom, hrows⟩ :=
    write_puts v hsound hfree
  have hin : List.Forall₂ (CarriedBy v catalog.rows)
      (canonical.zipIdx.filter fun p => v.embeds p.2) withVectors := by
    rw [embedded_eq, List.forall₂_map_left_iff] at hputs
    refine ((List.forall₂_and_left _ _).mpr ⟨fun p hp => (List.mem_filter.mp hp).2, hputs⟩).imp ?_
    rintro p w ⟨hembeds, hput⟩
    exact carriedBy_of_embeds hembeds hput
  have hout : List.Forall₂ (CarriedBy v catalog.rows)
      (canonical.zipIdx.filter fun p => !v.embeds p.2) without := by
    rw [notEmbedded_eq, List.forall₂_map_left_iff] at hputs'
    refine ((List.forall₂_and_left _ _).mpr ⟨fun p hp => List.mem_filter.mp hp, hputs'⟩).imp ?_
    rintro p w ⟨⟨hp, hembeds⟩, hput⟩
    rw [Bool.not_eq_true'] at hembeds
    refine carriedBy_of_not_embeds hsound (hsound.upsert hfirst) (fun c hc => ?_) ?_
      (hbare p.1 (List.fst_mem_of_mem_zipIdx hp)) hembeds hput
    · obtain ⟨c', hc', hid, _⟩ := upsert_keeps hfirst hc
      exact ⟨c', hc', hid⟩
    · intro c hc hsome hkey
      rcases hfrom c hc with ⟨u, hu, hsame⟩ | hold
      · have hmem : p.1 ∈ notEmbedded v canonical := by
          rw [notEmbedded_eq]
          exact List.mem_map_of_mem (List.mem_filter.mpr ⟨hp, by simp [hembeds]⟩)
        have hup : u.key = p.1.key := hsame.symm.trans hkey
        exact absurd hup (written_key_ne hfree hu hmem (hsame ▸ hsome))
      · exact hold
  obtain ⟨written, hcarried, hperm⟩ := List.perm_comp_forall₂
    (List.filter_append_perm (fun p : Placed => v.embeds p.2) canonical.zipIdx).symm
    (List.rel_append hin hout)
  exact ⟨written, hrows.trans (hperm.symm.append_left _), hcarried⟩

/-- Whatever batches fail, no card loses its vector, none gets that of another text, and every canonical
item is written once, with its vector where its batch got one. -/
theorem vectors_kept (hsound : Sound catalog) (hfree : RepeatFree canonical)
    (hbare : ∀ x ∈ canonical, x.embedding = none) :
    (write v canonical catalog).raised = false ∧
    (∀ c ∈ (write v canonical catalog).catalog.rows,
      c.embedding = embeddingBefore catalog.rows c.id ∨
      ∃ place item vector, canonical[place]? = some item ∧ item.listing = c.listing ∧
        v.apiKey = true ∧ v.batch (place / batchSize * batchSize) = some vector ∧
        c.embedding = some (vector (cardText c.toRawItem))) ∧
    (∀ c ∈ catalog.rows, ∃ c' ∈ (write v canonical catalog).catalog.rows,
      c'.id = c.id ∧ (c.embedding ≠ none → c'.embedding ≠ none)) ∧
    ∃ written, (write v canonical catalog).catalog.rows.Perm
        (catalog.rows.filter (fun c => !keyAmong canonical c.view) ++ written) ∧
      List.Forall₂ (CarriedBy v catalog.rows) canonical.zipIdx written := by
  obtain ⟨first, _, _, hfirst, hraised, hsecond, _⟩ := write_puts v hsound hfree
  obtain ⟨written, hperm, hcarried⟩ := write_carried (v := v) hsound hfree hbare
  have hvector : ∀ c ∈ (write v canonical catalog).catalog.rows,
      c.embedding = embeddingBefore catalog.rows c.id ∨
      ∃ place item vector, canonical[place]? = some item ∧ item.listing = c.listing ∧
        v.apiKey = true ∧ v.batch (place / batchSize * batchSize) = some vector ∧
        c.embedding = some (vector (cardText c.toRawItem)) := by
    intro c hc
    rcases List.mem_append.mp (hperm.mem_iff.mp hc) with hold | hnew
    · have hmem : c ∈ catalog.rows := (List.mem_filter.mp hold).1
      exact Or.inl (embeddingBefore_of_mem hsound.keyed.ids hmem).symm
    · obtain ⟨⟨item, place⟩, hp, hrow⟩ := SideBySide.exists_left hcarried hnew
      cases hembeds : v.embeds place with
      | false => exact Or.inl (hrow.kept hembeds)
      | true =>
        obtain ⟨hkey, hbatch⟩ := (Bool.and_eq_true _ _).mp hembeds
        obtain ⟨vector, hvector⟩ := Option.isSome_iff_exists.mp hbatch
        exact Or.inr ⟨place, item, vector, List.mk_mem_zipIdx_iff_getElem?.mp hp, hrow.listing.symm,
          hkey, hvector, hrow.fresh vector hkey hvector⟩
  refine ⟨hraised, hvector, fun c hc => ?_, written, hperm, hcarried⟩
  obtain ⟨c₁, hc₁, hid₁, _⟩ := upsert_keeps hfirst hc
  obtain ⟨c₂, hc₂, hid₂, _⟩ := upsert_keeps hsecond hc₁
  have hid : c₂.id = c.id := hid₂.trans hid₁
  refine ⟨c₂, hc₂, hid, fun hsome => ?_⟩
  rcases hvector c₂ hc₂ with hold | ⟨_, _, vector, _, _, _, _, hnew⟩
  · rwa [hold, hid, embeddingBefore_of_mem hsound.keyed.ids hc]
  · rw [hnew]
    exact Option.some_ne_none _

/-! ## A batch that fails -/

/-- A service with a key that refuses the first batch. -/
def refusing : Voyage where
  apiKey := true
  batch start := if start = 0 then none else some fun text => [text.length]

/-- The stored gala, with a vector. -/
def vectoredGala : Catalog :=
  { rows := [{ storedGala with embedding := some [1] }], nextId := 2 }

theorem vectors_kept_refused :
    (write refusing [gala "tm/1" 5, gala "tm/2" 5] vectoredGala).raised = false ∧
      ∀ c ∈ vectoredGala.rows,
        ∃ c' ∈ (write refusing [gala "tm/1" 5, gala "tm/2" 5] vectoredGala).catalog.rows,
          c'.id = c.id ∧ (c.embedding ≠ none → c'.embedding ≠ none) := by
  have hsound : Sound vectoredGala := ⟨⟨by decide, by decide⟩, by decide⟩
  have hfree : RepeatFree [gala "tm/1" 5, gala "tm/2" 5] := by
    unfold RepeatFree
    decide
  obtain ⟨hraised, _, hkept, _⟩ := vectors_kept (v := refusing) hsound hfree (by decide)
  exact ⟨hraised, hkept⟩

end WarsawEvents.Ingestion
