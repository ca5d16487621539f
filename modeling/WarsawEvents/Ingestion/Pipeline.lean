import WarsawEvents.Foundations.WriteBack
import WarsawEvents.Ingestion.Dedup
import WarsawEvents.Ingestion.Embeddings

/-! # One ingestion run

`app.ingestion.pipeline` from the normalised items on: deduplication against the loaded catalog, the
merges and their commit, the embedding in batches, and the two upserts. The loaded cards are those the
session's SELECT returned, in whatever order; a commit writes back the columns the session changed.
-/

namespace WarsawEvents.Ingestion
set_option autoImplicit false

open Batches (batch count)

/-! ## Merges -/

def Card.withSources (c : Card) (sources : Option (List Ref)) : Card := { c with sources := sources }

/-- One iteration of `_apply_merges`, for the card with the merge's id. -/
def Card.merge (c : Card) (merge : ℕ × Ref) : Card :=
  if c.id = merge.1 && !c.refs.contains merge.2 then
    c.withSources (some (c.refs ++ [merge.2]))
  else c

/-- `_apply_merges`, on the cards of the session. -/
def applyMerges (loaded : List Card) (merges : List (ℕ × Ref)) : List Card :=
  merges.foldl (fun cards merge => cards.map fun c => c.merge merge) loaded

/-- `session.commit()`: the `sources` the session changed replace what the rows have by now. -/
def commitMerges (loaded : List Card) (merges : List (ℕ × Ref)) (rows : List Card) : List Card :=
  rows.map fun r =>
    match loaded.find? fun c => c.id = r.id,
      (applyMerges loaded merges).find? fun c => c.id = r.id with
    | some before, some after =>
      r.withSources (WriteBack.writeBack before.sources after.sources r.sources)
    | _, _ => r

/-! ## Embedding -/

/-- The Voyage service: whether a key is set, and what it makes of the texts of the batch that starts
at a place; `none` when the call raises. -/
structure Voyage where
  apiKey : Bool
  batch : ℕ → Option (String → List ℚ)

/-- `s` as a condition, and `s` where it holds. -/
def truthyText (s : Option String) : List String := (s.filter fun t => t ≠ "").toList

def cardText (item : RawItem) : String :=
  " ".intercalate ([item.name] ++ (truthyText item.category).map (fun c => "(" ++ c ++ ")") ++
    truthyText item.description)

def embedDocuments (v : Voyage) (start : ℕ) (texts : List String) : Option (List (List ℚ)) :=
  (v.batch start).map fun vector => texts.map vector

/-- An item and its identity: its place in the list of canonical items. -/
abbrev Placed := RawItem × ℕ

def embedChunk (v : Voyage) (start : ℕ) (chunk : List Placed) : List Placed :=
  match embedDocuments v start (chunk.map fun p => cardText p.1) with
  | none => []
  | some vectors =>
    (chunk.zip vectors).map fun (p, vector) => ({ p.1 with embedding := some vector }, p.2)

def embed (v : Voyage) (items : List Placed) : List Placed :=
  if v.apiKey then
    (List.range (count batchSize items)).flatMap fun b =>
      embedChunk v (b * batchSize) (batch batchSize items b)
  else []

def embedded (v : Voyage) (canonical : List RawItem) : List RawItem :=
  (embed v canonical.zipIdx).map Prod.fst

/-- The canonical items whose identity is not among the embedded ones. -/
def notEmbedded (v : Voyage) (canonical : List RawItem) : List RawItem :=
  let embeddedIds := (embed v canonical.zipIdx).map Prod.snd
  (canonical.zipIdx.filter fun p => !embeddedIds.contains p.2).map Prod.fst

/-! ## The upsert -/

/-- `on_conflict_do_update` on `uq_items_source_url`; `source`, `source_url`, `kind` and `sources` are
not among the refreshed columns. -/
def refreshCard (refreshEmbedding : Bool) (item : RawItem) (c : Card) : Card :=
  { c with
    name := item.name
    description := item.description
    category := item.category
    lat := item.lat
    lon := item.lon
    priceFrom := item.priceFrom
    priceTo := item.priceTo
    imageUrl := item.imageUrl
    startsAt := item.startsAt
    endsAt := item.endsAt
    isPermanent := item.isPermanent
    openingHours := item.openingHours
    embedding := if refreshEmbedding then item.embedding else c.embedding }

def cardRule (refreshEmbedding : Bool) : KeyedRows.Rule Card RawItem (String × String) where
  stored c := c.key
  incoming := RawItem.key
  refresh := refreshCard refreshEmbedding
  create id item := { item with id := id }
  stored_refresh _ _ := rfl
  stored_create _ _ := rfl

/-- `upsert`; `none` when PostgreSQL refuses the statement. -/
def upsert (items : List RawItem) (refreshEmbedding : Bool) (catalog : Catalog) : Option Catalog :=
  if items.isEmpty then some catalog else (cardRule refreshEmbedding).upsert catalog items

/-! ## The run -/

/-- What a run leaves, and whether it ended in an exception. -/
structure Ran where
  catalog : Catalog
  raised : Bool

/-- The two upserts, each in a transaction of its own. -/
def write (v : Voyage) (canonical : List RawItem) (catalog : Catalog) : Ran :=
  match upsert (embedded v canonical) true catalog with
  | none => { catalog := catalog, raised := true }
  | some catalog =>
    match upsert (notEmbedded v canonical) false catalog with
    | none => { catalog := catalog, raised := true }
    | some catalog => { catalog := catalog, raised := false }

/-- `run` from `items` on, when the session loaded `existing`. -/
def run (m : Matching) (v : Voyage) (adjudicate : Option Adjudicator) (items : List RawItem)
    (existing : List Card) (catalog : Catalog) : Ran :=
  let found := deduplicate m items existing adjudicate
  write v found.canonical { catalog with rows := commitMerges existing found.merges catalog.rows }

/-! ## What a commit of merges writes -/

def Card.mergeAll (merges : List (ℕ × Ref)) (c : Card) : Card := merges.foldl Card.merge c

section Merges
variable {merges : List (ℕ × Ref)} {loaded rows : List Card} {c r b : Card} {ref : Ref}

@[simp] theorem Card.merge_id (merge : ℕ × Ref) : (c.merge merge).id = c.id := by
  unfold Card.merge
  split <;> rfl

@[simp] theorem Card.mergeAll_id : (c.mergeAll merges).id = c.id := by
  unfold Card.mergeAll
  induction merges generalizing c with
  | nil => rfl
  | cons merge merges ih => rw [List.foldl_cons, ih, Card.merge_id]

theorem mem_refs_merge_iff {merge : ℕ × Ref} :
    ref ∈ (c.merge merge).refs ↔ ref ∈ c.refs ∨ (c.id, ref) = merge := by
  obtain ⟨id, new⟩ := merge
  unfold Card.merge
  by_cases hid : c.id = id
  · by_cases hin : new ∈ c.refs
    · rw [if_neg (by simp [hin])]
      refine ⟨Or.inl, fun h => h.elim (fun hold => hold) fun heq => ?_⟩
      have hnew : ref = new := congrArg Prod.snd heq
      rwa [hnew]
    · rw [if_pos (by simp [hid, hin])]
      show ref ∈ c.refs ++ [new] ↔ _
      rw [List.mem_append, List.mem_singleton, Prod.mk.injEq, hid]
      simp
  · rw [if_neg (by simp [hid])]
    refine ⟨Or.inl, fun h => h.elim (fun hin => hin) fun heq => ?_⟩
    exact absurd (congrArg Prod.fst heq) hid

/-- The references of a card after the merges: those it had, and those merged into it. -/
theorem mem_refs_mergeAll_iff :
    ref ∈ (c.mergeAll merges).refs ↔ ref ∈ c.refs ∨ (c.id, ref) ∈ merges := by
  unfold Card.mergeAll
  induction merges generalizing c with
  | nil => simp
  | cons merge merges ih =>
    rw [List.foldl_cons, ih, mem_refs_merge_iff, Card.merge_id, List.mem_cons, or_assoc]

theorem applyMerges_eq : applyMerges loaded merges = loaded.map (Card.mergeAll merges) := by
  unfold applyMerges
  induction merges generalizing loaded with
  | nil => exact (List.map_id' _).symm
  | cons merge merges ih =>
    rw [List.foldl_cons, ih, List.map_map]
    rfl

/-- A row after the commit of a session that loaded these cards. -/
def Card.committed (loaded : List Card) (merges : List (ℕ × Ref)) (r : Card) : Card :=
  match loaded.find? fun c => c.id = r.id with
  | some b => r.withSources (WriteBack.writeBack b.sources (b.mergeAll merges).sources r.sources)
  | none => r

theorem commitMerges_eq : commitMerges loaded merges rows = rows.map (Card.committed loaded merges) := by
  unfold commitMerges
  refine List.map_congr_left fun r _ => ?_
  unfold Card.committed
  rw [applyMerges_eq, List.find?_map]
  have hsame : ((fun c : Card => decide (c.id = r.id)) ∘ Card.mergeAll merges) =
      fun c => decide (c.id = r.id) := by
    funext c
    rw [Function.comp_apply, Card.mergeAll_id]
  rw [hsame]
  cases loaded.find? fun c => c.id = r.id <;> rfl

@[simp] theorem Card.committed_id : (r.committed loaded merges).id = r.id := by
  unfold Card.committed
  split <;> rfl

theorem Card.withSources_merge (merge : ℕ × Ref) (sources : Option (List Ref)) :
    (c.merge merge).withSources sources = c.withSources sources := by
  unfold Card.merge
  split <;> rfl

theorem Card.mergeAll_eq : c.mergeAll merges = c.withSources (c.mergeAll merges).sources := by
  unfold Card.mergeAll
  induction merges generalizing c with
  | nil => rfl
  | cons merge merges ih =>
    rw [List.foldl_cons, ih, Card.withSources_merge]
    rfl

@[simp] theorem Card.mergeAll_key : (c.mergeAll merges).key = c.key := by
  rw [Card.mergeAll_eq]
  rfl

/-- The row with a card's id is the card. -/
theorem find?_id (hids : (rows.map Card.id).Nodup) (hc : c ∈ rows) :
    rows.find? (fun b => b.id = c.id) = some c := by
  obtain ⟨b, hb⟩ := Option.isSome_iff_exists.mp
    (List.find?_isSome (p := fun b : Card => decide (b.id = c.id)).mpr ⟨c, hc, by simp⟩)
  have hid : b.id = c.id := by
    simpa using List.find?_some (p := fun b : Card => decide (b.id = c.id)) hb
  rw [hb, List.inj_on_of_nodup_map hids (List.mem_of_find?_eq_some hb) hc hid]

/-- With nobody in between, the commit is the merges. -/
theorem commitMerges_alone (hperm : loaded.Perm rows) (hids : (rows.map Card.id).Nodup) :
    commitMerges loaded merges rows = rows.map (Card.mergeAll merges) := by
  rw [commitMerges_eq]
  refine List.map_congr_left fun r hr => ?_
  have hfind : loaded.find? (fun c => c.id = r.id) = some r :=
    find?_id ((hperm.map Card.id).nodup_iff.mpr hids) (hperm.mem_iff.mpr hr)
  unfold Card.committed
  rw [hfind]
  rw [Card.mergeAll_eq]
  simp only [WriteBack.writeBack_alone]

end Merges

/-! ## What an upsert leaves -/

theorem upsert_rows {items : List RawItem} {fresh : Bool} {catalog catalog' : Catalog}
    (h : upsert items fresh catalog = some catalog') :
    catalog'.rows = catalog.rows.map ((cardRule fresh).refreshed items) ++
      (cardRule fresh).created catalog items := by
  unfold upsert at h
  split at h
  · next hempty =>
    cases h
    rw [List.isEmpty_iff] at hempty
    have hid : catalog.rows.map ((cardRule fresh).refreshed items) = catalog.rows := by
      rw [hempty]
      exact List.map_id' _
    rw [hid, hempty]
    exact (List.append_nil _).symm
  · obtain ⟨hfree, rfl⟩ := KeyedRows.Rule.upsert_eq_some_iff.mp h
    rw [KeyedRows.Rule.insertAll_rows hfree]

@[simp] theorem refreshed_id (fresh : Bool) (items : List RawItem) (c : Card) :
    ((cardRule fresh).refreshed items c).id = c.id :=
  KeyedRows.Rule.proj_refreshed (g := Card.id) fun _ _ => rfl

@[simp] theorem refreshed_sources (fresh : Bool) (items : List RawItem) (c : Card) :
    ((cardRule fresh).refreshed items c).sources = c.sources :=
  KeyedRows.Rule.proj_refreshed (g := fun c : Card => c.sources) fun _ _ => rfl

@[simp] theorem refreshed_key (fresh : Bool) (items : List RawItem) (c : Card) :
    ((cardRule fresh).refreshed items c).key = c.key :=
  KeyedRows.Rule.stored_refreshed (R := cardRule fresh)

/-- An upsert keeps every card, with its id and its references. -/
theorem upsert_keeps {items : List RawItem} {fresh : Bool} {catalog catalog' : Catalog} {c : Card}
    (h : upsert items fresh catalog = some catalog') (hc : c ∈ catalog.rows) :
    ∃ c' ∈ catalog'.rows, c'.id = c.id ∧ c'.sources = c.sources := by
  refine ⟨(cardRule fresh).refreshed items c, ?_, refreshed_id _ _ _, refreshed_sources _ _ _⟩
  rw [upsert_rows h]
  exact List.mem_append_left _ (List.mem_map_of_mem hc)

theorem any_clashes_iff {rows : List Card} {fresh : Bool} {x : RawItem} :
    rows.any ((cardRule fresh).clashes x) = true ↔ Known rows x := by
  rw [List.any_eq_true]
  unfold Known
  constructor
  · rintro ⟨c, hc, hclash⟩
    obtain ⟨hsome, hkey⟩ := KeyedRows.Rule.clashes_iff.mp hclash
    exact ⟨hsome, c, hc, hkey.symm⟩
  · rintro ⟨hsome, c, hc, hkey⟩
    exact ⟨c, hc, KeyedRows.Rule.clashes_iff.mpr ⟨hsome, hkey.symm⟩⟩

theorem mem_created {items : List RawItem} {fresh : Bool} {catalog : Catalog} {c : Card}
    (h : c ∈ (cardRule fresh).created catalog items) :
    ∃ x ∈ items, ¬ Known catalog.rows x ∧ c.toRawItem = x := by
  obtain ⟨x, i, hmem, rfl⟩ := KeyedRows.Rule.mem_created_iff.mp h
  obtain ⟨hx, hnew⟩ := List.mem_filter.mp (List.fst_mem_of_mem_zipIdx hmem)
  refine ⟨x, hx, fun hknown => ?_, rfl⟩
  rw [any_clashes_iff.mpr hknown] at hnew
  cases hnew

theorem exists_created (fresh : Bool) {items : List RawItem} {catalog : Catalog} {x : RawItem}
    (hx : x ∈ items) (hnew : ¬ Known catalog.rows x) :
    ∃ c ∈ (cardRule fresh).created catalog items, c.toRawItem = x := by
  have hfresh : x ∈ (cardRule fresh).fresh catalog items := by
    refine List.mem_filter.mpr ⟨hx, ?_⟩
    rw [Bool.not_eq_true', ← Bool.not_eq_true, any_clashes_iff]
    exact hnew
  obtain ⟨i, hi⟩ := List.mem_iff_getElem?.mp hfresh
  refine ⟨(cardRule fresh).create (catalog.nextId + i) x, ?_, rfl⟩
  refine KeyedRows.Rule.mem_created_iff.mpr ⟨x, catalog.nextId + i, ?_, rfl⟩
  exact List.mk_add_mem_zipIdx_iff_getElem?.mpr hi

/-- Some stored list has the reference. -/
def Listed (rows : List Card) (ref : Ref) : Prop := ∃ c ∈ rows, ref ∈ c.refs

/-- An upsert stores the lists of the cards it inserts, and of no other. -/
theorem upsert_listed_iff {items : List RawItem} {fresh : Bool} {catalog catalog' : Catalog}
    {ref : Ref} (h : upsert items fresh catalog = some catalog') : Listed catalog'.rows ref ↔
      Listed catalog.rows ref ∨ ∃ x ∈ items, ¬ Known catalog.rows x ∧ ref ∈ x.refs := by
  constructor
  · rintro ⟨c', hc', href⟩
    rw [upsert_rows h] at hc'
    rcases List.mem_append.mp hc' with hold | hnew
    · obtain ⟨c, hc, rfl⟩ := List.mem_map.mp hold
      refine Or.inl ⟨c, hc, ?_⟩
      unfold RawItem.refs at href ⊢
      rwa [refreshed_sources] at href
    · obtain ⟨x, hx, hunknown, rfl⟩ := mem_created hnew
      exact Or.inr ⟨_, hx, hunknown, href⟩
  · rintro (⟨c, hc, href⟩ | ⟨x, hx, hunknown, href⟩)
    · obtain ⟨c', hc', _, hsources⟩ := upsert_keeps h hc
      refine ⟨c', hc', ?_⟩
      unfold RawItem.refs at href ⊢
      rwa [hsources]
    · obtain ⟨c, hc, rfl⟩ := exists_created fresh hx hunknown
      refine ⟨c, ?_, href⟩
      rw [upsert_rows h]
      exact List.mem_append_right _ hc

theorem upsert_known_iff {items : List RawItem} {fresh : Bool} {catalog catalog' : Catalog}
    {x : RawItem} (h : upsert items fresh catalog = some catalog') : Known catalog'.rows x ↔
      Known catalog.rows x ∨ x.key ≠ none ∧ ∃ y ∈ items, y.key = x.key := by
  constructor
  · rintro ⟨hsome, c', hc', hkey⟩
    rw [upsert_rows h] at hc'
    rcases List.mem_append.mp hc' with hold | hnew
    · obtain ⟨c, hc, rfl⟩ := List.mem_map.mp hold
      exact Or.inl ⟨hsome, c, hc, (refreshed_key _ _ c).symm.trans hkey⟩
    · obtain ⟨y, hy, _, rfl⟩ := mem_created hnew
      exact Or.inr ⟨hsome, _, hy, hkey⟩
  · have hold : ∀ z : RawItem, Known catalog.rows z → Known catalog'.rows z := by
      rintro z ⟨hsome, c, hc, hkey⟩
      refine ⟨hsome, (cardRule fresh).refreshed items c, ?_, (refreshed_key _ _ c).trans hkey⟩
      rw [upsert_rows h]
      exact List.mem_append_left _ (List.mem_map_of_mem hc)
    rintro (hknown | ⟨hsome, y, hy, hkey⟩)
    · exact hold x hknown
    · by_cases hy' : Known catalog.rows y
      · obtain ⟨_, c, hc, hckey⟩ := hold y hy'
        exact ⟨hsome, c, hc, hckey.trans hkey⟩
      · obtain ⟨c, hc, rfl⟩ := exists_created fresh hy hy'
        refine ⟨hsome, c, ?_, hkey⟩
        rw [upsert_rows h]
        exact List.mem_append_right _ hc

/-! ## Which cards are embedded -/

variable {v : Voyage} {canonical : List RawItem}

/-- The batch of this place gets its vectors. -/
def Voyage.embeds (v : Voyage) (place : ℕ) : Bool :=
  v.apiKey && (v.batch (place / batchSize * batchSize)).isSome

/-- What `embed` makes of one card. -/
def embedOne (v : Voyage) (p : Placed) : Option Placed :=
  (v.batch (p.2 / batchSize * batchSize)).map fun vector =>
    ({ p.1 with embedding := some (vector (cardText p.1)) }, p.2)

theorem embedChunk_eq {start : ℕ} {chunk : List Placed}
    (h : ∀ p ∈ chunk, p.2 / batchSize * batchSize = start) :
    embedChunk v start chunk = chunk.filterMap (embedOne v) := by
  unfold embedChunk embedDocuments
  have hone : ∀ p ∈ chunk, embedOne v p = (v.batch start).map fun vector =>
      ({ p.1 with embedding := some (vector (cardText p.1)) }, p.2) := by
    intro p hp
    unfold embedOne
    rw [h p hp]
  rw [List.filterMap_congr hone]
  cases v.batch start with
  | none => simp
  | some vector =>
    simp only [Option.map_some]
    rw [List.map_map, ← List.map_id chunk, List.map_map, List.zip_map', List.map_map, List.map_id,
      List.filterMap_eq_map']
    rfl

theorem place_of_mem_batch {items : List RawItem} {b : ℕ} {p : Placed}
    (h : p ∈ batch batchSize items.zipIdx b) : p.2 / batchSize * batchSize = b * batchSize := by
  obtain ⟨i, hi⟩ := List.mem_iff_getElem?.mp h
  unfold batch at hi
  rw [List.getElem?_take] at hi
  split_ifs at hi with hlt
  rw [List.getElem?_drop, List.getElem?_zipIdx] at hi
  obtain ⟨item, _, rfl⟩ := Option.map_eq_some_iff.mp hi
  unfold batchSize at hlt ⊢
  show (0 + (16 * b + i)) / 16 * 16 = b * 16
  omega

/-- `embed`, place by place. -/
theorem embed_eq_filterMap (items : List RawItem) : embed v items.zipIdx =
    if v.apiKey then items.zipIdx.filterMap (embedOne v) else [] := by
  unfold embed
  cases v.apiKey with
  | false => rfl
  | true =>
    rw [if_pos rfl, if_pos rfl]
    have hchunks : ∀ b, embedChunk v (b * batchSize) (batch batchSize items.zipIdx b) =
        (batch batchSize items.zipIdx b).filterMap (embedOne v) :=
      fun b => embedChunk_eq fun p hp => place_of_mem_batch hp
    simp only [hchunks]
    rw [← List.filterMap_flatMap, Batches.flatMap_count (by decide)]

/-- A card with the vector of its text, where its batch got one. -/
def withVector (v : Voyage) (p : Placed) : Placed :=
  match v.batch (p.2 / batchSize * batchSize) with
  | some vector => ({ p.1 with embedding := some (vector (cardText p.1)) }, p.2)
  | none => p

@[simp] theorem withVector_snd (p : Placed) : (withVector v p).2 = p.2 := by
  unfold withVector
  cases v.batch (p.2 / batchSize * batchSize) <;> rfl

@[simp] theorem withVector_key (p : Placed) : (withVector v p).1.key = p.1.key := by
  unfold withVector
  cases v.batch (p.2 / batchSize * batchSize) <;> rfl

@[simp] theorem withVector_sources (p : Placed) : (withVector v p).1.sources = p.1.sources := by
  unfold withVector
  cases v.batch (p.2 / batchSize * batchSize) <;> rfl

theorem embed_eq (items : List RawItem) : embed v items.zipIdx =
    (items.zipIdx.filter fun p => v.embeds p.2).map (withVector v) := by
  rw [embed_eq_filterMap, ← List.filterMap_eq_map, List.filterMap_filter]
  cases hkey : v.apiKey with
  | false => simp [Voyage.embeds, hkey]
  | true =>
    rw [if_pos rfl]
    refine List.filterMap_congr fun p _ => ?_
    rw [Function.comp_apply]
    unfold embedOne withVector Voyage.embeds
    rw [hkey, Bool.true_and]
    cases v.batch (p.2 / batchSize * batchSize) <;> rfl

theorem embedded_eq (canonical : List RawItem) : embedded v canonical =
    (canonical.zipIdx.filter fun p => v.embeds p.2).map fun p => (withVector v p).1 := by
  unfold embedded
  rw [embed_eq, List.map_map]
  rfl

theorem notEmbedded_eq (canonical : List RawItem) : notEmbedded v canonical =
    (canonical.zipIdx.filter fun p => !v.embeds p.2).map Prod.fst := by
  unfold notEmbedded
  simp only
  congr 1
  refine List.filter_congr fun p hp => ?_
  rw [embed_eq, List.map_map]
  cases hembeds : v.embeds p.2 with
  | true =>
    have hmem : p.2 ∈ ((canonical.zipIdx.filter fun p => v.embeds p.2).map
        (Prod.snd ∘ withVector v)) :=
      List.mem_map.mpr ⟨p, List.mem_filter.mpr ⟨hp, hembeds⟩, withVector_snd p⟩
    simp [hmem]
  | false =>
    have hnot : p.2 ∉ ((canonical.zipIdx.filter fun p => v.embeds p.2).map
        (Prod.snd ∘ withVector v)) := by
      intro hmem
      obtain ⟨q, hq, hsame⟩ := List.mem_map.mp hmem
      have hplace : q.2 = p.2 := (withVector_snd q).symm.trans hsame
      have hq' := (List.mem_filter.mp hq).2
      rw [hplace, hembeds] at hq'
      cases hq'
    simp [hnot]

/-- Every canonical card is written, with its key and its references, by one of the two upserts. -/
theorem mem_embedded_or_notEmbedded {c : RawItem} (h : c ∈ canonical) :
    ∃ w ∈ embedded v canonical ++ notEmbedded v canonical, w.key = c.key ∧ w.sources = c.sources := by
  obtain ⟨i, hi⟩ := List.mem_iff_getElem?.mp h
  have hplaced : (c, i) ∈ canonical.zipIdx := List.mk_mem_zipIdx_iff_getElem?.mpr hi
  cases hembeds : v.embeds i with
  | true =>
    refine ⟨(withVector v (c, i)).1, List.mem_append_left _ ?_, withVector_key _, withVector_sources _⟩
    rw [embedded_eq]
    exact List.mem_map.mpr ⟨(c, i), List.mem_filter.mpr ⟨hplaced, hembeds⟩, rfl⟩
  | false =>
    refine ⟨c, List.mem_append_right _ ?_, rfl, rfl⟩
    rw [notEmbedded_eq]
    exact List.mem_map.mpr ⟨(c, i), List.mem_filter.mpr ⟨hplaced, by simp [hembeds]⟩, rfl⟩

/-! ## A catalog of one gala -/

def noVoyage : Voyage := { apiKey := false, batch := fun _ => none }

/-- The gala as another source lists it. -/
def galaFrom (source url : String) : RawItem := { gala url 4 with source := source }

def storedGala : Card := { (gala "tm/1" 4).asCanonical with id := 1 }

def oneGala : Catalog := { rows := [storedGala], nextId := 2 }

/-- The listing of another source is merged into the card. -/
example : ((run asciiNames noVoyage none [galaFrom "facebook" "fb/1"] [storedGala]
    oneGala).catalog.rows.map fun c => c.refs.map Ref.sourceUrl) = [[some "tm/1", some "fb/1"]] := by
  decide +kernel

end WarsawEvents.Ingestion
