import WarsawEvents.Ingestion.Rerun

/-! # Whether a run lets two cards of one event into the catalog

A catalog is clean when no two cards of one block score as an automatic match. After a run it holds the
cards no canonical item refreshed, as they were, and the canonical items. A canonical item was compared
with every card of its block, except those with its own URL: such a card of another source, or a card
without a URL, is no duplicate to the matcher and no conflict to the upsert.
-/

namespace WarsawEvents.Ingestion
set_option autoImplicit false

/-! ## Clean catalogs -/

variable (m : Matching)

/-- The two would be matched automatically. -/
def Duplicates (a b : RawItem) : Prop :=
  normalizeName m a.name ≠ "" ∧ normalizeName m b.name ≠ "" ∧ blockKey m a = blockKey m b ∧
    autoMatch ≤ m.tokenSetRatio (normalizeName m a.name) (normalizeName m b.name)

instance (a b : RawItem) : Decidable (Duplicates m a b) := instDecidableAnd

/-- No two of the cards would be matched automatically. -/
def Clean (rows : List Card) : Prop := rows.Pairwise fun a b => ¬ Duplicates m a.toRawItem b.toRawItem

instance (rows : List Card) : Decidable (Clean m rows) := List.instDecidablePairwise rows

/-- An item with nothing but what the matcher reads, its URL apart. -/
def RawItem.read (item : RawItem) : RawItem where
  kind := .event
  name := item.name
  source := ""
  lat := item.lat
  lon := item.lon
  startsAt := item.startsAt

variable {m} {v : Voyage} {existing : List Card} {adjudicate : Option Adjudicator}
  {items canonical pre post : List RawItem} {catalog : Catalog} {x : RawItem}

theorem duplicates_read {a b : RawItem} : Duplicates m a.read b.read ↔ Duplicates m a b := Iff.rfl

theorem read_of_bare {a b : RawItem} (h : a.bare = b.bare) : a.read = b.read := by
  have hread : a.bare.read = b.bare.read := by rw [h]
  exact hread

theorem Duplicates.symm (hsym : ∀ s t, m.tokenSetRatio s t = m.tokenSetRatio t s) {a b : RawItem}
    (h : Duplicates m a b) : Duplicates m b a := by
  obtain ⟨ha, hb, hblock, hscore⟩ := h
  refine ⟨hb, ha, hblock.symm, ?_⟩
  rwa [hsym]

/-! ## What an unmatched item was compared with -/

/-- When nothing is matched, every candidate scores below an automatic match. -/
theorem below_of_no_match {γ : Type} {view : γ → RawItem} {candidates : List γ} {c : γ}
    (hnone : ∀ c, ¬ Matches m view adjudicate x candidates c)
    (hname : normalizeName m x.name ≠ "") (hc : c ∈ candidates) :
    nameScore m view x c < autoMatch := by
  have hscanned := BestScore.scan_scanned (nameScore m view x) 0 candidates
  generalize BestScore.scan (nameScore m view x) 0 candidates = best at hscanned
  cases hscanned with
  | none hle =>
    have hpos : (0 : ℚ) < autoMatch := by
      unfold autoMatch
      norm_num
    exact lt_of_le_of_lt (hle c hc) hpos
  | @some b hwins =>
    by_contra hge
    have hauto : autoMatch ≤ nameScore m view x b := (not_lt.mp hge).trans (hwins.le c hc)
    exact hnone b ⟨hname, hwins, Or.inl hauto⟩

/-- A stored card with another URL. -/
theorem not_duplicates_of_rival {r : Card}
    (hun : Unmatched m existing adjudicate canonical x) (hr : r ∈ existing)
    (hurl : r.sourceUrl ≠ x.sourceUrl) : ¬ Duplicates m x r.toRawItem := by
  rintro ⟨hname, _, hblock, hscore⟩
  have hrival : r ∈ rivals m existing x := by
    unfold rivals
    rw [List.mem_filter]
    exact ⟨hr, by simp [hurl, hblock]⟩
  have hbelow : nameScore m Card.toRawItem x r < autoMatch :=
    below_of_no_match hun.1 hname hrival
  exact not_le_of_gt hbelow hscore

/-- A card accepted before in the batch. -/
theorem not_duplicates_of_twin {p : ℕ} {t : RawItem}
    (hun : Unmatched m existing adjudicate canonical x) (ht : canonical[p]? = some t) :
    ¬ Duplicates m x t := by
  rintro ⟨hname, _, hblock, hscore⟩
  have htwin : (t, p) ∈ twins m canonical x := by
    unfold twins
    rw [List.mem_filter]
    exact ⟨List.mk_mem_zipIdx_iff_getElem?.mpr ht, decide_eq_true hblock.symm⟩
  have hbelow : nameScore m Prod.fst x (t, p) < autoMatch := below_of_no_match hun.2 hname htwin
  exact not_le_of_gt hbelow hscore

/-- No two of the canonical items. -/
theorem canonical_clean (hsym : ∀ s t, m.tokenSetRatio s t = m.tokenSetRatio t s) :
    (acceptedAfter m existing adjudicate items).Pairwise fun a b => ¬ Duplicates m a b := by
  rw [List.pairwise_iff_getElem]
  intro p q hp hq hpq hdup
  obtain ⟨pre, y, mid, z, post, _, hy, hz, hplace, _, huny, hunz⟩ :=
    accepted_pair hpq (List.getElem?_eq_getElem hp) (List.getElem?_eq_getElem hq)
  have haccepted := acceptedAfter_of_unmatched mid huny
  rw [← hplace, List.getElem?_map] at haccepted
  obtain ⟨t, ht, htwin⟩ := Option.map_eq_some_iff.mp haccepted
  refine not_duplicates_of_twin hunz ht ?_
  rw [← duplicates_read, read_of_bare htwin, ← read_of_bare hy, ← read_of_bare hz, duplicates_read]
  exact hdup.symm hsym

/-! ## What a run leaves to compare -/

theorem cardRule_writes (fresh : Bool) : (cardRule fresh).Writes (fun c => c.read) RawItem.read :=
  ⟨fun _ _ => rfl, fun _ _ => rfl⟩

/-- The key of a card, and what the matcher reads of it. -/
def Card.view (c : Card) : Option (String × String) × RawItem := (c.key, c.read)

def RawItem.view (item : RawItem) : Option (String × String) × RawItem := (item.key, item.read)

/-- One of the items has the key. -/
def keyAmong (items : List RawItem) (view : Option (String × String) × RawItem) : Bool :=
  items.any fun x => x.key.isSome && x.key = view.1

theorem upsert_views {fresh : Bool} {catalog' : Catalog}
    (hkeys : (catalog.rows.filterMap fun c => c.key).Nodup)
    (h : upsert items fresh catalog = some catalog') :
    (catalog'.rows.map Card.view).Perm
      ((catalog.rows.map Card.view).filter (fun view => !keyAmong items view) ++
        items.map RawItem.view) := by
  unfold upsert at h
  split at h
  · next hempty =>
    cases h
    rw [List.isEmpty_iff] at hempty
    subst hempty
    simp [keyAmong]
  · obtain ⟨hfree, rfl⟩ := KeyedRows.Rule.upsert_eq_some_iff.mp h
    exact KeyedRows.Rule.insertAll_perm (cardRule_writes fresh) hfree hkeys

theorem withVector_read (p : Placed) : (withVector v p).1.read = p.1.read := by
  unfold withVector
  cases v.batch (p.2 / batchSize * batchSize) <;> rfl

theorem embedded_views : (embedded v canonical).map RawItem.view =
    (canonical.zipIdx.filter fun p => v.embeds p.2).map fun p => p.1.view := by
  rw [embedded_eq, List.map_map]
  refine List.map_congr_left fun p _ => ?_
  unfold RawItem.view
  rw [Function.comp_apply, withVector_key, withVector_read]

/-- The two lists of an upsert are the canonical items. -/
theorem written_views : ((embedded v canonical).map RawItem.view ++
    (notEmbedded v canonical).map RawItem.view).Perm (canonical.map RawItem.view) := by
  have hall : canonical.map RawItem.view = canonical.zipIdx.map fun p => p.1.view := by
    conv_lhs => rw [← List.zipIdx_map_fst 0 canonical]
    rw [List.map_map]
    rfl
  rw [embedded_views, notEmbedded_eq, List.map_map, hall]
  have hperm := (List.filter_append_perm (fun p : Placed => v.embeds p.2) canonical.zipIdx).map
    fun p => p.1.view
  rwa [List.map_append] at hperm

theorem keyAmong_written (view : Option (String × String) × RawItem) :
    (keyAmong (embedded v canonical) view || keyAmong (notEmbedded v canonical) view) =
      keyAmong canonical view := by
  have hviews : ∀ l : List RawItem, keyAmong l view =
      (l.map RawItem.view).any fun w => w.1.isSome && w.1 = view.1 := by
    intro l
    rw [List.any_map]
    rfl
  rw [hviews, hviews, hviews, ← List.any_append]
  exact written_views.any_eq

/-- After the two upserts: the cards without a key of the canonical items, and the canonical items. -/
theorem write_views (hkeys : (catalog.rows.filterMap fun c => c.key).Nodup)
    (hfree : RepeatFree canonical) :
    ((write v canonical catalog).catalog.rows.map Card.view).Perm
      ((catalog.rows.map Card.view).filter (fun view => !keyAmong canonical view) ++
        canonical.map RawItem.view) := by
  obtain ⟨first, second, hfirst, hsecond, hwrite⟩ := write_succeeds v catalog hfree
  have hkeys' : (first.rows.filterMap fun c => c.key).Nodup := by
    unfold upsert at hfirst
    split at hfirst
    · cases hfirst
      exact hkeys
    · obtain ⟨hns, rfl⟩ := KeyedRows.Rule.upsert_eq_some_iff.mp hfirst
      exact KeyedRows.Rule.insertAll_keys_nodup hns hkeys
  have hkept : ((embedded v canonical).map RawItem.view).filter
      (fun view => !keyAmong (notEmbedded v canonical) view) =
      (embedded v canonical).map RawItem.view := by
    refine List.filter_eq_self.mpr fun view hview => ?_
    obtain ⟨u, hu, rfl⟩ := List.mem_map.mp hview
    rw [Bool.not_eq_true', keyAmong, List.any_eq_false]
    intro w hw hboth
    obtain ⟨hsome, hkey⟩ := (Bool.and_eq_true _ _).mp hboth
    have hsame : w.key = u.key := of_decide_eq_true hkey
    exact written_key_ne hfree hu hw (hsame ▸ Option.isSome_iff_ne_none.mp hsome) hsame.symm
  have hboth : (catalog.rows.map Card.view).filter (fun view => !keyAmong canonical view) =
      ((catalog.rows.map Card.view).filter
        fun view => !keyAmong (embedded v canonical) view).filter
          fun view => !keyAmong (notEmbedded v canonical) view := by
    rw [List.filter_filter]
    refine List.filter_congr fun view _ => ?_
    rw [← keyAmong_written, Bool.not_or, Bool.and_comm]
  rw [hwrite, hboth]
  refine (upsert_views hkeys' hsecond).trans ?_
  have hrest := (upsert_views hkeys hfirst).filter
    fun view => !keyAmong (notEmbedded v canonical) view
  rw [List.filter_append, hkept] at hrest
  refine (hrest.append_right _).trans ?_
  rw [List.append_assoc]
  exact List.Perm.append_left _ written_views

/-- One run. -/
theorem run_views (hkeyed : Keyed catalog.rows) (hperm : existing.Perm catalog.rows)
    (hrefs : (items.map RawItem.ref).Nodup) :
    ((run m v adjudicate items existing catalog).catalog.rows.map Card.view).Perm
      ((catalog.rows.map Card.view).filter
          (fun view => !keyAmong (acceptedAfter m existing adjudicate items) view) ++
        (acceptedAfter m existing adjudicate items).map RawItem.view) := by
  have hview : ∀ merges, (catalog.rows.map (Card.mergeAll merges)).map Card.view =
      catalog.rows.map Card.view := by
    intro merges
    rw [List.map_map]
    refine List.map_congr_left fun c _ => ?_
    rw [Function.comp_apply, Card.mergeAll_eq]
    rfl
  have hkeys : ∀ merges, (({ catalog with rows := catalog.rows.map (Card.mergeAll merges) } :
      Catalog).rows.filterMap fun c => c.key).Nodup := by
    intro merges
    have hsame : ((catalog.rows.map (Card.mergeAll merges)).filterMap fun c => c.key) =
        catalog.rows.filterMap fun c => c.key := by
      rw [List.filterMap_map]
      exact List.filterMap_congr fun c _ => Card.mergeAll_key
    rw [hsame]
    exact hkeyed.keys
  unfold run
  simp only
  rw [commitMerges_alone hperm hkeyed.ids]
  have hwrite := write_views (v := v) (hkeys (deduplicate m items existing adjudicate).merges)
    (canonical_repeatFree m existing adjudicate hrefs)
  simp only [hview] at hwrite
  exact hwrite

theorem mem_keyAmong_iff {view : Option (String × String) × RawItem} :
    keyAmong items view = true ↔ ∃ x ∈ items, x.key ≠ none ∧ x.key = view.1 := by
  unfold keyAmong
  rw [List.any_eq_true]
  simp only [Bool.and_eq_true, decide_eq_true_eq, Option.isSome_iff_ne_none]

/-- A canonical item refreshes the card: nothing matches it at its turn, and the card is its row. -/
def Refreshed (m : Matching) (existing : List Card) (adjudicate : Option Adjudicator)
    (items : List RawItem) (r : Card) : Prop :=
  ∃ pre y post, items = pre ++ y :: post ∧ y.key ≠ none ∧ y.key = r.key ∧
    Unmatched m existing adjudicate (acceptedAfter m existing adjudicate pre) y

theorem refreshed_iff {r : Card} : keyAmong (acceptedAfter m existing adjudicate items) r.view = true ↔
    Refreshed m existing adjudicate items r := by
  rw [mem_keyAmong_iff]
  constructor
  · rintro ⟨c, hc, hsome, hkey⟩
    obtain ⟨pre, y, post, hitems, hbare, hun⟩ := exists_unmatched hc
    have hsame : c.key = y.key := key_of_bare hbare
    exact ⟨pre, y, post, hitems, hsame ▸ hsome, hsame ▸ hkey, hun⟩
  · rintro ⟨pre, y, post, rfl, hsome, hkey, hun⟩
    obtain ⟨c, hc, hbare⟩ := exists_accepted post hun
    have hsame : c.key = y.key := key_of_bare hbare
    exact ⟨c, hc, hsame ▸ hsome, hsame ▸ hkey⟩

/-- A run keeps a clean catalog clean exactly when no unmatched item is a duplicate of a card with its
own URL that the run does not refresh. -/
theorem catalog_clean_iff (hsym : ∀ s t, m.tokenSetRatio s t = m.tokenSetRatio t s)
    (hkeyed : Keyed catalog.rows) (hclean : Clean m catalog.rows)
    (hperm : existing.Perm catalog.rows) (hrefs : (items.map RawItem.ref).Nodup) :
    Clean m (run m v adjudicate items existing catalog).catalog.rows ↔
    ∀ pre x post, items = pre ++ x :: post →
      Unmatched m existing adjudicate (acceptedAfter m existing adjudicate pre) x →
      ∀ r ∈ existing, r.sourceUrl = x.sourceUrl → ¬ Refreshed m existing adjudicate items r →
        ¬ Duplicates m x r.toRawItem := by
  have hviews : ∀ rows : List Card, Clean m rows ↔
      (rows.map Card.view).Pairwise fun a b => ¬ Duplicates m a.2 b.2 := by
    intro rows
    rw [List.pairwise_map]
    rfl
  have hcanonical : ((acceptedAfter m existing adjudicate items).map RawItem.view).Pairwise
      fun a b => ¬ Duplicates m a.2 b.2 := by
    rw [List.pairwise_map]
    exact canonical_clean hsym
  have hkept : ((catalog.rows.map Card.view).filter fun view =>
      !keyAmong (acceptedAfter m existing adjudicate items) view).Pairwise
        fun a b => ¬ Duplicates m a.2 b.2 := ((hviews _).mp hclean).filter _
  rw [hviews, (run_views hkeyed hperm hrefs).pairwise_iff fun h hdup => h (hdup.symm hsym),
    List.pairwise_append]
  constructor
  · rintro ⟨_, _, hcross⟩ pre x post rfl hun r hr _ hleft hdup
    obtain ⟨c, hc, hbare⟩ := exists_accepted post hun
    have hr' : r.view ∈ (catalog.rows.map Card.view).filter fun view =>
        !keyAmong (acceptedAfter m existing adjudicate (pre ++ x :: post)) view := by
      rw [List.mem_filter, Bool.not_eq_true', ← Bool.not_eq_true, refreshed_iff]
      exact ⟨List.mem_map_of_mem (hperm.mem_iff.mp hr), hleft⟩
    have hread : c.read = x.read := read_of_bare hbare
    refine hcross _ hr' _ (List.mem_map_of_mem hc) ?_
    show Duplicates m r.read c.read
    rw [hread, duplicates_read]
    exact hdup.symm hsym
  · intro h
    refine ⟨hkept, hcanonical, ?_⟩
    intro rv hrv cv hcv hdup
    rw [List.mem_filter, Bool.not_eq_true', ← Bool.not_eq_true] at hrv
    obtain ⟨hmem, hleft⟩ := hrv
    obtain ⟨r, hr, rfl⟩ := List.mem_map.mp hmem
    rw [refreshed_iff] at hleft
    obtain ⟨c, hc, rfl⟩ := List.mem_map.mp hcv
    obtain ⟨pre, x, post, hitems, hbare, hun⟩ := exists_unmatched hc
    have hread : c.read = x.read := read_of_bare hbare
    have hxr : Duplicates m x r.toRawItem := by
      have hcr : Duplicates m r.read c.read := hdup
      rw [hread, duplicates_read] at hcr
      exact hcr.symm hsym
    by_cases hurl : r.sourceUrl = x.sourceUrl
    · exact h pre x post hitems hun r (hperm.mem_iff.mpr hr) hurl hleft hxr
    · exact not_duplicates_of_rival hun (hperm.mem_iff.mpr hr) hurl hxr

/-! ## One URL under two sources -/

theorem asciiNames_symm (s t : String) :
    asciiNames.tokenSetRatio s t = asciiNames.tokenSetRatio t s := by
  simp only [asciiNames, eq_comm]

theorem catalog_clean_iff_merged :
    Clean asciiNames (run asciiNames noVoyage none [galaFrom "facebook" "fb/1"] [storedGala]
      oneGala).catalog.rows := by
  have hkeyed : Keyed oneGala.rows := ⟨by decide, by decide⟩
  have hclean : Clean asciiNames oneGala.rows := List.pairwise_singleton _ _
  refine (catalog_clean_iff asciiNames_symm hkeyed hclean (List.Perm.refl _) (by decide)).mpr ?_
  intro pre x post hitems hun
  obtain ⟨rfl, rfl, rfl⟩ := split_singleton hitems
  exact absurd (branch_eq_new_iff.mpr hun) (by decide +kernel)

/-- Another source lists the gala under the very URL of the stored card. -/
theorem catalog_not_clean :
    ¬ ∀ (m : Matching) (v : Voyage) (adjudicate : Option Adjudicator) (items : List RawItem)
      (catalog : Catalog), (∀ s t, m.tokenSetRatio s t = m.tokenSetRatio t s) →
      Sound catalog → Clean m catalog.rows → (items.map RawItem.ref).Nodup →
      Clean m (run m v adjudicate items catalog.rows catalog).catalog.rows := by
  intro h
  have hsound : Sound oneGala := ⟨⟨by decide, by decide⟩, by decide⟩
  have hclean := h asciiNames noVoyage none [galaFrom "facebook" "tm/1"] oneGala asciiNames_symm
    hsound (List.pairwise_singleton _ _) (by decide)
  exact absurd hclean (by decide +kernel)

end WarsawEvents.Ingestion
