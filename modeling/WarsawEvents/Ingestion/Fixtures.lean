import WarsawEvents.Foundations.IsoFormat
import WarsawEvents.Ingestion.Vectors

/-! # Seeding the demo

`backend/app/ingestion/adapters/fixtures.py`, with `normalize` of the pipeline and the keywords of
`taxonomy.py`. The bundled records are a parameter. The name of every fixture begins with a mark; a run over
them writes no row without it.

* `fixture_lasts`: a fixture of a later day has not even begun when it is seeded.
* `seeding_keeps_unmarked`: the cards without the mark are the same after a run, but for their references.
-/

namespace WarsawEvents.Ingestion
open IsoFormat (dayLength)
set_option autoImplicit false

/-! ## `normalize` -/

def categoryKeywords : List (String × List String) :=
  [("party", ["party", "impreza", "rave", "techno", "house music", "clubbing", "club night", "dj set",
      "disco", "afterparty"]),
    ("concert", ["concert", "koncert", "live music", "music festival", "gig", "symphon", "orchestr",
      "filharmoni", "unplugged", "tour 20"]),
    ("exhibition", ["exhibition", "wystawa", "vernissage", "wernisaż", "gallery", "galeria", "biennale"]),
    ("theatre", ["theatre", "theater", "teatr", "spektakl", "stand-up", "standup", "comedy", "kabaret",
      "improv"]),
    ("food", ["food", "restaurant", "restauracj", "kulinar", "degustac", "tasting", "brunch", "wine",
      "craft beer", "targ śniadaniowy"]),
    ("family", ["for kids", "dla dzieci", "family", "rodzinn", "playground", "warsztaty dla"]),
    ("walk", ["city tour", "spacer", "wycieczka", "sightseeing", "bike tour", "biketour", "guided tour"])]

/-- `keyword in text`. -/
def occurs (keyword text : String) : Bool :=
  text.toList.tails.any fun rest => keyword.toList.isPrefixOf rest

/-- The first rule that matches wins. -/
def guessCategory (m : Matching) (name : String) (description : Option String) : Option String :=
  let text := m.lower (name ++ " " ++ description.getD "")
  (categoryKeywords.find? fun rule => rule.2.any fun keyword => occurs keyword text).map Prod.fst

def normalize (m : Matching) (raw : RawItem) : RawItem :=
  if raw.category.isNone then { raw with category := guessCategory m raw.name raw.description } else raw

/-- Nothing raises on the fields of a `RawItem`, so no record is skipped. -/
def normalizeAll (m : Matching) (rawItems : List RawItem) : List RawItem := rawItems.map (normalize m)

/-! ## The adapter -/

/-- `Europe/Warsaw`: what the clock on the wall shows, and the UTC offset of a time that it shows. A day
begins with its midnight, and no later time of the clock is an earlier instant. -/
structure Zone where
  wall : ℤ → ℤ
  offset : ℤ → ℤ
  begins : ∀ day t, day * dayLength - offset (day * dayLength) ≤ t ↔ day ≤ wall t / dayLength
  after : ∀ day w, day * dayLength ≤ w → day * dayLength - offset (day * dayLength) ≤ w - offset w

namespace Fixtures

structure Record where
  name : String
  description : String
  area : String
  category : Option String
  lat : Option ℚ
  lon : Option ℚ
  priceFrom : Option ℚ := none
  priceTo : Option ℚ := none
  imageUrl : Option String := none
  inDays : ℤ
  hour : ℤ
  durationHours : ℤ

def testMarker : String := "⚠ Sample TEST event — demo data, not a real listing."

def hourLength : ℤ := 3600000000

/-- The wall clock at the start: the hour of the day so many days from now. -/
def Record.start (r : Record) (z : Zone) (now : ℤ) : ℤ :=
  (z.wall now + r.inDays * dayLength) / dayLength * dayLength + r.hour % 24 * hourLength

def Record.stop (r : Record) (z : Zone) (now : ℤ) : ℤ := r.start z now + r.durationHours * hourLength

def item (z : Zone) (now : ℤ) (r : Record) (i : ℕ) : RawItem where
  kind := .event
  name := "[TEST] " ++ r.name ++ " — " ++ r.area
  description := some (r.description ++ "\n\n" ++ testMarker)
  category := r.category
  lat := r.lat
  lon := r.lon
  priceFrom := r.priceFrom
  priceTo := r.priceTo
  imageUrl := r.imageUrl
  source := "fixtures"
  sourceUrl := some ("fixtures://test-event/" ++ toString i)
  startsAt := some ⟨r.start z now, z.offset (r.start z now)⟩
  endsAt := some ⟨r.stop z now, z.offset (r.stop z now)⟩

def fetch (z : Zone) (now : ℤ) (records : List Record) : List RawItem :=
  records.zipIdx.map fun r => item z now r.1 r.2

/-- What a run over the records works on. -/
def seeded (m : Matching) (z : Zone) (now : ℤ) (records : List Record) : List RawItem :=
  normalizeAll m (fetch z now records)

/-! ## What is seeded -/

variable {m : Matching} {z : Zone} {now : ℤ} {records : List Record} {r : Record} {x : RawItem} {i : ℕ}

theorem normalize_eq (m : Matching) (raw : RawItem) :
    ∃ category, normalize m raw = { raw with category := category } := by
  unfold normalize
  split_ifs
  · exact ⟨_, rfl⟩
  · exact ⟨raw.category, rfl⟩

theorem mem_seeded (h : x ∈ seeded m z now records) : ∃ r ∈ records, ∃ i category,
    x = { item z now r i with category := category } := by
  obtain ⟨raw, hraw, rfl⟩ := List.mem_map.mp h
  obtain ⟨⟨r, i⟩, hr, rfl⟩ := List.mem_map.mp hraw
  obtain ⟨category, hcategory⟩ := normalize_eq m (item z now r i)
  exact ⟨r, List.fst_mem_of_mem_zipIdx hr, i, category, hcategory⟩

theorem seeded_refs (m : Matching) (z : Zone) (now : ℤ) (records : List Record) :
    ((seeded m z now records).map RawItem.ref).Nodup := by
  have hrefs : (seeded m z now records).map RawItem.ref = (records.zipIdx.map Prod.snd).map fun i =>
      ⟨"fixtures", some ("fixtures://test-event/" ++ toString i)⟩ := by
    unfold seeded normalizeAll fetch
    rw [List.map_map, List.map_map, List.map_map]
    refine List.map_congr_left fun p _ => ?_
    obtain ⟨category, hcategory⟩ := normalize_eq m (item z now p.1 p.2)
    simp only [Function.comp_apply, hcategory]
    rfl
  rw [hrefs, List.zipIdx_map_snd]
  refine List.Nodup.map (fun i j hij => ?_) List.nodup_range'
  have hurl : "fixtures://test-event/" ++ toString i = "fixtures://test-event/" ++ toString j :=
    Option.some.inj (Ref.mk.inj hij).2
  have hdigits : Nat.toDigits 10 i = Nat.toDigits 10 j := by
    have hchars := congrArg String.toList hurl
    rw [String.toList_append, String.toList_append] at hchars
    simpa using List.append_cancel_left hchars
  rw [← Nat.ofDigitChars_ten_toDigits (n := i), hdigits, Nat.ofDigitChars_ten_toDigits]

/-- A fixture of a later day has not even begun when it is seeded. -/
theorem fixture_lasts (z : Zone) (now : ℤ) (r : Record) (hday : 1 ≤ r.inDays) :
    now < r.start z now - z.offset (r.start z now) ∧
      (0 ≤ r.durationHours → now < r.stop z now - z.offset (r.stop z now)) := by
  have hlater : z.wall now / dayLength < z.wall now / dayLength + r.inDays := by omega
  have hmidnight : (z.wall now + r.inDays * dayLength) / dayLength = z.wall now / dayLength + r.inDays :=
    Int.add_mul_ediv_right _ _ (by decide)
  have hstart : (z.wall now / dayLength + r.inDays) * dayLength ≤ r.start z now := by
    unfold Record.start hourLength
    rw [hmidnight]
    omega
  have hnow : now < (z.wall now / dayLength + r.inDays) * dayLength -
      z.offset ((z.wall now / dayLength + r.inDays) * dayLength) :=
    not_le.mp fun hle => absurd ((z.begins _ now).mp hle) (not_le.mpr hlater)
  refine ⟨lt_of_lt_of_le hnow (z.after _ _ hstart), fun hlong => lt_of_lt_of_le hnow (z.after _ _ ?_)⟩
  unfold Record.stop hourLength
  omega

end Fixtures

/-! ## A run over the fixtures -/

def isMarked (x : RawItem) : Bool := "[TEST]".toList.isPrefixOf x.name.toList

/-- The cards without the mark, apart from their references. -/
def unmarked (rows : List Card) : List Card :=
  (rows.filter fun c => !isMarked c.toRawItem).map fun c => c.withSources none

/-- Whatever came from the fixtures is marked. -/
def FixturesMarked (rows : List Card) : Prop := ∀ c ∈ rows, c.source = "fixtures" → isMarked c.toRawItem = true

section Seeding
open Fixtures (Record seeded)
variable {m : Matching} {v : Voyage} {adjudicate : Option Adjudicator} {existing rows : List Card}
  {catalog : Catalog} {z : Zone} {now : ℤ} {records : List Record} {x : RawItem} {items : List RawItem}

theorem isMarked_of_listing {a b : RawItem} (h : a.listing = b.listing) : isMarked a = isMarked b := by
  have hmark : isMarked a.listing = isMarked b.listing := by rw [h]
  exact hmark

theorem seeded_marked (h : x ∈ seeded m z now records) :
    isMarked x = true ∧ x.source = "fixtures" ∧ x.embedding = none := by
  obtain ⟨r, _, i, category, rfl⟩ := Fixtures.mem_seeded h
  refine ⟨?_, rfl, rfl⟩
  unfold isMarked Fixtures.item
  rw [List.isPrefixOf_iff_prefix]
  simp only [String.toList_append, List.append_assoc]
  exact ⟨_, rfl⟩

/-! ## What runs keep -/

theorem mem_canonical (h : x ∈ (deduplicate m items existing adjudicate).canonical) :
    ∃ y ∈ items, x.bare = y.bare := by
  obtain ⟨p, hp⟩ := List.mem_iff_getElem?.mp h
  have hbare : ((acceptedAfter m existing adjudicate items).map RawItem.bare)[p]? = some x.bare := by
    unfold acceptedAfter
    rw [List.getElem?_map, hp]
    rfl
  obtain ⟨pre, y, post, rfl, heq, _⟩ := unmatched_of_acceptedAfter hbare
  exact ⟨y, List.mem_append_right _ List.mem_cons_self, heq⟩

theorem isMarked_of_bare {a b : RawItem} (h : a.bare = b.bare) : isMarked a = isMarked b := by
  have hmark : isMarked a.bare = isMarked b.bare := by rw [h]
  exact hmark

theorem canonical_marked (h : x ∈ (deduplicate m (seeded m z now records) existing adjudicate).canonical) :
    isMarked x = true ∧ x.source = "fixtures" ∧ x.embedding = none := by
  obtain ⟨y, hy, hbare⟩ := mem_canonical h
  obtain ⟨hmark, hsource, hnone⟩ := seeded_marked hy
  have hsame : x.bare.source = y.bare.source := by rw [hbare]
  have hvector : x.bare.embedding = y.bare.embedding := by rw [hbare]
  exact ⟨(isMarked_of_bare hbare).trans hmark, hsame.trans hsource, hvector.trans hnone⟩

/-- Items of another source, or marked. -/
def ItemsMarked (items : List RawItem) : Prop := ∀ x ∈ items, x.source = "fixtures" → isMarked x = true

theorem itemsMarked_canonical (h : ItemsMarked items) :
    ItemsMarked (deduplicate m items existing adjudicate).canonical := by
  intro x hx hsource
  obtain ⟨y, hy, hbare⟩ := mem_canonical hx
  have hsame : x.bare.source = y.bare.source := by rw [hbare]
  rw [isMarked_of_bare hbare]
  exact h y hy (hsame.symm.trans hsource)

theorem itemsMarked_of_listings {written : List RawItem} (h : ItemsMarked items)
    (hfrom : ∀ u ∈ written, ∃ x ∈ items, u.listing = x.listing) : ItemsMarked written := by
  intro u hu hsource
  obtain ⟨x, hx, hlisting⟩ := hfrom u hu
  have hsame : u.listing.source = x.listing.source := by rw [hlisting]
  rw [isMarked_of_listing hlisting]
  exact h x hx (hsame.symm.trans hsource)

theorem fixturesMarked_upsert {fresh : Bool} {catalog' : Catalog} (hsound : Sound catalog)
    (hmarked : FixturesMarked catalog.rows) (hitems : ItemsMarked items)
    (h : upsert items fresh catalog = some catalog') : FixturesMarked catalog'.rows := by
  obtain ⟨written, hperm, hputs⟩ := upsert_puts hsound.keyed.keys h
  intro c hc hsource
  rcases List.mem_append.mp (hperm.mem_iff.mp hc) with hold | hnew
  · exact hmarked c (List.mem_filter.mp hold).1 hsource
  · obtain ⟨x, hx, hput⟩ := SideBySide.exists_left hputs hnew
    have hlisting := listing_of_put hput
    have hsame : c.listing.source = x.listing.source := by rw [hlisting]
    rw [isMarked_of_listing hlisting]
    exact hitems x hx (hsame.symm.trans hsource)

theorem fixturesMarked_write {canonical : List RawItem} (hsound : Sound catalog)
    (hmarked : FixturesMarked catalog.rows) (hitems : ItemsMarked canonical) :
    FixturesMarked (write v canonical catalog).catalog.rows := by
  have hembedded : ItemsMarked (embedded v canonical) := by
    refine itemsMarked_of_listings hitems fun u hu => ?_
    rw [embedded_eq] at hu
    obtain ⟨p, hp, rfl⟩ := List.mem_map.mp hu
    exact ⟨p.1, List.fst_mem_of_mem_zipIdx (List.mem_filter.mp hp).1, withVector_listing p⟩
  have hrest : ItemsMarked (notEmbedded v canonical) := by
    refine itemsMarked_of_listings hitems fun u hu => ?_
    rw [notEmbedded_eq] at hu
    obtain ⟨p, hp, rfl⟩ := List.mem_map.mp hu
    exact ⟨p.1, List.fst_mem_of_mem_zipIdx (List.mem_filter.mp hp).1, rfl⟩
  unfold write
  split
  · exact hmarked
  · next first hfirst =>
    have hmiddle := fixturesMarked_upsert hsound hmarked hembedded hfirst
    split
    · exact hmiddle
    · next second hsecond => exact fixturesMarked_upsert (hsound.upsert hfirst) hmiddle hrest hsecond

theorem unmarked_append (a b : List Card) : unmarked (a ++ b) = unmarked a ++ unmarked b := by
  unfold unmarked
  rw [List.filter_append, List.map_append]

theorem unmarked_mergeAll (merges : List (ℕ × Ref)) (rows : List Card) :
    unmarked (rows.map (Card.mergeAll merges)) = unmarked rows := by
  have hmark : ∀ c : Card, isMarked (c.mergeAll merges).toRawItem = isMarked c.toRawItem := by
    intro c
    rw [Card.mergeAll_eq]
    rfl
  unfold unmarked
  rw [List.filter_map, List.map_map]
  have hfilter : rows.filter ((fun c => !isMarked c.toRawItem) ∘ Card.mergeAll merges) =
      rows.filter fun c => !isMarked c.toRawItem :=
    List.filter_congr fun c _ => by rw [Function.comp_apply, hmark]
  rw [hfilter]
  refine List.map_congr_left fun c _ => ?_
  rw [Function.comp_apply, Card.mergeAll_eq]
  rfl

theorem fixturesMarked_mergeAll (merges : List (ℕ × Ref)) (h : FixturesMarked rows) :
    FixturesMarked (rows.map (Card.mergeAll merges)) := by
  intro c' hc' hsource
  obtain ⟨c, hc, rfl⟩ := List.mem_map.mp hc'
  rw [Card.mergeAll_eq] at hsource ⊢
  exact h c hc hsource

theorem sound_mergeAll (merges : List (ℕ × Ref)) (h : Sound catalog) :
    Sound { catalog with rows := catalog.rows.map (Card.mergeAll merges) } := by
  have hids : (catalog.rows.map (Card.mergeAll merges)).map Card.id = catalog.rows.map Card.id := by
    rw [List.map_map]
    exact List.map_congr_left fun c _ => Card.mergeAll_id
  have hkeys : ((catalog.rows.map (Card.mergeAll merges)).filterMap fun c => c.key) =
      catalog.rows.filterMap fun c => c.key := by
    rw [List.filterMap_map]
    exact List.filterMap_congr fun c _ => Card.mergeAll_key
  refine ⟨⟨hids ▸ h.keyed.ids, hkeys ▸ h.keyed.keys⟩, fun c' hc' => ?_⟩
  obtain ⟨c, hc, rfl⟩ := List.mem_map.mp hc'
  rw [Card.mergeAll_id]
  exact h.below c hc

/-- What is written is marked, and no card without the mark is written over. -/
theorem write_keeps_unmarked (hsound : Sound catalog) (hmarked : FixturesMarked catalog.rows)
    {canonical : List RawItem} (hfree : RepeatFree canonical)
    (hcanonical : ∀ x ∈ canonical, isMarked x = true ∧ x.source = "fixtures" ∧ x.embedding = none) :
    (unmarked (write v canonical catalog).catalog.rows).Perm (unmarked catalog.rows) := by
  obtain ⟨written, hperm, hcarried⟩ :=
    write_carried (v := v) hsound hfree fun x hx => (hcanonical x hx).2.2
  have hwritten : ∀ c ∈ written, isMarked c.toRawItem = true := by
    intro c hc
    obtain ⟨p, hp, hrow⟩ := SideBySide.exists_left hcarried hc
    rw [isMarked_of_listing hrow.listing]
    exact (hcanonical p.1 (List.fst_mem_of_mem_zipIdx hp)).1
  have hnothing : unmarked written = [] := by
    unfold unmarked
    rw [List.map_eq_nil_iff, List.filter_eq_nil_iff]
    intro c hc
    rw [hwritten c hc]
    exact Bool.false_ne_true
  have hrest : unmarked (catalog.rows.filter fun c => !keyAmong canonical c.view) = unmarked catalog.rows := by
    unfold unmarked
    rw [List.filter_filter]
    congr 1
    refine List.filter_congr fun c hc => ?_
    cases hmark : isMarked c.toRawItem with
    | true => rfl
    | false =>
      have hnot : keyAmong canonical c.view = false := by
        rw [← Bool.not_eq_true, mem_keyAmong_iff]
        rintro ⟨x, hx, hsome, hkey⟩
        have hsource : x.source = c.source := congrArg Ref.source ((key_eq_iff_ref_eq hsome).mp hkey)
        rw [hmarked c hc (hsource.symm.trans (hcanonical x hx).2.1)] at hmark
        cases hmark
      rw [hnot]
      rfl
  have hall := (hperm.filter fun c => !isMarked c.toRawItem).map fun c => c.withSources none
  change (unmarked _).Perm (unmarked _) at hall
  rwa [unmarked_append, hnothing, List.append_nil, hrest] at hall

theorem fixturesMarked_run (hsound : Sound catalog) (hperm : existing.Perm catalog.rows)
    (hmarked : FixturesMarked catalog.rows) (hitems : ItemsMarked items) :
    FixturesMarked (run m v adjudicate items existing catalog).catalog.rows := by
  unfold run
  dsimp only
  rw [commitMerges_alone hperm hsound.keyed.ids]
  exact fixturesMarked_write (sound_mergeAll _ hsound) (fixturesMarked_mergeAll _ hmarked)
    (itemsMarked_canonical hitems)

/-- A run over the fixtures leaves every card without the mark as it is, but for the references that are
merged into it. -/
theorem seeding_keeps_unmarked (m : Matching) (v : Voyage) (adjudicate : Option Adjudicator) (z : Zone)
    (now : ℤ) (records : List Record) (hsound : Sound catalog) (hperm : existing.Perm catalog.rows)
    (hmarked : FixturesMarked catalog.rows) :
    (unmarked (run m v adjudicate (seeded m z now records) existing catalog).catalog.rows).Perm
      (unmarked catalog.rows) := by
  have hfree := canonical_repeatFree m existing adjudicate (Fixtures.seeded_refs m z now records)
  have hmerged := sound_mergeAll (deduplicate m (seeded m z now records) existing adjudicate).merges hsound
  unfold run
  dsimp only
  rw [commitMerges_alone hperm hsound.keyed.ids]
  have hwrite := write_keeps_unmarked (v := v) hmerged (fixturesMarked_mergeAll _ hmarked) hfree
    fun x hx => canonical_marked hx
  rwa [unmarked_mergeAll] at hwrite

/-! ## Catalogs that runs have filled -/

/-- One run after the other, from an empty table. No other adapter names its source `fixtures`. -/
inductive Filled : Catalog → Prop
  | empty : Filled { rows := [], nextId := 0 }
  | seeded {m : Matching} {v : Voyage} {adjudicate : Option Adjudicator} {existing : List Card}
      {catalog : Catalog} {z : Zone} {now : ℤ} {records : List Record} : Filled catalog →
      existing.Perm catalog.rows →
      Filled (run m v adjudicate (seeded m z now records) existing catalog).catalog
  | sourced {m : Matching} {v : Voyage} {adjudicate : Option Adjudicator} {existing : List Card}
      {catalog : Catalog} {items : List RawItem} : Filled catalog → existing.Perm catalog.rows →
      (∀ x ∈ items, x.source ≠ "fixtures") → Filled (run m v adjudicate items existing catalog).catalog

theorem Filled.sound (h : Filled catalog) : Sound catalog := by
  induction h with
  | empty => exact ⟨⟨List.nodup_nil, List.nodup_nil⟩, fun c hc => absurd hc List.not_mem_nil⟩
  | seeded _ hperm ih => exact ih.run hperm
  | sourced _ hperm _ ih => exact ih.run hperm

theorem Filled.marked (h : Filled catalog) : FixturesMarked catalog.rows := by
  induction h with
  | empty => exact fun c hc => absurd hc List.not_mem_nil
  | seeded hfilled hperm ih =>
    exact fixturesMarked_run hfilled.sound hperm ih fun x hx _ => (seeded_marked hx).1
  | sourced hfilled hperm hitems ih =>
    exact fixturesMarked_run hfilled.sound hperm ih fun x hx hsource => absurd hsource (hitems x hx)

end Seeding

/-! ## One fixture beside a gala -/

def utcZone : Zone where
  wall t := t
  offset _ := 0
  begins day t := by
    rw [Int.sub_zero, Int.le_ediv_iff_mul_le (by decide)]
  after day w h := by
    rw [Int.sub_zero, Int.sub_zero]
    exact h

def bookBazaar : Fixtures.Record where
  name := "Book Bazaar"
  description := "Browse local stalls."
  area := "Bemowo"
  category := some "market"
  lat := none
  lon := none
  inDays := 1
  hour := 11
  durationHours := 6

def galaNight : Catalog := (run asciiNames noVoyage none [gala "tm/1" 20672] [] { rows := [], nextId := 0 }).catalog

theorem galaNight_filled : Filled galaNight :=
  Filled.sourced Filled.empty (List.Perm.refl _) (by decide)

end WarsawEvents.Ingestion
