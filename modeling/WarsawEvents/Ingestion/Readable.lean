import WarsawEvents.Ingestion.Adapters

/-! # The records that `_to_raw_item` does not raise on

For each adapter, the exact demands on the fields of a record, in the order in which it reads them: a
field is looked at only when what was read before it does not already rule the record out.
-/

namespace WarsawEvents.Ingestion
open Json (Text Value ascii)
open Search (PyNum PyFloat)
set_option autoImplicit false

variable {δ : Type} (py : Platform δ)

/-! ## Facebook events -/

namespace Facebook

/-- Neither cancelled nor past nor online. -/
def Considered (event : PyValue) : Prop :=
  truthy (field event "isCanceled") = false ∧ truthy (field event "isPast") = false ∧
    truthy (field event "isOnline") = false

/-- A date that is no number, or a timestamp within the range of the host's clock. -/
def Datable (v : PyValue) : Prop :=
  ∀ x, number v = some x → ∃ s, seconds py x = .ok s ∧ (py.fromTimestamp s).isOk = true

/-- Considered, and with a name, a link and a date. -/
def Usable (event : PyValue) : Prop :=
  Considered event ∧ (∃ c cs, stripped (field event "name") = .ok (c :: cs)) ∧
    truthy (field event "url") = true ∧
    ∃ startsAt, parseDt py (field event "utcStartDate") = .ok (some startsAt)

def location (event : PyValue) : PyValue := orElse (field event "location") (.obj [])

def latitude (event : PyValue) : PyValue := field (location event) "latitude"

def longitude (event : PyValue) : PyValue := field (location event) "longitude"

/-- One of the two is missing, or they are numbers as far as they are compared. -/
def Placeable (lat lon : PyValue) : Prop :=
  isNull lat = false → isNull lon = false →
    number lat ≠ none ∧ (between latBounds lat = .ok true → number lon ≠ none)

/-- The categories up to the first that has a counterpart are objects, whose labels can be keys. -/
def Labelled : List PyValue → Prop
  | [] => True
  | cat :: cats => isObject cat = true ∧ hashable (field cat "label") = true ∧
      (lookup categoryByLabel (field cat "label") = .ok none → Labelled cats)

structure Readable (event : PyValue) : Prop where
  object : isObject event = true
  name : Considered event → Textual (field event "name")
  date : Considered event → Datable py (field event "utcStartDate")
  location : Usable py event → isObject (location event) = true
  coordinates : Usable py event → Placeable (latitude event) (longitude event)
  description : Usable py event → inWarsaw (latitude event) (longitude event) = .ok true →
    Textual (field event "description")
  categories : Usable py event → inWarsaw (latitude event) (longitude event) = .ok true →
    ∃ cats, elements (orElse (field event "discoveryCategories") (.arr [])) = .ok cats ∧
      Labelled cats

variable {py} {event v lat lon : PyValue}

theorem parseDt_isOk_iff : (parseDt py v).isOk = true ↔ Datable py v := by
  unfold parseDt Datable
  cases hnum : number v with
  | none => split <;> simp
  | some x =>
    have hnull : isNull v = false := by
      cases v <;> simp_all [number, isNull]
    rw [if_neg (by simp [hnull])]
    simp only [bind_isOk_iff, pure_isOk, Option.some.injEq, forall_eq']
    rw [isOk_iff_exists]
    constructor
    · rintro ⟨⟨s, hs⟩, h⟩
      exact ⟨s, hs, (h s hs).1⟩
    · rintro ⟨s, hs, h⟩
      refine ⟨⟨s, hs⟩, fun s' hs' => ⟨?_, fun _ _ => trivial⟩⟩
      rw [hs] at hs'
      cases hs'
      exact h

theorem between_isOk_iff {bounds : PyNum ℚ × PyNum ℚ} :
    (between bounds v).isOk = true ↔ number v ≠ none := by
  unfold between
  cases number v <;> simp

theorem inWarsaw_isOk_iff : (inWarsaw lat lon).isOk = true ↔ Placeable lat lon := by
  unfold inWarsaw Placeable
  by_cases hnull : (isNull lat || isNull lon) = true
  · rw [if_pos hnull]
    simp only [ok_isOk, true_iff]
    intro hlat hlon
    simp [hlat, hlon] at hnull
  · rw [if_neg hnull]
    rw [Bool.not_eq_true, Bool.or_eq_false_iff] at hnull
    rw [bind_isOk_iff, between_isOk_iff]
    simp only [hnull.1, hnull.2, forall_const]
    refine and_congr_right fun _ => ?_
    constructor
    · intro h hin
      have hlon := h true hin
      rwa [if_pos rfl, between_isOk_iff] at hlon
    · intro h inside hin
      cases inside with
      | false => rfl
      | true => exact between_isOk_iff.mpr (h hin)

theorem categoryOf_isOk_iff {cats : List PyValue} :
    (categoryOf cats).isOk = true ↔ Labelled cats := by
  induction cats with
  | nil => simp [categoryOf, Labelled]
  | cons cat cats ih =>
    unfold categoryOf Labelled
    rw [bind_isOk_iff, get_isOk]
    by_cases hobj : isObject cat = true
    · simp only [get_eq hobj, Except.ok.injEq, forall_eq', bind_isOk_iff, lookup_isOk]
      refine and_congr_right fun _ => and_congr_right fun _ => ?_
      constructor
      · intro h hnone
        exact ih.mp (h none hnone)
      · intro h mapped hmapped
        cases mapped with
        | none => exact ih.mpr (h hmapped)
        | some mapped => rfl
    · simp [hobj]

theorem category_isOk_iff (hobj : isObject event = true) : (category event).isOk = true ↔
    ∃ cats, elements (orElse (field event "discoveryCategories") (.arr [])) = .ok cats ∧
      Labelled cats := by
  unfold category
  rw [get_eq hobj, ok_bind, bind_isOk_iff, isOk_iff_exists]
  simp only [categoryOf_isOk_iff]
  constructor
  · rintro ⟨⟨cats, hcats⟩, h⟩
    exact ⟨cats, hcats, h cats hcats⟩
  · rintro ⟨cats, hcats, h⟩
    refine ⟨⟨cats, hcats⟩, fun cats' hcats' => ?_⟩
    rw [hcats] at hcats'
    cases hcats'
    exact h

variable (py event) in
/-- `_to_raw_item` from the location on, for an event with a name, a link and a date. -/
def located (name : Text) (startsAt : δ) : Py (Option (Fetched δ)) := do
  let lat ← get (location event) "latitude"
  let lon ← get (location event) "longitude"
  if !(← inWarsaw lat lon) then pure none
  else
    let description := orNone ((← stripped (field event "description")).take 800)
    let venue ← get (location event) "name"
    pure (some {
      name := name
      source := ascii "facebook_events"
      description := ofText (withVenue py venue description)
      category := ← category event
      lat := lat
      lon := lon
      imageUrl := field event "imageUrl"
      sourceUrl := field event "url"
      startsAt := startsAt })

theorem located_isOk_iff (hobj : isObject event = true) {name : Text} {startsAt : δ} :
    (located py event name startsAt).isOk = true ↔ isObject (location event) = true ∧
      Placeable (latitude event) (longitude event) ∧
      (inWarsaw (latitude event) (longitude event) = .ok true →
        Textual (field event "description") ∧
        ∃ cats, elements (orElse (field event "discoveryCategories") (.arr [])) = .ok cats ∧
          Labelled cats) := by
  unfold located
  rw [bind_isOk_iff, get_isOk]
  refine and_congr_right fun hloc => ?_
  simp only [get_eq hloc, ok_bind, Except.ok.injEq, forall_eq', bind_isOk_iff]
  change (inWarsaw (latitude event) (longitude event)).isOk = true ∧ _ ↔ _
  rw [inWarsaw_isOk_iff]
  refine and_congr_right fun _ => ?_
  constructor
  · intro h hin
    have hrest := h true hin
    rw [if_neg (by simp), bind_isOk_iff, stripped_isOk_iff] at hrest
    obtain ⟨htext, hcategory⟩ := hrest
    obtain ⟨text, htext'⟩ := isOk_iff_exists.mp (stripped_isOk_iff.mpr htext)
    have hitem := hcategory text htext'
    rw [bind_isOk_iff, category_isOk_iff hobj] at hitem
    exact ⟨htext, hitem.1⟩
  · intro h inside hin
    cases inside with
    | false => rfl
    | true =>
      obtain ⟨htext, hcats⟩ := h hin
      rw [if_neg (by simp), bind_isOk_iff, stripped_isOk_iff]
      refine ⟨htext, fun text _ => ?_⟩
      rw [bind_isOk_iff, category_isOk_iff hobj]
      exact ⟨hcats, fun _ _ => rfl⟩

theorem toRawItem_of_not_considered (hobj : isObject event = true) (h : ¬ Considered event) :
    toRawItem py event = .ok none := by
  unfold toRawItem
  simp only [get_eq hobj, ok_bind]
  refine if_pos ?_
  unfold Considered at h
  simp only [Bool.or_eq_true]
  by_contra hnone
  simp only [not_or, Bool.not_eq_true] at hnone
  exact h ⟨hnone.1.1, hnone.1.2, hnone.2⟩

theorem toRawItem_of_considered (hobj : isObject event = true) (h : Considered event) :
    toRawItem py event = (do
      let name ← stripped (field event "name")
      match ← parseDt py (field event "utcStartDate") with
      | none => pure none
      | some startsAt =>
        if name.isEmpty || !truthy (field event "url") then pure none
        else located py event name startsAt) := by
  unfold toRawItem
  simp only [get_eq hobj, ok_bind]
  rw [if_neg (by simp [h.1, h.2.1, h.2.2])]
  rfl

/-- `_to_raw_item` raises on no other records. -/
theorem toRawItem_isOk_iff : (toRawItem py event).isOk = true ↔ Readable py event := by
  by_cases hobj : isObject event = true
  · by_cases hcons : Considered event
    · rw [toRawItem_of_considered hobj hcons, bind_isOk_iff, stripped_isOk_iff]
      simp only [bind_isOk_iff, parseDt_isOk_iff]
      constructor
      · rintro ⟨hname, h⟩
        obtain ⟨name, hstripped⟩ := isOk_iff_exists.mp (stripped_isOk_iff.mpr hname)
        have hlocated : Usable py event → ∃ name startsAt,
            (located py event name startsAt).isOk = true := by
          rintro ⟨_, ⟨c, cs, hc⟩, hurl, startsAt, hdate⟩
          have hrest := (h (c :: cs) hc).2 (some startsAt) hdate
          simp only [hurl] at hrest
          exact ⟨c :: cs, startsAt, hrest⟩
        refine ⟨hobj, fun _ => hname, fun _ => (h name hstripped).1, fun hu => ?_, fun hu => ?_,
          fun hu hin => ?_, fun hu hin => ?_⟩
        all_goals
          obtain ⟨name, startsAt, hok⟩ := hlocated hu
          obtain ⟨hloc, hplace, hrest⟩ := (located_isOk_iff hobj).mp hok
        · exact hloc
        · exact hplace
        · exact (hrest hin).1
        · exact (hrest hin).2
      · intro r
        refine ⟨r.name hcons, fun name hname => ⟨r.date hcons, fun date hdate => ?_⟩⟩
        cases date with
        | none => rfl
        | some startsAt =>
          simp only
          split
          · rfl
          · next hkeep =>
            simp only [Bool.or_eq_true, not_or, Bool.not_eq_true, Bool.not_eq_true',
              Bool.not_eq_false] at hkeep
            obtain ⟨hnonempty, hurl⟩ := hkeep
            have hu : Usable py event := by
              refine ⟨hcons, ?_, hurl, startsAt, hdate⟩
              cases name with
              | nil => cases hnonempty
              | cons c cs => exact ⟨c, cs, hname⟩
            refine (located_isOk_iff hobj).mpr ⟨r.location hu, r.coordinates hu, fun hin => ?_⟩
            exact ⟨r.description hu hin, r.categories hu hin⟩
    · rw [toRawItem_of_not_considered hobj hcons]
      simp only [ok_isOk, true_iff]
      exact ⟨hobj, fun h => absurd h hcons, fun h => absurd h hcons, fun h => absurd h.1 hcons,
        fun h => absurd h.1 hcons, fun h => absurd h.1 hcons, fun h => absurd h.1 hcons⟩
  · have hraises : (toRawItem py event).isOk = false := by
      cases event with
      | obj ms => exact absurd rfl hobj
      | _ => rfl
    rw [hraises]
    exact ⟨nofun, fun r => absurd r.object hobj⟩

end Facebook

/-! ## Ticketmaster -/

namespace Ticketmaster

def dates (event : PyValue) : PyValue := fieldD event "dates" (.obj [])

def startOf (event : PyValue) : PyValue := fieldD (dates event) "start" (.obj [])

/-- With a name, a link and a date. -/
def Usable (event : PyValue) : Prop :=
  (∃ c cs, stripped (field event "name") = .ok (c :: cs)) ∧ truthy (field event "url") = true ∧
    ∃ startsAt, start py (startOf event) = .ok (some startsAt)

def embedded (event : PyValue) : PyValue := fieldD event "_embedded" (.obj [])

/-- The first venue, or an object without members; null where neither can be had. -/
def venue (event : PyValue) : PyValue :=
  match first (orElse (field (embedded event) "venues") (.arr [.obj []])) with
  | .ok v => v
  | .error _ => .null

/-- An int beyond the greatest double. -/
def Overflows (v : PyValue) : Prop := ∃ z, number v = some (.int z) ∧ py.double z = none

/-- The coordinates are no ints beyond the greatest double, as far as they are converted. -/
def Convertible (location : PyValue) : Prop :=
  ∀ ms lat, location = .obj ms → member "latitude" ms = some lat → ¬ Overflows py lat ∧
    ((toFloat py lat).isOk = true → ∀ lon, member "longitude" ms = some lon → ¬ Overflows py lon)

/-- The first price range is an object. -/
def Priced (priceRanges : PyValue) : Prop :=
  truthy priceRanges = true → ∃ range, first priceRanges = .ok range ∧ isObject range = true

/-- The first classification is an object, its segment another, whose name can be a key. -/
def Classified (classifications : PyValue) : Prop :=
  truthy classifications = true → ∃ c, first classifications = .ok c ∧ isObject c = true ∧
    isObject (orElse (field c "segment") (.obj [])) = true ∧
    hashable (field (orElse (field c "segment") (.obj [])) "name") = true

def isWideImage (image : PyValue) : Bool :=
  isText "16_9" (field image "ratio") && truthy (field image "url")

/-- The images to choose from. -/
def pool (images : List PyValue) : List PyValue :=
  let wide := images.filter isWideImage
  if wide.isEmpty then images.filter fun image => truthy (field image "url") else wide

/-- The images are objects, and the widths of those to choose from can be compared. -/
def Pictured (images : PyValue) : Prop :=
  truthy images = true → ∃ is, elements images = .ok is ∧ (∀ image ∈ is, isObject image = true) ∧
    ∀ best rest, pool is = best :: rest → (widest best rest).isOk = true

structure Readable (event : PyValue) : Prop where
  object : isObject event = true
  name : Textual (field event "name")
  dates : isObject (dates event) = true
  start : isObject (startOf event) = true
  embedded : Usable py event → isObject (embedded event) = true
  venue : Usable py event → isObject (venue event) = true
  location : Usable py event → Convertible py (field (Ticketmaster.venue event) "location")
  price : Usable py event → Priced (field event "priceRanges")
  info : Usable py event → Textual (field event "info")
  classifications : Usable py event → Classified (field event "classifications")
  images : Usable py event → Pictured (field event "images")

variable {py} {event v w : PyValue}

theorem start_isOk : (start py v).isOk = isObject v := by
  unfold start
  by_cases hobj : isObject v = true
  · simp only [get_eq hobj, ok_bind]
    rw [hobj]
    split <;> rfl
  · cases v with
    | obj ms => exact absurd rfl hobj
    | _ => rfl

/-- A conversion that raises something else than what `_coords` catches. -/
theorem toFloat_overflows_iff : toFloat py v = .error .overflowError ↔ Overflows py v := by
  unfold toFloat Overflows
  split
  · next hx => simp [hx]
  · next z hz =>
    rw [hz]
    cases hdouble : py.double z with
    | none => simp [hdouble]
    | some x =>
      simp only [reduceCtorEq, Option.some.injEq, PyNum.int.injEq, false_iff]
      rintro ⟨z', rfl, hnone⟩
      rw [hdouble] at hnone
      cases hnone
  · next hnum =>
    rw [hnum]
    split <;> simp
  · next hnum => simp [hnum]

theorem toFloat_error {e : PyError} (h : toFloat py v = .error e) :
    e = .overflowError ∨ e = .typeError ∨ e = .valueError := by
  unfold toFloat at h
  split at h
  · cases h
  · split at h
    · cases h
    · cases h
      exact Or.inl rfl
  · split at h
    · cases h
    · cases h
      exact Or.inr (Or.inr rfl)
  · cases h
    exact Or.inr (Or.inl rfl)

theorem floats_isOk_iff {ms : List (Text × PyValue)} :
    (floats py ms).isOk = true ↔ Convertible py (.obj ms) := by
  unfold floats Convertible subscript
  cases hlat : member "latitude" ms with
  | none =>
    simp only [bind, Except.bind, ok_isOk, true_iff]
    rintro ms' lat hms hsome
    cases hms
    rw [hlat] at hsome
    cases hsome
  | some lat =>
    have hiff : (∀ ms' lat', (Value.obj ms : PyValue) = .obj ms' →
        member "latitude" ms' = some lat' → ¬ Overflows py lat' ∧
          ((toFloat py lat').isOk = true →
            ∀ lon, member "longitude" ms' = some lon → ¬ Overflows py lon)) ↔
        ¬ Overflows py lat ∧ ((toFloat py lat).isOk = true →
          ∀ lon, member "longitude" ms = some lon → ¬ Overflows py lon) := by
      constructor
      · intro h
        exact h ms lat rfl hlat
      · rintro h ms' lat' hms hsome
        cases hms
        rw [hlat] at hsome
        cases hsome
        exact h
    rw [hiff]
    simp only [ok_bind]
    cases hx : toFloat py lat with
    | error e =>
      rw [← toFloat_overflows_iff, hx]
      rcases toFloat_error hx with rfl | rfl | rfl <;> simp [bind, Except.bind]
    | ok x =>
      have hlatitude : ¬ Overflows py lat := by
        rw [← toFloat_overflows_iff, hx]
        exact nofun
      simp only [ok_bind, hlatitude, not_false_eq_true, true_and, ok_isOk, true_implies]
      cases hlon : member "longitude" ms with
      | none => simp [bind, Except.bind]
      | some lon =>
        simp only [ok_bind, Option.some.injEq, forall_eq']
        rw [← toFloat_overflows_iff]
        cases hy : toFloat py lon with
        | ok y => simp
        | error e => rcases toFloat_error hy with rfl | rfl | rfl <;> simp [bind, Except.bind]

theorem coords_isOk_iff : (coords py v).isOk = true ↔ Convertible py v := by
  cases v with
  | obj ms =>
    unfold coords
    rw [bind_isOk_iff, floats_isOk_iff]
    refine and_iff_left_of_imp fun _ place _ => ?_
    cases place with
    | none => rfl
    | some place =>
      simp only
      split <;> rfl
  | _ =>
    refine ⟨fun _ ms lat hms => ?_, fun _ => rfl⟩
    cases hms

theorem price_isOk_iff : (price v).isOk = true ↔ Priced v := by
  unfold price Priced
  cases truthy v with
  | false => simp
  | true =>
    rw [if_pos rfl, bind_isOk_iff, isOk_iff_exists]
    simp only [true_implies]
    constructor
    · rintro ⟨⟨range, hrange⟩, h⟩
      have hget := h range hrange
      rw [bind_isOk_iff, get_isOk] at hget
      exact ⟨range, hrange, hget.1⟩
    · rintro ⟨range, hrange, hobj⟩
      refine ⟨⟨range, hrange⟩, fun range' hsame => ?_⟩
      rw [hrange] at hsame
      cases hsame
      simp only [get_eq hobj, ok_bind, pure_isOk]

theorem category_isOk_iff : (category v).isOk = true ↔ Classified v := by
  unfold category Classified
  cases truthy v with
  | false => simp
  | true =>
    rw [if_pos rfl]
    simp only [bind_isOk_iff, get_isOk, lookup_isOk, true_implies]
    rw [isOk_iff_exists]
    constructor
    · rintro ⟨⟨c, hc⟩, h⟩
      obtain ⟨hobj, hrest⟩ := h c hc
      obtain ⟨hsegment, hname⟩ := hrest _ (get_eq hobj)
      exact ⟨c, hc, hobj, hsegment, hname _ (get_eq hsegment)⟩
    · rintro ⟨c, hc, hobj, hsegment, hname⟩
      refine ⟨⟨c, hc⟩, fun c' hsame => ?_⟩
      rw [hc] at hsame
      cases hsame
      refine ⟨hobj, fun segment hget => ?_⟩
      rw [get_eq hobj] at hget
      cases hget
      refine ⟨hsegment, fun name hget => ?_⟩
      rw [get_eq hsegment] at hget
      cases hget
      exact hname

/-! ### The image -/

theorem keepIf_isOk_iff {keep : PyValue → Py Bool} {images : List PyValue}
    (h : ∀ image, (keep image).isOk = isObject image) :
    (keepIf keep images).isOk = true ↔ ∀ image ∈ images, isObject image = true := by
  induction images with
  | nil => simp [keepIf]
  | cons image images ih =>
    unfold keepIf
    rw [bind_isOk_iff, h, List.forall_mem_cons, ← ih]
    refine and_congr_right fun hobj => ?_
    obtain ⟨kept, hkept⟩ := isOk_iff_exists.mp ((h image).trans hobj)
    simp only [hkept, Except.ok.injEq, forall_eq', bind_isOk_iff, pure_isOk]
    exact ⟨fun hrest => hrest.1, fun hrest => ⟨hrest, fun _ _ => trivial⟩⟩

theorem keepIf_eq {keep : PyValue → Py Bool} {kept : PyValue → Bool} {images : List PyValue}
    (h : ∀ image, isObject image = true → keep image = .ok (kept image))
    (hobj : ∀ image ∈ images, isObject image = true) :
    keepIf keep images = .ok (images.filter kept) := by
  induction images with
  | nil => rfl
  | cons image images ih =>
    rw [List.forall_mem_cons] at hobj
    unfold keepIf
    rw [h image hobj.1, ok_bind, ih hobj.2, ok_bind, List.filter_cons]
    rfl

theorem isWide_eq (h : isObject v = true) : isWide v = .ok (isWideImage v) := by
  unfold isWide isWideImage
  simp only [get_eq h, ok_bind]
  cases isText "16_9" (field v "ratio") <;> rfl

theorem isWide_isOk : (isWide v).isOk = isObject v := by
  cases hobj : isObject v with
  | true => rw [isWide_eq hobj, ok_isOk]
  | false =>
    cases v with
    | obj ms => cases hobj
    | _ => rfl

theorem hasUrl_eq (h : isObject v = true) : hasUrl v = .ok (truthy (field v "url")) := by
  unfold hasUrl
  rw [get_eq h]
  rfl

/-- The best image is one of the pool. -/
theorem mem_of_widest {best image : PyValue} {images : List PyValue}
    (h : widest best images = .ok image) : image ∈ best :: images := by
  induction images generalizing best with
  | nil =>
    cases h
    exact List.mem_singleton_self _
  | cons next images ih =>
    unfold widest at h
    obtain ⟨w, hw, h⟩ := bind_eq_ok_iff.mp h
    obtain ⟨b, hb, h⟩ := bind_eq_ok_iff.mp h
    obtain ⟨wider, _, h⟩ := bind_eq_ok_iff.mp h
    cases wider with
    | true => exact List.mem_cons_of_mem _ (ih h)
    | false =>
      rcases List.mem_cons.mp (ih h) with rfl | hrest
      · exact List.mem_cons_self
      · exact List.mem_cons_of_mem _ (List.mem_cons_of_mem _ hrest)

theorem isObject_of_mem_pool {images : List PyValue}
    (hobj : ∀ image ∈ images, isObject image = true) {image : PyValue} (h : image ∈ pool images) :
    isObject image = true := by
  unfold pool at h
  simp only at h
  split at h <;> exact hobj image (List.mem_filter.mp h).1

/-- The link of the widest of some images. -/
def chosenFrom : List PyValue → Py PyValue
  | [] => pure .null
  | best :: rest => do get (← widest best rest) "url"

theorem image_eq (htrue : truthy v = true) {images : List PyValue}
    (himages : elements v = .ok images) (hobj : ∀ image ∈ images, isObject image = true) :
    image v = chosenFrom (pool images) := by
  unfold image pool
  rw [if_pos htrue, himages]
  simp only [ok_bind]
  rw [keepIf_eq (fun _ => isWide_eq) hobj, ok_bind, keepIf_eq (fun _ => hasUrl_eq) hobj]
  by_cases hwide : (images.filter isWideImage).isEmpty = true
  · rw [if_pos hwide, if_pos hwide, ok_bind]
    cases images.filter fun image => truthy (field image "url") <;> rfl
  · rw [if_neg hwide, if_neg hwide, pure_bind]
    cases images.filter isWideImage <;> rfl

theorem image_isOk_iff : (image v).isOk = true ↔ Pictured v := by
  unfold Pictured
  cases htrue : truthy v with
  | false => simp [image, htrue]
  | true =>
    simp only [true_implies]
    cases himages : elements v with
    | error e => simp [image, htrue, himages, bind, Except.bind]
    | ok images =>
      simp only [Except.ok.injEq, exists_eq_left']
      by_cases hobj : ∀ image ∈ images, isObject image = true
      · rw [image_eq htrue himages hobj]
        have hpool : ∀ image ∈ pool images, isObject image = true :=
          fun image h => isObject_of_mem_pool hobj h
        cases hp : pool images with
        | nil => exact ⟨fun _ => ⟨hobj, fun _ _ h => nomatch h⟩, fun _ => rfl⟩
        | cons best rest =>
          unfold chosenFrom
          rw [bind_isOk_iff]
          simp only [List.cons.injEq, and_imp, forall_apply_eq_imp_iff, forall_eq']
          constructor
          · intro h
            exact ⟨hobj, h.1⟩
          · intro h
            refine ⟨h.2, fun chosen hchosen => ?_⟩
            rw [get_isOk]
            exact hpool chosen (hp ▸ mem_of_widest hchosen)
      · have hraises : (image v).isOk = false := by
          rw [← Bool.not_eq_true, image, if_pos htrue, himages, ok_bind, bind_isOk_iff,
            keepIf_isOk_iff fun _ => isWide_isOk]
          exact fun h => hobj h.1
        rw [hraises]
        exact ⟨nofun, fun h => absurd h.1 hobj⟩

/-! ### The whole record -/

variable (py event) in
/-- `_to_raw_item` from the venue on, for an event with a name, a link and a date. -/
def located (name : Text) (startsAt : δ) : Py (Option (Fetched δ)) := do
  let venues ← get (embedded event) "venues"
  let venue ← first (orElse venues (.arr [.obj []]))
  let (lat, lon) ← coords py (← get venue "location")
  let (priceFrom, priceTo) ← price (field event "priceRanges")
  let venueName ← get venue "name"
  let info := orNone (← stripped (field event "info"))
  pure (some {
    name := name
    source := ascii "ticketmaster"
    description := describe py venueName info
    category := ← category (field event "classifications")
    lat := lat
    lon := lon
    priceFrom := priceFrom
    priceTo := priceTo
    imageUrl := ← image (field event "images")
    sourceUrl := field event "url"
    startsAt := startsAt })

theorem located_isOk_iff {name : Text} {startsAt : δ} :
    (located py event name startsAt).isOk = true ↔ isObject (embedded event) = true ∧
      isObject (venue event) = true ∧ Convertible py (field (venue event) "location") ∧
      Priced (field event "priceRanges") ∧ Textual (field event "info") ∧
      Classified (field event "classifications") ∧ Pictured (field event "images") := by
  unfold located venue
  rw [bind_isOk_iff, get_isOk]
  refine and_congr_right fun hembedded => ?_
  simp only [get_eq hembedded, Except.ok.injEq, forall_eq']
  cases hfirst : first (orElse (field (embedded event) "venues") (.arr [.obj []])) with
  | error e => simp [bind, Except.bind, isObject]
  | ok v =>
    rw [ok_bind, bind_isOk_iff, get_isOk]
    refine and_congr_right fun hvenue => ?_
    simp only [get_eq hvenue, Except.ok.injEq, forall_eq', ok_bind]
    rw [← coords_isOk_iff, ← price_isOk_iff, ← stripped_isOk_iff, ← category_isOk_iff,
      ← image_isOk_iff, bind_isOk_iff]
    cases coords py (field v "location") with
    | error e => simp
    | ok place =>
      cases price (field event "priceRanges") with
      | error e => simp [bind, Except.bind]
      | ok range =>
        cases stripped (field event "info") with
        | error e => simp [bind, Except.bind]
        | ok info =>
          cases category (field event "classifications") with
          | error e => simp [bind, Except.bind]
          | ok mapped =>
            cases image (field event "images") with
            | error e => simp [bind, Except.bind]
            | ok url => simp

theorem toRawItem_of_isObject (hobj : isObject event = true) :
    toRawItem py event = (do
      let name ← stripped (field event "name")
      match ← start py (← getD (dates event) "start" (.obj [])) with
      | none => pure none
      | some startsAt =>
        if name.isEmpty || !truthy (field event "url") then pure none
        else located py event name startsAt) := by
  unfold toRawItem located
  simp only [get_eq hobj, getD_eq hobj, ok_bind]
  rfl

/-- `_to_raw_item` raises on no other records. -/
theorem toRawItem_isOk_iff : (toRawItem py event).isOk = true ↔ Readable py event := by
  by_cases hobj : isObject event = true
  · rw [toRawItem_of_isObject hobj, bind_isOk_iff, stripped_isOk_iff]
    simp only [bind_isOk_iff, getD_isOk, start_isOk]
    constructor
    · rintro ⟨hname, h⟩
      obtain ⟨name, hstripped⟩ := isOk_iff_exists.mp (stripped_isOk_iff.mpr hname)
      obtain ⟨hdates, hstart⟩ := h name hstripped
      have hlocated : Usable py event → ∃ name startsAt,
          (located py event name startsAt).isOk = true := by
        rintro ⟨⟨c, cs, hc⟩, hurl, startsAt, hdate⟩
        have hrest := ((h (c :: cs) hc).2 _ (getD_eq hdates _)).2 (some startsAt) hdate
        simp only [hurl] at hrest
        exact ⟨c :: cs, startsAt, hrest⟩
      have hall : Usable py event → _ := fun hu =>
        (hlocated hu).elim fun name h => h.elim fun startsAt h => located_isOk_iff.mp h
      exact ⟨hobj, hname, hdates, (hstart _ (getD_eq hdates _)).1, fun hu => (hall hu).1,
        fun hu => (hall hu).2.1, fun hu => (hall hu).2.2.1, fun hu => (hall hu).2.2.2.1,
        fun hu => (hall hu).2.2.2.2.1, fun hu => (hall hu).2.2.2.2.2.1,
        fun hu => (hall hu).2.2.2.2.2.2⟩
    · intro r
      refine ⟨r.name, fun name hname => ⟨r.dates, fun value hvalue => ?_⟩⟩
      rw [getD_eq r.dates] at hvalue
      cases hvalue
      refine ⟨r.start, fun date hdate => ?_⟩
      cases date with
      | none => rfl
      | some startsAt =>
        simp only
        split
        · rfl
        · next hkeep =>
          simp only [Bool.or_eq_true, not_or, Bool.not_eq_true, Bool.not_eq_true',
            Bool.not_eq_false] at hkeep
          obtain ⟨hnonempty, hurl⟩ := hkeep
          have hu : Usable py event := by
            refine ⟨?_, hurl, startsAt, hdate⟩
            cases name with
            | nil => cases hnonempty
            | cons c cs => exact ⟨c, cs, hname⟩
          exact located_isOk_iff.mpr ⟨r.embedded hu, r.venue hu, r.location hu, r.price hu,
            r.info hu, r.classifications hu, r.images hu⟩
  · have hraises : (toRawItem py event).isOk = false := by
      cases event with
      | obj ms => exact absurd rfl hobj
      | _ => rfl
    rw [hraises]
    exact ⟨nofun, fun r => absurd r.object hobj⟩

end Ticketmaster

end WarsawEvents.Ingestion
