import WarsawEvents.Ingestion.Cards
import WarsawEvents.Ingestion.PyJson

/-! # The two adapters that read a third party's JSON

`app.ingestion.adapters.facebook_events` and `app.ingestion.adapters.ticketmaster`. Neither catches
what its `_to_raw_item` raises.
-/

namespace WarsawEvents.Ingestion
open Json (Text Value ascii)
open Search (PyNum PyFloat)
set_option autoImplicit false

/-- What `_to_raw_item` puts into a `RawItem`, whose annotations nothing enforces; the other fields
have their defaults. -/
structure Fetched (δ : Type) where
  kind : Kind := .event
  name : Text
  source : Text
  description : PyValue
  category : Option Text
  lat : PyValue
  lon : PyValue
  priceFrom : PyValue := .null
  priceTo : PyValue := .null
  imageUrl : PyValue
  sourceUrl : PyValue
  startsAt : δ
  isPermanent : Bool := false

variable {δ : Type} (py : Platform δ)

/-- `datetime.fromisoformat(str(v).replace("Z", "+00:00"))`, and None where that raises
`ValueError`. -/
def isoDate (v : PyValue) : Option δ := py.fromIsoformat (replaceZ (str py v))

def ofText : Option Text → PyValue
  | some s => .str s
  | none => .null

/-- Both loops over the records of a response: an item that is not None is appended. -/
def collect (toRawItem : PyValue → Py (Option (Fetched δ))) : List PyValue → Py (List (Fetched δ))
  | [] => .ok []
  | event :: events => do
    let item ← toRawItem event
    let items ← collect toRawItem events
    pure (item.toList ++ items)

/-! ## Facebook events -/

namespace Facebook

/-- `WARSAW_BBOX`; the bounds are the doubles nearest to 51.9, 52.4, 20.7 and 21.4. -/
def latBounds : PyNum ℚ × PyNum ℚ :=
  (.float (.finite (7304275645641523 / 140737488355328)),
    .float (.finite (7374644389819187 / 140737488355328)))

def lonBounds : PyNum ℚ × PyNum ℚ :=
  (.float (.finite (5826532017910579 / 281474976710656)),
    .float (.finite (3011782250804019 / 140737488355328)))

def categoryByLabel : List (String × String) :=
  [("Music", "concert"), ("Party", "party"), ("Art", "exhibition"), ("Theater", "theatre"),
    ("Comedy", "theatre"), ("Food & Drink", "food")]

/-- `low <= v <= high`. -/
def between (bounds : PyNum ℚ × PyNum ℚ) (v : PyValue) : Py Bool :=
  match number v with
  | some x => .ok (numLe bounds.1 x && numLe x bounds.2)
  | none => .error .typeError

def isNull : PyValue → Bool
  | .null => true
  | _ => false

def inWarsaw (lat lon : PyValue) : Py Bool :=
  if isNull lat || isNull lon then .ok false
  else do
    if ← between latBounds lat then between lonBounds lon else pure false

/-- The loop of `_category`. -/
def categoryOf : List PyValue → Py (Option Text)
  | [] => .ok none
  | cat :: cats => do
    match ← lookup categoryByLabel (← get cat "label") with
    | some mapped => pure (some mapped)
    | none => categoryOf cats

def category (event : PyValue) : Py (Option Text) := do
  categoryOf (← elements (orElse (← get event "discoveryCategories") (.arr [])))

/-- Epoch in ms if it's too large to be seconds. -/
def seconds (x : PyNum ℚ) : Py (PyNum ℚ) :=
  if numLt (.float (.finite 100000000000)) x then divBy py x 1000 else .ok x

def parseDt (v : PyValue) : Py (Option δ) :=
  if isNull v then .ok none
  else
    match number v with
    | some x => do
      pure (some (← py.fromTimestamp (← seconds py x)))
    | none => .ok (isoDate py v)

/-- The description of a card, with the name of its venue. -/
def withVenue (venue : PyValue) (description : Option Text) : Option Text :=
  if truthy venue then
    description.map fun text => ascii "Venue: " ++ (str py venue ++ (ascii ". " ++ text))
  else description

def toRawItem (event : PyValue) : Py (Option (Fetched δ)) := do
  if truthy (← get event "isCanceled") || truthy (← get event "isPast") ||
      truthy (← get event "isOnline") then pure none
  else
    let name ← stripped (← get event "name")
    let url ← get event "url"
    match ← parseDt py (← get event "utcStartDate") with
    | none => pure none
    | some startsAt =>
      if name.isEmpty || !truthy url then pure none
      else
        let location := orElse (← get event "location") (.obj [])
        let lat ← get location "latitude"
        let lon ← get location "longitude"
        if !(← inWarsaw lat lon) then pure none
        else
          let description := orNone ((← stripped (← get event "description")).take 800)
          let venue ← get location "name"
          pure (some {
            name := name
            source := ascii "facebook_events"
            description := ofText (withVenue py venue description)
            category := ← category event
            lat := lat
            lon := lon
            imageUrl := ← get event "imageUrl"
            sourceUrl := url
            startsAt := startsAt })

/-- `fetch`, with or without a token, and with what the request to the actor came to. -/
def fetch (token : Bool) (response : Py PyValue) : Py (List (Fetched δ)) :=
  if !token then .error .runtimeError
  else do
    collect (toRawItem py) (← elements (← response))

end Facebook

/-! ## Ticketmaster -/

namespace Ticketmaster

def maxEvents : ℕ := 150

def maxRetries : ℕ := 3

def segmentCategory : List (String × String) :=
  [("Music", "concert"), ("Arts & Theatre", "theatre")]

def start (v : PyValue) : Py (Option δ) := do
  let value := orElse (← get v "dateTime") (← get v "localDate")
  if truthy value then pure (isoDate py value) else pure none

/-- The two conversions of `_coords`, and the errors it catches. -/
def floats (ms : List (Text × PyValue)) : Py (Option (PyFloat ℚ × PyFloat ℚ)) :=
  let both : Py (PyFloat ℚ × PyFloat ℚ) := do
    let lat ← toFloat py (← subscript ms "latitude")
    let lon ← toFloat py (← subscript ms "longitude")
    pure (lat, lon)
  match both with
  | .ok place => .ok (some place)
  | .error .keyError | .error .typeError | .error .valueError => .ok none
  | .error e => .error e

def coords (location : PyValue) : Py (PyValue × PyValue) :=
  match location with
  | .obj ms => do
    match ← floats py ms with
    | some (lat, lon) =>
      if absGt lat 90 || absGt lon 180 then pure (.null, .null)
      else pure (.num (.float lat), .num (.float lon))
    | none => pure (.null, .null)
  | _ => .ok (.null, .null)

def price (priceRanges : PyValue) : Py (PyValue × PyValue) :=
  if truthy priceRanges then do
    let range ← first priceRanges
    pure (← get range "min", ← get range "max")
  else .ok (.null, .null)

def category (classifications : PyValue) : Py (Option Text) :=
  if truthy classifications then do
    let segment ← get (← first classifications) "segment"
    lookup segmentCategory (← get (orElse segment (.obj [])) "name")
  else .ok none

def width (image : PyValue) : Py PyValue := getD image "width" (.num (.int 0))

/-- `max(pool, key=width)`, from the best image so far. -/
def widest (best : PyValue) : List PyValue → Py PyValue
  | [] => .ok best
  | image :: images => do
    if ← greater (← width image) (← width best) then widest image images else widest best images

def isWide (image : PyValue) : Py Bool := do
  if isText "16_9" (← get image "ratio") then pure (truthy (← get image "url")) else pure false

def hasUrl (image : PyValue) : Py Bool := do
  pure (truthy (← get image "url"))

/-- `[i for i in images if keep(i)]`. -/
def keepIf (keep : PyValue → Py Bool) : List PyValue → Py (List PyValue)
  | [] => .ok []
  | image :: images => do
    let kept ← keep image
    let rest ← keepIf keep images
    pure (if kept then image :: rest else rest)

def image (images : PyValue) : Py PyValue :=
  if truthy images then do
    let wide ← keepIf isWide (← elements images)
    let pool ← if wide.isEmpty then keepIf hasUrl (← elements images) else pure wide
    match pool with
    | [] => pure .null
    | best :: rest => get (← widest best rest) "url"
  else .ok .null

/-- The description of a card, from the name of its venue and the event's own text. -/
def describe (venueName : PyValue) (info : Option Text) : PyValue :=
  match info with
  | some info =>
    if truthy venueName then .str (str py venueName ++ (ascii ". " ++ info)) else .str info
  | none => venueName

def toRawItem (event : PyValue) : Py (Option (Fetched δ)) := do
  let name ← stripped (← get event "name")
  let url ← get event "url"
  match ← start py (← getD (← getD event "dates" (.obj [])) "start" (.obj [])) with
  | none => pure none
  | some startsAt =>
    if name.isEmpty || !truthy url then pure none
    else
      let venues ← get (← getD event "_embedded" (.obj [])) "venues"
      let venue ← first (orElse venues (.arr [.obj []]))
      let (lat, lon) ← coords py (← get venue "location")
      let (priceFrom, priceTo) ← price (← get event "priceRanges")
      let venueName ← get venue "name"
      let info := orNone (← stripped (← get event "info"))
      pure (some {
        name := name
        source := ascii "ticketmaster"
        description := describe py venueName info
        category := ← category (← get event "classifications")
        lat := lat
        lon := lon
        priceFrom := priceFrom
        priceTo := priceTo
        imageUrl := ← image (← get event "images")
        sourceUrl := url
        startsAt := startsAt })

/-- What one request comes to. -/
inductive Attempt where
  | transportError
  | answered (status : ℕ) (body : Py PyValue)

/-- `_get_page`, whose attempts the server answers in turn. -/
def getPage (server : ℕ → ℕ → Attempt) (page attempt : ℕ) : ℕ → Py PyValue
  | 0 => .error .runtimeError
  | left + 1 =>
    match server page attempt with
    | .transportError => getPage server page (attempt + 1) left
    | .answered status body =>
      if status < 500 then
        if 200 ≤ status ∧ status < 300 then body else .error .httpStatusError
      else getPage server page (attempt + 1) left

/-- `page + 1 >= page_info.get("totalPages", 0)`. -/
def isLast (page : ℕ) (payload : PyValue) : Py Bool := do
  let total ← getD (← getD payload "page" (.obj [])) "totalPages" (.num (.int 0))
  match number total with
  | some x => pure (numLe x (.int (page + 1)))
  | none => .error .typeError

/-- The `while` loop of `fetch`; none while it has not ended within this many pages. -/
def readPages (server : ℕ → ℕ → Attempt) :
    ℕ → ℕ → List (Fetched δ) → Option (Py (List (Fetched δ)))
  | fuel, page, items =>
    if maxEvents ≤ items.length then some (.ok items)
    else
      match fuel with
      | 0 => none
      | fuel + 1 =>
        let read : Py (Option (List (Fetched δ) × Bool)) := do
          let payload ← getPage server page 0 maxRetries
          let events ← getD (← getD payload "_embedded" (.obj [])) "events" (.arr [])
          if truthy events then
            let found ← collect (toRawItem py) (← elements events)
            pure (some (found, ← isLast page payload))
          else pure none
        match read with
        | .error e => some (.error e)
        | .ok none => some (.ok items)
        | .ok (some (found, true)) => some (.ok (items ++ found))
        | .ok (some (found, false)) => readPages server fuel (page + 1) (items ++ found)

def fetch (apiKey : Bool) (server : ℕ → ℕ → Attempt) (fuel : ℕ) :
    Option (Py (List (Fetched δ))) :=
  if !apiKey then some (.error .runtimeError)
  else (readPages py server fuel 0 []).map fun items => items.map fun items => items.take maxEvents

end Ticketmaster

end WarsawEvents.Ingestion
