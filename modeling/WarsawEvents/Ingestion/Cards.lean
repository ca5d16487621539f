import WarsawEvents.Foundations.KeyedRows
import Mathlib.Data.List.SplitBy
import Mathlib.Data.Rat.Floor

/-! # Cards, and what deduplication reads of them

`RawItem` of `app.ingestion.adapters.base`, the `items` row of `app.catalog.models`, and the reading of
both in `app.ingestion.dedup`: the normalised name, the block, the reference. The Unicode tables of the
interpreter and the scorer of rapidfuzz are parameters.
-/

namespace WarsawEvents.Ingestion
set_option autoImplicit false

/-! ## Rows -/

inductive Kind where
  | event
  | place
  deriving DecidableEq, Repr

/-- An aware datetime, in microseconds: what the clock on the wall shows, and its UTC offset. -/
structure Datetime where
  wall : ℤ
  offset : ℤ := 0
  deriving DecidableEq, Repr

/-- `date()`: the day of the wall clock, counted from the epoch. -/
def Datetime.date (d : Datetime) : ℤ := d.wall / 86400000000

/-- The instant that an aware datetime stands for, on the clock of UTC. -/
def Datetime.instant (d : Datetime) : ℤ := d.wall - d.offset

/-- One entry of a `sources` list. -/
structure Ref where
  source : String
  sourceUrl : Option String
  deriving DecidableEq, Repr

structure RawItem where
  kind : Kind
  name : String
  source : String
  description : Option String := none
  category : Option String := none
  lat : Option ℚ := none
  lon : Option ℚ := none
  priceFrom : Option ℚ := none
  priceTo : Option ℚ := none
  imageUrl : Option String := none
  sourceUrl : Option String := none
  startsAt : Option Datetime := none
  endsAt : Option Datetime := none
  isPermanent : Bool := false
  openingHours : Option (List (String × String)) := none
  embedding : Option (List ℚ) := none
  sources : Option (List Ref) := none
  deriving DecidableEq

/-- The `items` row. -/
structure Card extends RawItem where
  id : ℕ
  deriving DecidableEq

/-- The table, with the supply of `gen_random_uuid()`. -/
abbrev Catalog := KeyedRows.Rows Card

def RawItem.ref (item : RawItem) : Ref := { source := item.source, sourceUrl := item.sourceUrl }

/-- The columns of `uq_items_source_url`; with a NULL among them nothing conflicts. -/
def RawItem.key (item : RawItem) : Option (String × String) :=
  item.sourceUrl.map fun url => (item.source, url)

/-- `item.sources or []`. -/
def RawItem.refs (item : RawItem) : List Ref := item.sources.getD []

/-- The primary key and `uq_items_source_url`. -/
structure Keyed (cards : List Card) : Prop where
  ids : (cards.map Card.id).Nodup
  keys : (cards.filterMap fun c => c.key).Nodup

/-- The item's own row is stored. -/
def Known (cards : List Card) (x : RawItem) : Prop := x.key ≠ none ∧ ∃ c ∈ cards, c.key = x.key

theorem Keyed.perm {cards cards' : List Card} (h : Keyed cards) (hperm : cards'.Perm cards) : Keyed cards' where
  ids := (hperm.map Card.id).nodup_iff.mpr h.ids
  keys := (hperm.filterMap fun c => c.key).nodup_iff.mpr h.keys

theorem Keyed.eq_of_key {cards : List Card} (h : Keyed cards) {c d : Card} (hc : c ∈ cards) (hd : d ∈ cards)
    (hsome : c.key ≠ none) (hkey : c.key = d.key) : c = d := by
  by_contra hne
  obtain ⟨k, hk⟩ := Option.ne_none_iff_exists'.mp hsome
  have hkeys := List.pairwise_filterMap.mp h.keys
  have hsymm : Std.Symm fun a b : Card => ∀ k, a.key = some k → ∀ l, b.key = some l → k ≠ l :=
    ⟨fun a b hab k hk l hl hsame => hab l hl k hk hsame.symm⟩
  exact hkeys.forall hc hd hne k hk k (hkey.symm.trans hk) rfl

theorem key_eq_iff_ref_eq {a b : RawItem} (h : a.key ≠ none) : a.key = b.key ↔ a.ref = b.ref := by
  unfold RawItem.key at h ⊢
  unfold RawItem.ref
  rw [Ref.mk.injEq]
  cases ha : a.sourceUrl with
  | none => simp [ha] at h
  | some u =>
    cases hb : b.sourceUrl with
    | none => simp
    | some v => simp

/-! ## The normalised name -/

/-- What the matcher takes from outside: `unicodedata.normalize("NFKD", _)`,
`unicodedata.combining`, `str.lower` and `fuzz.token_set_ratio`. -/
structure Matching where
  nfkd : String → String
  combining : Char → Bool
  lower : String → String
  tokenSetRatio : String → String → ℚ

def stroke (c : Char) : Char :=
  if c = 'ł' || c = 'Ł' then 'l'
  else if c = 'ø' || c = 'Ø' then 'o'
  else if c = 'đ' || c = 'Đ' then 'd'
  else c

def noise : List String :=
  ["warsaw", "warszawa", "poland", "polska", "pl", "official", "save", "date"]

/-- The complement of the class in `re.sub(r"[^a-z0-9 ]+", " ", _)`. -/
def keptChar (c : Char) : Bool := ('a' ≤ c && c ≤ 'z') || ('0' ≤ c && c ≤ '9') || c = ' '

/-- `str.isdigit` of a token, which has ASCII letters and digits only. -/
def isDigits (token : String) : Bool := token.toList.all fun c => '0' ≤ c && c ≤ '9'

/-- `text.split()`, of a text whose only blank is the space. -/
def splitBlanks (text : String) : List String :=
  ((text.toList.splitOnP fun c => c = ' ').filter fun t => !t.isEmpty).map String.ofList

variable (m : Matching)

def normalizeName (name : String) : String :=
  let text := m.nfkd (name.map stroke)
  let text := text.toList.filter fun c => !m.combining c
  let text := (m.lower (String.ofList text)).map fun c => if keptChar c then c else ' '
  let tokens := (splitBlanks text).filter fun t => !noise.contains t && !isDigits t
  " ".intercalate tokens

/-- Names in ASCII, matched when they are equal. -/
def asciiNames : Matching where
  nfkd := id
  combining _ := false
  lower s := s.map Char.toLower
  tokenSetRatio a b := if a = b then 100 else 0

example : normalizeName asciiNames "The Weeknd - Warsaw 2026" = "the weeknd" := by decide +kernel

/-! ## Blocks -/

/-- The tuples of `block_key`. -/
inductive BlockKey where
  | day (date : ℤ)
  | geo (lat lon : ℤ)
  | name (start : String)
  deriving DecidableEq

/-- Rounding to the nearest integer, ties to the even one. -/
def roundHalfEven (x : ℚ) : ℤ :=
  let low := x.floor
  if x - low < 1 / 2 then low
  else if 1 / 2 < x - low then low + 1
  else if low % 2 = 0 then low else low + 1

/-- `round(x, 3)`, in thousandths. -/
def round3 (x : ℚ) : ℤ := roundHalfEven (x * 1000)

def blockKey (item : RawItem) : BlockKey :=
  match item.startsAt, item.lat, item.lon with
  | some t, _, _ => .day t.date
  | none, some lat, some lon => .geo (round3 lat) (round3 lon)
  | none, _, _ => .name (String.ofList ((normalizeName m item.name).toList.take 4))

end WarsawEvents.Ingestion
