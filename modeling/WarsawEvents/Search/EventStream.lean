import Mathlib.Data.Int.Notation
import Mathlib.Data.List.Perm.Basic
import Mathlib.Data.List.Nodup
import Mathlib.Tactic.Tauto
import WarsawEvents.Foundations.Chase
import WarsawEvents.Foundations.Framing
import WarsawEvents.Foundations.Json
import WarsawEvents.Foundations.PyText

/-! # The event stream of a search

`backend/app/api/routes.py`, `event_stream`, over `backend/app/llm/rerank.py`.

The re-ranker is a generator over a stream of model text: it yields candidates with blurbs and may raise
between any two of them. `Reranking items` is what the stream's consumer can see of one run;
`rerankStream` reads the model's lines and `rerank` shows that its runs are such.

* `event_stream_well_formed`: intent, cards without repetition, done; a failed re-ranking is completed
  in retrieval order, a successful one is passed on as it is.
-/

namespace WarsawEvents.Search
open Json (Text Value ascii)
set_option autoImplicit false

/-! ## Cards -/

/-- A Python float: a finite double or one of the three that JSON has no number for. -/
inductive PyFloat (φ : Type) where
  | finite (x : φ)
  | nan
  | inf
  | negInf

/-- What Python and JavaScript agree on about the text of a finite double. -/
structure Doubles (φ : Type) where
  /-- `float.__repr__`. -/
  repr : φ → Text
  /-- The nearest double of a number token; none beyond the greatest. -/
  read : Text → Option φ
  isZero : φ → Bool
  isNumber_repr : ∀ x, Json.isNumber (repr x) = true
  read_repr : ∀ x, read (repr x) = some x

variable {φ β : Type}

/-- The columns that `ItemOut` shows; the two timestamps as the texts that pydantic writes. -/
structure Item (φ : Type) where
  id : ℕ
  kind : Text
  name : Text
  description : Option Text
  category : Option Text
  priceFrom : Option (PyFloat φ)
  priceTo : Option (PyFloat φ)
  imageUrl : Option Text
  source : Text
  sourceUrl : Option Text
  startsAt : Option Text
  endsAt : Option Text
  isPermanent : Bool

structure Intent (φ : Type) where
  onTopic : Bool
  categories : List Text
  dateFrom : Option Text
  dateTo : Option Text
  budgetMax : Option (PyFloat φ)
  area : Option Text
  freeText : Text

inductive Event (φ β : Type) where
  | intent (intent : Intent φ)
  | card (item : Item φ) (blurb : Option β)
  | done

/-! ## The re-ranker -/

inductive PyNum (φ : Type) where
  | int (z : ℤ)
  | float (x : PyFloat φ)

/-- What `json.loads` does with a line. -/
inductive Loaded (φ : Type) where
  | value (v : Value (PyNum φ))
  | decodeError
  /-- Another exception, such as too many digits or too deep a nesting. -/
  | raised

/-- The dialect of `json.loads`: a token without a fraction or an exponent is an `int`. -/
def pyDialect (D : Doubles φ) : Json.Dialect (PyNum φ) where
  number t :=
    if t.all fun c => Json.isDigit c || c == 0x2d then
      match t with
      | 0x2d :: digits => some (.int (-(Json.digitsValue digits : ℤ)))
      | digits => some (.int (Json.digitsValue digits))
    else
      match D.read t with
      | some x => some (.float (.finite x))
      | none => some (.float (if t.head? = some 0x2d then .negInf else .inf))
  constants := [(ascii "NaN", .float .nan), (ascii "Infinity", .float .inf),
    (ascii "-Infinity", .float .negInf)]
  joinsPairs := true

/-- `json.loads` within its limits on digits and nesting. -/
def jsonLoads (D : Doubles φ) (line : Text) : Loaded φ :=
  match Json.read (pyDialect D) line with
  | some v => .value v
  | none => .decodeError

/-- The text pieces of the model's stream, and whether it raises after the last one. -/
structure ModelStream where
  pieces : List Text
  fails : Bool

/-- `line.strip().rstrip(",")`. -/
def trimmed (line : Text) : Text :=
  ((PyText.trim line).reverse.dropWhile (· == 0x2c)).reverse

/-- `obj.get(key)`. -/
def dictGet (key : Text) (ms : List (Text × Value (PyNum φ))) : Value (PyNum φ) :=
  (Chase.dict ms key).getD .null

/-- `isinstance(n, int)`, which `True` and `False` pass as 1 and 0. -/
def asInt : Value (PyNum φ) → Option ℤ
  | .num (.int z) => some z
  | .bool b => some (if b then 1 else 0)
  | _ => none

/-- `value or ""`. -/
def orEmpty (isZero : φ → Bool) : Value (PyNum φ) → Value (PyNum φ)
  | .null => .str []
  | .bool false => .str []
  | .num (.int 0) => .str []
  | .num (.float (.finite x)) => if isZero x then .str [] else .num (.float (.finite x))
  | .arr [] => .str []
  | .obj [] => .str []
  | v => v

section
variable (loads : Text → Loaded φ) (isZero : φ → Bool) (items : List (Item φ))

/-- The pair of one line, if it has one, and the numbers seen; none when an exception leaves it. -/
def parseLine (line : Text) (seen : List ℤ) :
    Option (Option (Item φ × Value (PyNum φ)) × List ℤ) :=
  if (trimmed line).head? ≠ some 0x7b then some (none, seen)
  else
    match loads (trimmed line) with
    | .decodeError => some (none, seen)
    | .raised => none
    | .value (.obj ms) =>
      match asInt (dictGet (ascii "n") ms) with
      | none => some (none, seen)
      | some n =>
        if ¬ (1 ≤ n ∧ n ≤ items.length) ∨ n ∈ seen then some (none, seen)
        else
          items[(n - 1).toNat]?.map fun item =>
            (some (item, orEmpty isZero (dictGet (ascii "blurb") ms)), n :: seen)
    | .value _ => none

/-- The pairs of some lines, and the numbers seen unless an exception cut them short. -/
def parseLines : List Text → List ℤ → List (Item φ × Value (PyNum φ)) × Option (List ℤ)
  | [], seen => ([], some seen)
  | line :: lines, seen =>
    match parseLine loads isZero items line seen with
    | none => ([], none)
    | some (pair, seen) =>
      let rest := parseLines lines seen
      (pair.toList ++ rest.1, rest.2)

/-- `for text in stream.text_stream`: every whole line of the buffer is parsed as it comes. -/
def readPieces : List Text → Text → List ℤ →
    List (Item φ × Value (PyNum φ)) × Option (Text × List ℤ)
  | [], buffer, seen => ([], some (buffer, seen))
  | piece :: pieces, buffer, seen =>
    let lines := Framing.frames [0x0a] (buffer ++ piece)
    match parseLines loads isZero items lines.1 seen with
    | (pairs, none) => (pairs, none)
    | (pairs, some seen) =>
      let rest := readPieces pieces lines.2 seen
      (pairs ++ rest.1, rest.2)

/-- The pairs yielded, and whether the generator raised after them. -/
def rerankStream (m : ModelStream) : List (Item φ × Value (PyNum φ)) × Bool :=
  if items.isEmpty then ([], false)
  else
    match readPieces loads isZero items m.pieces [] [] with
    | (pairs, none) => (pairs, true)
    | (pairs, some (buffer, seen)) =>
      if m.fails then (pairs, true)
      else
        -- the trailing line without a newline
        let last := parseLines loads isZero items [buffer] seen
        (pairs ++ last.1, last.2.isNone)

end

/-- One run of a re-ranker over `items`, as the event stream sees it. -/
structure Reranking (items : List (Item φ)) (β : Type) where
  yields : List (Item φ × β)
  raises : Bool
  candidates : ∀ p ∈ yields, p.1 ∈ items
  distinct : (yields.map fun p => p.1.id).Nodup

/-! ## The stream -/

def rawCards (items : List (Item φ)) : List (Event φ β) := items.map fun item => .card item none

/-- The loop over the re-ranker's pairs and its `except`, with the ids emitted so far. -/
def rerankedCards (items : List (Item φ)) (raises : Bool) :
    List (Item φ × β) → List ℕ → List (Event φ β)
  | [], emitted => if raises then rawCards (items.filter fun item => item.id ∉ emitted) else []
  | (item, blurb) :: pairs, emitted =>
    .card item (some blurb) :: rerankedCards items raises pairs (item.id :: emitted)

/-- `settings.anthropic_api_key and items`. -/
def asksReranker (key : Bool) (items : List (Item φ)) : Bool := key && !items.isEmpty

def eventStream (key : Bool) (intent : Intent φ) (items : List (Item φ)) (r : Reranking items β) :
    List (Event φ β) :=
  .intent intent ::
    ((if asksReranker key items then rerankedCards items r.raises r.yields [] else rawCards items)
      ++ [.done])

/-! ## The pairs of one run are distinct candidates -/

/-- The number that the model is told for a position. -/
def number (n : ℕ) : ℤ := n + 1

/-- The pairs show the items at positions whose numbers were not seen, no position twice. -/
def Picks (items : List (Item φ)) (seen : List ℤ) (pairs : List (Item φ × β)) (ns : List ℕ) : Prop :=
  List.Forall₂ (fun n p => items[n]? = some p.1) ns pairs ∧ ns.Nodup ∧ ∀ n ∈ ns, number n ∉ seen

/-- `after` holds the numbers of `ns` and those of `seen`. -/
def Extends (seen after : List ℤ) (ns : List ℕ) : Prop :=
  ∀ z, z ∈ after ↔ z ∈ ns.map number ∨ z ∈ seen

theorem Extends.number_mem {seen after : List ℤ} {ns : List ℕ} (h : Extends seen after ns) {n : ℕ} :
    number n ∈ after ↔ n ∈ ns ∨ number n ∈ seen := by
  have hinj : Function.Injective number := by
    intro a b hab
    unfold number at hab
    omega
  rw [h, List.mem_map_of_injective hinj]

theorem Picks.nil (items : List (Item φ)) (seen : List ℤ) :
    Picks (β := β) items seen [] [] :=
  ⟨List.Forall₂.nil, List.nodup_nil, by simp⟩

theorem Picks.append {items : List (Item φ)} {seen after : List ℤ} {pairs more : List (Item φ × β)}
    {ns ms : List ℕ} (h : Picks items seen pairs ns) (hafter : Extends seen after ns)
    (hmore : Picks items after more ms) : Picks items seen (pairs ++ more) (ns ++ ms) := by
  obtain ⟨hpairs, hns, hfresh⟩ := h
  obtain ⟨hpairs', hms, hfresh'⟩ := hmore
  have hout : ∀ m ∈ ms, m ∉ ns ∧ number m ∉ seen := by
    intro m hm
    have hnot := hfresh' m hm
    rw [hafter.number_mem, not_or] at hnot
    exact hnot
  refine ⟨List.rel_append hpairs hpairs', ?_, ?_⟩
  · rw [List.nodup_append]
    refine ⟨hns, hms, ?_⟩
    intro n hn m hm heq
    subst heq
    exact (hout n hm).1 hn
  · intro n hn
    obtain hold | hnew := List.mem_append.mp hn
    · exact hfresh n hold
    · exact (hout n hnew).2

theorem Extends.refl (seen : List ℤ) : Extends seen seen [] := by
  intro z
  simp

theorem Extends.trans {seen mid after : List ℤ} {ns ms : List ℕ} (h : Extends seen mid ns)
    (h' : Extends mid after ms) : Extends seen after (ns ++ ms) := by
  intro z
  rw [h' z, h z, List.map_append, List.mem_append]
  tauto

section
variable {loads : Text → Loaded φ} {isZero : φ → Bool} {items : List (Item φ)}

variable (loads isZero items) in
/-- A line raises, passes by, or gives the candidate of a number that was not seen. -/
theorem parseLine_cases (line : Text) (seen : List ℤ) :
    parseLine loads isZero items line seen = none ∨
      parseLine loads isZero items line seen = some (none, seen) ∨
      ∃ n item blurb, 1 ≤ n ∧ n ∉ seen ∧ items[(n - 1).toNat]? = some item ∧
        parseLine loads isZero items line seen = some (some (item, blurb), n :: seen) := by
  unfold parseLine
  split
  next => exact Or.inr (Or.inl rfl)
  next =>
    split
    next => exact Or.inr (Or.inl rfl)
    next => exact Or.inl rfl
    next ms _ =>
      split
      next => exact Or.inr (Or.inl rfl)
      next n _ =>
        split
        next => exact Or.inr (Or.inl rfl)
        next hgood =>
          rw [not_or, not_not] at hgood
          obtain ⟨⟨hlow, hhigh⟩, hfresh⟩ := hgood
          have hlt : (n - 1).toNat < items.length := by omega
          have hitem := List.getElem?_eq_getElem hlt
          refine Or.inr (Or.inr ⟨n, items[(n - 1).toNat], orEmpty isZero (dictGet (ascii "blurb") ms),
            hlow, hfresh, hitem, ?_⟩)
          rw [hitem, Option.map_some]
    next => exact Or.inl rfl

theorem parseLine_picks {line : Text} {seen after : List ℤ}
    {pair : Option (Item φ × Value (PyNum φ))}
    (h : parseLine loads isZero items line seen = some (pair, after)) :
    ∃ ns, Picks items seen pair.toList ns ∧ Extends seen after ns := by
  obtain hraised | hpassed | ⟨n, item, blurb, hlow, hfresh, hitem, htaken⟩ :=
    parseLine_cases loads isZero items line seen
  · rw [hraised] at h
    simp at h
  · rw [hpassed] at h
    simp only [Option.some.injEq, Prod.mk.injEq] at h
    obtain ⟨rfl, rfl⟩ := h
    exact ⟨[], Picks.nil items seen, Extends.refl seen⟩
  · rw [htaken] at h
    simp only [Option.some.injEq, Prod.mk.injEq] at h
    obtain ⟨rfl, rfl⟩ := h
    have hn : number (n - 1).toNat = n := by
      unfold number
      omega
    refine ⟨[(n - 1).toNat], ⟨?_, List.nodup_singleton _, ?_⟩, ?_⟩
    · exact List.Forall₂.cons hitem List.Forall₂.nil
    · rw [List.forall_mem_singleton, hn]
      exact hfresh
    · intro z
      rw [List.map_singleton, hn, List.mem_cons, List.mem_singleton]

variable (loads isZero items) in
theorem parseLines_picks (lines : List Text) (seen : List ℤ) :
    ∃ ns, Picks items seen (parseLines loads isZero items lines seen).1 ns ∧
      ∀ after, (parseLines loads isZero items lines seen).2 = some after →
        Extends seen after ns := by
  induction lines generalizing seen with
  | nil =>
    refine ⟨[], Picks.nil items seen, ?_⟩
    intro after hafter
    simp only [parseLines, Option.some.injEq] at hafter
    subst hafter
    exact Extends.refl seen
  | cons line lines ih =>
    rw [parseLines]
    cases hline : parseLine loads isZero items line seen with
    | none => exact ⟨[], Picks.nil items seen, by simp⟩
    | some r =>
      obtain ⟨pair, mid⟩ := r
      obtain ⟨ns, hpicks, hmid⟩ := parseLine_picks hline
      obtain ⟨ms, hmore, hafter⟩ := ih mid
      refine ⟨ns ++ ms, hpicks.append hmid hmore, ?_⟩
      intro after h
      exact hmid.trans (hafter after h)

variable (loads isZero items) in
theorem readPieces_picks (pieces : List Text) (buffer : Text) (seen : List ℤ) :
    ∃ ns, Picks items seen (readPieces loads isZero items pieces buffer seen).1 ns ∧
      ∀ rest, (readPieces loads isZero items pieces buffer seen).2 = some rest →
        Extends seen rest.2 ns := by
  induction pieces generalizing buffer seen with
  | nil =>
    refine ⟨[], Picks.nil items seen, ?_⟩
    intro rest hrest
    simp only [readPieces, Option.some.injEq] at hrest
    subst hrest
    exact Extends.refl seen
  | cons piece pieces ih =>
    rw [readPieces]
    obtain ⟨ns, hpicks, hmid⟩ := parseLines_picks loads isZero items
      (Framing.frames [0x0a] (buffer ++ piece)).1 seen
    cases hlines : parseLines loads isZero items (Framing.frames [0x0a] (buffer ++ piece)).1 seen with
    | mk pairs mid =>
      rw [hlines] at hpicks hmid
      cases mid with
      | none => exact ⟨ns, hpicks, by simp⟩
      | some mid =>
        obtain ⟨ms, hmore, hrest⟩ := ih (Framing.frames [0x0a] (buffer ++ piece)).2 mid
        refine ⟨ns ++ ms, hpicks.append (hmid mid rfl) hmore, ?_⟩
        intro rest h
        exact (hmid mid rfl).trans (hrest rest h)

variable (loads isZero items) in
theorem rerankStream_picks (m : ModelStream) :
    ∃ ns, Picks items [] (rerankStream loads isZero items m).1 ns := by
  unfold rerankStream
  split
  next => exact ⟨[], Picks.nil items []⟩
  next =>
    obtain ⟨ns, hpicks, hrest⟩ := readPieces_picks loads isZero items m.pieces [] []
    cases hread : readPieces loads isZero items m.pieces [] [] with
    | mk pairs rest =>
      rw [hread] at hpicks hrest
      cases rest with
      | none => exact ⟨ns, hpicks⟩
      | some rest =>
        obtain ⟨buffer, seen⟩ := rest
        simp only
        split
        next => exact ⟨ns, hpicks⟩
        next =>
          obtain ⟨ms, hlast, _⟩ := parseLines_picks loads isZero items [buffer] seen
          exact ⟨ns ++ ms, hpicks.append (hrest _ rfl) hlast⟩

theorem Picks.mem {seen : List ℤ} {pairs : List (Item φ × β)} {ns : List ℕ}
    (h : Picks items seen pairs ns) : ∀ p ∈ pairs, p.1 ∈ items := by
  obtain ⟨hpairs, -⟩ := h
  induction hpairs with
  | nil => simp
  | cons hhead _ ih =>
    exact List.forall_mem_cons.mpr ⟨List.mem_of_getElem? hhead, ih⟩

theorem Picks.ids_nodup (hids : (items.map Item.id).Nodup) {seen : List ℤ}
    {pairs : List (Item φ × β)} {ns : List ℕ} (h : Picks items seen pairs ns) :
    (pairs.map fun p => p.1.id).Nodup := by
  obtain ⟨hpairs, hns, -⟩ := h
  induction hpairs with
  | nil => exact List.nodup_nil
  | @cons n p ns pairs hhead htail ih =>
    rw [List.nodup_cons] at hns
    rw [List.map_cons, List.nodup_cons]
    refine ⟨?_, ih hns.2⟩
    intro hmem
    obtain ⟨q, hq, hid⟩ := List.mem_map.mp hmem
    obtain ⟨k, hk, hqk⟩ : ∃ k ∈ ns, items[k]? = some q.1 := by
      obtain ⟨i, hi, rfl⟩ := List.getElem_of_mem hq
      have hlen : i < ns.length := by
        rw [htail.length_eq]
        exact hi
      exact ⟨ns[i], List.getElem_mem hlen, List.Forall₂.get htail hlen hi⟩
    have hsame : (items.map Item.id)[k]? = (items.map Item.id)[n]? := by
      rw [List.getElem?_map, List.getElem?_map, hqk, hhead, Option.map_some, Option.map_some, hid]
    have hlt : k < (items.map Item.id).length := by
      rw [List.length_map]
      exact (List.getElem?_eq_some_iff.mp hqk).1
    obtain rfl := (List.getElem?_inj hlt hids).mp hsame
    exact hns.1 hk

end

/-- The runs of the re-ranker are distinct candidates, whatever the model writes and however
`json.loads` reads it. -/
def rerank (loads : Text → Loaded φ) (isZero : φ → Bool) (items : List (Item φ))
    (hids : (items.map Item.id).Nodup) (m : ModelStream) :
    Reranking items (Value (PyNum φ)) where
  yields := (rerankStream loads isZero items m).1
  raises := (rerankStream loads isZero items m).2
  candidates := by
    obtain ⟨ns, h⟩ := rerankStream_picks loads isZero items m
    exact h.mem
  distinct := by
    obtain ⟨ns, h⟩ := rerankStream_picks loads isZero items m
    exact h.ids_nodup hids

/-! ## The shape of the stream -/

/-- The cards of the pairs as the re-ranker yielded them. -/
def yielded (pairs : List (Item φ × β)) : List (Item φ × Option β) :=
  pairs.map fun p => (p.1, some p.2)

/-- Cards without a blurb, in retrieval order. -/
def bare (items : List (Item φ)) : List (Item φ × Option β) := items.map fun item => (item, none)

def leftOver (items : List (Item φ)) (pairs : List (Item φ × β)) : List (Item φ) :=
  items.filter fun item => item.id ∉ pairs.map fun p => p.1.id

def Event.ofCard (c : Item φ × Option β) : Event φ β := .card c.1 c.2

section
variable {items : List (Item φ)}

theorem rawCards_eq (items : List (Item φ)) :
    rawCards (β := β) items = (bare items).map Event.ofCard := by
  simp [rawCards, bare, Event.ofCard]

/-- What the loop emits: the pairs as they came and, after a failure, the items without one. -/
theorem rerankedCards_eq (raises : Bool) (pairs : List (Item φ × β)) (emitted : List ℕ) :
    rerankedCards items raises pairs emitted
      = (yielded pairs ++ if raises then
          bare ((leftOver items pairs).filter fun item => item.id ∉ emitted) else []).map
            Event.ofCard := by
  induction pairs generalizing emitted with
  | nil =>
    have hall : leftOver items ([] : List (Item φ × β)) = items := by simp [leftOver]
    cases raises <;> simp [rerankedCards, rawCards_eq, yielded, hall]
  | cons p pairs ih =>
    have hfilter : (leftOver items pairs).filter (fun item => item.id ∉ p.1.id :: emitted)
        = (leftOver items (p :: pairs)).filter fun item => item.id ∉ emitted := by
      unfold leftOver
      rw [List.filter_filter, List.filter_filter]
      congr 1
      funext item
      rw [← Bool.decide_and, ← Bool.decide_and, decide_eq_decide]
      simp only [List.mem_cons, List.map_cons]
      tauto
    rw [rerankedCards, ih, hfilter, yielded, yielded, List.map_cons, List.cons_append,
      List.map_cons]
    rfl

theorem mem_of_same_id (hids : (items.map Item.id).Nodup) {a b : Item φ} (ha : a ∈ items)
    (hb : b ∈ items) (h : a.id = b.id) : a = b :=
  List.inj_on_of_nodup_map hids ha hb h

/-- The candidates yielded and the items left over are the retrieved items, in another order. -/
theorem yields_leftOver_perm (hids : (items.map Item.id).Nodup) (r : Reranking items β) :
    (r.yields.map Prod.fst ++ leftOver items r.yields).Perm items := by
  have hitems : items.Nodup := List.Nodup.of_map Item.id hids
  have hyields : (r.yields.map Prod.fst).Nodup := by
    have hdistinct := r.distinct
    rw [← Function.comp_def Item.id Prod.fst, ← List.map_map] at hdistinct
    exact List.Nodup.of_map Item.id hdistinct
  apply (List.perm_ext_iff_of_nodup ?_ hitems).mpr
  · intro a
    rw [List.mem_append, leftOver, List.mem_filter]
    constructor
    · intro ha
      obtain hyield | hrest := ha
      · obtain ⟨p, hp, rfl⟩ := List.mem_map.mp hyield
        exact r.candidates p hp
      · exact hrest.1
    · intro ha
      by_cases hyield : a.id ∈ r.yields.map fun p => p.1.id
      · obtain ⟨p, hp, hid⟩ := List.mem_map.mp hyield
        have hsame : p.1 = a := mem_of_same_id hids (r.candidates p hp) ha hid
        exact Or.inl (List.mem_map.mpr ⟨p, hp, hsame⟩)
      · exact Or.inr ⟨ha, by simpa using hyield⟩
  · rw [List.nodup_append]
    refine ⟨hyields, hitems.filter _, ?_⟩
    intro a ha b hb hab
    subst hab
    obtain ⟨p, hp, rfl⟩ := List.mem_map.mp ha
    have hout := (List.mem_filter.mp hb).2
    simp only [decide_eq_true_eq] at hout
    exact hout (List.mem_map.mpr ⟨p, hp, rfl⟩)

theorem yielded_bare_fst (pairs : List (Item φ × β)) :
    (yielded pairs ++ bare (leftOver items pairs)).map Prod.fst
      = pairs.map Prod.fst ++ leftOver items pairs := by
  simp [yielded, bare, Function.comp_def]

/-- The stream is one intent, cards of retrieved items with no id twice, one done. After a failure of the
re-ranker every retrieved item has its card and those it had yielded stand first; when it ends normally
the cards are the pairs it yielded; without a re-ranker they are the retrieved items. -/
theorem event_stream_well_formed (key : Bool) (intent : Intent φ)
    (hids : (items.map Item.id).Nodup) (r : Reranking items β) :
    ∃ cards : List (Item φ × Option β),
      eventStream key intent items r = .intent intent :: (cards.map Event.ofCard ++ [.done]) ∧
        (cards.map fun c => c.1.id).Nodup ∧ (∀ c ∈ cards, c.1 ∈ items) ∧
        (asksReranker key items = true → r.raises = true →
          cards = yielded r.yields ++ bare (leftOver items r.yields) ∧
            (cards.map Prod.fst).Perm items) ∧
        (asksReranker key items = true → r.raises = false → cards = yielded r.yields) ∧
        (asksReranker key items = false → cards = bare items) := by
  cases hasks : asksReranker key items with
  | false =>
    refine ⟨bare items, ?_, ?_, ?_, by simp, by simp, by simp⟩
    · simp [eventStream, hasks, rawCards_eq]
    · simpa [bare, Function.comp_def] using hids
    · simp [bare]
  | true =>
    cases hraises : r.raises with
    | false =>
      refine ⟨yielded r.yields, ?_, ?_, ?_, by simp, by simp, by simp⟩
      · simp [eventStream, hasks, hraises, rerankedCards_eq]
      · simpa [yielded, Function.comp_def] using r.distinct
      · intro c hc
        obtain ⟨p, hp, rfl⟩ := List.mem_map.mp hc
        exact r.candidates p hp
    | true =>
      have hperm := yields_leftOver_perm hids r
      rw [← yielded_bare_fst] at hperm
      refine ⟨yielded r.yields ++ bare (leftOver items r.yields), ?_, ?_, ?_, ?_, by simp, by simp⟩
      · simp [eventStream, hasks, hraises, rerankedCards_eq]
      · have hnodup := (hperm.map Item.id).nodup_iff.mpr hids
        rw [List.map_map] at hnodup
        exact hnodup
      · intro c hc
        exact hperm.mem_iff.mp (List.mem_map_of_mem hc)
      · intro _ _
        exact ⟨rfl, hperm⟩

end

/-- An event that shows its name only. -/
def namedItem {φ : Type} (id : ℕ) (name : String) : Item φ where
  id := id
  kind := ascii "event"
  name := ascii name
  description := none
  category := none
  priceFrom := none
  priceTo := none
  imageUrl := none
  source := ascii "facebook_events"
  sourceUrl := none
  startsAt := none
  endsAt := none
  isPermanent := false

def twoItems : List (Item ℕ) := [namedItem 1 "Jazz", namedItem 2 "Blues"]

/-- The second candidate is yielded, then the stream breaks. -/
def brokenOff : Reranking twoItems Text where
  yields := [(namedItem 2 "Blues", ascii "Live tonight")]
  raises := true
  candidates := by simp [twoItems]
  distinct := by simp

def anyConcert {φ : Type} : Intent φ where
  onTopic := true
  categories := [ascii "concert"]
  dateFrom := none
  dateTo := none
  budgetMax := none
  area := none
  freeText := ascii "blues"

theorem event_stream_well_formed_brokenOff :
    ∃ cards : List (Item ℕ × Option Text),
      eventStream true anyConcert twoItems brokenOff
          = .intent anyConcert :: (cards.map Event.ofCard ++ [.done]) ∧
        (cards.map fun c => c.1.id).Nodup ∧ (cards.map Prod.fst).Perm twoItems := by
  obtain ⟨cards, hstream, hids, _, hfailed, _⟩ :=
    event_stream_well_formed true anyConcert (by simp [twoItems, namedItem]) brokenOff
  have hasks : asksReranker true twoItems = true := by decide
  have hraises : brokenOff.raises = true := by
    simp [brokenOff]
  exact ⟨cards, hstream, hids, (hfailed hasks hraises).2⟩

end WarsawEvents.Search
