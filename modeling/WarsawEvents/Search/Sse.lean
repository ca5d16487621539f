import WarsawEvents.Foundations.Unicode
import WarsawEvents.Search.EventStream

/-! # From `_sse` to the browser's handlers

The frames of `backend/app/api/routes.py` (`_sse`, `_card`), their UTF-8 bytes in any chunks, and
`frontend/src/lib/api.ts` (`parseFrame`, `streamSearch`) that takes them apart again.

* `sse_round_trip_iff`: the browser hears the events as they were sent, however the bytes are cut,
  exactly when no text has a surrogate and no number is infinite or NaN.
* `blurb_not_sent`: a model line whose blurb breaks the stream.
-/

namespace WarsawEvents.Search
open Json (Text Value ascii)
set_option autoImplicit false

variable {φ : Type}

/-! ## Encoding -/

/-- `str` of a UUID: 32 hex digits with a dash before the 9th, 13th, 17th and 21st. -/
def uuidText (id : ℕ) : Text :=
  (List.range 32).flatMap fun i =>
    (if i = 8 ∨ i = 12 ∨ i = 16 ∨ i = 20 then [0x2d] else []) ++ [Json.hexDigit ((id >>> (4 * (31 - i))) % 16)]

example : uuidText 0x1b4e28ba2fa111d2883f0016d3cca427
    = ascii "1b4e28ba-2fa1-11d2-883f-0016d3cca427" := by decide

def textOrNull (t : Option Text) : Value (PyFloat φ) := (t.map Value.str).getD .null

def floatOrNull (x : Option (PyFloat φ)) : Value (PyFloat φ) := (x.map Value.num).getD .null

/-- `intent.model_dump()`. -/
def Intent.modelDump (intent : Intent φ) : Value (PyFloat φ) :=
  .obj [(ascii "on_topic", .bool intent.onTopic),
    (ascii "categories", .arr (intent.categories.map Value.str)),
    (ascii "date_from", textOrNull intent.dateFrom),
    (ascii "date_to", textOrNull intent.dateTo),
    (ascii "budget_max", floatOrNull intent.budgetMax),
    (ascii "area", textOrNull intent.area),
    (ascii "free_text", .str intent.freeText)]

/-- `_card(item, blurb)`. -/
def cardData (item : Item φ) (blurb : Option Text) : Value (PyFloat φ) :=
  .obj [(ascii "id", .str (uuidText item.id)),
    (ascii "kind", .str item.kind),
    (ascii "name", .str item.name),
    (ascii "description", textOrNull item.description),
    (ascii "category", textOrNull item.category),
    (ascii "price_from", floatOrNull item.priceFrom),
    (ascii "price_to", floatOrNull item.priceTo),
    (ascii "image_url", textOrNull item.imageUrl),
    (ascii "source", .str item.source),
    (ascii "source_url", textOrNull item.sourceUrl),
    (ascii "starts_at", textOrNull item.startsAt),
    (ascii "ends_at", textOrNull item.endsAt),
    (ascii "is_permanent", .bool item.isPermanent),
    (ascii "blurb", textOrNull blurb)]

/-- `json.dumps` of a float. -/
def floatText (D : Doubles φ) : PyFloat φ → Text
  | .finite x => D.repr x
  | .nan => ascii "NaN"
  | .inf => ascii "Infinity"
  | .negInf => ascii "-Infinity"

def dumps (D : Doubles φ) (data : Value (PyFloat φ)) : Text := Json.write (floatText D) data

/-- `_sse(event, data)`. -/
def sse (D : Doubles φ) (event : Text) (data : Value (PyFloat φ)) : Text :=
  ascii "event: " ++ (event ++ (ascii "\ndata: " ++ (dumps D data ++ ascii "\n\n")))

def Event.name : Event φ Text → Text
  | .intent _ => ascii "intent"
  | .card _ _ => ascii "card"
  | .done => ascii "done"

def Event.data : Event φ Text → Value (PyFloat φ)
  | .intent i => i.modelDump
  | .card item blurb => cardData item blurb
  | .done => .obj []

def Event.frame (D : Doubles φ) (e : Event φ Text) : Text := sse D e.name e.data

/-- The bytes of the response; none when a frame cannot be encoded and the response breaks off. -/
def body (D : Doubles φ) : List (Event φ Text) → Option Unicode.Bytes
  | [] => some []
  | e :: events => do
    let bytes ← Unicode.encode (e.frame D)
    let more ← body D events
    some (bytes ++ more)

/-! ## Decoding -/

/-- `TextDecoder`: between two chunks, and whether the first character is behind it. -/
structure TextDecoder where
  utf8 : Unicode.Decoder
  bomSeen : Bool

def TextDecoder.new : TextDecoder := ⟨Unicode.start, false⟩

/-- Drops a byte order mark that opens the stream. -/
def dropBom : Text → Text
  | [] => []
  | c :: rest => if c = 0xfeff then rest else c :: rest

/-- `decoder.decode(value, { stream: true })`. -/
def TextDecoder.decode (d : TextDecoder) (chunk : Unicode.Bytes) : TextDecoder × Text :=
  let out := Unicode.decode d.utf8 chunk
  (⟨out.1, d.bomSeen || !out.2.isEmpty⟩, if d.bomSeen then out.2 else dropBom out.2)

/-- White space and line ends of `String.prototype.trim`. -/
def isJsSpace (c : ℕ) : Bool :=
  (0x09 ≤ c && c ≤ 0x0d) || c == 0x20 || c == 0xa0 || c == 0x1680 || (0x2000 ≤ c && c ≤ 0x200a) ||
    c == 0x2028 || c == 0x2029 || c == 0x202f || c == 0x205f || c == 0x3000 || c == 0xfeff

def trim (t : Text) : Text := PyText.trimBy isJsSpace t

/-- `frame.split("\n")`. -/
def splitLines (frame : Text) : List Text :=
  (Framing.frames [0x0a] frame).1 ++ [(Framing.frames [0x0a] frame).2]

/-- The event and the pieces of data after one more line. -/
def parseFrameLine (parsed : Text × List Text) (line : Text) : Text × List Text :=
  if (ascii "event:").isPrefixOf line then (trim (line.drop 6), parsed.2)
  else if (ascii "data:").isPrefixOf line then (parsed.1, parsed.2 ++ [trim (line.drop 5)])
  else parsed

def parseFrame (frame : Text) : Text × Text :=
  let parsed := (splitLines frame).foldl parseFrameLine (ascii "message", [])
  (parsed.1, [0x0a].intercalate parsed.2)

/-- The dialect of `JSON.parse`: a number token beyond the doubles is an infinity. -/
def jsDialect (D : Doubles φ) : Json.Dialect (PyFloat φ) where
  number t :=
    match D.read t with
    | some x => some (.finite x)
    | none => some (if t.head? = some 0x2d then .negInf else .inf)
  constants := []
  joinsPairs := false

inductive Call (φ : Type) where
  | onIntent (intent : Value (PyFloat φ))
  | onCard (card : Value (PyFloat φ))
  | onDone

/-- What one frame makes `streamSearch` call; none when `JSON.parse` throws. -/
def handleFrame (D : Doubles φ) (frame : Text) : Option (List (Call φ)) :=
  let parsed := parseFrame frame
  if parsed.2 = [] then some []
  else if parsed.1 = ascii "intent" then
    (Json.read (jsDialect D) parsed.2).map fun v => [Call.onIntent v]
  else if parsed.1 = ascii "card" then
    (Json.read (jsDialect D) parsed.2).map fun v => [Call.onCard v]
  else if parsed.1 = ascii "done" then some [.onDone]
  else some []

/-- The calls of some frames, and whether one of them threw. -/
def handleFrames (D : Doubles φ) : List Text → List (Call φ) × Bool
  | [] => ([], false)
  | frame :: frames =>
    match handleFrame D frame with
    | none => ([], true)
    | some calls => (calls ++ (handleFrames D frames).1, (handleFrames D frames).2)

/-- The loop of `streamSearch` over the chunks that the reader hands out. -/
def readLoop (D : Doubles φ) : List Unicode.Bytes → TextDecoder → Text → List (Call φ) × Bool
  | [], _, _ => ([], false)
  | chunk :: chunks, decoder, buffer =>
    let decoded := decoder.decode chunk
    let split := Framing.frames (ascii "\n\n") (buffer ++ decoded.2.flatMap Unicode.utf16)
    let handled := handleFrames D split.1
    if handled.2 then handled
    else
      let more := readLoop D chunks decoded.1 split.2
      (handled.1 ++ more.1, more.2)

/-- The calls that `streamSearch` makes, and whether it ends in an exception. -/
def streamSearch (D : Doubles φ) (chunks : List Unicode.Bytes) : List (Call φ) × Bool :=
  readLoop D chunks .new []

/-- The call that an event stands for: its JSON value, with strings as UTF-16. -/
def Event.call (e : Event φ Text) : Call φ :=
  match e with
  | .intent i => .onIntent (i.modelDump.recode Unicode.utf16)
  | .card item blurb => .onCard ((cardData item blurb).recode Unicode.utf16)
  | .done => .onDone

/-- The frames can be encoded, and however their bytes are cut the browser hears the events. -/
def RoundTrips (D : Doubles φ) (events : List (Event φ Text)) : Prop :=
  ∃ bytes, body D events = some bytes ∧
    ∀ chunks : List Unicode.Bytes, chunks.flatten = bytes →
      streamSearch D chunks = (events.map Event.call, false)

/-! ## Number texts -/

def PyFloat.isFinite : PyFloat φ → Bool
  | .finite _ => true
  | _ => false

theorem floatText_printable (D : Doubles φ) (x : PyFloat φ) :
    ∀ c ∈ floatText D x, 0x20 ≤ c ∧ c < 0x80 := by
  cases x with
  | finite x =>
    intro c hc
    have hchar := (Json.isNumber_spec (D.isNumber_repr x)).2 c hc
    simp only [Json.isNumberChar, Json.isDigit, Bool.or_eq_true, Bool.and_eq_true,
      decide_eq_true_eq, beq_iff_eq] at hchar
    omega
  | nan =>
    rw [floatText]
    decide
  | inf =>
    rw [floatText]
    decide
  | negInf =>
    rw [floatText]
    decide

/-- `JSON.parse` reads the finite floats and none of the other three. -/
theorem jsDialect_knows (D : Doubles φ) :
    (jsDialect D).Knows (floatText D) PyFloat.isFinite where
  opens := by
    intro x
    cases x with
    | finite x =>
      obtain ⟨⟨c, r, hx, hc⟩, _⟩ := Json.isNumber_spec (D.isNumber_repr x)
      refine ⟨c, r, hx, ?_⟩
      obtain rfl | hdigit := hc
      · unfold Json.Opens
        decide
      · simp only [Json.isDigit, Bool.and_eq_true, decide_eq_true_eq] at hdigit
        have hblank : Json.isBlank c = false := by
          simp only [Json.isBlank, Bool.or_eq_false_iff, beq_eq_false_iff_ne]
          omega
        exact ⟨hblank, by omega, by omega, by omega, by omega, by omega⟩
    | nan => exact ⟨0x4e, _, rfl, by unfold Json.Opens; decide⟩
    | inf => exact ⟨0x49, _, rfl, by unfold Json.Opens; decide⟩
    | negInf => exact ⟨0x2d, _, rfl, by unfold Json.Opens; decide⟩
  reads := by
    intro x rest hx hrest
    cases x with
    | finite x =>
      apply Json.readScalar_number rfl (D.isNumber_repr x) ?_ hrest
      simp [jsDialect, D.read_repr]
    | nan => simp [PyFloat.isFinite] at hx
    | inf => simp [PyFloat.isFinite] at hx
    | negInf => simp [PyFloat.isFinite] at hx
  refuses := by
    intro x rest hx _
    cases x with
    | finite x => simp [PyFloat.isFinite] at hx
    | nan => simp [Json.readScalar, Json.words, jsDialect, floatText, ascii, Json.isNumberChar,
        Json.isDigit, Json.isNumber, Json.isUnsigned]
    | inf => simp [Json.readScalar, Json.words, jsDialect, floatText, ascii, Json.isNumberChar,
        Json.isDigit, Json.isNumber, Json.isUnsigned]
    | negInf => simp [Json.readScalar, Json.words, jsDialect, floatText, ascii, Json.isNumberChar,
        Json.isDigit, Json.isNumber, Json.isUnsigned]

/-! ## One frame -/

section
variable (D : Doubles φ)

/-- The JSON text of an event in UTF-16. -/
def payload (e : Event φ Text) : Text := dumps D (e.data.recode Unicode.utf16)

/-- The frame of an event in UTF-16, without the blank line after it. -/
def wireFrame (e : Event φ Text) : Text :=
  (ascii "event: " ++ e.name) ++ 0x0a :: (ascii "data: " ++ payload D e)

theorem floatText_ascii (x : PyFloat φ) : ∀ c ∈ floatText D x, c < 0x80 := by
  intro c hc
  exact (floatText_printable D x c hc).2

theorem name_ascii (e : Event φ Text) : ∀ c ∈ e.name, 0x20 ≤ c ∧ c < 0x80 := by
  cases e with
  | intent i =>
    rw [Event.name]
    decide
  | card item blurb =>
    rw [Event.name]
    decide
  | done =>
    rw [Event.name]
    decide

theorem frame_utf16 (e : Event φ Text) :
    (e.frame D).flatMap Unicode.utf16 = wireFrame D e ++ ascii "\n\n" := by
  have hf := Unicode.utf16_recodes
  have hname : e.name.flatMap Unicode.utf16 = e.name :=
    hf.flatMap_ascii fun c hc => (name_ascii e c hc).2
  have hdata : (dumps D e.data).flatMap Unicode.utf16 = payload D e :=
    Json.write_flatMap hf (floatText_ascii D) e.data
  have hline : ascii "\ndata: " = 0x0a :: ascii "data: " := by decide
  unfold Event.frame sse wireFrame
  rw [List.flatMap_append, List.flatMap_append, List.flatMap_append, List.flatMap_append,
    hf.text (by decide), hname, hf.text (by decide), hdata, hf.text (by decide), hline]
  simp

theorem payload_printable (e : Event φ Text) : ∀ c ∈ payload D e, 0x20 ≤ c := by
  have hnum : ∀ x, ∀ c ∈ floatText D x, 0x20 ≤ c := by
    intro x c hc
    exact (floatText_printable D x c hc).1
  apply (Json.forall_mem_write (P := fun c => 0x20 ≤ c) (fun c hc _ => hc) hnum _).mpr
  intro c _ hother
  omega

/-- No line feed stands within either line of a frame. -/
theorem lines_plain (e : Event φ Text) :
    0x0a ∉ ascii "event: " ++ e.name ∧ 0x0a ∉ ascii "data: " ++ payload D e := by
  constructor
  · intro hmem
    obtain hhead | hname := List.mem_append.mp hmem
    · exact absurd hhead (by decide)
    · have hlow := (name_ascii e _ hname).1
      omega
  · intro hmem
    obtain hhead | hdata := List.mem_append.mp hmem
    · exact absurd hhead (by decide)
    · have hlow := payload_printable D e _ hdata
      omega

theorem newlines_eq : ascii "\n\n" = [0x0a, 0x0a] := by decide

theorem wireFrame_clean (e : Event φ Text) : Framing.Clean (ascii "\n\n") (wireFrame D e) := by
  obtain ⟨hevent, hdata⟩ := lines_plain D e
  have hend : Framing.cut [0x0a, 0x0a] [0x0a, 0x0a] = some (([] : Text), []) := by decide
  -- the single line feed before the data is none of the two
  have hmid : Framing.cut [0x0a, 0x0a]
        (0x0a :: ((ascii "data: " ++ payload D e) ++ [0x0a, 0x0a]))
      = some (0x0a :: (ascii "data: " ++ payload D e), []) := by
    have hnot : List.isPrefixOf [0x0a, 0x0a]
        (0x0a :: ((ascii "data: " ++ payload D e) ++ [0x0a, 0x0a])) = false := by
      simp [ascii, List.isPrefixOf]
    rw [Framing.cut, hnot, Framing.cut_past hdata, hend]
    simp
  unfold Framing.Clean wireFrame
  rw [newlines_eq, List.append_assoc, Framing.cut_past hevent, List.cons_append, hmid]
  simp

/-- The JSON text of an event is an object's: braces at both ends. -/
theorem payload_braces (e : Event φ Text) : ∃ m, payload D e = 0x7b :: (m ++ [0x7d]) := by
  cases e with
  | intent i => exact ⟨_, rfl⟩
  | card item blurb => exact ⟨_, rfl⟩
  | done => exact ⟨_, rfl⟩

theorem trim_payload (e : Event φ Text) : trim (0x20 :: payload D e) = payload D e := by
  obtain ⟨m, hm⟩ := payload_braces D e
  rw [hm]
  simp [trim, PyText.trimBy, isJsSpace]

theorem splitLines_wireFrame (e : Event φ Text) :
    splitLines (wireFrame D e)
      = [ascii "event: " ++ e.name, ascii "data: " ++ payload D e] := by
  obtain ⟨hevent, hdata⟩ := lines_plain D e
  have hcut : Framing.cut [0x0a] (wireFrame D e)
      = some (ascii "event: " ++ e.name, ascii "data: " ++ payload D e) := by
    unfold wireFrame
    rw [Framing.cut_past hevent, Framing.cut]
    simp
  unfold splitLines
  rw [Framing.frames_some (by simp) hcut, Framing.frames_none (Framing.cut_eq_none hdata)]
  rfl

theorem parseFrame_wireFrame (e : Event φ Text) :
    parseFrame (wireFrame D e) = (e.name, payload D e) := by
  have hname : trim ((ascii "event: " ++ e.name).drop 6) = e.name := by
    cases e with
    | intent i =>
      rw [Event.name]
      decide
    | card item blurb =>
      rw [Event.name]
      decide
    | done =>
      rw [Event.name]
      decide
  have hevent : ∀ parsed, parseFrameLine parsed (ascii "event: " ++ e.name) = (e.name, parsed.2) := by
    intro parsed
    unfold parseFrameLine
    rw [hname, if_pos (by simp [ascii])]
  have hdata : ∀ parsed, parseFrameLine parsed (ascii "data: " ++ payload D e)
      = (parsed.1, parsed.2 ++ [payload D e]) := by
    intro parsed
    have hdrop : (ascii "data: " ++ payload D e).drop 5 = 0x20 :: payload D e := by
      simp [ascii]
    unfold parseFrameLine
    rw [hdrop, trim_payload, if_neg (by simp [ascii]), if_pos (by simp [ascii])]
  unfold parseFrame
  rw [splitLines_wireFrame]
  simp [hevent, hdata, List.intercalate]

/-- The handler that a frame reaches, unless `JSON.parse` throws at a number. -/
theorem handleFrame_wireFrame (e : Event φ Text) :
    handleFrame D (wireFrame D e)
      = if e.data.allNumbers PyFloat.isFinite then some [e.call] else none := by
  have hread : Json.read (jsDialect D) (payload D e)
      = if e.data.allNumbers PyFloat.isFinite then some (e.data.recode Unicode.utf16) else none := by
    have h := Json.read_write (jsDialect_knows D) (e.data.recode Unicode.utf16)
    rw [Json.Value.allNumbers_recode] at h
    exact h
  have hsome : payload D e ≠ [] := by
    obtain ⟨m, hm⟩ := payload_braces D e
    simp [hm]
  unfold handleFrame
  rw [parseFrame_wireFrame]
  simp only [hsome, if_false]
  cases e with
  | intent i =>
    rw [hread]
    cases (Event.intent i).data.allNumbers PyFloat.isFinite <;>
      simp [Event.name, Event.call, Event.data]
  | card item blurb =>
    rw [hread]
    have hne : ascii "card" ≠ ascii "intent" := by decide
    cases (Event.card item blurb).data.allNumbers PyFloat.isFinite <;>
      simp [Event.name, Event.call, Event.data, hne]
  | done =>
    have hne : ascii "done" ≠ ascii "intent" ∧ ascii "done" ≠ ascii "card" := by decide
    simp [Event.name, Event.call, Event.data, hne, Json.Value.allNumbers, Json.allMembers]

end

/-! ## Any chunks -/

section
variable (D : Doubles φ)

theorem handleFrames_append (a b : List Text) :
    handleFrames D (a ++ b)
      = if (handleFrames D a).2 then handleFrames D a
        else ((handleFrames D a).1 ++ (handleFrames D b).1, (handleFrames D b).2) := by
  induction a with
  | nil => simp [handleFrames]
  | cons f a ih =>
    rw [List.cons_append, handleFrames, handleFrames]
    cases handleFrame D f with
    | none => simp
    | some calls =>
      simp only [ih]
      split <;> simp

theorem TextDecoder.decode_append (d : TextDecoder) (a b : Unicode.Bytes) :
    d.decode (a ++ b)
      = (((d.decode a).1.decode b).1, (d.decode a).2 ++ ((d.decode a).1.decode b).2) := by
  unfold TextDecoder.decode
  rw [Unicode.decode_append]
  cases hseen : d.bomSeen with
  | true => simp
  | false =>
    cases Unicode.decode d.utf8 a with
    | mk s out =>
      cases out with
      | nil => simp [dropBom]
      | cons c out =>
        simp only [List.cons_append, dropBom]
        by_cases hbom : c = 0xfeff <;> simp [hbom]

/-- The loop over the chunks handles what one read of all their bytes would hand it. -/
theorem readLoop_eq (chunks : List Unicode.Bytes) (decoder : TextDecoder) (buffer : Text)
    (hbuffer : Framing.cut (ascii "\n\n") buffer = none) :
    readLoop D chunks decoder buffer
      = handleFrames D (Framing.frames (ascii "\n\n")
          (buffer ++ (decoder.decode chunks.flatten).2.flatMap Unicode.utf16)).1 := by
  have hsep : ascii "\n\n" ≠ [] := by decide
  induction chunks generalizing decoder buffer with
  | nil =>
    have hempty : (decoder.decode []).2 = [] := by
      simp [TextDecoder.decode, Unicode.decode, dropBom]
    simp [readLoop, hempty, Framing.frames_none hbuffer, handleFrames]
  | cons chunk chunks ih =>
    have hrest := ih (decoder.decode chunk).1
      (Framing.frames (ascii "\n\n") (buffer ++ (decoder.decode chunk).2.flatMap Unicode.utf16)).2
      (Framing.cut_frames_rest hsep _)
    rw [List.flatten_cons, TextDecoder.decode_append, List.flatMap_append, ← List.append_assoc,
      Framing.frames_append hsep, handleFrames_append, readLoop]
    simp only [hrest]

end

/-! ## The round trip -/

/-- The texts that an event shows. -/
def Event.texts : Event φ Text → List Text
  | .intent i =>
    i.categories ++ (i.dateFrom.toList ++ (i.dateTo.toList ++ (i.area.toList ++ [i.freeText])))
  | .card item blurb =>
    item.kind :: item.name :: (item.description.toList ++ (item.category.toList ++
      (item.imageUrl.toList ++ item.source :: (item.sourceUrl.toList ++ (item.startsAt.toList ++
        (item.endsAt.toList ++ blurb.toList))))))
  | .done => []

def Event.floats : Event φ Text → List (PyFloat φ)
  | .intent i => i.budgetMax.toList
  | .card item _ => item.priceFrom.toList ++ item.priceTo.toList
  | .done => []

/-- No character is a surrogate. -/
def Scalars (t : Text) : Prop := ∀ c ∈ t, Unicode.IsScalar c

/-- No surrogate in a text, no infinite or undefined number. -/
def Event.Sendable (e : Event φ Text) : Prop :=
  (∀ t ∈ e.texts, Scalars t) ∧ ∀ x ∈ e.floats, x.isFinite = true

theorem scalars_nil : Scalars [] := by
  simp [Scalars]

theorem scalars_append (s t : Text) : Scalars (s ++ t) ↔ Scalars s ∧ Scalars t :=
  List.forall_mem_append

theorem scalars_flatten (ts : List Text) : Scalars ts.flatten ↔ ∀ t ∈ ts, Scalars t := by
  unfold Scalars
  exact List.forall_mem_flatten

theorem scalars_ascii (s : String) : Scalars (ascii s) := by
  intro c hc
  obtain ⟨x, _, rfl⟩ := List.mem_map.mp hc
  exact x.valid

theorem scalars_uuidText (id : ℕ) : Scalars (uuidText id) := by
  intro c hc
  obtain ⟨i, _, hi⟩ := List.mem_flatMap.mp hc
  have hdigit : Json.hexDigit ((id >>> (4 * (31 - i))) % 16) < 0x80 := by
    unfold Json.hexDigit
    split <;> omega
  left
  obtain hdash | hhex := List.mem_append.mp hi
  · split at hdash
    next =>
      rw [List.mem_singleton.mp hdash]
      decide
    next => simp at hdash
  · rw [List.mem_singleton.mp hhex]
    omega

theorem scalars_textOrNull (t : Option Text) :
    Scalars (textOrNull (φ := φ) t).chars ↔ ∀ s ∈ t.toList, Scalars s := by
  cases t with
  | none => simp [textOrNull, Value.chars, scalars_nil]
  | some s => simp [textOrNull, Value.chars]

theorem scalars_floatOrNull (x : Option (PyFloat φ)) : Scalars (floatOrNull x).chars := by
  cases x <;> exact scalars_nil

theorem charsElems_strings (ts : List Text) :
    Json.charsElems (ν := PyFloat φ) (ts.map Value.str) = ts.flatten := by
  induction ts with
  | nil => rfl
  | cons t ts ih => rw [List.map_cons, Json.charsElems, ih, List.flatten_cons, Value.chars]

theorem allNumbers_textOrNull (t : Option Text) (ok : PyFloat φ → Bool) :
    (textOrNull t).allNumbers ok = true := by
  cases t <;> rfl

theorem allNumbers_floatOrNull (x : Option (PyFloat φ)) (ok : PyFloat φ → Bool) :
    (floatOrNull x).allNumbers ok = true ↔ ∀ y ∈ x.toList, ok y = true := by
  cases x with
  | none => simp [floatOrNull, Value.allNumbers]
  | some x => simp [floatOrNull, Value.allNumbers]

theorem allElems_strings (ts : List Text) (ok : PyFloat φ → Bool) :
    Json.allElems ok (ts.map Value.str) = true := by
  induction ts with
  | nil => rfl
  | cons t ts ih =>
    rw [List.map_cons, Json.allElems, ih]
    rfl

theorem scalars_data_iff (e : Event φ Text) :
    Scalars e.data.chars ↔ ∀ t ∈ e.texts, Scalars t := by
  cases e with
  | intent i =>
    simp only [Event.data, Intent.modelDump, Value.chars, Json.charsMembers, charsElems_strings,
      scalars_append, scalars_flatten, scalars_ascii, scalars_textOrNull, scalars_floatOrNull,
      scalars_nil, Event.texts, List.forall_mem_append, List.forall_mem_singleton, true_and,
      and_true]
  | card item blurb =>
    simp only [Event.data, cardData, Value.chars, Json.charsMembers,
      scalars_append, scalars_ascii, scalars_textOrNull, scalars_floatOrNull,
      scalars_nil, scalars_uuidText, Event.texts, List.forall_mem_append, List.forall_mem_cons,
      true_and, and_true]
  | done => simp [Event.data, Event.texts, Value.chars, Json.charsMembers, scalars_nil]

theorem allNumbers_data_iff (e : Event φ Text) (ok : PyFloat φ → Bool) :
    e.data.allNumbers ok = true ↔ ∀ x ∈ e.floats, ok x = true := by
  cases e with
  | intent i =>
    simp only [Event.data, Intent.modelDump, Value.allNumbers, Json.allMembers, Bool.and_eq_true,
      allElems_strings, allNumbers_textOrNull, allNumbers_floatOrNull, Event.floats, true_and,
      and_true]
  | card item blurb =>
    simp only [Event.data, cardData, Value.allNumbers, Json.allMembers, Bool.and_eq_true,
      allNumbers_textOrNull, allNumbers_floatOrNull, Event.floats, true_and, and_true,
      List.forall_mem_append]
  | done => simp [Event.data, Event.floats, Value.allNumbers, Json.allMembers]

section
variable (D : Doubles φ)

theorem body_eq (events : List (Event φ Text)) :
    body D events = Unicode.encode (events.flatMap (Event.frame D)) := by
  induction events with
  | nil => rfl
  | cons e events ih =>
    rw [List.flatMap_cons, Unicode.encode_append, ← ih]
    cases h : body D events with
    | none => simp [body, h]
    | some more => simp [body, h]

theorem scalars_frame_iff (e : Event φ Text) :
    Scalars (e.frame D) ↔ ∀ t ∈ e.texts, Scalars t := by
  have hplain : ∀ {t : Text}, (∀ c ∈ t, c < 0x80) → Scalars t := by
    intro t ht c hc
    have hlow := ht c hc
    left
    omega
  have hname : Scalars e.name := hplain fun c hc => (name_ascii e c hc).2
  have hdata : Scalars (dumps D e.data) ↔ Scalars e.data.chars := by
    have hwrite := Json.forall_mem_write (P := Unicode.IsScalar) (fun c _ hc => Or.inl (by omega))
      (fun x => hplain (floatText_ascii D x)) e.data
    refine hwrite.trans ⟨?_, ?_⟩
    · intro h c hc
      by_cases hother : 0x80 ≤ c
      · exact h c hc hother
      · exact Or.inl (by omega)
    · intro h c hc _
      exact h c hc
  unfold Event.frame sse
  rw [scalars_append, scalars_append, scalars_append, scalars_append, hdata, scalars_data_iff]
  simp only [scalars_ascii, hname, true_and, and_true]

/-- The frames can be encoded when no text has a surrogate. -/
theorem body_isSome_iff (events : List (Event φ Text)) :
    (body D events).isSome = true ↔ ∀ e ∈ events, ∀ t ∈ e.texts, Scalars t := by
  rw [body_eq, Unicode.encode_isSome_iff]
  constructor
  · intro h e he
    apply (scalars_frame_iff D e).mp
    intro c hc
    exact h c (List.mem_flatMap.mpr ⟨e, he, hc⟩)
  · intro h c hc
    obtain ⟨e, he, hce⟩ := List.mem_flatMap.mp hc
    exact (scalars_frame_iff D e).mpr (h e he) c hce

/-- The first character of the stream is no byte order mark. -/
theorem dropBom_frames (events : List (Event φ Text)) :
    dropBom (events.flatMap (Event.frame D)) = events.flatMap (Event.frame D) := by
  cases events with
  | nil => rfl
  | cons e events =>
    have hhead : ∃ r, e.frame D = 0x65 :: r := ⟨_, rfl⟩
    obtain ⟨r, hr⟩ := hhead
    rw [List.flatMap_cons, hr, List.cons_append, dropBom, if_neg (by decide)]

/-- However its bytes are cut, the browser handles the frames that were sent. -/
theorem streamSearch_eq {events : List (Event φ Text)} {bytes : Unicode.Bytes}
    (hbody : body D events = some bytes) {chunks : List Unicode.Bytes}
    (hchunks : chunks.flatten = bytes) :
    streamSearch D chunks = handleFrames D (events.map (wireFrame D)) := by
  rw [body_eq] at hbody
  have htext : (TextDecoder.new.decode bytes).2 = events.flatMap (Event.frame D) := by
    have hdecode := Unicode.decode_encode hbody
    simp only [TextDecoder.decode, TextDecoder.new]
    rw [hdecode]
    exact dropBom_frames D events
  have hunits : (events.flatMap (Event.frame D)).flatMap Unicode.utf16
      = (events.map (wireFrame D)).flatMap fun f => f ++ ascii "\n\n" := by
    rw [List.flatMap_assoc, List.flatMap_map]
    congr 1
    funext e
    exact frame_utf16 D e
  have hclean : ∀ f ∈ events.map (wireFrame D), Framing.Clean (ascii "\n\n") f := by
    intro f hf
    obtain ⟨e, _, rfl⟩ := List.mem_map.mp hf
    exact wireFrame_clean D e
  unfold streamSearch
  rw [readLoop_eq D chunks _ [] (by decide), hchunks, htext, List.nil_append, hunits,
    Framing.frames_clean (by decide) hclean]

theorem handleFrames_wireFrames (events : List (Event φ Text)) :
    handleFrames D (events.map (wireFrame D)) = (events.map Event.call, false)
      ↔ ∀ e ∈ events, ∀ x ∈ e.floats, x.isFinite = true := by
  induction events with
  | nil => simp [handleFrames]
  | cons e events ih =>
    rw [List.map_cons, handleFrames, handleFrame_wireFrame, List.forall_mem_cons,
      ← allNumbers_data_iff e PyFloat.isFinite, ← ih]
    cases e.data.allNumbers PyFloat.isFinite with
    | false => simp
    | true => simp [Prod.ext_iff]

/-- The browser hears exactly the events that were sent, whatever the chunks, exactly when none of them
shows a text with a surrogate or a number that is infinite or NaN. -/
theorem sse_round_trip_iff (events : List (Event φ Text)) :
    RoundTrips D events ↔ ∀ e ∈ events, e.Sendable := by
  constructor
  · intro h e he
    obtain ⟨bytes, hbody, hheard⟩ := h
    have htexts := (body_isSome_iff D events).mp (by rw [hbody]; rfl)
    have hone := hheard [bytes] (by simp)
    rw [streamSearch_eq D hbody (by simp)] at hone
    exact ⟨htexts e he, (handleFrames_wireFrames D events).mp hone e he⟩
  · intro h
    have hsome := (body_isSome_iff D events).mpr fun e he => (h e he).1
    obtain ⟨bytes, hbody⟩ := Option.isSome_iff_exists.mp hsome
    refine ⟨bytes, hbody, ?_⟩
    intro chunks hchunks
    rw [streamSearch_eq D hbody hchunks]
    exact (handleFrames_wireFrames D events).mpr fun e he => (h e he).2

end

/-- The one double 0.0. -/
def zeroDouble : Doubles Unit where
  repr _ := ascii "0.0"
  read t := if t = ascii "0.0" then some () else none
  isZero _ := true
  isNumber_repr _ := rfl
  read_repr _ := rfl

def blurbText : Value (PyNum φ) → Option Text
  | .str t => some t
  | _ => none

/-- The model spells half of an emoji. -/
def halfEmoji : ModelStream := ⟨[ascii "\x7b\"n\": 1, \"blurb\": \"\\ud83d\"\x7d"], false⟩

/-- `json.loads` takes the escape, the re-ranker yields the blurb, and UTF-8 has no bytes for it: the
frame cannot be encoded. -/
theorem blurb_not_sent :
    (rerankStream (jsonLoads zeroDouble) zeroDouble.isZero [namedItem 1 "Jazz"] halfEmoji).1.map
        (fun p => (p.1.id, blurbText p.2)) = [(1, some [0xd83d])] ∧
    ¬ RoundTrips zeroDouble
        [.intent anyConcert, .card (namedItem 1 "Jazz") (some [0xd83d]), .done] := by
  refine ⟨by decide +kernel, ?_⟩
  intro h
  obtain ⟨bytes, hbody, _⟩ := h
  have htexts := (body_isSome_iff zeroDouble _).mp (by rw [hbody]; rfl)
  have hblurb := htexts (.card (namedItem 1 "Jazz") (some [0xd83d])) (by simp) [0xd83d]
    (by simp [Event.texts]) 0xd83d (by simp)
  exact absurd hblurb (by decide)

end WarsawEvents.Search
