import WarsawEvents.Foundations.Runs
import WarsawEvents.Search.Answers

/-! # The search page

`Home` of `frontend/src/app/page.tsx` over `streamSearch` of `frontend/src/lib/api.ts`: the form, the
examples, and the searches that were started, each with the response it waits for. A new search aborts the
one before; what still comes for an aborted one rejects with `AbortError`, and changes nothing.

* `page_shows_the_search`: whatever happens in between, once the chunks of the last search have come, the
  page shows the intent and the cards that the endpoint sent, in their order.
* `searches_one_at_a_time`: a search is sent when none is under way, and a prompt a second time in a row
  only when the search before failed.
-/

namespace WarsawEvents.Frontend
open Json (Text Value ascii)
open Search (Doubles PyFloat Call TextDecoder Intent Item Reranking)
open Runs
set_option autoImplicit false

variable {φ : Type}

/-! ## The page -/

inductive Status where
  | idle
  | loading
  | streaming
  | done
  | error
  | limited
  deriving DecidableEq

/-- Where `streamSearch` stands for the controller in `abortRef`. -/
inductive Wire where
  /-- It has returned or thrown, or there is none. -/
  | silent
  | fetching
  /-- The message of a refusal is awaited; the fallback that stands in for it. -/
  | refused (fallback : Text)
  | reading (decoder : TextDecoder) (buffer : Text)

structure Page (φ : Type) where
  canSearch : Bool := false
  query : Text := []
  lastQuery : Text := []
  cards : List (Value (PyFloat φ)) := []
  intent : Option (Value (PyFloat φ)) := none
  status : Status := .idle
  limitMsg : Text := []
  /-- How many searches were started; the controller is that of the last. -/
  started : ℕ := 0
  wire : Wire := .silent

def Page.busy (p : Page φ) : Bool := p.status = .loading || p.status = .streaming

inductive Move where
  | session (canSearch : Bool)
  | type (text : Text)
  | submit
  | pick (text : Text)
  | respond (n : ℕ) (status : ℕ) (hasBody : Bool)
  | explain (n : ℕ) (detail : Option Text)
  | chunk (n : ℕ) (bytes : Unicode.Bytes)
  | close (n : ℕ)
  | fail (n : ℕ)
  deriving DecidableEq

/-- A request that was sent: the search and its prompt. -/
abbrev Sent := Option (ℕ × Text)

/-! ## `run` -/

def Page.start (p : Page φ) (prompt : Text) : Page φ × Sent :=
  let text := Search.trim prompt
  if !p.canSearch || text.isEmpty then (p, none)
  else
    ({ p with
        lastQuery := text
        query := text
        cards := []
        intent := none
        status := .loading
        started := p.started + 1
        wire := .fetching }, some (p.started + 1, text))

/-- The `catch` of `run`, but for an `AbortError`. -/
def Page.failed (p : Page φ) : Page φ := { p with lastQuery := [], status := .error, wire := .silent }

def Page.limited (p : Page φ) (message : Text) : Page φ :=
  { p with lastQuery := [], limitMsg := message, status := .limited, wire := .silent }

def Page.call (p : Page φ) : Call φ → Page φ
  | .onIntent intent => { p with intent := some intent, status := .streaming }
  | .onCard card => { p with cards := p.cards ++ [card] }
  | .onDone => { p with status := .done }

def limitReached : Text := ascii "Daily search limit reached."

def signInFirst : Text := ascii "Sign in and verify your email to search."

/-- `res.ok`. -/
def isOk (status : ℕ) : Bool := 200 ≤ status && status < 300

def Page.respond (p : Page φ) (status : ℕ) (hasBody : Bool) : Page φ :=
  if status = 429 then { p with wire := .refused limitReached }
  else if status = 401 ∨ status = 403 then { p with wire := .refused signInFirst }
  else if !isOk status || !hasBody then p.failed
  else { p with wire := .reading .new [] }

/-- One chunk: the calls of its frames, and the exception that may end them. -/
def Page.read (D : Doubles φ) (p : Page φ) (decoder : TextDecoder) (buffer : Text)
    (bytes : Unicode.Bytes) : Page φ :=
  let decoded := decoder.decode bytes
  let split := Framing.frames (ascii "\n\n") (buffer ++ decoded.2.flatMap Unicode.utf16)
  let handled := Search.handleFrames D split.1
  let heard := handled.1.foldl Page.call p
  if handled.2 then heard.failed else { heard with wire := .reading decoded.1 split.2 }

/-! ## One step -/

/-- What comes for the search `n`; for an aborted one it is an `AbortError`. -/
def Page.hears (p : Page φ) (n : ℕ) (then_ : Wire → Option (Page φ)) : Option (Page φ × Sent) :=
  if n < p.started then some (p, none)
  else if n = p.started then (then_ p.wire).map fun p => (p, none)
  else none

def Page.step (D : Doubles φ) (p : Page φ) : Move → Option (Page φ × Sent)
  | .session canSearch => some ({ p with canSearch := canSearch }, none)
  | .type text => some ({ p with query := text }, none)
  | .submit =>
    if p.canSearch then
      if p.busy then some (p, none)
      else if Search.trim p.query = p.lastQuery then some (p, none)
      else some (p.start p.query)
    else none
  | .pick text => if p.canSearch && p.status = .idle then some (p.start text) else none
  | .respond n status hasBody => p.hears n fun
    | .fetching => some (p.respond status hasBody)
    | _ => none
  | .explain n detail => p.hears n fun
    | .refused fallback => some (p.limited (detail.getD fallback))
    | _ => none
  | .chunk n bytes => p.hears n fun
    | .reading decoder buffer => some (p.read D decoder buffer bytes)
    | _ => none
  | .close n => p.hears n fun
    | .reading _ _ => some { p with wire := .silent }
    | _ => none
  | .fail n => p.hears n fun
    | .fetching => some p.failed
    | .reading _ _ => some p.failed
    | _ => none

abbrev History := List (Move × Sent)

def Reached (D : Doubles φ) : History → Page φ → Prop := Run (guarded Runs.anyStep (Page.step D)) [] {}

section Steps
variable {D : Doubles φ} {p p' : Page φ} {move : Move} {out : Sent} {past : History}

theorem Page.hears_some {n : ℕ} {f : Wire → Option (Page φ)} (h : p.hears n f = some (p', out)) :
    out = none ∧ ((n < p.started ∧ p' = p) ∨ (n = p.started ∧ f p.wire = some p')) := by
  unfold Page.hears at h
  split_ifs at h with hold hnow
  · cases h
    exact ⟨rfl, Or.inl ⟨hold, rfl⟩⟩
  · obtain ⟨q, hq, heq⟩ := Option.map_eq_some_iff.mp h
    cases heq
    exact ⟨rfl, Or.inr ⟨hnow, hq⟩⟩

/-- A search as it was just sent. -/
def Page.began (p : Page φ) (text : Text) : Page φ :=
  { p with
    lastQuery := text
    query := text
    cards := []
    intent := none
    status := .loading
    started := p.started + 1
    wire := .fetching }

/-- What the moves do, one case for each. -/
inductive Stepped (D : Doubles φ) (p : Page φ) : Move → Page φ → Sent → Prop
  | session (canSearch : Bool) : Stepped D p (.session canSearch) { p with canSearch := canSearch } none
  | typed (text : Text) : Stepped D p (.type text) { p with query := text } none
  | held {move : Move} : (move = .submit ∨ ∃ text, move = .pick text) → Stepped D p move p none
  | started {move : Move} {text : Text} : p.canSearch = true → text ≠ [] →
      (move = .submit ∧ p.busy = false ∧ text ≠ p.lastQuery) ∨
        ((∃ prompt, move = .pick prompt) ∧ p.status = .idle) →
      Stepped D p move (p.began text) (some (p.started + 1, text))
  | aborted {move : Move} {n : ℕ} : n < p.started →
      (∀ m bytes, move = .chunk m bytes → m = n) → Stepped D p move p none
  | responded {status : ℕ} {hasBody : Bool} : p.wire = .fetching →
      Stepped D p (.respond p.started status hasBody) (p.respond status hasBody) none
  | explained {fallback : Text} {detail : Option Text} : p.wire = .refused fallback →
      Stepped D p (.explain p.started detail) (p.limited (detail.getD fallback)) none
  | heard {decoder : TextDecoder} {buffer : Text} {bytes : Unicode.Bytes} :
      p.wire = .reading decoder buffer →
      Stepped D p (.chunk p.started bytes) (p.read D decoder buffer bytes) none
  | closed {decoder : TextDecoder} {buffer : Text} : p.wire = .reading decoder buffer →
      Stepped D p (.close p.started) { p with wire := .silent } none
  | broken : (p.wire = .fetching ∨ ∃ decoder buffer, p.wire = .reading decoder buffer) →
      Stepped D p (.fail p.started) p.failed none

theorem Page.start_stepped {prompt : Text} (hmove : move = .submit ∨ ∃ text, move = .pick text)
    (hallowed : Search.trim prompt ≠ [] → (move = .submit ∧ p.busy = false ∧
        Search.trim prompt ≠ p.lastQuery) ∨ ((∃ prompt, move = .pick prompt) ∧ p.status = .idle)) :
    Stepped D p move (p.start prompt).1 (p.start prompt).2 := by
  unfold Page.start
  by_cases hrefused : (!p.canSearch || (Search.trim prompt).isEmpty) = true
  · rw [if_pos hrefused]
    exact Stepped.held hmove
  · rw [if_neg hrefused]
    simp only [Bool.or_eq_true, Bool.not_eq_true', List.isEmpty_iff, not_or, Bool.not_eq_false] at hrefused
    exact Stepped.started hrefused.1 hrefused.2 (hallowed hrefused.2)

theorem Page.step_stepped (h : p.step D move = some (p', out)) : Stepped D p move p' out := by
  cases move with
  | session canSearch =>
    cases h
    exact Stepped.session canSearch
  | type text =>
    cases h
    exact Stepped.typed text
  | submit =>
    simp only [Page.step] at h
    split_ifs at h with hcan hbusy hsame
    · cases h
      exact Stepped.held (Or.inl rfl)
    · cases h
      exact Stepped.held (Or.inl rfl)
    · obtain ⟨rfl, rfl⟩ := Prod.mk.inj (Option.some.inj h)
      exact Page.start_stepped (Or.inl rfl) fun _ =>
        Or.inl ⟨rfl, Bool.eq_false_of_not_eq_true hbusy, hsame⟩
  | pick text =>
    simp only [Page.step] at h
    split_ifs at h with hcan
    obtain ⟨rfl, rfl⟩ := Prod.mk.inj (Option.some.inj h)
    rw [Bool.and_eq_true, decide_eq_true_eq] at hcan
    exact Page.start_stepped (Or.inr ⟨text, rfl⟩) fun _ => Or.inr ⟨⟨text, rfl⟩, hcan.2⟩
  | respond n status hasBody =>
    simp only [Page.step] at h
    obtain ⟨rfl, ⟨hold, rfl⟩ | ⟨rfl, hwire⟩⟩ := Page.hears_some h
    · exact Stepped.aborted hold fun m bytes heq => by cases heq
    · cases hw : p.wire with
      | fetching =>
        rw [hw] at hwire
        cases hwire
        exact Stepped.responded hw
      | _ => rw [hw] at hwire; cases hwire
  | explain n detail =>
    simp only [Page.step] at h
    obtain ⟨rfl, ⟨hold, rfl⟩ | ⟨rfl, hwire⟩⟩ := Page.hears_some h
    · exact Stepped.aborted hold fun m bytes heq => by cases heq
    · cases hw : p.wire with
      | refused fallback =>
        rw [hw] at hwire
        cases hwire
        exact Stepped.explained hw
      | _ => rw [hw] at hwire; cases hwire
  | chunk n bytes =>
    simp only [Page.step] at h
    obtain ⟨rfl, ⟨hold, rfl⟩ | ⟨rfl, hwire⟩⟩ := Page.hears_some h
    · refine Stepped.aborted hold fun m bytes heq => ?_
      cases heq
      rfl
    · cases hw : p.wire with
      | reading decoder buffer =>
        rw [hw] at hwire
        cases hwire
        exact Stepped.heard hw
      | _ => rw [hw] at hwire; cases hwire
  | close n =>
    simp only [Page.step] at h
    obtain ⟨rfl, ⟨hold, rfl⟩ | ⟨rfl, hwire⟩⟩ := Page.hears_some h
    · exact Stepped.aborted hold fun m bytes heq => by cases heq
    · cases hw : p.wire with
      | reading decoder buffer =>
        rw [hw] at hwire
        cases hwire
        exact Stepped.closed hw
      | _ => rw [hw] at hwire; cases hwire
  | fail n =>
    simp only [Page.step] at h
    obtain ⟨rfl, ⟨hold, rfl⟩ | ⟨rfl, hwire⟩⟩ := Page.hears_some h
    · exact Stepped.aborted hold fun m bytes heq => by cases heq
    · cases hw : p.wire with
      | fetching =>
        rw [hw] at hwire
        cases hwire
        exact Stepped.broken (Or.inl hw)
      | reading decoder buffer =>
        rw [hw] at hwire
        cases hwire
        exact Stepped.broken (Or.inr ⟨decoder, buffer, hw⟩)
      | _ => rw [hw] at hwire; cases hwire

theorem Page.respond_cases (p : Page φ) (status : ℕ) (hasBody : Bool) :
    (∃ fallback, p.respond status hasBody = { p with wire := .refused fallback }) ∨
      p.respond status hasBody = p.failed ∨
      p.respond status hasBody = { p with wire := .reading .new [] } := by
  unfold Page.respond
  split_ifs
  · exact Or.inl ⟨limitReached, rfl⟩
  · exact Or.inl ⟨signInFirst, rfl⟩
  · exact Or.inr (Or.inl rfl)
  · exact Or.inr (Or.inr rfl)

end Steps

/-! ## The chunks of a search -/

def chunkOf (n : ℕ) : Move → Option Unicode.Bytes
  | .chunk m bytes => if m = n then some bytes else none
  | _ => none

/-- The chunks that have come for the search `n`. -/
def chunksOf (n : ℕ) (past : History) : List Unicode.Bytes := past.filterMap fun e => chunkOf n e.1

/-- Where the reader stands after one more chunk. -/
def readOn (reader : TextDecoder × Text) (bytes : Unicode.Bytes) : TextDecoder × Text :=
  ((reader.1.decode bytes).1, (Framing.frames (ascii "\n\n")
    (reader.2 ++ (reader.1.decode bytes).2.flatMap Unicode.utf16)).2)

/-- What the frames of one more chunk call, and whether one of them threw. -/
def heardOf (D : Doubles φ) (reader : TextDecoder × Text) (bytes : Unicode.Bytes) :
    List (Call φ) × Bool :=
  Search.handleFrames D (Framing.frames (ascii "\n\n")
    (reader.2 ++ (reader.1.decode bytes).2.flatMap Unicode.utf16)).1

section Chunks
variable {D : Doubles φ} {n : ℕ} {past : History} {e : Move × Sent} {chunks more : List Unicode.Bytes}
  {reader : TextDecoder × Text} {bytes : Unicode.Bytes}

theorem chunksOf_snoc : chunksOf n (past ++ [e]) = chunksOf n past ++ (chunkOf n e.1).toList := by
  unfold chunksOf
  rw [List.filterMap_append, List.filterMap_cons, List.filterMap_nil]
  cases chunkOf n e.1 with
  | none => rfl
  | some bytes => rfl

theorem readLoop_cons (h : (heardOf D reader bytes).2 = false) :
    Search.readLoop D (bytes :: chunks) reader.1 reader.2 =
      ((heardOf D reader bytes).1 ++
          (Search.readLoop D chunks (readOn reader bytes).1 (readOn reader bytes).2).1,
        (Search.readLoop D chunks (readOn reader bytes).1 (readOn reader bytes).2).2) := by
  rw [Search.readLoop]
  exact if_neg (by simpa [heardOf] using h)

theorem readLoop_thrown (h : (heardOf D reader bytes).2 = true) :
    Search.readLoop D (bytes :: chunks) reader.1 reader.2 = heardOf D reader bytes := by
  rw [Search.readLoop]
  exact if_pos h

theorem readLoop_single :
    Search.readLoop D [bytes] reader.1 reader.2 = heardOf D reader bytes := by
  cases hthrown : (heardOf D reader bytes).2 with
  | true => exact readLoop_thrown hthrown
  | false =>
    rw [readLoop_cons hthrown, Search.readLoop, List.append_nil]
    exact Prod.ext rfl hthrown.symm

/-- The loop over some chunks and then others, when the first ones do not throw. -/
theorem readLoop_append (hquiet : (Search.readLoop D chunks reader.1 reader.2).2 = false) :
    Search.readLoop D (chunks ++ more) reader.1 reader.2 =
      ((Search.readLoop D chunks reader.1 reader.2).1 ++
          (Search.readLoop D more (chunks.foldl readOn reader).1 (chunks.foldl readOn reader).2).1,
        (Search.readLoop D more (chunks.foldl readOn reader).1 (chunks.foldl readOn reader).2).2) := by
  induction chunks generalizing reader with
  | nil => rfl
  | cons bytes chunks ih =>
    cases hthrown : (heardOf D reader bytes).2 with
    | true =>
      rw [readLoop_thrown hthrown, hthrown] at hquiet
      cases hquiet
    | false =>
      rw [readLoop_cons hthrown] at hquiet
      rw [List.cons_append, readLoop_cons hthrown, readLoop_cons hthrown, ih hquiet, List.foldl_cons,
        List.append_assoc]

theorem readLoop_thrown_append (hthrown : (Search.readLoop D chunks reader.1 reader.2).2 = true) :
    Search.readLoop D (chunks ++ more) reader.1 reader.2 =
      Search.readLoop D chunks reader.1 reader.2 := by
  induction chunks generalizing reader with
  | nil => cases hthrown
  | cons bytes chunks ih =>
    cases hhead : (heardOf D reader bytes).2 with
    | true => rw [List.cons_append, readLoop_thrown hhead, readLoop_thrown hhead]
    | false =>
      rw [readLoop_cons hhead] at hthrown
      rw [List.cons_append, readLoop_cons hhead, readLoop_cons hhead, ih hthrown]

end Chunks

/-! ## What the page makes of the calls -/

def cardOf : Call φ → Option (Value (PyFloat φ))
  | .onCard card => some card
  | _ => none

def intentAfter (intent : Option (Value (PyFloat φ))) : Call φ → Option (Value (PyFloat φ))
  | .onIntent i => some i
  | _ => intent

def statusAfter (status : Status) : Call φ → Status
  | .onIntent _ => .streaming
  | .onCard _ => status
  | .onDone => .done

theorem foldl_call (calls : List (Call φ)) (p : Page φ) : calls.foldl Page.call p =
    { p with
      cards := p.cards ++ calls.filterMap cardOf
      intent := calls.foldl intentAfter p.intent
      status := calls.foldl statusAfter p.status } := by
  induction calls generalizing p with
  | nil => simp
  | cons call calls ih =>
    rw [List.foldl_cons, ih]
    cases call with
    | onIntent intent => rfl
    | onCard card => simp [Page.call, cardOf, intentAfter, statusAfter]
    | onDone => rfl

/-- The page shows the search whose chunks these are. -/
structure Shows (D : Doubles φ) (chunks : List Unicode.Bytes) (broke : Prop) (p : Page φ) : Prop where
  cards : p.cards = (Search.streamSearch D chunks).1.filterMap cardOf
  intent : p.intent = (Search.streamSearch D chunks).1.foldl intentAfter none
  waits : p.wire = .fetching ∨ (∃ fallback, p.wire = .refused fallback) →
    p.status = .loading ∧ chunks = []
  reads : ∀ decoder buffer, p.wire = .reading decoder buffer →
    (Search.streamSearch D chunks).2 = false ∧ (decoder, buffer) = chunks.foldl readOn (.new, []) ∧
      p.status = (Search.streamSearch D chunks).1.foldl statusAfter .loading
  silent : p.wire = .silent → chunks = [] ∨ (Search.streamSearch D chunks).2 = true ∨ broke ∨
    p.status = (Search.streamSearch D chunks).1.foldl statusAfter .loading

section
variable {D : Doubles φ} {p p' : Page φ} {chunks : List Unicode.Bytes} {broke broke' : Prop}

theorem Shows.same (h : Shows D chunks broke p) (hbroke : broke → broke') (hcards : p'.cards = p.cards)
    (hintent : p'.intent = p.intent) (hstatus : p'.status = p.status) (hwire : p'.wire = p.wire) :
    Shows D chunks broke' p' where
  cards := hcards.trans h.cards
  intent := hintent.trans h.intent
  waits := by
    rw [hwire, hstatus]
    exact h.waits
  reads := by
    rw [hwire, hstatus]
    exact h.reads
  silent := by
    rw [hwire, hstatus]
    exact fun hsilent => (h.silent hsilent).imp_right (Or.imp_right (Or.imp_left hbroke))

theorem Shows.began (text : Text) : Shows D [] broke (p.began text) where
  cards := rfl
  intent := rfl
  waits := fun _ => ⟨rfl, rfl⟩
  reads := nofun
  silent := nofun

theorem Shows.failed (h : Shows D chunks broke p) (hbroke : chunks = [] ∨ broke') :
    Shows D chunks broke' p.failed where
  cards := h.cards
  intent := h.intent
  waits := by simp [Page.failed]
  reads := nofun
  silent := fun _ => hbroke.imp_right fun hbroke => Or.inr (Or.inl hbroke)

theorem Shows.limited (h : Shows D chunks broke p) {fallback : Text} (hwire : p.wire = .refused fallback)
    (message : Text) : Shows D chunks broke (p.limited message) where
  cards := h.cards
  intent := h.intent
  waits := by simp [Page.limited]
  reads := nofun
  silent := fun _ => Or.inl (h.waits (Or.inr ⟨fallback, hwire⟩)).2

theorem Shows.respond (h : Shows D chunks broke p) (hwire : p.wire = .fetching) (status : ℕ)
    (hasBody : Bool) : Shows D chunks broke (p.respond status hasBody) := by
  obtain ⟨hloading, hchunks⟩ := h.waits (Or.inl hwire)
  obtain ⟨fallback, hnext⟩ | hnext | hnext := p.respond_cases status hasBody
  · rw [hnext]
    exact ⟨h.cards, h.intent, fun _ => ⟨hloading, hchunks⟩, nofun, nofun⟩
  · rw [hnext]
    exact h.failed (Or.inl hchunks)
  · rw [hnext]
    subst hchunks
    refine ⟨h.cards, h.intent, by simp, ?_, nofun⟩
    intro decoder buffer heq
    cases heq
    exact ⟨rfl, rfl, hloading⟩

theorem Shows.closed (h : Shows D chunks broke p) {decoder : TextDecoder} {buffer : Text}
    (hwire : p.wire = .reading decoder buffer) : Shows D chunks broke { p with wire := .silent } where
  cards := h.cards
  intent := h.intent
  waits := by simp
  reads := nofun
  silent := fun _ => Or.inr (Or.inr (Or.inr (h.reads decoder buffer hwire).2.2))

theorem Shows.read (h : Shows D chunks broke p) {decoder : TextDecoder} {buffer : Text}
    (hwire : p.wire = .reading decoder buffer) (bytes : Unicode.Bytes) :
    Shows D (chunks ++ [bytes]) broke (p.read D decoder buffer bytes) := by
  obtain ⟨hquiet, hreader, hstatus⟩ := h.reads decoder buffer hwire
  have hheard : Search.streamSearch D (chunks ++ [bytes]) =
      ((Search.streamSearch D chunks).1 ++ (heardOf D (decoder, buffer) bytes).1,
        (heardOf D (decoder, buffer) bytes).2) := by
    have happend := @readLoop_append φ D chunks [bytes] (.new, []) hquiet
    rw [← hreader, readLoop_single] at happend
    exact happend
  have hread : p.read D decoder buffer bytes =
      if (heardOf D (decoder, buffer) bytes).2 then
        ((heardOf D (decoder, buffer) bytes).1.foldl Page.call p).failed
      else
        { (heardOf D (decoder, buffer) bytes).1.foldl Page.call p with
          wire := .reading (readOn (decoder, buffer) bytes).1 (readOn (decoder, buffer) bytes).2 } := rfl
  rw [foldl_call] at hread
  have hcards : p.cards ++ (heardOf D (decoder, buffer) bytes).1.filterMap cardOf =
      (Search.streamSearch D (chunks ++ [bytes])).1.filterMap cardOf := by
    rw [hheard, List.filterMap_append, ← h.cards]
  have hintent : (heardOf D (decoder, buffer) bytes).1.foldl intentAfter p.intent =
      (Search.streamSearch D (chunks ++ [bytes])).1.foldl intentAfter none := by
    rw [hheard, List.foldl_append, ← h.intent]
  cases hthrown : (heardOf D (decoder, buffer) bytes).2 with
  | true =>
    rw [hread, if_pos hthrown]
    refine ⟨hcards, hintent, by simp [Page.failed], nofun, fun _ => Or.inr (Or.inl ?_)⟩
    rw [hheard]
    exact hthrown
  | false =>
    rw [hread, if_neg (by simp [hthrown])]
    refine ⟨hcards, hintent, by simp, ?_, nofun⟩
    intro decoder' buffer' heq
    cases heq
    refine ⟨by rw [hheard]; exact hthrown, ?_, ?_⟩
    · rw [List.foldl_append, ← hreader]
      rfl
    · show (heardOf D (decoder, buffer) bytes).1.foldl statusAfter p.status = _
      rw [hheard, List.foldl_append, ← hstatus]

end

/-! ## A run -/

/-- The search `n` broke off. -/
def broke (n : ℕ) (past : History) : Prop := .fail n ∈ past.map Prod.fst

structure Follows (D : Doubles φ) (past : History) (p : Page φ) : Prop where
  fresh : ∀ n, p.started < n → chunksOf n past = []
  shows : Shows D (chunksOf p.started past) (broke p.started past) p

section Runs
variable {D : Doubles φ} {p p' : Page φ} {move : Move} {out : Sent} {past : History}

theorem broke_snoc {n : ℕ} (h : broke n past) : broke n (past ++ [(move, out)]) := by
  unfold broke
  rw [List.map_append]
  exact List.mem_append_left _ h

theorem Follows.quiet (hf : Follows D past p) (hmove : ∀ n, p.started ≤ n → chunkOf n move = none)
    (hstarted : p'.started = p.started)
    (hshows : ∀ broke', (broke p.started past → broke') → (move = .fail p.started → broke') →
      Shows D (chunksOf p.started past) broke' p') : Follows D (past ++ [(move, out)]) p' := by
  have hchunks : ∀ n, p.started ≤ n → chunksOf n (past ++ [(move, out)]) = chunksOf n past := by
    intro n hn
    rw [chunksOf_snoc, hmove n hn]
    exact List.append_nil _
  constructor
  · intro n hn
    rw [hstarted] at hn
    rw [hchunks n hn.le]
    exact hf.fresh n hn
  · rw [hstarted, hchunks p.started le_rfl]
    refine hshows _ broke_snoc fun hmove => ?_
    subst hmove
    exact List.mem_map_of_mem (List.mem_append_right _ (List.mem_singleton.mpr rfl))

theorem Follows.step (hf : Follows D past p) (h : Stepped D p move p' out) :
    Follows D (past ++ [(move, out)]) p' := by
  cases h with
  | session canSearch =>
    exact hf.quiet (fun _ _ => rfl) rfl fun _ hbroke _ => hf.shows.same hbroke rfl rfl rfl rfl
  | typed text =>
    exact hf.quiet (fun _ _ => rfl) rfl fun _ hbroke _ => hf.shows.same hbroke rfl rfl rfl rfl
  | held hmove =>
    refine hf.quiet (fun n _ => ?_) rfl fun _ hbroke _ => hf.shows.same hbroke rfl rfl rfl rfl
    obtain rfl | ⟨text, rfl⟩ := hmove
    · rfl
    · rfl
  | @started move text _ _ hmove =>
    have hchunks : ∀ n, p.started < n → chunksOf n (past ++ [(move, some (p.started + 1, text))]) = [] := by
      intro n hn
      have hnone : chunkOf n move = none := by
        obtain ⟨rfl, _⟩ | ⟨⟨prompt, rfl⟩, _⟩ := hmove
        · rfl
        · rfl
      rw [chunksOf_snoc, hnone, hf.fresh n hn]
      rfl
    constructor
    · intro n hn
      exact hchunks n (Nat.lt_of_succ_lt hn)
    · show Shows D (chunksOf (p.started + 1) _) _ _
      rw [hchunks _ (Nat.lt_succ_self _)]
      exact Shows.began text
  | @aborted move n hold hchunk =>
    refine hf.quiet (fun m hm => ?_) rfl fun _ hbroke _ => hf.shows.same hbroke rfl rfl rfl rfl
    cases move with
    | chunk k bytes =>
      obtain rfl := hchunk k bytes rfl
      exact if_neg (by omega)
    | _ => rfl
  | @responded status hasBody hwire =>
    have hstarted : (p.respond status hasBody).started = p.started := by
      obtain ⟨fallback, hnext⟩ | hnext | hnext := p.respond_cases status hasBody
      · rw [hnext]
      · rw [hnext]
        rfl
      · rw [hnext]
    refine hf.quiet (fun _ _ => rfl) hstarted fun _ hbroke _ => ?_
    exact (hf.shows.same hbroke rfl rfl rfl rfl).respond hwire status hasBody
  | @explained fallback detail hwire =>
    refine hf.quiet (fun _ _ => rfl) rfl fun _ hbroke _ => ?_
    exact (hf.shows.same hbroke rfl rfl rfl rfl).limited hwire _
  | @heard decoder buffer bytes hwire =>
    have hstarted : (p.read D decoder buffer bytes).started = p.started := by
      unfold Page.read
      simp only [foldl_call]
      split_ifs
      · rfl
      · rfl
    constructor
    · intro n hn
      rw [hstarted] at hn
      rw [chunksOf_snoc, hf.fresh n hn, chunkOf, if_neg hn.ne]
      rfl
    · rw [hstarted, chunksOf_snoc, chunkOf, if_pos rfl]
      exact (hf.shows.same broke_snoc rfl rfl rfl rfl).read hwire bytes
  | closed hwire =>
    refine hf.quiet (fun _ _ => rfl) rfl fun _ hbroke _ => ?_
    exact (hf.shows.same hbroke rfl rfl rfl rfl).closed hwire
  | broken _ =>
    exact hf.quiet (fun _ _ => rfl) rfl fun _ _ hfail => hf.shows.failed (Or.inr (hfail rfl))

theorem reached_follows (h : Reached D past p) : Follows D past p := by
  refine h.invariant_of_init (fun past p => Follows D past p) ?_ ?_
  · intro past p e p' hf hstep
    exact hf.step (Page.step_stepped hstep.2)
  · refine ⟨fun n _ => rfl, rfl, rfl, by simp, nofun, fun _ => Or.inl rfl⟩

end Runs

/-! ## What is shown -/

/-- The card as the browser has it. -/
def shownCard (c : Item φ × Option Text) : Value (PyFloat φ) :=
  (Search.cardData c.1 c.2).recode Unicode.utf16

section Shown
variable {D : Doubles φ} {p : Page φ} {past : History} {items : List (Item φ)}

theorem stream_calls (key : Bool) (intent : Intent φ) (r : Reranking items Text) :
    (Search.eventStream key intent items r).map Search.Event.call =
      .onIntent (intent.modelDump.recode Unicode.utf16) ::
        (((Search.streamCards key r).map fun c => Call.onCard (shownCard c)) ++ [.onDone]) := by
  rw [Search.eventStream_eq, List.map_cons, List.map_append, List.map_map]
  rfl

theorem cards_of_calls (cards : List (Item φ × Option Text)) (i : Value (PyFloat φ)) :
    (.onIntent i :: ((cards.map fun c => Call.onCard (shownCard c)) ++ [.onDone])).filterMap cardOf =
      cards.map shownCard := by
  have hcard : cardOf ∘ (fun c : Item φ × Option Text => Call.onCard (shownCard c)) = some ∘ shownCard := rfl
  rw [List.filterMap_cons_none rfl, List.filterMap_append, List.filterMap_map, hcard, List.filterMap_eq_map]
  exact List.append_nil _

theorem intent_of_calls (cards : List (Item φ × Option Text)) (i : Value (PyFloat φ)) :
    (.onIntent i :: ((cards.map fun c => Call.onCard (shownCard c)) ++ [.onDone])).foldl intentAfter none =
      some i := by
  simp [intentAfter, List.foldl_map]

theorem status_of_calls (cards : List (Item φ × Option Text)) (i : Value (PyFloat φ)) :
    (.onIntent i :: ((cards.map fun c => Call.onCard (shownCard c)) ++ [.onDone])).foldl statusAfter
      .loading = .done := by
  rw [List.foldl_cons, List.foldl_append]
  rfl

/-- What has come of a response calls a part of what all of it calls. -/
theorem streamSearch_part {chunks more : List Unicode.Bytes} {calls : List (Call φ)}
    (h : Search.streamSearch D (chunks ++ more) = (calls, false)) :
    (Search.streamSearch D chunks).2 = false ∧ (Search.streamSearch D chunks).1 <+: calls := by
  cases hquiet : (Search.streamSearch D chunks).2 with
  | true =>
    have hthrown : Search.streamSearch D (chunks ++ more) = Search.streamSearch D chunks :=
      @readLoop_thrown_append φ D chunks more (.new, []) hquiet
    rw [← hthrown, h] at hquiet
    cases hquiet
  | false =>
    have happend := @readLoop_append φ D chunks more (.new, []) hquiet
    have hcalls := congrArg Prod.fst (happend.symm.trans h)
    exact ⟨rfl, _, hcalls⟩

/-- However the searches before were aborted or failed, and however the response is cut: the page shows
the cards of the last search in the order of the endpoint, and once all of it has come, its intent and all
of its cards. -/
theorem page_shows_the_search {key : Bool} {intent : Intent φ} {r : Reranking items Text}
    {bytes : Unicode.Bytes} (h : Reached D past p)
    (hbody : Search.body D (Search.eventStream key intent items r) = some bytes)
    (hfinite : ∀ e ∈ Search.eventStream key intent items r, ∀ x ∈ e.floats, x.isFinite = true)
    (hcame : (chunksOf p.started past).flatten <+: bytes) :
    p.cards <+: (Search.streamCards key r).map shownCard ∧
      ((chunksOf p.started past).flatten = bytes →
        p.cards = (Search.streamCards key r).map shownCard ∧
          p.intent = some (intent.modelDump.recode Unicode.utf16) ∧
          (p.status = .done ∨ .fail p.started ∈ past.map Prod.fst)) := by
  have hheard : ∀ chunks : List Unicode.Bytes, chunks.flatten = bytes → Search.streamSearch D chunks =
      ((Search.eventStream key intent items r).map Search.Event.call, false) := by
    intro chunks hchunks
    rw [Search.streamSearch_eq D hbody hchunks]
    exact (Search.handleFrames_wireFrames D _).mpr hfinite
  have hshows := (reached_follows h).shows
  obtain ⟨rest, hrest⟩ := hcame
  have hall : Search.streamSearch D (chunksOf p.started past ++ [rest]) =
      ((Search.eventStream key intent items r).map Search.Event.call, false) :=
    hheard _ (by simp [hrest])
  rw [stream_calls] at hall
  obtain ⟨hquiet, hpart⟩ := streamSearch_part hall
  constructor
  · rw [hshows.cards, ← cards_of_calls]
    exact hpart.filterMap cardOf
  intro hflat
  have hcalls := hheard _ hflat
  rw [stream_calls] at hcalls
  have hsome : chunksOf p.started past ≠ [] := by
    intro hnil
    rw [hnil] at hcalls
    cases congrArg Prod.fst hcalls
  refine ⟨?_, ?_, ?_⟩
  · rw [hshows.cards, hcalls, cards_of_calls]
  · rw [hshows.intent, hcalls, intent_of_calls]
  · cases hwire : p.wire with
    | silent =>
      obtain hnil | hthrown | hbroke | hstatus := hshows.silent hwire
      · exact absurd hnil hsome
      · rw [hquiet] at hthrown
        cases hthrown
      · exact Or.inr hbroke
      · rw [hstatus, hcalls, status_of_calls]
        exact Or.inl rfl
    | fetching => exact absurd (hshows.waits (Or.inl hwire)).2 hsome
    | refused fallback => exact absurd (hshows.waits (Or.inr ⟨fallback, hwire⟩)).2 hsome
    | reading decoder buffer =>
      rw [(hshows.reads decoder buffer hwire).2.2, hcalls, status_of_calls]
      exact Or.inl rfl

/-- One retrieved item and no re-ranker. -/
def jazzOnly : Reranking ([Search.namedItem 1 "Jazz"] : List (Item Unit)) Text where
  yields := []
  raises := false
  candidates := by simp
  distinct := by simp

def jazzEvents : List (Search.Event Unit Text) :=
  Search.eventStream false Search.anyConcert _ jazzOnly

def jazzBytes : Unicode.Bytes := (Search.body Search.zeroDouble jazzEvents).getD []

/-- The first search cannot reach the service; the second one's response comes in two chunks, and the first
one's network error once more in between. -/
def jazzMoves : List Move :=
  [.session true, .pick (ascii "cheap night out on Saturday"), .fail 1, .type (ascii "jazz "), .submit,
    .respond 2 200 true, .chunk 2 (jazzBytes.take 100), .fail 1, .chunk 2 (jazzBytes.drop 100)]

def jazzShown : History × Page Unit :=
  (replay Runs.anyStep (Page.step Search.zeroDouble) [] {} jazzMoves).getD ([], {})

theorem jazzShown_reached : Reached Search.zeroDouble jazzShown.1 jazzShown.2 :=
  replay_getD_run _ _ _ _ jazzMoves _ (by decide +kernel)

theorem page_shows_the_search_jazz :
    jazzShown.2.cards = [shownCard (Search.namedItem 1 "Jazz", none)] ∧
      jazzShown.2.intent = some (Search.anyConcert.modelDump.recode Unicode.utf16) := by
  have hbody : Search.body Search.zeroDouble jazzEvents = some jazzBytes := by decide +kernel
  have hfinite : ∀ e ∈ jazzEvents, ∀ x ∈ e.floats, x.isFinite = true := by
    have hnone : ∀ e ∈ jazzEvents, e.floats.isEmpty = true := by decide +kernel
    intro e he x hx
    rw [List.isEmpty_iff.mp (hnone e he)] at hx
    cases hx
  have hcame : (chunksOf jazzShown.2.started jazzShown.1).flatten = jazzBytes := by decide +kernel
  obtain ⟨hcards, hintent, _⟩ :=
    (page_shows_the_search jazzShown_reached hbody hfinite (hcame ▸ List.prefix_refl _)).2 hcame
  exact ⟨hcards, hintent⟩

end Shown

/-! ## One search at a time -/

/-- The requests that were sent. -/
def sends (past : History) : List (ℕ × Text) := past.filterMap Prod.snd

/-- What the page keeps of the searches before. -/
structure Remembers (past : History) (p : Page φ) : Prop where
  count : p.started = (sends past).length
  idle : p.status = .idle → sends past = []
  failed : p.status = .error ∨ p.status = .limited → p.lastQuery = []
  last : ¬ (p.status = .error ∨ p.status = .limited) →
    p.lastQuery = ((sends past).getLast?.map Prod.snd).getD []
  waiting : p.wire = .fetching ∨ (∃ fallback, p.wire = .refused fallback) → p.status = .loading
  reading : ∀ decoder buffer, p.wire = .reading decoder buffer →
    p.status = .loading ∨ p.status = .streaming ∨ p.status = .done

section Sends
variable {D : Doubles φ} {p p' : Page φ} {move : Move} {out : Sent} {past : History}

theorem sends_snoc : sends (past ++ [(move, out)]) = sends past ++ out.toList := by
  unfold sends
  rw [List.filterMap_append, List.filterMap_cons, List.filterMap_nil]
  cases out with
  | none => rfl
  | some s => rfl

theorem sends_none : sends (past ++ [(move, none)]) = sends past := by
  rw [sends_snoc]
  exact List.append_nil _

theorem Remembers.same (h : Remembers past p) (hstarted : p'.started = p.started)
    (hstatus : p'.status = p.status) (hlast : p'.lastQuery = p.lastQuery) (hwire : p'.wire = p.wire) :
    Remembers (past ++ [(move, none)]) p' := by
  constructor
  · rw [sends_none, hstarted]
    exact h.count
  · rw [sends_none, hstatus]
    exact h.idle
  · rw [hstatus, hlast]
    exact h.failed
  · rw [sends_none, hstatus, hlast]
    exact h.last
  · rw [hwire, hstatus]
    exact h.waiting
  · rw [hwire, hstatus]
    exact h.reading

/-- The searches end in `error` or `limited` with an empty `lastQuery`. -/
theorem Remembers.gaveUp (h : Remembers past p) (hstarted : p'.started = p.started)
    (hstatus : p'.status = .error ∨ p'.status = .limited) (hlast : p'.lastQuery = [])
    (hwire : p'.wire = .silent) : Remembers (past ++ [(move, none)]) p' := by
  constructor
  · rw [sends_none, hstarted]
    exact h.count
  · intro hidle
    rw [hidle] at hstatus
    obtain hstatus | hstatus := hstatus
    · cases hstatus
    · cases hstatus
  · exact fun _ => hlast
  · exact fun hnot => absurd hstatus hnot
  · rw [hwire]
    rintro (hfetching | ⟨fallback, hrefused⟩)
    · cases hfetching
    · cases hrefused
  · rw [hwire]
    exact nofun

theorem statusAfter_foldl (calls : List (Call φ)) {status : Status}
    (h : status = .loading ∨ status = .streaming ∨ status = .done) :
    calls.foldl statusAfter status = .loading ∨ calls.foldl statusAfter status = .streaming ∨
      calls.foldl statusAfter status = .done := by
  induction calls generalizing status with
  | nil => exact h
  | cons call calls ih =>
    cases call with
    | onIntent intent => exact ih (Or.inr (Or.inl rfl))
    | onCard card => exact ih h
    | onDone => exact ih (Or.inr (Or.inr rfl))

theorem Remembers.step (hr : Remembers past p) (h : Stepped D p move p' out) :
    Remembers (past ++ [(move, out)]) p' := by
  cases h with
  | session canSearch => exact hr.same rfl rfl rfl rfl
  | typed text => exact hr.same rfl rfl rfl rfl
  | held hmove => exact hr.same rfl rfl rfl rfl
  | @started move text _ _ _ =>
    constructor
    · rw [sends_snoc, List.length_append, ← hr.count]
      rfl
    · exact nofun
    · rintro (herror | hlimited)
      · cases herror
      · cases hlimited
    · intro _
      rw [sends_snoc]
      simp [Page.began]
    · exact fun _ => rfl
    · exact nofun
  | aborted hold _ => exact hr.same rfl rfl rfl rfl
  | @responded status hasBody hwire =>
    have hloading := hr.waiting (Or.inl hwire)
    obtain ⟨fallback, hnext⟩ | hnext | hnext := p.respond_cases status hasBody
    · rw [hnext]
      refine ⟨?_, ?_, hr.failed, ?_, fun _ => hloading, nofun⟩
      · rw [sends_none]
        exact hr.count
      · rw [sends_none]
        exact hr.idle
      · rw [sends_none]
        exact hr.last
    · rw [hnext]
      exact hr.gaveUp rfl (Or.inl rfl) rfl rfl
    · rw [hnext]
      refine ⟨?_, ?_, hr.failed, ?_, by simp, fun _ _ _ => Or.inl hloading⟩
      · rw [sends_none]
        exact hr.count
      · rw [sends_none]
        exact hr.idle
      · rw [sends_none]
        exact hr.last
  | explained hwire => exact hr.gaveUp rfl (Or.inr rfl) rfl rfl
  | @heard decoder buffer bytes hwire =>
    unfold Page.read
    simp only [foldl_call]
    split_ifs
    · exact hr.gaveUp rfl (Or.inl rfl) rfl rfl
    · have hbefore := hr.reading decoder buffer hwire
      have hafter := statusAfter_foldl (Search.handleFrames D (Framing.frames (ascii "\n\n")
        (buffer ++ (decoder.decode bytes).2.flatMap Unicode.utf16)).1).1 hbefore
      have hlast := hr.last (by
        obtain h | h | h := hbefore
        all_goals simp [h])
      refine ⟨?_, ?_, ?_, ?_, by simp, fun _ _ _ => hafter⟩
      · rw [sends_none]
        exact hr.count
      · intro hidle
        dsimp only at hidle
        rw [hidle] at hafter
        simp at hafter
      · intro hfailed
        dsimp only at hfailed
        obtain h | h | h := hafter
        all_goals simp [h] at hfailed
      · rw [sends_none]
        exact fun _ => hlast
  | @closed decoder buffer hwire =>
    refine ⟨?_, ?_, hr.failed, ?_, by simp, nofun⟩
    · rw [sends_none]
      exact hr.count
    · rw [sends_none]
      exact hr.idle
    · rw [sends_none]
      exact hr.last
  | broken _ => exact hr.gaveUp rfl (Or.inl rfl) rfl rfl

theorem reached_remembers (h : Reached D past p) : Remembers past p := by
  refine h.invariant_of_init (fun past p => Remembers past p) ?_ ?_
  · intro past p e p' hr hstep
    exact hr.step (Page.step_stepped hstep.2)
  · exact ⟨rfl, fun _ => rfl, by simp, fun _ => rfl, by simp, nofun⟩

/-- A page that is not busy waits for nothing but the end of a stream whose `done` it has. -/
theorem Remembers.quiet (h : Remembers past p) (hbusy : p.busy = false) : p.wire = .silent ∨
    ∃ decoder buffer, p.wire = .reading decoder buffer ∧ p.status = .done := by
  have hnot : p.status ≠ .loading ∧ p.status ≠ .streaming := by simpa [Page.busy] using hbusy
  cases hwire : p.wire with
  | silent => exact Or.inl rfl
  | fetching => exact absurd (h.waiting (Or.inl hwire)) hnot.1
  | refused fallback => exact absurd (h.waiting (Or.inr ⟨fallback, hwire⟩)) hnot.1
  | reading decoder buffer =>
    obtain hloading | hstreaming | hdone := h.reading decoder buffer hwire
    · exact absurd hloading hnot.1
    · exact absurd hstreaming hnot.2
    · exact Or.inr ⟨decoder, buffer, rfl, hdone⟩

theorem Page.submit_sends (hcan : p.canSearch = true) :
    (∃ p' n text, p.step D .submit = some (p', some (n, text))) ↔
      p.busy = false ∧ Search.trim p.query ≠ [] ∧ Search.trim p.query ≠ p.lastQuery := by
  simp only [Page.step, hcan, if_true]
  by_cases hbusy : p.busy = true
  · simp [hbusy]
  · by_cases hsame : Search.trim p.query = p.lastQuery
    · simp [hbusy, hsame]
    · by_cases hempty : Search.trim p.query = []
      · simp [hbusy, Page.start, hcan, hempty]
      · simp [hbusy, hsame, Page.start, hcan, hempty]

/-- The text of the last request is what `lastQuery` keeps, until that search fails. -/
theorem Remembers.repeats_iff (h : Remembers past p) {text : Text} (htext : text ≠ []) :
    text ≠ p.lastQuery ↔ ((∃ n, (sends past).getLast? = some (n, text)) →
      p.status = .error ∨ p.status = .limited) := by
  by_cases hfailed : p.status = .error ∨ p.status = .limited
  · rw [h.failed hfailed]
    exact ⟨fun _ _ => hfailed, fun _ => htext⟩
  · rw [h.last hfailed]
    cases hsends : (sends past).getLast? with
    | none => simp [htext]
    | some s =>
      obtain ⟨m, t⟩ := s
      simp only [Option.map_some, Option.getD_some, hfailed, imp_false]
      constructor
      · rintro hne ⟨n, heq⟩
        cases heq
        exact hne rfl
      · rintro hnone rfl
        exact hnone ⟨m, rfl⟩

/-- A search is sent when none is under way, so that no response is still awaited; and Enter sends one exactly
when the prompt has a text that is not the one sent last, unless that search failed. -/
theorem searches_one_at_a_time (h : Reached D past p) :
    (∀ move p' n text, p.step D move = some (p', some (n, text)) →
      p.busy = false ∧ n = (sends past).length + 1 ∧ text ≠ [] ∧
        (p.wire = .silent ∨ ∃ decoder buffer, p.wire = .reading decoder buffer ∧ p.status = .done)) ∧
    (p.canSearch = true →
      ((∃ p' n text, p.step D .submit = some (p', some (n, text))) ↔
        p.busy = false ∧ Search.trim p.query ≠ [] ∧
          ((∃ n, (sends past).getLast? = some (n, Search.trim p.query)) →
            p.status = .error ∨ p.status = .limited))) := by
  have hr := reached_remembers h
  constructor
  · intro move p' n text hstep
    cases Page.step_stepped hstep with
    | started _ htext hmove =>
      have hbusy : p.busy = false := by
        obtain ⟨_, hbusy, _⟩ | ⟨_, hidle⟩ := hmove
        · exact hbusy
        · simp [Page.busy, hidle]
      exact ⟨hbusy, by rw [hr.count], htext, hr.quiet hbusy⟩
  · intro hcan
    rw [Page.submit_sends hcan]
    refine and_congr_right fun _ => and_congr_right fun htext => ?_
    exact hr.repeats_iff htext

/-- The prompt that was just searched is still in the field. -/
theorem searches_one_at_a_time_jazz :
    (sends jazzShown.1).getLast? = some (2, ascii "jazz") ∧
      ¬ ∃ p' n text, jazzShown.2.step Search.zeroDouble .submit = some (p', some (n, text)) := by
  have hlast : (sends jazzShown.1).getLast? = some (2, Search.trim jazzShown.2.query) := by decide +kernel
  have hdone : jazzShown.2.status = .done := by decide +kernel
  refine ⟨by decide +kernel, fun hsent => ?_⟩
  obtain ⟨_, _, hfailed⟩ :=
    ((searches_one_at_a_time jazzShown_reached).2 (by decide +kernel)).mp hsent
  have hstatus := hfailed ⟨2, hlast⟩
  rw [hdone] at hstatus
  obtain hstatus | hstatus := hstatus
  · cases hstatus
  · cases hstatus

end Sends

end WarsawEvents.Frontend
