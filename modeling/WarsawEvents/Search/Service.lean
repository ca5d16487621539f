import WarsawEvents.RateLimit.SearchQuota
import WarsawEvents.Retrieval.Filters
import WarsawEvents.Retrieval.Fusion
import WarsawEvents.Search.Sse

/-! # Searches from the gate to the stream

`POST /search` of `backend/app/api/routes.py`, any number of requests at once: the gate, the daily quota in
Redis, the intent from the model, the embedding of the prompt, the row of `intent_logs`, retrieval, and the
stream. Between any two of its steps other searches take theirs, accounts change and ingestion runs.

The calls that cost money are the outside ones: the intent, the embedding and the re-ranker.
-/

namespace WarsawEvents.Search
open Json (Text Value ascii)
open Ingestion (Card Kind Datetime)
open RateLimit (Zone World Answer)
open Retrieval (ItemTable Postgres)
set_option autoImplicit false

/-! ## The request and its session -/

/-- What a session holds as `user_id`: what the server wrote, or something older. -/
inductive UserId where
  | uuid (id : ℕ)
  | malformed (raw : String)
  deriving DecidableEq

structure Session where
  userId : Option UserId := none
  sid : Option String := none
  deriving DecidableEq

structure SearchRequest where
  session : Session
  prompt : Text
  deriving DecidableEq

def uuidString (id : ℕ) : String := String.ofList ((uuidText id).map Char.ofNat)

def UserId.raw : UserId → String
  | .uuid id => uuidString id
  | .malformed raw => raw

/-- The caller as the gate sees them. -/
def Session.names (s : Session) (id : ℕ) : Bool := s.userId = some (.uuid id)

inductive Reply (φ : Type) where
  /-- The form does not validate. -/
  | unprocessable
  | http (status : ℕ) (detail : String)
  | serverError
  | stream (events : List (Event φ (Value (PyNum φ))))

/-- `Field(min_length=1, max_length=2000)`; a text with a lone surrogate is no `str` to pydantic. -/
def validPrompt (prompt : Text) : Bool :=
  decide (1 ≤ prompt.length) && decide (prompt.length ≤ 2000) && (Unicode.encode prompt).isSome

section Gate
variable {φ : Type}

/-- `_require_verified_user` over the `email_verified` of every account: what it raises, and the session. -/
def requireVerifiedUser (verified : ℕ → Option Bool) (s : Session) : Option (Reply φ) × Session :=
  match s.userId with
  | none => (some (.http 401 "Sign in to search."), s)
  | some (.malformed raw) => (some (.http 401 "Sign in to search."), if raw.isEmpty then s else {})
  | some (.uuid id) =>
    match verified id with
    | none => (some (.http 401 "Sign in to search."), {})
    | some false => (some (.http 403 "Verify your email to search."), s)
    | some true => (none, s)

end Gate

/-- `if not sid`: a session without an id gets a fresh one. -/
def Session.withSid (s : Session) (fresh : String) : Session :=
  if s.sid.any fun sid => !sid.isEmpty then s else { s with sid := some fresh }

/-- `user_id if user_id else sid`. -/
def Session.quotaKey (s : Session) : String :=
  match s.userId.filter fun u => !u.raw.isEmpty with
  | some u => u.raw
  | none => s.sid.getD ""

/-! ## The intent and its row -/

/-- `Intent(free_text=prompt)`. -/
def Intent.fallback {φ : Type} (prompt : Text) : Intent φ where
  onTopic := true
  categories := []
  dateFrom := none
  dateTo := none
  budgetMax := none
  area := none
  freeText := prompt

/-- `ClaudeIntentExtractor.extract`: `none` when the call raises, `some none` without a parsed output. -/
def extract {φ : Type} (prompt : Text) (answer : Option (Option (Intent φ))) : Intent φ :=
  match answer with
  | some (some intent) => intent
  | _ => Intent.fallback prompt

structure IntentLog where
  userPrompt : Text
  intent : Retrieval.Intent
  model : String
  latencyMs : ℕ

/-- Neither `text` nor `jsonb` holds a NUL or a lone surrogate. -/
def storableText (t : Text) : Bool := !t.contains 0 && (Unicode.encode t).isSome

def Intent.stated {φ : Type} (intent : Intent φ) : List Text :=
  intent.categories ++ intent.dateFrom.toList ++ intent.dateTo.toList ++ intent.area.toList ++
    [intent.freeText]

/-- Whether the row can be inserted: `jsonb` has no `NaN` and no infinity either. -/
def IntentLog.storable (row : IntentLog) : Bool :=
  storableText row.userPrompt && row.intent.stated.all storableText &&
    row.intent.budgetMax.all PyFloat.isFinite

/-! ## The settings and what is outside -/

structure Config (δ σ : Type) where
  zone : Zone
  searchDailyLimit : ℕ
  requireVerifiedEmailToSearch : Bool
  anthropicApiKey : Bool
  voyageApiKey : Bool
  intentModel : String
  retrieval : Retrieval.Settings δ
  pg : Postgres δ σ
  /-- A query returns no row of the table twice. -/
  rows_once : ∀ {α κ : Type} [LinearOrder κ] (key : α → κ) (rows : List α), (pg.order key rows).Subperm rows
  /-- `json.loads` of a line of the re-ranker. -/
  loads : Text → Loaded ℚ
  /-- How pydantic writes a datetime. -/
  isoText : Datetime → Text

/-- `limit` of `search_items`. -/
def searchLimit : ℕ := 30

def kindText : Kind → Text
  | .event => ascii "event"
  | .place => ascii "place"

/-- `ItemOut.model_validate(item)`. -/
def itemOut (isoText : Datetime → Text) (c : Card) : Item ℚ where
  id := c.id
  kind := kindText c.kind
  name := ascii c.name
  description := c.description.map ascii
  category := c.category.map ascii
  priceFrom := c.priceFrom.map PyFloat.finite
  priceTo := c.priceTo.map PyFloat.finite
  imageUrl := c.imageUrl.map ascii
  source := ascii c.source
  sourceUrl := c.sourceUrl.map ascii
  startsAt := c.startsAt.map isoText
  endsAt := c.endsAt.map isoText
  isPermanent := c.isPermanent

/-! ## The state -/

/-- The candidates of a search, each once. -/
structure Found where
  items : List (Item ℚ)
  distinct : (items.map Item.id).Nodup

/-- Where an admitted search stands. -/
inductive Stage where
  | extracting
  | embedding (intent : Retrieval.Intent)
  | logging (intent : Retrieval.Intent) (queryEmbedding : Option (List ℚ))
  | retrieving (intent : Retrieval.Intent) (queryEmbedding : Option (List ℚ))
  | streaming (intent : Retrieval.Intent) (found : Found)

/-- An admitted search, with the date of its quota. -/
structure Running where
  request : SearchRequest
  date : ℤ
  stage : Stage

/-- The searches that wait for Redis stand in the order of its jobs. -/
structure Service where
  quota : World
  waiting : List SearchRequest := []
  running : List Running := []
  verified : ℕ → Option Bool
  table : ItemTable
  intentLogs : List IntentLog := []

inductive External where
  | intent
  | embedding
  | reranker
  deriving DecidableEq

/-- What a step does for a search: the outside call it makes, the row it logs, the answer it sends, or the
logged intent that is left without an answer. -/
structure Output where
  request : Option SearchRequest := none
  date : ℤ := 0
  quota : Option (RateLimit.Move × Option Answer) := none
  spent : Option External := none
  logged : Option IntentLog := none
  reply : Option (Reply ℚ) := none
  unanswered : Option Retrieval.Intent := none

inductive Move where
  /-- An account appears, confirms its address, or is deleted. -/
  | account (id : ℕ) (verified : Option Bool)
  | ingest (table : ItemTable)
  | wait (now : ℤ)
  | arrive (request : SearchRequest) (freshSid : String)
  | incr (i : ℕ)
  | expire (i : ℕ)
  | redisFails (i : ℕ)
  | extract (i : ℕ) (answer : Option (Option Retrieval.Intent))
  | embed (i : ℕ) (answer : Option (List ℚ))
  | log (i : ℕ) (latencyMs : ℕ)
  | retrieve (i : ℕ) (raises : Bool)
  | stream (i : ℕ) (model : ModelStream)
  /-- The client is gone when the answer is sent, before or after the re-ranker was asked. -/
  | hangUp (i : ℕ) (asked : Bool)

/-! ## The steps -/

section Steps
variable {δ σ : Type} [LinearOrder δ] [LinearOrder σ] (cfg : Config δ σ)

def dailyLimitReached : Reply ℚ :=
  .http 429 s!"Daily limit of {cfg.searchDailyLimit} searches reached. Try again tomorrow."

/-- Redis takes a step for the job at `i`; an answer ends the wait of its search. -/
def Service.redis (s : Service) (move : RateLimit.Move) (i : ℕ) : Option (Service × Output) := do
  let (quota, answer) ← RateLimit.step cfg.zone cfg.searchDailyLimit s.quota move
  match answer with
  | none => some ({ s with quota := quota }, { quota := some (move, none) })
  | some a =>
    let request ← s.waiting[i]?
    let waiting := s.waiting.eraseIdx i
    let output : Output := { request := some request, date := a.key.date, quota := some (move, some a) }
    if a.allowed then
      let started : Running := { request := request, date := a.key.date, stage := .extracting }
      some ({ s with quota := quota, waiting := waiting, running := s.running ++ [started] }, output)
    else
      some ({ s with quota := quota, waiting := waiting },
        { output with reply := some (dailyLimitReached cfg) })

/-- The answer of the gate, the session it leaves and the request that goes on to the quota. -/
def gate (verified : ℕ → Option Bool) (request : SearchRequest) (freshSid : String) :
    Option (Reply ℚ) × SearchRequest :=
  if validPrompt request.prompt then
    let (refusal, session) :=
      if cfg.requireVerifiedEmailToSearch then requireVerifiedUser verified request.session
      else (none, request.session)
    match refusal with
    | some r => (some r, { request with session := session })
    | none => (none, { request with session := session.withSid freshSid })
  else (some .unprocessable, request)

def Running.output (r : Running) : Output := { request := some r.request, date := r.date }

/-- `if intent.on_topic and settings.voyage_api_key`. -/
def afterIntent (intent : Retrieval.Intent) : Stage :=
  if intent.onTopic && cfg.voyageApiKey then .embedding intent else .logging intent none

def logRow (r : Running) (intent : Retrieval.Intent) (latencyMs : ℕ) : IntentLog where
  userPrompt := r.request.prompt
  intent := intent
  model := cfg.intentModel
  latencyMs := latencyMs

/-- `search_items(...) if intent.on_topic else []`. -/
def retrieved (table : ItemTable) (prompt : Text) (intent : Retrieval.Intent)
    (queryEmbedding : Option (List ℚ)) : List Card :=
  if intent.onTopic then
    Retrieval.searchItems cfg.pg intent cfg.retrieval table queryEmbedding (some prompt) searchLimit
  else []

end Steps

/-! ## No candidate twice -/

section Retrieved
variable {δ σ : Type} (cfg : Config δ σ) (table : ItemTable)

theorem order_once {α κ β : Type} [LinearOrder κ] (key : α → κ) {rows : List α} {f : α → β}
    (h : (rows.map f).Nodup) : ((cfg.pg.order key rows).map f).Nodup := by
  obtain ⟨kept, hperm, hsub⟩ := cfg.rows_once key rows
  exact (hperm.map f).nodup_iff.mp (h.sublist (hsub.map f))

theorem fused_once (ranked : List (ℕ × ℕ)) (limit : ℕ) :
    ((Retrieval.fused cfg.pg ranked limit).map Prod.fst).Nodup := by
  have hscored : ((Retrieval.scored cfg.pg ranked).map Prod.fst).Nodup := by
    unfold Retrieval.scored
    rw [List.map_map]
    show ((ranked.map Prod.fst).dedup.map id).Nodup
    rw [List.map_id]
    exact List.nodup_dedup _
  unfold Retrieval.fused
  exact (order_once cfg _ hscored).sublist ((List.take_sublist _ _).map _)

theorem joined_once {best : List (ℕ × ℚ)} (hbest : (best.map Prod.fst).Nodup)
    (hstored : ∀ f ∈ best, f.1 ∈ table.cards.map Card.id) :
    ((Retrieval.joined cfg.pg table best).map Card.id).Nodup := by
  have hperm := (Retrieval.join_perm hbest hstored).map Prod.fst
  rw [List.map_map] at hperm
  have hrows := order_once cfg (fun row : Card × ℚ => OrderDual.toDual row.2)
    (hperm.nodup_iff.mpr hbest)
  unfold Retrieval.joined
  rw [List.map_map]
  exact hrows

variable [LinearOrder δ] [LinearOrder σ] (intent : Retrieval.Intent)
  (queryEmbedding : Option (List ℚ)) (limit : ℕ)

/-- What the legs rank, and the fusion keeps, is in the table. -/
theorem legs_stored (prompt : Text) (conds : List (Card → Bool)) :
    ∀ f ∈ Retrieval.fused cfg.pg (Retrieval.lexicalLeg cfg.pg table prompt conds ++
        match queryEmbedding with
        | some embedding => Retrieval.semanticLeg cfg.pg cfg.retrieval table embedding conds
        | none => []) limit,
      f.1 ∈ table.cards.map Card.id := by
  intro f hf
  have hleg := Retrieval.mem_fused (List.mem_map_of_mem hf)
  rw [List.map_append, List.mem_append] at hleg
  obtain hlexical | hsemantic := hleg
  · obtain ⟨c, hc, hid, _⟩ := Retrieval.mem_lexicalLeg hlexical
    exact List.mem_map.mpr ⟨c, hc, hid⟩
  · cases queryEmbedding with
    | none => cases hsemantic
    | some embedding =>
      obtain ⟨c, hc, hid, _⟩ := Retrieval.mem_semanticLeg hsemantic
      exact List.mem_map.mpr ⟨c, hc, hid⟩

theorem hybridSearch_once (prompt : Text) :
    ((Retrieval.hybridSearch cfg.pg intent cfg.retrieval table queryEmbedding prompt limit).map
      Card.id).Nodup :=
  joined_once cfg table (fused_once cfg _ limit) (legs_stored cfg table queryEmbedding limit prompt _)

omit [LinearOrder σ] in
theorem semanticSearch_once :
    ((Retrieval.semanticSearch cfg.pg intent cfg.retrieval table queryEmbedding limit).map
      Card.id).Nodup := by
  have hkept : ((table.cards.filter
      (Retrieval.meets (Retrieval.filterConditions cfg.pg intent))).map Card.id).Nodup :=
    table.keyed.sublist (List.filter_sublist.map _)
  unfold Retrieval.semanticSearch
  cases queryEmbedding with
  | none =>
    have hscan := ((cfg.pg.scan_perm _).map Card.id).nodup_iff.mpr hkept
    exact hscan.sublist ((List.take_sublist _ _).map _)
  | some embedding =>
    have hnear := hkept.sublist
      ((List.filter_sublist (p := Retrieval.isNear cfg.pg cfg.retrieval embedding)).map _)
    exact (order_once cfg _ hnear).sublist ((List.take_sublist _ _).map _)

theorem retrieved_once (prompt : Text) :
    ((retrieved cfg table prompt intent queryEmbedding).map Card.id).Nodup := by
  unfold retrieved Retrieval.searchItems
  by_cases htopic : intent.onTopic = true
  · rw [if_pos htopic]
    simp only
    split_ifs
    · exact hybridSearch_once cfg table intent queryEmbedding searchLimit prompt
    · exact semanticSearch_once cfg table intent queryEmbedding searchLimit
  · rw [if_neg htopic]
    exact List.nodup_nil

/-- The candidates, detached from the session. -/
def found (prompt : Text) : Found where
  items := (retrieved cfg table prompt intent queryEmbedding).map (itemOut cfg.isoText)
  distinct := by
    rw [List.map_map]
    exact retrieved_once cfg table intent queryEmbedding prompt

def Found.reranking (f : Found) (model : ModelStream) : Reranking f.items (Value (PyNum ℚ)) :=
  rerank cfg.loads (fun x => x = 0) f.items f.distinct model

/-! ## One step -/

/-- An admitted search takes its next step; `some none` ends it. -/
def Running.step (r : Running) (table : ItemTable) : Move → Option (Option Stage × Output)
  | .extract _ answer =>
    match r.stage with
    | .extracting =>
      some (some (afterIntent cfg (extract r.request.prompt answer)),
        { r.output with spent := some .intent })
    | _ => none
  | .embed _ answer =>
    match r.stage with
    | .embedding intent => some (some (.logging intent answer), { r.output with spent := some .embedding })
    | _ => none
  | .log _ latencyMs =>
    match r.stage with
    | .logging intent queryEmbedding =>
      let row := logRow cfg r intent latencyMs
      if row.storable then
        some (some (.retrieving intent queryEmbedding), { r.output with logged := some row })
      else some (none, { r.output with reply := some .serverError })
    | _ => none
  | .retrieve _ raises =>
    match r.stage with
    | .retrieving intent queryEmbedding =>
      -- off topic there is no query to fail
      if raises && intent.onTopic then
        some (none, { r.output with reply := some .serverError, unanswered := some intent })
      else
        some (some (.streaming intent (found cfg table intent queryEmbedding r.request.prompt)), r.output)
    | _ => none
  | .stream _ model =>
    match r.stage with
    | .streaming intent f =>
      let events := eventStream cfg.anthropicApiKey intent f.items (f.reranking cfg model)
      let spent := if asksReranker cfg.anthropicApiKey f.items then some .reranker else none
      some (none, { r.output with spent := spent, reply := some (.stream events) })
    | _ => none
  | .hangUp _ asked =>
    match r.stage with
    | .streaming intent f =>
      let spent :=
        if asked && asksReranker cfg.anthropicApiKey f.items then some External.reranker else none
      some (none, { r.output with spent := spent, unanswered := some intent })
    | _ => none
  | _ => none

/-- The search at `i` takes the step. -/
def Service.run (s : Service) (i : ℕ) (move : Move) : Option (Service × Output) := do
  let r ← s.running[i]?
  let (stage, output) ← r.step cfg s.table move
  let running := match stage with
    | some stage => s.running.set i { r with stage := stage }
    | none => s.running.eraseIdx i
  let logs := s.intentLogs ++ output.logged.toList
  some ({ s with running := running, intentLogs := logs }, output)

def Service.step (s : Service) : Move → Option (Service × Output)
  | .account id verified => some ({ s with verified := Function.update s.verified id verified }, {})
  | .ingest table => some ({ s with table := table }, {})
  | .wait now =>
    (RateLimit.step cfg.zone cfg.searchDailyLimit s.quota (.wait now)).map fun (quota, answer) =>
      ({ s with quota := quota }, { quota := some (.wait now, answer) })
  | .arrive request freshSid =>
    match gate cfg s.verified request freshSid with
    | (some reply, request) => some (s, { request := some request, reply := some reply })
    | (none, request) =>
      let call := RateLimit.Move.call request.session.quotaKey
      (RateLimit.step cfg.zone cfg.searchDailyLimit s.quota call).map fun (quota, answer) =>
        ({ s with quota := quota, waiting := s.waiting ++ [request] },
          { request := some request, quota := some (call, answer) })
  | .incr i => s.redis cfg (.incr i) i
  | .expire i => s.redis cfg (.expire i) i
  | .redisFails i => s.redis cfg (.fail i) i
  | .extract i answer => s.run cfg i (.extract i answer)
  | .embed i answer => s.run cfg i (.embed i answer)
  | .log i latencyMs => s.run cfg i (.log i latencyMs)
  | .retrieve i raises => s.run cfg i (.retrieve i raises)
  | .stream i model => s.run cfg i (.stream i model)
  | .hangUp i asked => s.run cfg i (.hangUp i asked)

end Retrieved

/-! ## What a step does -/

section Inversion
variable {δ σ : Type} [LinearOrder δ] [LinearOrder σ] (cfg : Config δ σ)

/-- The steps of one admitted search. -/
inductive Worked (table : ItemTable) (r : Running) : Move → Option Stage → Output → Prop
  | extracted {i : ℕ} {answer : Option (Option Retrieval.Intent)} : r.stage = .extracting →
      Worked table r (.extract i answer) (some (afterIntent cfg (extract r.request.prompt answer)))
        { r.output with spent := some .intent }
  | embedded {i : ℕ} {answer : Option (List ℚ)} {intent : Retrieval.Intent} :
      r.stage = .embedding intent →
      Worked table r (.embed i answer) (some (.logging intent answer))
        { r.output with spent := some .embedding }
  | logged {i latencyMs : ℕ} {intent : Retrieval.Intent} {queryEmbedding : Option (List ℚ)} :
      r.stage = .logging intent queryEmbedding →
      Worked table r (.log i latencyMs) (some (.retrieving intent queryEmbedding))
        { r.output with logged := some (logRow cfg r intent latencyMs) }
  | unstorable {i latencyMs : ℕ} {intent : Retrieval.Intent} {queryEmbedding : Option (List ℚ)} :
      r.stage = .logging intent queryEmbedding →
      Worked table r (.log i latencyMs) none { r.output with reply := some .serverError }
  | failed {i : ℕ} {intent : Retrieval.Intent} {queryEmbedding : Option (List ℚ)} :
      r.stage = .retrieving intent queryEmbedding →
      Worked table r (.retrieve i true) none
        { r.output with reply := some .serverError, unanswered := some intent }
  | found {i : ℕ} {raises : Bool} {intent : Retrieval.Intent} {queryEmbedding : Option (List ℚ)} :
      r.stage = .retrieving intent queryEmbedding →
      Worked table r (.retrieve i raises)
        (some (.streaming intent (found cfg table intent queryEmbedding r.request.prompt))) r.output
  | streamed {i : ℕ} {model : ModelStream} {intent : Retrieval.Intent} {f : Found} :
      r.stage = .streaming intent f →
      Worked table r (.stream i model) none
        { r.output with
          spent := if asksReranker cfg.anthropicApiKey f.items then some .reranker else none
          reply := some (.stream
            (eventStream cfg.anthropicApiKey intent f.items (f.reranking cfg model))) }
  | hungUp {i : ℕ} {asked : Bool} {intent : Retrieval.Intent} {f : Found} :
      r.stage = .streaming intent f →
      Worked table r (.hangUp i asked) none
        { r.output with
          spent := if asked && asksReranker cfg.anthropicApiKey f.items then some .reranker else none
          unanswered := some intent }

theorem Running.step_worked {r : Running} {table : ItemTable} {move : Move} {stage : Option Stage}
    {output : Output} (h : r.step cfg table move = some (stage, output)) :
    Worked cfg table r move stage output := by
  cases move with
  | extract i answer =>
    simp only [Running.step] at h
    split at h
    next hstage =>
      cases h
      exact Worked.extracted hstage
    next => cases h
  | embed i answer =>
    simp only [Running.step] at h
    split at h
    next hstage =>
      cases h
      exact Worked.embedded hstage
    next => cases h
  | log i latencyMs =>
    simp only [Running.step] at h
    split at h
    next hstage =>
      split_ifs at h
      · cases h
        exact Worked.logged hstage
      · cases h
        exact Worked.unstorable hstage
    next => cases h
  | retrieve i raises =>
    simp only [Running.step] at h
    split at h
    next hstage =>
      split_ifs at h with hraises
      · cases h
        rw [(Bool.and_eq_true_iff.mp hraises).1]
        exact Worked.failed hstage
      · cases h
        exact Worked.found hstage
    next => cases h
  | stream i model =>
    simp only [Running.step] at h
    split at h
    next hstage =>
      cases h
      exact Worked.streamed hstage
    next => cases h
  | hangUp i asked =>
    simp only [Running.step] at h
    split at h
    next hstage =>
      cases h
      exact Worked.hungUp hstage
    next => cases h
  | _ => cases h

/-- The step of Redis that a move stands for, and the job that takes it. -/
def Move.redis : Move → Option (RateLimit.Move × ℕ)
  | .incr i => some (.incr i, i)
  | .expire i => some (.expire i, i)
  | .redisFails i => some (.fail i, i)
  | _ => none

/-- The steps of the service, one case for each thing that happens. -/
inductive Stepped (s : Service) : Move → Service → Output → Prop
  | account (id : ℕ) (verified : Option Bool) :
      Stepped s (.account id verified) { s with verified := Function.update s.verified id verified } {}
  | ingested (table : ItemTable) : Stepped s (.ingest table) { s with table := table } {}
  | waited {now : ℤ} {quota : World} {answer : Option Answer} :
      RateLimit.step cfg.zone cfg.searchDailyLimit s.quota (.wait now) = some (quota, answer) →
      Stepped s (.wait now) { s with quota := quota } { quota := some (.wait now, answer) }
  | turnedAway {request request' : SearchRequest} {freshSid : String} {reply : Reply ℚ} :
      gate cfg s.verified request freshSid = (some reply, request') →
      Stepped s (.arrive request freshSid) s { request := some request', reply := some reply }
  | passed {request request' : SearchRequest} {freshSid : String} {quota : World}
      {answer : Option Answer} :
      gate cfg s.verified request freshSid = (none, request') →
      RateLimit.step cfg.zone cfg.searchDailyLimit s.quota (.call request'.session.quotaKey) =
        some (quota, answer) →
      Stepped s (.arrive request freshSid)
        { s with quota := quota, waiting := s.waiting ++ [request'] }
        { request := some request', quota := some (.call request'.session.quotaKey, answer) }
  | counting {move : Move} {m : RateLimit.Move} {i : ℕ} {quota : World} : move.redis = some (m, i) →
      RateLimit.step cfg.zone cfg.searchDailyLimit s.quota m = some (quota, none) →
      Stepped s move { s with quota := quota } { quota := some (m, none) }
  | allowed {move : Move} {m : RateLimit.Move} {i : ℕ} {quota : World} {a : Answer}
      {request : SearchRequest} : move.redis = some (m, i) →
      RateLimit.step cfg.zone cfg.searchDailyLimit s.quota m = some (quota, some a) →
      s.waiting[i]? = some request → a.allowed = true →
      Stepped s move
        { s with
          quota := quota
          waiting := s.waiting.eraseIdx i
          running := s.running ++ [⟨request, a.key.date, .extracting⟩] }
        { request := some request, date := a.key.date, quota := some (m, some a) }
  | denied {move : Move} {m : RateLimit.Move} {i : ℕ} {quota : World} {a : Answer}
      {request : SearchRequest} : move.redis = some (m, i) →
      RateLimit.step cfg.zone cfg.searchDailyLimit s.quota m = some (quota, some a) →
      s.waiting[i]? = some request → a.allowed = false →
      Stepped s move { s with quota := quota, waiting := s.waiting.eraseIdx i }
        { request := some request
          date := a.key.date
          quota := some (m, some a)
          reply := some (dailyLimitReached cfg) }
  | goesOn {move : Move} {i : ℕ} {r : Running} {stage : Stage} {output : Output} :
      s.running[i]? = some r → Worked cfg s.table r move (some stage) output →
      Stepped s move
        { s with
          running := s.running.set i { r with stage := stage }
          intentLogs := s.intentLogs ++ output.logged.toList } output
  | ends {move : Move} {i : ℕ} {r : Running} {output : Output} :
      s.running[i]? = some r → Worked cfg s.table r move none output →
      Stepped s move
        { s with
          running := s.running.eraseIdx i
          intentLogs := s.intentLogs ++ output.logged.toList } output

variable {cfg} {s s' : Service} {move : Move} {output : Output}

theorem Service.redis_stepped {m : RateLimit.Move} {i : ℕ} (hmove : move.redis = some (m, i))
    (h : s.redis cfg m i = some (s', output)) : Stepped cfg s move s' output := by
  unfold Service.redis at h
  obtain ⟨⟨quota, answer⟩, hquota, h⟩ := Option.bind_eq_some_iff.mp h
  cases answer with
  | none =>
    cases h
    exact Stepped.counting hmove hquota
  | some a =>
    obtain ⟨request, hrequest, h⟩ := Option.bind_eq_some_iff.mp h
    simp only at h
    split_ifs at h with hallowed
    · cases h
      exact Stepped.allowed hmove hquota hrequest hallowed
    · cases h
      exact Stepped.denied hmove hquota hrequest (Bool.eq_false_of_not_eq_true hallowed)

theorem Service.run_stepped {i : ℕ} (h : s.run cfg i move = some (s', output)) :
    Stepped cfg s move s' output := by
  unfold Service.run at h
  obtain ⟨r, hr, h⟩ := Option.bind_eq_some_iff.mp h
  obtain ⟨⟨stage, output'⟩, hstep, h⟩ := Option.bind_eq_some_iff.mp h
  have hworked := Running.step_worked cfg hstep
  cases stage with
  | none =>
    cases h
    exact Stepped.ends hr hworked
  | some stage =>
    cases h
    exact Stepped.goesOn hr hworked

theorem Service.step_stepped (h : s.step cfg move = some (s', output)) :
    Stepped cfg s move s' output := by
  cases move with
  | account id verified =>
    cases h
    exact Stepped.account id verified
  | ingest table =>
    cases h
    exact Stepped.ingested table
  | wait now =>
    obtain ⟨⟨quota, answer⟩, hquota, h⟩ := Option.map_eq_some_iff.mp h
    cases h
    exact Stepped.waited hquota
  | arrive request freshSid =>
    simp only [Service.step] at h
    split at h
    next reply request' hgate =>
      cases h
      exact Stepped.turnedAway hgate
    next request' hgate =>
      obtain ⟨⟨quota, answer⟩, hquota, h⟩ := Option.map_eq_some_iff.mp h
      cases h
      exact Stepped.passed hgate hquota
  | incr i => exact Service.redis_stepped rfl h
  | expire i => exact Service.redis_stepped rfl h
  | redisFails i => exact Service.redis_stepped rfl h
  | extract i answer => exact Service.run_stepped h
  | embed i answer => exact Service.run_stepped h
  | log i latencyMs => exact Service.run_stepped h
  | retrieve i raises => exact Service.run_stepped h
  | stream i model => exact Service.run_stepped h
  | hangUp i asked => exact Service.run_stepped h

end Inversion

/-! ## Runs -/

abbrev History := List (Move × Output)

/-- Nobody has an account yet, and nobody searches. -/
def opened (now : ℤ) (table : ItemTable) : Service where
  quota := RateLimit.idle now
  verified _ := none
  table := table

abbrev Guard := History → Service → Move → Prop

def Reached {δ σ : Type} [LinearOrder δ] [LinearOrder σ] (cfg : Config δ σ) (G : Guard) (now : ℤ)
    (table : ItemTable) : History → Service → Prop :=
  Runs.Run (Runs.guarded G (Service.step cfg)) [] (opened now table)

/-! ## A search, while the model and the embeddings are down -/

def plainConfig : Config ℚ ℚ where
  zone := { offset := fun _ => 0 }
  searchDailyLimit := 1
  requireVerifiedEmailToSearch := true
  anthropicApiKey := true
  voyageApiKey := true
  intentModel := "claude-haiku-4-5"
  retrieval := { hybridSearch := true, searchMaxDistance := 62 / 100 }
  pg := Retrieval.utcPostgres
  rows_once key rows := (OrderBy.stable_exact.perm key rows).subperm
  loads _ := .decodeError
  isoText _ := []

def jazzTable : ItemTable where
  cards := [{ id := 5, kind := .event, name := "jazz", source := "fixtures" }]
  keyed := by decide

def jazzRequest : SearchRequest := { session := { userId := some (.uuid 0) }, prompt := ascii "jazz" }

def oneSearch : List Move :=
  [.account 0 (some true), .arrive jazzRequest "sid", .incr 0, .expire 0, .extract 0 none, .embed 0 none,
    .log 0 7, .retrieve 0 false, .stream 0 ⟨[], false⟩]

end WarsawEvents.Search
