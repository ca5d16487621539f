import WarsawEvents.Search.Spending

/-! # What the searches of a run answer

* `answers_are_logged`: the rows of `intent_logs` are one for every answer, one for every search between its
  row and its answer, and one for every search whose retrieval failed or whose client was gone.
* `answers_show_the_catalog`: an answer is its intent, at most `limit` cards of the catalog that meet that
  intent, none twice, and the end; without a topic there is no card.
-/

namespace WarsawEvents.Search
open Json (Text Value ascii)
open Ingestion (Card)
open Retrieval (ItemTable)
open Runs
set_option autoImplicit false

variable {δ σ : Type} [LinearOrder δ] [LinearOrder σ] {cfg : Config δ σ} {s s' : Service} {move : Move}
  {output : Output} {past : History} {now : ℤ} {table : ItemTable} {G : Guard}

/-! ## The rows of the log -/

/-- An answer to a prompt of this kind that shows an intent of this kind. -/
def streamedFor (q : Text → Retrieval.Intent → Bool) (e : Move × Output) : Bool :=
  match e.2.reply with
  | some (.stream (.intent intent :: _)) => e.2.request.any fun r => q r.prompt intent
  | _ => false

def rowFits (q : Text → Retrieval.Intent → Bool) (row : IntentLog) : Bool := q row.userPrompt row.intent

/-- Logged, and not answered yet. -/
def onItsWay (q : Text → Retrieval.Intent → Bool) (r : Running) : Bool :=
  match r.stage with
  | .retrieving intent _ => q r.request.prompt intent
  | .streaming intent _ => q r.request.prompt intent
  | _ => false

/-- A search that was logged and ends without an answer: its retrieval fails, or its client is gone. -/
def lost (q : Text → Retrieval.Intent → Bool) (e : Move × Output) : Bool :=
  e.2.unanswered.any fun intent => e.2.request.any fun r => q r.prompt intent

section Logged
variable {q : Text → Retrieval.Intent → Bool}

/-- A search takes its row along, to its answer or to its loss. -/
theorem Worked.rows {r : Running} {stage : Option Stage} (q : Text → Retrieval.Intent → Bool)
    (h : Worked cfg table r move stage output) :
    (if onItsWay q r then 1 else 0) + output.logged.toList.countP (rowFits q) =
      (if streamedFor q (move, output) then 1 else 0) +
        (if stage.any fun stage => onItsWay q { r with stage := stage } then 1 else 0) +
        if lost q (move, output) then 1 else 0 := by
  cases h with
  | @extracted i answer hstage =>
    obtain hnext | hnext := afterIntent_cases cfg (extract r.request.prompt answer)
    · simp [streamedFor, onItsWay, hstage, hnext, Running.output, lost]
    · simp [streamedFor, onItsWay, hstage, hnext, Running.output, lost]
  | embedded hstage => simp [streamedFor, onItsWay, hstage, Running.output, lost]
  | @logged i latencyMs intent queryEmbedding hstage =>
    by_cases hq : q r.request.prompt intent = true
    · simp [streamedFor, onItsWay, hstage, Running.output, rowFits, logRow, lost, hq]
    · simp [streamedFor, onItsWay, hstage, Running.output, rowFits, logRow, lost, hq]
  | unstorable hstage => simp [streamedFor, onItsWay, hstage, Running.output, lost]
  | @failed i intent queryEmbedding hstage =>
    by_cases hq : q r.request.prompt intent = true
    · simp [streamedFor, onItsWay, hstage, Running.output, lost, hq]
    · simp [streamedFor, onItsWay, hstage, Running.output, lost, hq]
  | @found i raises intent queryEmbedding hstage =>
    by_cases hq : q r.request.prompt intent = true
    · simp [streamedFor, onItsWay, hstage, Running.output, lost, hq]
    · simp [streamedFor, onItsWay, hstage, Running.output, lost, hq]
  | @streamed i model intent f hstage =>
    by_cases hq : q r.request.prompt intent = true
    · simp [streamedFor, onItsWay, hstage, Running.output, eventStream, lost, hq]
    · simp [streamedFor, onItsWay, hstage, Running.output, eventStream, lost, hq]
  | @hungUp i asked intent f hstage =>
    by_cases hq : q r.request.prompt intent = true
    · simp [streamedFor, onItsWay, hstage, Running.output, lost, hq]
    · simp [streamedFor, onItsWay, hstage, Running.output, lost, hq]

/-- The rows are those of the answers, of the searches under way and of the losses. -/
def Kept (q : Text → Retrieval.Intent → Bool) (past : History) (s : Service) : Prop :=
  s.intentLogs.countP (rowFits q) =
    past.countP (streamedFor q) + s.running.countP (onItsWay q) + past.countP (lost q)

omit [LinearOrder δ] [LinearOrder σ] in
theorem gate_refuses {verified : ℕ → Option Bool} {request request' : SearchRequest}
    {freshSid : String} {reply : Reply ℚ}
    (h : gate cfg verified request freshSid = (some reply, request')) :
    ∀ events, reply ≠ .stream events := by
  intro events hstream
  subst hstream
  unfold gate requireVerifiedUser at h
  by_cases hvalid : validPrompt request.prompt = true
  · rw [if_pos hvalid] at h
    cases hgate : cfg.requireVerifiedEmailToSearch with
    | false => simp [hgate] at h
    | true =>
      simp only [hgate, if_true] at h
      cases huser : request.session.userId with
      | none => simp [huser] at h
      | some u =>
        cases u with
        | malformed raw => simp [huser] at h
        | uuid id =>
          rw [huser] at h
          cases hverified : verified id with
          | none => simp [hverified] at h
          | some confirmed => cases confirmed <;> simp [hverified] at h
  · rw [if_neg hvalid] at h
    cases h

/-- A step that logs nothing, loses nothing and answers nobody with a stream. -/
theorem Kept.idle (hs : Kept q past s) (hlogs : s'.intentLogs = s.intentLogs)
    (hrunning : s'.running.countP (onItsWay q) = s.running.countP (onItsWay q))
    (hreply : ∀ events, output.reply ≠ some (.stream events)) (hlost : output.unanswered = none) :
    Kept q (past ++ [(move, output)]) s' := by
  have hnothing : streamedFor q (move, output) = false := by
    unfold streamedFor
    split
    next heq => exact absurd heq (hreply _)
    next => rfl
  have hkept : lost q (move, output) = false := by
    unfold lost
    rw [hlost]
    rfl
  unfold Kept at hs ⊢
  rw [List.countP_append, List.countP_append, List.countP_singleton, List.countP_singleton, hnothing,
    hkept, hlogs, hrunning, if_neg Bool.false_ne_true]
  exact hs

theorem Kept.step (hs : Kept q past s) (h : Stepped cfg s move s' output) :
    Kept q (past ++ [(move, output)]) s' := by
  cases h with
  | account _ _ => exact hs.idle rfl rfl nofun rfl
  | ingested _ => exact hs.idle rfl rfl nofun rfl
  | waited _ => exact hs.idle rfl rfl nofun rfl
  | turnedAway hgate =>
    exact hs.idle rfl rfl (fun events heq => gate_refuses hgate events (Option.some.inj heq)) rfl
  | passed _ _ => exact hs.idle rfl rfl nofun rfl
  | counting _ _ => exact hs.idle rfl rfl nofun rfl
  | allowed _ _ _ _ =>
    refine hs.idle rfl ?_ nofun rfl
    rw [List.countP_append, List.countP_singleton]
    rfl
  | denied _ _ _ _ => exact hs.idle rfl rfl nofun rfl
  | @goesOn _ i r stage output hr hworked =>
    have hrows := hworked.rows q
    have hset := RateLimit.countP_set_add (p := onItsWay q) (y := { r with stage := stage }) hr
    rw [Option.any_some] at hrows
    unfold Kept at hs ⊢
    dsimp only
    rw [List.countP_append, List.countP_append, List.countP_singleton, List.countP_append,
      List.countP_singleton]
    omega
  | @ends _ i r output hr hworked =>
    have hrows := hworked.rows q
    have herase := RateLimit.countP_eraseIdx (p := onItsWay q) hr
    rw [Option.any_none, if_neg Bool.false_ne_true] at hrows
    unfold Kept at hs ⊢
    dsimp only
    rw [List.countP_append, List.countP_append, List.countP_singleton, List.countP_append,
      List.countP_singleton]
    omega

/-- Whatever prompts and intents one looks at: the rows are one for every answer, one for every search that
is still under way, and one for every search whose retrieval failed or whose client was gone. -/
theorem answers_are_logged (h : Reached cfg G now table past s) (q : Text → Retrieval.Intent → Bool) :
    s.intentLogs.countP (fun row => q row.userPrompt row.intent) =
      past.countP (streamedFor q) + s.running.countP (onItsWay q) + past.countP (lost q) := by
  refine h.invariant_of_init (fun past s => Kept q past s) ?_ rfl
  intro past s e s' hs hstep
  exact hs.step (Service.step_stepped hstep.2)

theorem answers_are_logged_searched :
    searched.2.intentLogs.countP (fun row => row.intent.onTopic) =
      searched.1.countP (streamedFor fun _ intent => intent.onTopic) +
        searched.2.running.countP (onItsWay fun _ intent => intent.onTopic) +
        searched.1.countP (lost fun _ intent => intent.onTopic) :=
  answers_are_logged searched_reached fun _ intent => intent.onTopic

end Logged

/-! ## The cards of a stream -/

section Cards
variable {φ β : Type} {items : List (Item φ)}

/-- The cards between the intent and the end. -/
def streamCards (key : Bool) (r : Reranking items β) : List (Item φ × Option β) :=
  if asksReranker key items then
    yielded r.yields ++ if r.raises then bare (leftOver items r.yields) else []
  else bare items

theorem eventStream_eq (key : Bool) (intent : Intent φ) (r : Reranking items β) :
    eventStream key intent items r = .intent intent :: ((streamCards key r).map Event.ofCard ++ [.done]) := by
  unfold eventStream streamCards
  by_cases hasks : asksReranker key items = true
  · rw [if_pos hasks, if_pos hasks, rerankedCards_eq]
    simp
  · rw [if_neg hasks, if_neg hasks, rawCards_eq]

theorem streamCards_mem (key : Bool) (r : Reranking items β) : ∀ c ∈ streamCards key r, c.1 ∈ items := by
  have hyield : ∀ c ∈ yielded r.yields, c.1 ∈ items := by
    intro c hc
    obtain ⟨p, hp, rfl⟩ := List.mem_map.mp hc
    exact r.candidates p hp
  intro c hc
  unfold streamCards at hc
  split_ifs at hc
  · obtain hc | hc := List.mem_append.mp hc
    · exact hyield c hc
    · obtain ⟨item, hitem, rfl⟩ := List.mem_map.mp hc
      exact (List.mem_filter.mp hitem).1
  · rw [List.append_nil] at hc
    exact hyield c hc
  · obtain ⟨item, hitem, rfl⟩ := List.mem_map.mp hc
    exact hitem

theorem streamCards_once (hids : (items.map Item.id).Nodup) (key : Bool) (r : Reranking items β) :
    ((streamCards key r).map fun c => c.1.id).Nodup := by
  unfold streamCards
  split_ifs
  · have hperm := yields_leftOver_perm hids r
    rw [← yielded_bare_fst] at hperm
    have hnodup := (hperm.map Item.id).nodup_iff.mpr hids
    rw [List.map_map] at hnodup
    exact hnodup
  · rw [List.append_nil]
    simpa [yielded, Function.comp_def] using r.distinct
  · simpa [bare, Function.comp_def] using hids

theorem streamCards_length (hids : (items.map Item.id).Nodup) (key : Bool) (r : Reranking items β) :
    (streamCards key r).length ≤ items.length := by
  have hsub : ((streamCards key r).map fun c => c.1.id) ⊆ items.map Item.id := by
    intro id hid
    obtain ⟨c, hc, rfl⟩ := List.mem_map.mp hid
    exact List.mem_map_of_mem (streamCards_mem key r c hc)
  have hle := ((streamCards_once hids key r).subperm hsub).length_le
  simpa using hle

end Cards

/-! ## The candidates of a search -/

/-- The catalogs that a run has had. -/
def catalogs (table : ItemTable) (past : History) : List ItemTable :=
  table :: past.filterMap fun e => match e.1 with
    | .ingest table => some table
    | _ => none

theorem catalogs_snoc (table : ItemTable) (past : History) (e : Move × Output) :
    catalogs table past ⊆ catalogs table (past ++ [e]) := by
  unfold catalogs
  rw [List.filterMap_append]
  exact List.cons_subset_cons _ (List.subset_append_left _ _)

/-- A card of some catalog that meets the intent, as it is shown. -/
def Shows (cfg : Config δ σ) (tables : List ItemTable) (intent : Retrieval.Intent) (item : Item ℚ) : Prop :=
  ∃ t ∈ tables, ∃ c ∈ t.cards, item = itemOut cfg.isoText c ∧ Retrieval.InCategory intent c ∧
    Retrieval.WithinBudget intent c ∧ Retrieval.BetweenBounds cfg.pg intent c

structure Found.Fits (cfg : Config δ σ) (tables : List ItemTable) (intent : Retrieval.Intent) (f : Found) :
    Prop where
  few : f.items.length ≤ searchLimit
  topic : intent.onTopic = false → f.items = []
  shown : ∀ item ∈ f.items, Shows cfg tables intent item

omit [LinearOrder δ] [LinearOrder σ] in
theorem joined_length (cfg : Config δ σ) (table : ItemTable) {best : List (ℕ × ℚ)}
    (hbest : (best.map Prod.fst).Nodup) (hstored : ∀ f ∈ best, f.1 ∈ table.cards.map Card.id) :
    (Retrieval.joined cfg.pg table best).length ≤ best.length := by
  have hsub : (Retrieval.joined cfg.pg table best).map Card.id ⊆ best.map Prod.fst := by
    intro id hid
    obtain ⟨c, hc, rfl⟩ := List.mem_map.mp hid
    exact (Retrieval.mem_joined hc).2
  have hle := ((joined_once cfg table hbest hstored).subperm hsub).length_le
  simpa using hle

theorem retrieved_length (cfg : Config δ σ) (table : ItemTable) (prompt : Text) (intent : Retrieval.Intent)
    (queryEmbedding : Option (List ℚ)) :
    (retrieved cfg table prompt intent queryEmbedding).length ≤ searchLimit := by
  unfold retrieved Retrieval.searchItems
  by_cases htopic : intent.onTopic = true
  · rw [if_pos htopic]
    simp only
    split_ifs
    · refine (joined_length cfg table (fused_once cfg _ searchLimit)
        (legs_stored cfg table queryEmbedding searchLimit prompt _)).trans ?_
      exact List.length_take_le _ _
    · unfold Retrieval.semanticSearch
      cases queryEmbedding with
      | none => exact List.length_take_le _ _
      | some embedding => exact List.length_take_le _ _
  · rw [if_neg htopic]
    exact Nat.zero_le _

theorem found_fits (cfg : Config δ σ) {tables : List ItemTable} (htable : table ∈ tables)
    (intent : Retrieval.Intent) (queryEmbedding : Option (List ℚ)) (prompt : Text) :
    (found cfg table intent queryEmbedding prompt).Fits cfg tables intent := by
  constructor
  · show ((retrieved cfg table prompt intent queryEmbedding).map _).length ≤ searchLimit
    rw [List.length_map]
    exact retrieved_length cfg table prompt intent queryEmbedding
  · intro htopic
    show (retrieved cfg table prompt intent queryEmbedding).map _ = []
    unfold retrieved
    rw [htopic, if_neg Bool.false_ne_true, List.map_nil]
  · intro item hitem
    obtain ⟨c, hc, rfl⟩ := List.mem_map.mp hitem
    unfold retrieved at hc
    split_ifs at hc
    · obtain ⟨hstored, hmeets⟩ := Retrieval.searchItems_meets hc
      obtain ⟨hdates, hbudget, hcategory⟩ := Retrieval.meets_iff.mp hmeets
      exact ⟨table, htable, c, hstored, rfl, hcategory, hbudget, hdates⟩
    · cases hc

/-- The catalog is one of those, and so were the ones the candidates under way come from. -/
structure Sourced (cfg : Config δ σ) (tables : List ItemTable) (s : Service) : Prop where
  current : s.table ∈ tables
  found : ∀ r ∈ s.running, ∀ intent f, r.stage = .streaming intent f → f.Fits cfg tables intent

omit [LinearOrder δ] [LinearOrder σ] in
theorem Found.Fits.mono {tables tables' : List ItemTable} {intent : Retrieval.Intent} {f : Found}
    (h : f.Fits cfg tables intent) (hsub : tables ⊆ tables') : f.Fits cfg tables' intent := by
  refine ⟨h.few, h.topic, ?_⟩
  intro item hitem
  obtain ⟨t, ht, c, hc⟩ := h.shown item hitem
  exact ⟨t, hsub ht, c, hc⟩

omit [LinearOrder δ] [LinearOrder σ] in
theorem Sourced.mono {tables tables' : List ItemTable} (hs : Sourced cfg tables s)
    (hsub : tables ⊆ tables') (htable : s'.table = s.table) (hrunning : s'.running ⊆ s.running) :
    Sourced cfg tables' s' := by
  constructor
  · rw [htable]
    exact hsub hs.current
  · intro r hr intent f hstage
    exact (hs.found r (hrunning hr) intent f hstage).mono hsub

/-- A search that goes on to the stream has just found its candidates. -/
theorem Worked.fits {r : Running} {stage : Stage} (h : Worked cfg s.table r move (some stage) output)
    {tables : List ItemTable} (htable : s.table ∈ tables) :
    ∀ intent f, stage = .streaming intent f → f.Fits cfg tables intent := by
  intro intent f hstage
  cases h with
  | @extracted i answer _ =>
    obtain hnext | hnext := afterIntent_cases cfg (extract r.request.prompt answer)
    · rw [hnext] at hstage
      cases hstage
    · rw [hnext] at hstage
      cases hstage
  | embedded _ => cases hstage
  | logged _ => cases hstage
  | found _ =>
    cases hstage
    exact found_fits cfg htable intent _ _

theorem Sourced.step (hs : Sourced cfg (catalogs table past) s) (h : Stepped cfg s move s' output) :
    Sourced cfg (catalogs table (past ++ [(move, output)])) s' := by
  have hgrows := catalogs_snoc table past (move, output)
  cases h with
  | account _ _ => exact hs.mono hgrows rfl (List.Subset.refl _)
  | ingested table' =>
    refine ⟨?_, fun r hr intent f hstage => (hs.found r hr intent f hstage).mono hgrows⟩
    show table' ∈ catalogs table (past ++ [(Move.ingest table', ({} : Output))])
    simp [catalogs]
  | waited _ => exact hs.mono hgrows rfl (List.Subset.refl _)
  | turnedAway _ => exact hs.mono hgrows rfl (List.Subset.refl _)
  | passed _ _ => exact hs.mono hgrows rfl (List.Subset.refl _)
  | counting _ _ => exact hs.mono hgrows rfl (List.Subset.refl _)
  | allowed _ _ _ _ =>
    refine ⟨hgrows hs.current, ?_⟩
    intro r hr intent f hstage
    obtain hold | hnew := List.mem_append.mp hr
    · exact (hs.found r hold intent f hstage).mono hgrows
    · rw [List.mem_singleton.mp hnew] at hstage
      cases hstage
  | denied _ _ _ _ => exact hs.mono hgrows rfl (List.Subset.refl _)
  | goesOn hr hworked =>
    refine ⟨hgrows hs.current, ?_⟩
    intro r' hr' intent f hstage
    obtain hold | hnew := List.mem_or_eq_of_mem_set hr'
    · exact (hs.found r' hold intent f hstage).mono hgrows
    · rw [hnew] at hstage
      exact hworked.fits (hgrows hs.current) intent f hstage
  | ends _ _ => exact hs.mono hgrows rfl fun r hr => List.mem_of_mem_eraseIdx hr

theorem reached_sourced (h : Reached cfg G now table past s) : Sourced cfg (catalogs table past) s := by
  refine h.invariant_of_init (fun past s => Sourced cfg (catalogs table past) s) ?_ ?_
  · intro past s e s' hs hstep
    exact hs.step (Service.step_stepped hstep.2)
  · refine ⟨List.mem_cons_self, ?_⟩
    intro r hr
    cases hr

/-- An answer comes from a search at its last stage. -/
theorem Stepped.streams (h : Stepped cfg s move s' output) {events : List (Event ℚ (Value (PyNum ℚ)))}
    (hreply : output.reply = some (.stream events)) :
    ∃ r ∈ s.running, ∃ intent f, r.stage = .streaming intent f ∧ output.request = some r.request ∧
      ∃ model, events = eventStream cfg.anthropicApiKey intent f.items (f.reranking cfg model) := by
  cases h with
  | turnedAway hgate => exact absurd (Option.some.inj hreply) (gate_refuses hgate events)
  | denied _ _ _ _ => cases hreply
  | goesOn _ hworked => cases hworked <;> cases hreply
  | ends hr hworked =>
    cases hworked with
    | @streamed i model intent f hstage =>
      cases hreply
      exact ⟨_, List.mem_of_getElem? hr, intent, f, hstage, rfl, model, rfl⟩
    | hungUp _ => cases hreply
    | unstorable _ => cases hreply
    | failed _ => cases hreply
  | _ => cases hreply

/-- An answer is its intent, then cards that the catalog had and that meet this intent, none twice and as
many as retrieval may find, then the end; without a topic there is no card. The dates of the intent count
when both of them can be read. -/
theorem answers_show_the_catalog (cfg : Config δ σ) {G : Guard} {now : ℤ} {table : ItemTable}
    {before after : History} {e : Move × Output} {s : Service}
    {events : List (Event ℚ (Value (PyNum ℚ)))}
    (h : Reached cfg G now table (before ++ e :: after) s) (hreply : e.2.reply = some (.stream events)) :
    ∃ (intent : Retrieval.Intent) (cards : List (Item ℚ × Option (Value (PyNum ℚ)))),
      events = .intent intent :: (cards.map Event.ofCard ++ [.done]) ∧
        (cards.map fun c => c.1.id).Nodup ∧ cards.length ≤ searchLimit ∧
        (intent.onTopic = false → cards = []) ∧
        ∀ c ∈ cards, ∃ t ∈ catalogs table before, ∃ card ∈ t.cards, c.1 = itemOut cfg.isoText card ∧
          Retrieval.InCategory intent card ∧ Retrieval.WithinBudget intent card ∧
          ((Retrieval.dt intent.dateFrom).isSome = (Retrieval.dt intent.dateTo).isSome →
            Retrieval.InWindow cfg.pg intent card) := by
  obtain ⟨s₁, s₂, hbefore, ⟨_, hstep⟩, _⟩ := h.split
  obtain ⟨r, hr, intent, f, hstage, _, model, rfl⟩ := (Service.step_stepped hstep).streams hreply
  have hfits := (reached_sourced hbefore).found r hr intent f hstage
  have hlength := streamCards_length f.distinct cfg.anthropicApiKey (f.reranking cfg model)
  refine ⟨intent, streamCards cfg.anthropicApiKey (f.reranking cfg model), eventStream_eq _ _ _,
    streamCards_once f.distinct _ _, hlength.trans hfits.few, ?_, ?_⟩
  · intro htopic
    have hnone : f.items.length = 0 := by
      rw [hfits.topic htopic]
      rfl
    exact List.eq_nil_of_length_eq_zero (Nat.le_zero.mp (hlength.trans hnone.le))
  · intro c hc
    obtain ⟨t, ht, card, hcard, hshown, hcategory, hbudget, hdates⟩ :=
      hfits.shown c.1 (streamCards_mem _ _ c hc)
    exact ⟨t, ht, card, hcard, hshown, hcategory, hbudget, Retrieval.inWindow_of_between hdates⟩

def Reply.isStream {φ : Type} : Reply φ → Bool
  | .stream _ => true
  | _ => false

theorem answers_show_the_catalog_searched : ∃ (events : List (Event ℚ (Value (PyNum ℚ))))
    (intent : Retrieval.Intent) (cards : List (Item ℚ × Option (Value (PyNum ℚ)))),
    (searched.1[8]?.bind fun e => e.2.reply) = some (.stream events) ∧
      events = .intent intent :: (cards.map Event.ofCard ++ [.done]) := by
  have hanswered : ((searched.1[8]?.bind fun e => e.2.reply).any Reply.isStream) = true := by
    decide +kernel
  obtain ⟨reply, hbind, hstream⟩ := (Option.any_eq_true _ _).mp hanswered
  cases reply with
  | stream events =>
    obtain ⟨e, he, hreply⟩ := Option.bind_eq_some_iff.mp hbind
    obtain ⟨hlength, rfl⟩ := List.getElem?_eq_some_iff.mp he
    have hsplit : searched.1.take 8 ++ searched.1[8] :: searched.1.drop 9 = searched.1 := by
      rw [List.getElem_cons_drop, List.take_append_drop]
    have hreached := searched_reached
    rw [← hsplit] at hreached
    obtain ⟨intent, cards, hevents, _⟩ := answers_show_the_catalog plainConfig hreached hreply
    exact ⟨events, intent, cards, hbind, hevents⟩
  | _ => cases hstream

end WarsawEvents.Search
