import WarsawEvents.Search.Service

/-! # What the searches of an account may cost

* `outside_calls_limited`: however the searches of one account interleave, from whatever browsers, on one
  date no outside service is called for them more often than the daily limit says.
* `only_verified_spend`: behind the gate an outside call is made for an account only that existed, with a
  confirmed address, when the search arrived.
-/

namespace WarsawEvents.Search
open Json (Text Value ascii)
open RateLimit (Answer)
open Runs
set_option autoImplicit false

variable {δ σ : Type} [LinearOrder δ] [LinearOrder σ] {cfg : Config δ σ} {s s' : Service} {move : Move}
  {output : Output} {past : History} {now : ℤ} {table : Retrieval.ItemTable} {G : Guard}

/-! ## The quota of a run -/

/-- Redis answers, and each count falls on the day on which its search arrived. -/
def redisAnswers (cfg : Config δ σ) : Guard := fun _ s move =>
  match move.redis with
  | some (m, _) => RateLimit.withinDay cfg.zone [] s.quota m
  | none => True

/-- What Redis has seen. -/
def quotaLog (past : History) : RateLimit.Log := past.filterMap fun e => e.2.quota

theorem quotaLog_snoc (past : History) (e : Move × Output) :
    quotaLog (past ++ [e]) = quotaLog past ++ e.2.quota.toList := by
  unfold quotaLog
  rw [List.filterMap_append]
  cases h : e.2.quota with
  | none => simp [h]
  | some m => simp [h]

theorem Worked.quota {r : Running} {stage : Option Stage}
    (h : Worked cfg table r move stage output) : output.quota = none := by
  cases h <;> rfl

/-- Whom a step of an admitted search is for. -/
theorem Worked.about {r : Running} {stage : Option Stage}
    (h : Worked cfg table r move stage output) :
    output.request = some r.request ∧ output.date = r.date := by
  cases h <;> exact ⟨rfl, rfl⟩

/-- The steps of Redis in a run of the service are a run of the quota. -/
theorem quota_run (h : Reached cfg (redisAnswers cfg) now table past s) :
    RateLimit.QuotaRun cfg.zone cfg.searchDailyLimit [] (RateLimit.idle now) (quotaLog past) s.quota := by
  refine h.invariant_of_init (fun past s => RateLimit.QuotaRun cfg.zone cfg.searchDailyLimit []
    (RateLimit.idle now) (quotaLog past) s.quota) ?_ Run.refl
  intro past s e s' hrun hstep
  obtain ⟨move, output⟩ := e
  obtain ⟨hguard, hstep⟩ := hstep
  have hquota : ∀ {m : RateLimit.Move} {quota : RateLimit.World} {answer : Option Answer},
      RateLimit.withinDay cfg.zone [] s.quota m →
      RateLimit.step cfg.zone cfg.searchDailyLimit s.quota m = some (quota, answer) →
      RateLimit.QuotaRun cfg.zone cfg.searchDailyLimit [] (RateLimit.idle now)
        (quotaLog past ++ [(m, answer)]) quota :=
    fun hday hstep => Run.snoc hrun ⟨hday, hstep⟩
  have hredis : ∀ {m : RateLimit.Move} {i : ℕ}, move.redis = some (m, i) →
      RateLimit.withinDay cfg.zone [] s.quota m := by
    intro m i hmove
    unfold redisAnswers at hguard
    rw [hmove] at hguard
    exact hguard
  have hsnoc := quotaLog_snoc past (move, output)
  rw [hsnoc]
  cases Service.step_stepped hstep with
  | account _ _ => simpa using hrun
  | ingested _ => simpa using hrun
  | waited hwait => exact hquota trivial hwait
  | turnedAway _ => simpa using hrun
  | passed _ hcall => exact hquota trivial hcall
  | counting hmove hcount => exact hquota (hredis hmove) hcount
  | allowed hmove hcount _ _ => exact hquota (hredis hmove) hcount
  | denied hmove hcount _ _ => exact hquota (hredis hmove) hcount
  | goesOn _ hworked =>
    rw [hworked.quota]
    simpa using hrun
  | ends _ hworked =>
    rw [hworked.quota]
    simpa using hrun

/-! ## Who waits for which job -/

/-- The jobs of the quota are those of the searches that wait, in order. -/
def Matched (s : Service) : Prop :=
  s.waiting.map (fun q => q.session.quotaKey) = s.quota.jobs.map RateLimit.Job.sid

/-- What a step of Redis does to the jobs. -/
theorem redis_jobs {z : RateLimit.Zone} {limit i : ℕ} {m : RateLimit.Move} {w w' : RateLimit.World}
    {answer : Option Answer} (hmove : move.redis = some (m, i))
    (h : RateLimit.step z limit w m = some (w', answer)) :
    ∃ j, w.jobs[i]? = some j ∧
      ((answer = none ∧ w'.jobs.map RateLimit.Job.sid = w.jobs.map RateLimit.Job.sid) ∨
        ∃ a, answer = some a ∧ a.key = j.key z ∧ w'.jobs = w.jobs.eraseIdx i) := by
  unfold Move.redis at hmove
  split at hmove
  · cases hmove
    simp only [RateLimit.step] at h
    split at h
    · cases h
    · rename_i j hj
      refine ⟨j, hj, ?_⟩
      split_ifs at h with hcounted hfirst
      · cases h
        refine Or.inl ⟨rfl, ?_⟩
        obtain ⟨hlt, rfl⟩ := List.getElem?_eq_some_iff.mp hj
        apply List.ext_getElem
        · simp
        · intro n hn hn'
          by_cases hin : i = n
          · subst hin
            simp
          · simp [List.getElem_set_ne hin]
      · cases h
        exact Or.inr ⟨_, rfl, rfl, rfl⟩
  · cases hmove
    simp only [RateLimit.step] at h
    split at h
    · cases h
    · rename_i j hj
      split_ifs at h with hcounted
      cases h
      exact ⟨j, hj, Or.inr ⟨_, rfl, rfl, rfl⟩⟩
  · cases hmove
    simp only [RateLimit.step] at h
    split at h
    · cases h
    · rename_i j hj
      cases h
      exact ⟨j, hj, Or.inr ⟨_, rfl, rfl, rfl⟩⟩
  · cases hmove

theorem Matched.quotaKey (hs : Matched s) {i : ℕ} {q : SearchRequest} {j : RateLimit.Job}
    (hq : s.waiting[i]? = some q) (hj : s.quota.jobs[i]? = some j) : q.session.quotaKey = j.sid := by
  have hat := congrArg (fun l => l[i]?) hs
  simp only [List.getElem?_map, hq, hj, Option.map_some, Option.some.injEq] at hat
  exact hat

theorem Matched.erased (hs : Matched s) (i : ℕ) :
    (s.waiting.eraseIdx i).map (fun q => q.session.quotaKey) =
      (s.quota.jobs.eraseIdx i).map RateLimit.Job.sid := by
  rw [← List.eraseIdx_map, ← List.eraseIdx_map]
  exact congrArg (fun l => l.eraseIdx i) hs

theorem Matched.step (hs : Matched s) (h : Stepped cfg s move s' output) : Matched s' := by
  cases h with
  | account _ _ => exact hs
  | ingested _ => exact hs
  | waited hwait =>
    simp only [RateLimit.step] at hwait
    split_ifs at hwait
    cases hwait
    exact hs
  | turnedAway _ => exact hs
  | passed _ hcall =>
    cases hcall
    show (_ ++ _ : List SearchRequest).map _ = (_ ++ _ : List RateLimit.Job).map _
    rw [List.map_append, List.map_append]
    exact congrArg₂ _ hs rfl
  | counting hmove hcount =>
    obtain ⟨j, _, ⟨_, hjobs⟩ | ⟨a, hsome, _⟩⟩ := redis_jobs hmove hcount
    · exact Eq.trans hs hjobs.symm
    · cases hsome
  | @allowed move m i quota a request hmove hcount _ _ =>
    obtain ⟨j, _, ⟨hnone, _⟩ | ⟨a', _, _, hjobs⟩⟩ := redis_jobs hmove hcount
    · cases hnone
    · show (s.waiting.eraseIdx i).map _ = quota.jobs.map _
      rw [hjobs]
      exact hs.erased i
  | @denied move m i quota a request hmove hcount _ _ =>
    obtain ⟨j, _, ⟨hnone, _⟩ | ⟨a', _, _, hjobs⟩⟩ := redis_jobs hmove hcount
    · cases hnone
    · show (s.waiting.eraseIdx i).map _ = quota.jobs.map _
      rw [hjobs]
      exact hs.erased i
  | goesOn _ _ => exact hs
  | ends _ _ => exact hs

/-! ## What is spent for an account -/

theorem uuidString_ne (id : ℕ) : (uuidString id).isEmpty = false := by
  have hdigits : uuidText id ≠ [] := by
    unfold uuidText
    simp [List.range_succ_eq_map]
  have hne : uuidString id ≠ "" := by
    intro h
    have hlist := congrArg String.toList h
    unfold uuidString at hlist
    rw [String.toList_ofList] at hlist
    exact hdigits (List.map_eq_nil_iff.mp hlist)
  exact Bool.eq_false_of_not_eq_true fun h => hne (String.isEmpty_iff.mp h)

theorem quotaKey_of_names {session : Session} {id : ℕ} (h : session.names id = true) :
    session.quotaKey = uuidString id := by
  have huser : session.userId = some (.uuid id) := of_decide_eq_true h
  unfold Session.quotaKey
  have hkept : (some (UserId.uuid id)).filter (fun u => !u.raw.isEmpty) = some (UserId.uuid id) := by
    refine Option.filter_eq_some_iff.mpr ⟨rfl, ?_⟩
    show (!(uuidString id).isEmpty) = true
    rw [uuidString_ne]
    rfl
  rw [huser, hkept]
  rfl

/-- Whether the call is still ahead of a search. -/
def Stage.before : Stage → External → Bool
  | .extracting, _ => true
  | .embedding _, .intent => false
  | .embedding _, _ => true
  | _, .reranker => true
  | _, _ => false

/-- An outside call for a search of the account on the date of its quota. -/
def spentFor (id : ℕ) (date : ℤ) (x : External) (e : Move × Output) : Bool :=
  decide (e.2.spent = some x) && decide (e.2.date = date) && e.2.request.any fun q => q.session.names id

def mayStill (id : ℕ) (date : ℤ) (x : External) (r : Running) : Bool :=
  r.request.session.names id && decide (r.date = date) && r.stage.before x

omit [LinearOrder δ] [LinearOrder σ] in
theorem afterIntent_cases (cfg : Config δ σ) (intent : Retrieval.Intent) :
    afterIntent cfg intent = .embedding intent ∨ afterIntent cfg intent = .logging intent none := by
  unfold afterIntent
  split
  · exact Or.inl rfl
  · exact Or.inr rfl

section Spending
variable {id : ℕ} {date : ℤ} {x : External}

variable (id date x) in
/-- A search makes a call that was ahead of it, and has it behind then. -/
theorem Worked.spends {r : Running} {stage : Option Stage} (h : Worked cfg table r move stage output) :
    (if spentFor id date x (move, output) then 1 else 0) +
        (if stage.any fun stage => mayStill id date x { r with stage := stage } then 1 else 0) ≤
      if mayStill id date x r then 1 else 0 := by
  obtain ⟨hrequest, hdate⟩ := h.about
  unfold spentFor mayStill
  simp only [hrequest, hdate, Option.any_some]
  by_cases hmine : r.request.session.names id = true ∧ r.date = date
  · obtain ⟨hnames, hday⟩ := hmine
    have hstage : (if output.spent = some x then 1 else 0) +
        (if stage.any (fun stage => stage.before x) = true then 1 else 0) ≤
          if r.stage.before x = true then 1 else 0 := by
      cases h with
      | @extracted i answer hstage =>
        rw [hstage]
        obtain hnext | hnext := afterIntent_cases cfg (extract r.request.prompt answer)
        · rw [hnext]
          cases x <;> simp [Stage.before]
        · rw [hnext]
          cases x <;> simp [Stage.before]
      | embedded hstage =>
        rw [hstage]
        cases x <;> simp [Stage.before]
      | logged hstage =>
        rw [hstage]
        cases x <;> simp [Stage.before, Running.output]
      | unstorable hstage =>
        rw [hstage]
        cases x <;> simp [Stage.before, Running.output]
      | failed hstage =>
        rw [hstage]
        cases x <;> simp [Stage.before, Running.output]
      | found hstage =>
        rw [hstage]
        cases x <;> simp [Stage.before, Running.output]
      | streamed hstage =>
        rw [hstage]
        split <;> cases x <;> simp [Stage.before]
      | hungUp hstage =>
        rw [hstage]
        split <;> cases x <;> simp [Stage.before]
    simpa [hnames, hday] using hstage
  · have hother : (r.request.session.names id && decide (r.date = date)) = false := by
      simpa using hmine
    have hswap : (decide (r.date = date) && r.request.session.names id) = false := by
      rw [Bool.and_comm]
      exact hother
    simp [hother, hswap, Bool.and_assoc]

/-- The calls made and the calls still ahead are no more than the searches that the quota allowed. -/
def Covered (id : ℕ) (date : ℤ) (x : External) (past : History) (s : Service) : Prop :=
  past.countP (spentFor id date x) + s.running.countP (mayStill id date x) ≤
    RateLimit.allowedFor ⟨uuidString id, date⟩ (quotaLog past)

theorem allowedFor_grows (k : RateLimit.Key) (past : History) (e : Move × Output) :
    RateLimit.allowedFor k (quotaLog past) ≤ RateLimit.allowedFor k (quotaLog (past ++ [e])) := by
  unfold RateLimit.allowedFor
  rw [quotaLog_snoc, List.countP_append]
  exact Nat.le_add_right _ _

/-- A step that spends nothing and starts nothing. -/
theorem Covered.idle (hs : Covered id date x past s) (hrunning : s'.running = s.running)
    (hspent : output.spent = none) : Covered id date x (past ++ [(move, output)]) s' := by
  have hgrows := allowedFor_grows ⟨uuidString id, date⟩ past (move, output)
  have hnothing : spentFor id date x (move, output) = false := by simp [spentFor, hspent]
  unfold Covered at hs ⊢
  rw [List.countP_append, List.countP_singleton, hnothing, hrunning, if_neg Bool.false_ne_true]
  omega

omit [LinearOrder δ] [LinearOrder σ] in
/-- A search that starts has been allowed under the key of its account. -/
theorem Covered.starts (hs : Covered id date x past s) (hmatched : Matched s) {m : RateLimit.Move}
    {i : ℕ} {quota : RateLimit.World} {a : Answer} {request : SearchRequest}
    (hmove : move.redis = some (m, i))
    (hcount : RateLimit.step cfg.zone cfg.searchDailyLimit s.quota m = some (quota, some a))
    (hrequest : s.waiting[i]? = some request) (hallowed : a.allowed = true)
    (hquota : output.quota = some (m, some a)) (hspent : output.spent = none)
    (hrunning : s'.running = s.running ++ [⟨request, a.key.date, .extracting⟩]) :
    Covered id date x (past ++ [(move, output)]) s' := by
  have hnothing : spentFor id date x (move, output) = false := by simp [spentFor, hspent]
  have hone : (if mayStill id date x ⟨request, a.key.date, .extracting⟩ = true then 1 else 0) ≤
      if RateLimit.allows ⟨uuidString id, date⟩ (m, some a) = true then 1 else 0 := by
    by_cases hmine : mayStill id date x ⟨request, a.key.date, .extracting⟩ = true
    · have hnames : request.session.names id = true ∧ a.key.date = date := by
        simpa [mayStill, Stage.before] using hmine
      obtain ⟨j, hj, ⟨hnone, _⟩ | ⟨a', hsome, hkey, _⟩⟩ := redis_jobs hmove hcount
      · cases hnone
      · obtain rfl := Option.some.inj hsome
        have hsid : a.key.sid = uuidString id := by
          rw [hkey, ← quotaKey_of_names hnames.1]
          exact (hmatched.quotaKey hrequest hj).symm
        have hmine' : a.key = ⟨uuidString id, date⟩ := by
          rw [← hsid, ← hnames.2]
        rw [if_pos hmine, if_pos]
        simp [RateLimit.allows, hmine', hallowed]
    · rw [if_neg hmine]
      exact Nat.zero_le _
  unfold Covered RateLimit.allowedFor at hs ⊢
  rw [quotaLog_snoc, hquota, Option.toList_some, List.countP_append, List.countP_append,
    List.countP_singleton, List.countP_singleton, hnothing, hrunning, List.countP_append,
    List.countP_singleton, if_neg Bool.false_ne_true]
  omega

theorem Covered.step (hs : Covered id date x past s) (hmatched : Matched s)
    (h : Stepped cfg s move s' output) : Covered id date x (past ++ [(move, output)]) s' := by
  cases h with
  | account _ _ => exact hs.idle rfl rfl
  | ingested _ => exact hs.idle rfl rfl
  | waited _ => exact hs.idle rfl rfl
  | turnedAway _ => exact hs.idle rfl rfl
  | passed _ _ => exact hs.idle rfl rfl
  | counting _ _ => exact hs.idle rfl rfl
  | allowed hmove hcount hrequest hallowed =>
    exact hs.starts hmatched hmove hcount hrequest hallowed rfl rfl rfl
  | denied _ _ _ _ => exact hs.idle rfl rfl
  | @goesOn _ i r stage output hr hworked =>
    have hspends := hworked.spends id date x
    have hgrows := allowedFor_grows ⟨uuidString id, date⟩ past (move, output)
    have hset := RateLimit.countP_set_add (p := mayStill id date x) (y := { r with stage := stage }) hr
    unfold Covered at hs ⊢
    dsimp only
    rw [List.countP_append, List.countP_singleton]
    rw [Option.any_some] at hspends
    omega
  | @ends _ i r output hr hworked =>
    have hspends := hworked.spends id date x
    have hgrows := allowedFor_grows ⟨uuidString id, date⟩ past (move, output)
    have herase := RateLimit.countP_eraseIdx (p := mayStill id date x) hr
    unfold Covered at hs ⊢
    dsimp only
    rw [List.countP_append, List.countP_singleton]
    rw [Option.any_none, if_neg Bool.false_ne_true] at hspends
    omega

/-- Whatever the searches of an account do at the same time, each outside service is called for those of
one date at most as often as the limit says; Redis answers, and the clocks are not set back on it. -/
theorem outside_calls_limited (cfg : Config δ σ) (id : ℕ) (date : ℤ)
    (hback : cfg.searchDailyLimit = 0 ∨ ¬ cfg.zone.SetBack date) {now : ℤ} {table : Retrieval.ItemTable}
    {past : History} {s : Service} (h : Reached cfg (redisAnswers cfg) now table past s) (x : External) :
    past.countP (spentFor id date x) ≤ cfg.searchDailyLimit := by
  have hcovered : Matched s ∧ Covered id date x past s := by
    refine h.invariant_of_init (fun past s => Matched s ∧ Covered id date x past s) ?_
      ⟨rfl, Nat.le_refl 0⟩
    rintro past s ⟨move, output⟩ s' ⟨hmatched, hcovered⟩ ⟨_, hstep⟩
    have hstepped := Service.step_stepped hstep
    exact ⟨hmatched.step hstepped, hcovered.step hmatched hstepped⟩
  have hallowed : RateLimit.allowedFor ⟨uuidString id, date⟩ (quotaLog past) ≤ cfg.searchDailyLimit := by
    have hrun := quota_run h
    obtain hzero | hforward := hback
    · rw [hzero] at hrun ⊢
      exact (RateLimit.allowedFor_zero hrun).le
    · exact RateLimit.allowedFor_le hforward hrun
  have hcount : past.countP (spentFor id date x) + s.running.countP (mayStill id date x) ≤ _ :=
    hcovered.2
  omega

end Spending

/-! ## Who gets past the gate -/

/-- Whose address is confirmed after a step. -/
def confirmedBy (verified : ℕ → Option Bool) : Move → ℕ → Option Bool
  | .account id confirmed => Function.update verified id confirmed
  | _ => verified

/-- Whose address is confirmed, as the past left it. -/
def verifiedAfter (past : History) : ℕ → Option Bool :=
  past.foldl (fun verified e => confirmedBy verified e.1) fun _ => none

theorem Stepped.verified (h : Stepped cfg s move s' output) :
    s'.verified = confirmedBy s.verified move := by
  cases h with
  | account _ _ => rfl
  | ingested _ => rfl
  | waited _ => rfl
  | turnedAway _ => rfl
  | passed _ _ => rfl
  | counting hmove _ => cases move <;> first | rfl | cases hmove
  | allowed hmove _ _ _ => cases move <;> first | rfl | cases hmove
  | denied hmove _ _ _ => cases move <;> first | rfl | cases hmove
  | goesOn _ hworked => cases hworked <;> rfl
  | ends _ hworked => cases hworked <;> rfl

omit [LinearOrder δ] [LinearOrder σ] in
theorem gate_passes (hgate : cfg.requireVerifiedEmailToSearch = true) {verified : ℕ → Option Bool}
    {request request' : SearchRequest} {freshSid : String}
    (h : gate cfg verified request freshSid = (none, request')) :
    ∃ id, request'.session.names id = true ∧ verified id = some true := by
  unfold gate at h
  by_cases hvalid : validPrompt request.prompt = true
  swap
  · rw [if_neg hvalid] at h
    cases h
  rw [if_pos hvalid, hgate, if_pos rfl] at h
  unfold requireVerifiedUser at h
  cases huser : request.session.userId with
  | none => simp [huser] at h
  | some u =>
    cases u with
    | malformed raw => simp [huser] at h
    | uuid id =>
      cases hverified : verified id with
      | none => simp [huser, hverified] at h
      | some confirmed =>
        cases confirmed with
        | false => simp [huser, hverified] at h
        | true =>
          simp only [huser, hverified, Prod.mk.injEq, true_and] at h
          refine ⟨id, ?_, hverified⟩
          have hkept : (request.session.withSid freshSid).userId = request.session.userId := by
            unfold Session.withSid
            split <;> rfl
          rw [← h]
          exact decide_eq_true (hkept.trans huser)

/-- The search arrived when its account existed and its address was confirmed. -/
def Passed (past : History) (q : SearchRequest) : Prop :=
  ∃ earlier request freshSid output later id,
    past = earlier ++ (Move.arrive request freshSid, output) :: later ∧ output.request = some q ∧
      q.session.names id = true ∧ verifiedAfter earlier id = some true

theorem Passed.later {q : SearchRequest} (h : Passed past q) (e : Move × Output) :
    Passed (past ++ [e]) q := by
  obtain ⟨earlier, request, freshSid, output, later, id, rfl, hrequest, hnames, hverified⟩ := h
  exact ⟨earlier, request, freshSid, output, later ++ [e], id, by simp, hrequest, hnames, hverified⟩

/-- Whoever waits or runs has passed. -/
structure Guarded (past : History) (s : Service) : Prop where
  waiting : ∀ q ∈ s.waiting, Passed past q
  running : ∀ r ∈ s.running, Passed past r.request

theorem Guarded.later (hs : Guarded past s) (e : Move × Output) (hwaiting : s'.waiting ⊆ s.waiting)
    (hrunning : ∀ r ∈ s'.running, ∃ r' ∈ s.running, r.request = r'.request) :
    Guarded (past ++ [e]) s' := by
  constructor
  · intro q hq
    exact (hs.waiting q (hwaiting hq)).later e
  · intro r hr
    obtain ⟨r', hr', hsame⟩ := hrunning r hr
    rw [hsame]
    exact (hs.running r' hr').later e

theorem Guarded.step (hgate : cfg.requireVerifiedEmailToSearch = true) (hs : Guarded past s)
    (hverified : s.verified = verifiedAfter past) (h : Stepped cfg s move s' output) :
    Guarded (past ++ [(move, output)]) s' := by
  have hsame : ∀ r ∈ s.running, ∃ r' ∈ s.running, r.request = r'.request := fun r hr => ⟨r, hr, rfl⟩
  cases h with
  | account _ _ => exact hs.later _ (List.Subset.refl _) hsame
  | ingested _ => exact hs.later _ (List.Subset.refl _) hsame
  | waited _ => exact hs.later _ (List.Subset.refl _) hsame
  | turnedAway _ => exact hs.later _ (List.Subset.refl _) hsame
  | @passed request request' freshSid quota answer hpass hcall =>
    obtain ⟨id, hnames, hconfirmed⟩ := gate_passes hgate hpass
    rw [hverified] at hconfirmed
    constructor
    · intro q hq
      obtain hold | hnew := List.mem_append.mp hq
      · exact (hs.waiting q hold).later _
      · rw [List.mem_singleton.mp hnew]
        exact ⟨past, request, freshSid, _, [], id, rfl, rfl, hnames, hconfirmed⟩
    · intro r hr
      exact (hs.running r hr).later _
  | counting _ _ => exact hs.later _ (List.Subset.refl _) hsame
  | @allowed _ m i quota a request _ _ hrequest _ =>
    constructor
    · intro q hq
      exact (hs.waiting q (List.mem_of_mem_eraseIdx hq)).later _
    · intro r hr
      obtain hold | hnew := List.mem_append.mp hr
      · exact (hs.running r hold).later _
      · rw [List.mem_singleton.mp hnew]
        exact (hs.waiting request (List.mem_of_getElem? hrequest)).later _
  | denied _ _ _ _ => exact hs.later _ (fun q hq => List.mem_of_mem_eraseIdx hq) hsame
  | @goesOn _ i r stage output hr _ =>
    refine hs.later _ (List.Subset.refl _) ?_
    intro r' hr'
    obtain hold | hnew := List.mem_or_eq_of_mem_set hr'
    · exact ⟨r', hold, rfl⟩
    · rw [hnew]
      exact ⟨r, List.mem_of_getElem? hr, rfl⟩
  | ends _ _ => exact hs.later _ (List.Subset.refl _) fun r hr => ⟨r, List.mem_of_mem_eraseIdx hr, rfl⟩

theorem reached_guarded (hgate : cfg.requireVerifiedEmailToSearch = true)
    (h : Reached cfg G now table past s) : Guarded past s := by
  have hboth : Guarded past s ∧ s.verified = verifiedAfter past := by
    refine h.invariant_of_init (fun past s => Guarded past s ∧ s.verified = verifiedAfter past) ?_ ?_
    · rintro past s ⟨move, output⟩ s' ⟨hs, hverified⟩ ⟨_, hstep⟩
      have hstepped := Service.step_stepped hstep
      refine ⟨hs.step hgate hverified hstepped, ?_⟩
      rw [hstepped.verified, hverified]
      unfold verifiedAfter
      rw [List.foldl_append]
      rfl
    · refine ⟨⟨?_, ?_⟩, rfl⟩
      · intro q hq
        cases hq
      · intro r hr
        cases hr
  exact hboth.1

/-- Only an admitted search makes an outside call. -/
theorem Stepped.spends (h : Stepped cfg s move s' output) (hspent : output.spent ≠ none) :
    ∃ r ∈ s.running, output.request = some r.request := by
  cases h with
  | goesOn hr hworked => exact ⟨_, List.mem_of_getElem? hr, hworked.about.1⟩
  | ends hr hworked => exact ⟨_, List.mem_of_getElem? hr, hworked.about.1⟩
  | _ => exact absurd rfl hspent

/-- Behind the gate, every outside call is made for a search that arrived before it in the session of an
account whose address was confirmed at that moment. -/
theorem only_verified_spend (cfg : Config δ σ) (hgate : cfg.requireVerifiedEmailToSearch = true)
    {G : Guard} {now : ℤ} {table : Retrieval.ItemTable} {before after : History} {e : Move × Output}
    {s : Service} (h : Reached cfg G now table (before ++ e :: after) s) (hspent : e.2.spent ≠ none) :
    ∃ q, e.2.request = some q ∧ Passed before q := by
  obtain ⟨s₁, s₂, hbefore, ⟨_, hstep⟩, _⟩ := h.split
  obtain ⟨r, hr, hrequest⟩ := (Service.step_stepped hstep).spends hspent
  exact ⟨r.request, hrequest, (reached_guarded hgate hbefore).running r hr⟩

/-! ## One search -/

theorem all_some_iff {α : Type} {p : α → Bool} {o : Option α} :
    o.all p = true ↔ ∀ a, o = some a → p a = true := by
  cases o with
  | none => simp
  | some a => simp

instance decidableWithinDay (z : RateLimit.Zone) (past : RateLimit.Log) (w : RateLimit.World) :
    ∀ m, Decidable (RateLimit.withinDay z past w m)
  | .wait _ => isTrue trivial
  | .call _ => isTrue trivial
  | .incr i => decidable_of_iff ((w.jobs[i]?).all fun j => decide (z.date w.clock = z.date j.now))
      (by simp [RateLimit.withinDay, all_some_iff])
  | .expire i => decidable_of_iff ((w.jobs[i]?).all fun j => decide (z.date w.clock = z.date j.now))
      (by simp [RateLimit.withinDay, all_some_iff])
  | .fail _ => isFalse id

instance decidableRedisAnswers (cfg : Config δ σ) (past : History) (s : Service) (move : Move) :
    Decidable (redisAnswers cfg past s move) :=
  match h : move.redis with
  | some (m, _) => decidable_of_iff (RateLimit.withinDay cfg.zone [] s.quota m) (by simp [redisAnswers, h])
  | none => isTrue (by simp [redisAnswers, h])

def searched : History × Service :=
  (replay (redisAnswers plainConfig) (Service.step plainConfig) [] (opened 0 jazzTable) oneSearch).getD
    ([], opened 0 jazzTable)

theorem searched_reached : Reached plainConfig (redisAnswers plainConfig) 0 jazzTable searched.1 searched.2 :=
  replay_getD_run _ _ _ _ oneSearch _ (by decide +kernel)

theorem outside_calls_limited_searched :
    searched.1.countP (spentFor 0 0 .intent) = 1 ∧ searched.1.countP (spentFor 0 0 .intent) ≤ 1 := by
  have hforward : ¬ plainConfig.zone.SetBack 0 :=
    RateLimit.not_setBack_of_forward fun _ _ _ _ _ => le_rfl
  exact ⟨by decide +kernel, outside_calls_limited plainConfig 0 0 (.inr hforward) searched_reached .intent⟩

theorem only_verified_spend_searched : ∃ e ∈ searched.1, e.2.spent = some .intent ∧
    ∃ q, e.2.request = some q ∧ Passed (searched.1.take 4) q := by
  have hasked : (searched.1[4]?.bind fun e => e.2.spent) = some .intent := by decide +kernel
  obtain ⟨e, he, hspent⟩ := Option.bind_eq_some_iff.mp hasked
  obtain ⟨hlength, rfl⟩ := List.getElem?_eq_some_iff.mp he
  have hsplit : searched.1.take 4 ++ searched.1[4] :: searched.1.drop 5 = searched.1 := by
    rw [List.getElem_cons_drop, List.take_append_drop]
  have hreached := searched_reached
  rw [← hsplit] at hreached
  exact ⟨_, List.getElem_mem hlength, hspent,
    only_verified_spend plainConfig rfl hreached (by simp [hspent])⟩

end WarsawEvents.Search
