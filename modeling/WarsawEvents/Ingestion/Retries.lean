import Mathlib.Algebra.Order.BigOperators.Group.List
import WarsawEvents.Foundations.OrderBy
import WarsawEvents.Foundations.Retry
import WarsawEvents.Ingestion.Embeddings
import WarsawEvents.Ingestion.Pipeline
import WarsawEvents.Ingestion.PyJson

/-! # The embedding service behind a run

`backend/app/llm/embeddings.py` request by request: `_post_with_retry` waits out a rate limit and posts the
same batch again, `_embed` and the pipeline's `embed` above it. The answers of the service are a parameter,
by the number of the request.

* `embed_over_the_wire`: `_embed` is `embed` of `Embeddings`, whose calls are those of `_post_with_retry`.
* `run_over_the_wire`: whatever the service refuses, a run is one of `Pipeline`, in which a batch has vectors
  exactly when one of its requests was answered.
* `requests_of_a_run`: what a run posts, and how long it sleeps.
-/

namespace WarsawEvents.Ingestion
open Json (Text)
open Search (PyFloat)
open Retry (Again)
open Batches (batch count)
set_option autoImplicit false

namespace Embeddings

/-! ## One batch -/

def maxRetries : ℕ := 6

inductive CallError where
  | transport
  | wait (e : PyError)
  | status (code : ℕ)
  | body (e : PyError)
  | exhausted
  deriving DecidableEq

/-- What one POST comes to. The entries of a body are read as `_embed` reads them, which may raise. -/
inductive Response (β : Type) where
  | transportError
  | answered (status : ℕ) (retryAfter : Option Text) (body : Py (List (Datum β)))

structure Wire (β : Type) where
  apiKey : Bool
  /-- The answer to the request with this number, for these texts. -/
  respond : ℕ → List String → Response β
  floatOfText : Text → Option (PyFloat ℚ)

inductive Judgement (β : Type) where
  | wait (seconds : ℚ)
  | finish (result : Except CallError (List (Datum β)))

/-- What the client has done: the texts of its requests, and the seconds that it slept. -/
structure Sent where
  requests : List (List String) := []
  waits : List ℚ := []

/-- `time.sleep(wait)`, which counts nanoseconds in 64 bits. -/
def sleep : PyFloat ℚ → Py ℚ
  | .finite seconds =>
    if 2 ^ 63 ≤ |seconds| * 10 ^ 9 then .error .overflowError
    else if seconds < 0 then .error .valueError
    else .ok seconds
  | .nan => .error .valueError
  | .inf | .negInf => .error .overflowError

/-- The detail of `EmbedError.post`; nothing depends on it. -/
def CallError.text : CallError → String
  | .transport => "TransportError"
  | .wait _ => "retry-after"
  | .status code => toString code
  | .body _ => "response"
  | .exhausted => "Voyage rate limit: retries exhausted"

section Call
variable {β : Type} (w : Wire β)

/-- An empty header counts as none. -/
def Wire.backoff (attempt : ℕ) (retryAfter : Option Text) : Py ℚ :=
  match retryAfter.filter fun text => !text.isEmpty with
  | some text =>
    match w.floatOfText text with
    | some wait => sleep wait
    | none => .error .valueError
  | none => sleep (.finite (2 ^ attempt * 5))

/-- What an answer to attempt number `attempt` makes the client do. -/
def Wire.judge (attempt : ℕ) : Response β → Judgement β
  | .transportError => .finish (.error .transport)
  | .answered status retryAfter body =>
    if status = 429 ∧ attempt < maxRetries - 1 then
      match w.backoff attempt retryAfter with
      | .ok seconds => .wait seconds
      | .error e => .finish (.error (.wait e))
    else if 200 ≤ status ∧ status < 300 then .finish (body.mapError .body)
    else .finish (.error (.status status))

/-- The body of the loop. -/
def Wire.attempt (texts : List String) (attempt : ℕ) (s : Sent) :
    Retry.Verdict (Except CallError (List (Datum β))) × Sent :=
  let posted := { s with requests := s.requests ++ [texts] }
  match w.judge attempt (w.respond s.requests.length texts) with
  | .wait seconds => (.again, { posted with waits := s.waits ++ [seconds] })
  | .finish result => (.ends result, posted)

/-- `_post_with_retry`. -/
def Wire.postWithRetry (texts : List String) (s : Sent) : Except CallError (List (Datum β)) × Sent :=
  match Retry.loop (w.attempt texts) 0 maxRetries s with
  | (some result, s) => (result, s)
  | (none, s) => (.error .exhausted, s)

/-- From request `n` on, the requests for these texts are answered with a rate limit that is waited out. -/
def Limited (texts : List String) (n : ℕ) (waits : List ℚ) : Prop :=
  ∀ i < waits.length, ∃ seconds, waits[i]? = some seconds ∧
    w.judge i (w.respond (n + i) texts) = .wait seconds

/-- The state after that, and after one more request. -/
def Sent.called (s : Sent) (texts : List String) (waits : List ℚ) : Sent where
  requests := s.requests ++ List.replicate (waits.length + 1) texts
  waits := s.waits ++ waits

variable {w} {texts : List String} {s s' mid : Sent} {j : ℕ}
  {result : Except CallError (List (Datum β))}

theorem judge_last (response : Response β) {seconds : ℚ} :
    w.judge (maxRetries - 1) response ≠ .wait seconds := by
  unfold Wire.judge
  cases response with
  | transportError => exact nofun
  | answered status retryAfter body =>
    simp only [lt_irrefl, and_false, if_false]
    split_ifs
    · exact nofun
    · exact nofun

theorem attempt_again {k : ℕ} (h : w.attempt texts k s = (.again, s')) : ∃ seconds,
    w.judge k (w.respond s.requests.length texts) = .wait seconds ∧
      s' = ⟨s.requests ++ [texts], s.waits ++ [seconds]⟩ := by
  unfold Wire.attempt at h
  cases hjudge : w.judge k (w.respond s.requests.length texts) with
  | wait seconds =>
    rw [hjudge] at h
    cases h
    exact ⟨seconds, rfl, rfl⟩
  | finish r =>
    rw [hjudge] at h
    cases h

theorem attempt_ends {k : ℕ} (h : w.attempt texts k s = (.ends result, s')) :
    w.judge k (w.respond s.requests.length texts) = .finish result ∧
      s' = ⟨s.requests ++ [texts], s.waits⟩ := by
  unfold Wire.attempt at h
  cases hjudge : w.judge k (w.respond s.requests.length texts) with
  | wait seconds =>
    rw [hjudge] at h
    cases h
  | finish r =>
    rw [hjudge] at h
    cases h
    exact ⟨rfl, rfl⟩

theorem limited_again (h : Again (w.attempt texts) 0 s j mid) : ∃ waits, waits.length = j ∧
    Limited w texts s.requests.length waits ∧
      mid = ⟨s.requests ++ List.replicate waits.length texts, s.waits ++ waits⟩ := by
  have hkept := h.keeps (I := fun k mid => ∃ waits, waits.length = k ∧
    Limited w texts s.requests.length waits ∧
      mid = ⟨s.requests ++ List.replicate waits.length texts, s.waits ++ waits⟩)
    ⟨[], rfl, nofun, by simp⟩ ?_
  · rw [Nat.zero_add] at hkept
    exact hkept
  · rintro k _ next ⟨waits, rfl, hlimited, rfl⟩ hstep
    obtain ⟨seconds, hjudge, rfl⟩ := attempt_again hstep
    refine ⟨waits ++ [seconds], List.length_append, fun i hi => ?_, ?_⟩
    · rw [List.length_append, List.length_singleton] at hi
      rcases Nat.lt_succ_iff_lt_or_eq.mp hi with hlt | rfl
      · rw [List.getElem?_append_left hlt]
        exact hlimited i hlt
      · rw [List.length_append, List.length_replicate] at hjudge
        exact ⟨seconds, by simp, hjudge⟩
    · rw [List.length_append, List.length_singleton, List.replicate_succ', List.append_assoc,
        List.append_assoc]

/-- A call posts its batch once more than it is put off, at most six times in all, and never gives up by
itself. -/
theorem postWithRetry_calls (w : Wire β) (texts : List String) (s : Sent) : ∃ waits result,
    waits.length < maxRetries ∧ Limited w texts s.requests.length waits ∧
      w.judge waits.length (w.respond (s.requests.length + waits.length) texts) = .finish result ∧
      w.postWithRetry texts s = (result, s.called texts waits) := by
  have hsome : (Retry.loop (w.attempt texts) 0 maxRetries s).1.isSome = true := by
    refine Retry.loop_isSome fun s hagain => ?_
    rcases hlast : w.attempt texts (0 + 5) s with ⟨verdict, mid⟩
    rw [hlast] at hagain
    obtain rfl : verdict = .again := hagain
    obtain ⟨seconds, hjudge, _⟩ := attempt_again hlast
    exact judge_last _ hjudge
  rcases hloop : Retry.loop (w.attempt texts) 0 maxRetries s with ⟨ended, s'⟩
  rw [hloop] at hsome
  obtain ⟨result, rfl⟩ := Option.isSome_iff_exists.mp hsome
  obtain ⟨j, hj, mid, hagain, hlast⟩ := Retry.loop_ends_iff.mp hloop
  obtain ⟨waits, rfl, hlimited, rfl⟩ := limited_again hagain
  obtain ⟨hjudge, rfl⟩ := attempt_ends hlast
  rw [Nat.zero_add, List.length_append, List.length_replicate] at hjudge
  refine ⟨waits, result, hj, hlimited, hjudge, ?_⟩
  unfold Wire.postWithRetry Sent.called
  rw [hloop, List.replicate_succ', List.append_assoc]

/-! ## How long a call sleeps -/

/-- No answer says when to come back. -/
def Wire.Unhinted (w : Wire β) : Prop :=
  ∀ n texts status retryAfter body, w.respond n texts = .answered status retryAfter body →
    (retryAfter.filter fun text => !text.isEmpty) = none

theorem sleep_ok {wait : PyFloat ℚ} {seconds : ℚ} (h : sleep wait = .ok seconds) :
    wait = .finite seconds ∧ 0 ≤ seconds := by
  cases wait with
  | finite x =>
    simp only [sleep] at h
    split_ifs at h with hlong hneg
    cases h
    exact ⟨rfl, le_of_not_gt hneg⟩
  | nan => cases h
  | inf => cases h
  | negInf => cases h

theorem judge_wait {k : ℕ} {response : Response β} {seconds : ℚ} (h : w.judge k response = .wait seconds) :
    ∃ retryAfter body, response = .answered 429 retryAfter body ∧ k < maxRetries - 1 ∧
      w.backoff k retryAfter = .ok seconds := by
  cases response with
  | transportError => cases h
  | answered status retryAfter body =>
    simp only [Wire.judge] at h
    split_ifs at h with hlimit
    obtain ⟨rfl, hk⟩ := hlimit
    cases hwait : w.backoff k retryAfter with
    | ok x =>
      rw [hwait] at h
      cases h
      exact ⟨retryAfter, body, rfl, hk, hwait⟩
    | error e =>
      rw [hwait] at h
      cases h

theorem limited_unhinted {n : ℕ} {waits : List ℚ} (h : Limited w texts n waits) (hplain : w.Unhinted) :
    waits = (List.range waits.length).map fun i => 2 ^ i * 5 := by
  apply List.ext_getElem?
  intro i
  by_cases hi : i < waits.length
  · obtain ⟨seconds, hseconds, hjudge⟩ := h i hi
    obtain ⟨retryAfter, body, hrespond, _, hbackoff⟩ := judge_wait hjudge
    unfold Wire.backoff at hbackoff
    rw [hplain _ _ _ _ _ hrespond] at hbackoff
    obtain ⟨heq, _⟩ := sleep_ok hbackoff
    cases heq
    rw [hseconds, List.getElem?_map, List.getElem?_range hi]
    rfl
  · rw [List.getElem?_eq_none (not_lt.mp hi), List.getElem?_eq_none (by simpa using hi)]

theorem sum_doubling (n : ℕ) : ((List.range n).map fun i => (2 : ℚ) ^ i * 5).sum = (2 ^ n - 1) * 5 := by
  induction n with
  | zero => simp
  | succ n ih =>
    rw [List.range_succ, List.map_append, List.sum_append, ih, List.map_singleton, List.sum_singleton,
      pow_succ]
    ring

theorem limited_sum_le {n : ℕ} {waits : List ℚ} (h : Limited w texts n waits) (hplain : w.Unhinted)
    (hshort : waits.length < maxRetries) : waits.sum ≤ 155 := by
  rw [limited_unhinted h hplain, sum_doubling]
  have hpow : (2 : ℚ) ^ waits.length ≤ 2 ^ 5 :=
    pow_le_pow_right₀ (by norm_num) (Nat.le_of_lt_succ hshort)
  linarith

end Call

/-! ## All batches of a call -/

section Embed
variable {β : Type} (w : Wire β) (texts : List String)

/-- One turn of the loop of `_embed`; there is none after an exception. -/
def Wire.extend (r : Except EmbedError (List β) × Sent) (k : ℕ) : Except EmbedError (List β) × Sent :=
  match r with
  | (.error e, s) => (.error e, s)
  | (.ok vectors, s) =>
    match w.postWithRetry (batch batchSize texts k) s with
    | (.error e, s) => (.error (.post e.text), s)
    | (.ok data, s) => (.ok (vectors ++ (ordered data).map Datum.embedding), s)

/-- `_embed`. -/
def Wire.embed (s : Sent) : Except EmbedError (List β) × Sent :=
  if !w.apiKey then (.error .keyMissing, s)
  else
    match (List.range (count batchSize texts)).foldl (w.extend texts) (.ok [], s) with
    | (.error e, s) => (.error e, s)
    | (.ok vectors, s) =>
      if vectors.length ≠ texts.length then (.error (.returned vectors.length texts.length), s)
      else (.ok vectors, s)

/-- The state before the batch with this number, if the loop gets there. -/
def Wire.before {β : Type} (w : Wire β) (texts : List String) (s : Sent) : ℕ → Sent
  | 0 => s
  | k + 1 => (w.postWithRetry (batch batchSize texts k) (w.before texts s k)).2

/-- The calls of `_post_with_retry` by their number. -/
def Wire.post (s : Sent) (k : ℕ) (b : List String) : Except EmbedError (List (Datum β)) :=
  (w.postWithRetry b (w.before texts s k)).1.mapError fun e => .post e.text

variable {w texts} {s : Sent}

theorem foldl_extend (n : ℕ) :
    ((List.range n).foldl (w.extend texts) (.ok [], s)).1 =
        (List.range n).foldlM (extend (w.post texts s) texts) [] ∧
      (((List.range n).foldlM (extend (w.post texts s) texts) []).isOk = true →
        ((List.range n).foldl (w.extend texts) (.ok [], s)).2 = w.before texts s n) := by
  induction n with
  | zero => exact ⟨rfl, fun _ => rfl⟩
  | succ n ih =>
    rw [List.range_succ, List.foldl_append, List.foldlM_append]
    obtain ⟨hvectors, hstate⟩ := ih
    rcases hfold : (List.range n).foldl (w.extend texts) (.ok [], s) with ⟨sofar, mid⟩
    rw [hfold] at hvectors hstate
    dsimp only at hvectors
    rw [← hvectors] at hstate ⊢
    cases sofar with
    | error e => exact ⟨rfl, nofun⟩
    | ok vectors =>
      have hmid : mid = w.before texts s n := hstate rfl
      subst hmid
      simp only [List.foldl_cons, List.foldl_nil, bind, Except.bind, List.foldlM_cons, List.foldlM_nil]
      unfold Wire.extend extend Wire.post
      rcases hcall : w.postWithRetry (batch batchSize texts n) (w.before texts s n) with ⟨result, after⟩
      cases result with
      | error e =>
        simp only [hcall]
        exact ⟨rfl, nofun⟩
      | ok data =>
        simp only [hcall]
        refine ⟨rfl, fun _ => ?_⟩
        show after = (w.postWithRetry (batch batchSize texts n) (w.before texts s n)).2
        rw [hcall]

/-- Over the wire, `_embed` is `embed` with the calls that the service makes of its batches. -/
theorem embed_over_the_wire (w : Wire β) (texts : List String) (s : Sent) :
    (w.embed texts s).1 = embed (w.post texts s) texts w.apiKey := by
  unfold Wire.embed embed
  cases w.apiKey with
  | false => rfl
  | true =>
    have hvectors : ((List.range (count batchSize texts)).foldl (w.extend texts) (.ok [], s)).1 =
        (List.range (count batchSize texts)).foldlM (extend (w.post texts s) texts) [] :=
      (foldl_extend (count batchSize texts)).1
    rcases hfold : (List.range (count batchSize texts)).foldl (w.extend texts) (.ok [], s)
      with ⟨sofar, mid⟩
    rw [hfold] at hvectors
    dsimp only at hvectors
    simp only [Bool.not_true, Bool.false_eq_true, if_false, bind, Except.bind]
    rw [← hvectors]
    cases sofar with
    | error e => rfl
    | ok vectors =>
      dsimp only
      split_ifs
      · rfl
      · rfl

end Embed

/-! ## The vectors of one batch -/

section Vectors
variable {β : Type}

/-- What a complete answer holds, in any order. -/
def entries (meaning : String → β) (texts : List String) : List (Datum β) :=
  texts.zipIdx.map fun t => ⟨t.2, meaning t.1⟩

/-- A body with as many entries as there are texts has theirs; what the service makes of a text may depend
on the request. -/
def Wire.Answers (w : Wire β) (meaning : ℕ → String → β) : Prop :=
  ∀ n texts status retryAfter data, w.respond n texts = .answered status retryAfter (.ok data) →
    200 ≤ status → status < 300 → data.length = texts.length → data.Perm (entries (meaning n) texts)

/-- One of at most six requests, from request `n` on, brings the vectors of these texts. -/
def Granted (w : Wire β) (texts : List String) (n : ℕ) : Prop :=
  ∃ waits, waits.length < maxRetries ∧ Limited w texts n waits ∧ ∃ status retryAfter data,
    w.respond (n + waits.length) texts = .answered status retryAfter (.ok data) ∧ 200 ≤ status ∧
      status < 300 ∧ data.length = texts.length

variable {w : Wire β} {meaning : ℕ → String → β} {texts : List String} {data : List (Datum β)}
  {s : Sent} {waits waits' : List ℚ} {n : ℕ}

theorem entries_sorted (f : String → β) (texts : List String) :
    (entries f texts).Pairwise fun a b => a.index < b.index := by
  have hnumbers : (texts.zipIdx.map Prod.snd).Pairwise (· < ·) := by
    rw [List.zipIdx_map_snd]
    exact List.pairwise_lt_range'
  unfold entries
  rw [List.pairwise_map]
  exact (List.pairwise_map.mp hnumbers).imp fun hlt => Nat.cast_lt.mpr hlt

theorem ordered_entries {f : String → β} (h : data.Perm (entries f texts)) :
    (ordered data).map Datum.embedding = texts.map f := by
  have htotal : Std.Total fun a b : Datum β => a.index ≤ b.index := ⟨fun a b => le_total _ _⟩
  have htrans : IsTrans (Datum β) fun a b => a.index ≤ b.index := ⟨fun a b c => le_trans⟩
  have hordered : ordered data = entries f texts :=
    OrderBy.eq_of_sorted ((List.perm_insertionSort _ data).trans h) (List.pairwise_insertionSort _ data)
      (entries_sorted f texts)
  have hfirst : (entries f texts).map Datum.embedding = (texts.zipIdx.map Prod.fst).map f := by
    unfold entries
    rw [List.map_map, List.map_map]
    rfl
  rw [hordered, hfirst, List.zipIdx_map_fst]

theorem judge_finish_ok_iff {k : ℕ} {response : Response β} :
    w.judge k response = .finish (.ok data) ↔ ∃ status retryAfter,
      response = .answered status retryAfter (.ok data) ∧ 200 ≤ status ∧ status < 300 := by
  constructor
  · intro h
    cases response with
    | transportError => cases h
    | answered status retryAfter body =>
      simp only [Wire.judge] at h
      split_ifs at h with hlimit haccepted
      · cases hwait : w.backoff k retryAfter with
        | ok seconds =>
          rw [hwait] at h
          cases h
        | error e =>
          rw [hwait] at h
          cases h
      · cases body with
        | error e => cases h
        | ok entries =>
          cases h
          exact ⟨status, retryAfter, rfl, haccepted⟩
      · cases h
  · rintro ⟨status, retryAfter, rfl, hlow, hhigh⟩
    have hunlimited : ¬(status = 429 ∧ k < maxRetries - 1) := fun hlimit => by omega
    simp only [Wire.judge]
    rw [if_neg hunlimited, if_pos ⟨hlow, hhigh⟩]
    rfl

/-- How often a call is put off is settled by the answers. -/
theorem limited_length {result result' : Except CallError (List (Datum β))}
    (h : Limited w texts n waits)
    (hend : w.judge waits.length (w.respond (n + waits.length) texts) = .finish result)
    (h' : Limited w texts n waits')
    (hend' : w.judge waits'.length (w.respond (n + waits'.length) texts) = .finish result') :
    waits.length = waits'.length := by
  rcases Nat.lt_trichotomy waits.length waits'.length with hlt | heq | hgt
  · obtain ⟨_, _, hwait⟩ := h' _ hlt
    rw [hend] at hwait
    cases hwait
  · exact heq
  · obtain ⟨_, _, hwait⟩ := h _ hgt
    rw [hend'] at hwait
    cases hwait

/-- A call for one batch and the comparison of the numbers. -/
theorem embed_one_batch (hkey : w.apiKey = true) (hsome : texts ≠ []) (hfit : texts.length ≤ batchSize) :
    w.embed texts s =
      match w.postWithRetry texts s with
      | (.error e, s) => (.error (.post e.text), s)
      | (.ok data, s) =>
        if data.length ≠ texts.length then (.error (.returned data.length texts.length), s)
        else (.ok ((ordered data).map Datum.embedding), s) := by
  have hpos : 0 < texts.length := List.length_pos_iff.mpr hsome
  have hcount : count batchSize texts = 1 := by
    unfold count batchSize at *
    omega
  have hbatch : batch batchSize texts 0 = texts := by
    unfold batch
    rw [Nat.mul_zero, List.drop_zero, List.take_of_length_le hfit]
  unfold Wire.embed
  rw [hkey, hcount]
  simp only [Bool.not_true, Bool.false_eq_true, if_false, List.range_one, List.foldl_cons, List.foldl_nil]
  unfold Wire.extend
  dsimp only
  rw [hbatch]
  rcases hcall : w.postWithRetry texts s with ⟨result, after⟩
  cases result with
  | error e => rfl
  | ok data =>
    dsimp only
    rw [List.nil_append, List.length_map, length_ordered]

theorem embed_sent (hkey : w.apiKey = true) (hsome : texts ≠ []) (hfit : texts.length ≤ batchSize) :
    ∃ waits, waits.length < maxRetries ∧ Limited w texts s.requests.length waits ∧
      (w.embed texts s).2 = s.called texts waits := by
  obtain ⟨waits, result, hshort, hlimited, _, hcall⟩ := postWithRetry_calls w texts s
  refine ⟨waits, hshort, hlimited, ?_⟩
  rw [embed_one_batch hkey hsome hfit, hcall]
  cases result with
  | error e => rfl
  | ok data =>
    dsimp only
    split_ifs
    · rfl
    · rfl

/-- A batch gets vectors exactly when one of its requests is granted; they are those of its texts, and none
is posted for it after that. -/
theorem embed_batch (hanswers : w.Answers meaning) (hkey : w.apiKey = true) (hsome : texts ≠ [])
    (hfit : texts.length ≤ batchSize) : ∃ waits, waits.length < maxRetries ∧
      Limited w texts s.requests.length waits ∧ (w.embed texts s).2 = s.called texts waits ∧
      ((∃ e, (w.embed texts s).1 = .error e) ∧ ¬Granted w texts s.requests.length ∨
        (w.embed texts s).1 = .ok (texts.map (meaning (s.requests.length + waits.length))) ∧
          Granted w texts s.requests.length) := by
  obtain ⟨waits, result, hshort, hlimited, hjudge, hcall⟩ := postWithRetry_calls w texts s
  have hrefused : (∀ data, result = .ok data → data.length ≠ texts.length) →
      ¬Granted w texts s.requests.length := by
    rintro hwrong ⟨waits', _, hlimited', status, retryAfter, data, hrespond, hlow, hhigh, hlength⟩
    have hjudge' : w.judge waits'.length (w.respond (s.requests.length + waits'.length) texts) =
        .finish (.ok data) := judge_finish_ok_iff.mpr ⟨status, retryAfter, hrespond, hlow, hhigh⟩
    have hsame := limited_length hlimited hjudge hlimited' hjudge'
    rw [← hsame, hjudge] at hjudge'
    cases hjudge'
    exact hwrong data rfl hlength
  have hone := embed_one_batch (s := s) hkey hsome hfit
  rw [hcall] at hone
  refine ⟨waits, hshort, hlimited, ?_⟩
  rw [hone]
  cases result with
  | error e => exact ⟨rfl, Or.inl ⟨⟨_, rfl⟩, hrefused nofun⟩⟩
  | ok data =>
    dsimp only
    split_ifs with hwrong
    · refine ⟨rfl, Or.inl ⟨⟨_, rfl⟩, hrefused fun d hd => ?_⟩⟩
      cases hd
      exact hwrong
    · rw [not_not] at hwrong
      obtain ⟨status, retryAfter, hrespond, hlow, hhigh⟩ := judge_finish_ok_iff.mp hjudge
      have hdata := hanswers _ _ _ _ _ hrespond hlow hhigh hwrong
      refine ⟨rfl, Or.inr ⟨?_, waits, hshort, hlimited, status, retryAfter, data, hrespond, hlow, hhigh,
        hwrong⟩⟩
      rw [ordered_entries hdata]

end Vectors

end Embeddings

/-! ## The run -/

open Embeddings (Wire Sent Granted Limited Judgement maxRetries)

/-- The texts of one batch. -/
def chunkTexts (items : List Placed) (b : ℕ) : List String :=
  (batch batchSize items b).map fun p => cardText p.1

section Over
variable (w : Wire (List ℚ))

/-- One turn of `embed`: what a batch raises is logged, and the batch left out. -/
def embedTurn (items : List Placed) (r : List Placed × Sent) (b : ℕ) : List Placed × Sent :=
  match w.embed (chunkTexts items b) r.2 with
  | (.error _, s) => (r.1, s)
  | (.ok vectors, s) =>
    (r.1 ++ ((batch batchSize items b).zip vectors).map fun (p, vector) =>
      ({ p.1 with embedding := some vector }, p.2), s)

def embedUpTo (items : List Placed) (s : Sent) (n : ℕ) : List Placed × Sent :=
  (List.range n).foldl (embedTurn w items) ([], s)

/-- `embed`, of the pipeline. -/
def embedOver (items : List Placed) (s : Sent) : List Placed × Sent :=
  if w.apiKey then embedUpTo w items s (count batchSize items) else ([], s)

/-- The embedding and the two upserts. -/
def writeOver (canonical : List RawItem) (s : Sent) (catalog : Catalog) : Ran × Sent :=
  let (embedded, s) := embedOver w canonical.zipIdx s
  let embeddedIds := embedded.map Prod.snd
  let notEmbedded := (canonical.zipIdx.filter fun p => !embeddedIds.contains p.2).map Prod.fst
  match upsert (embedded.map Prod.fst) true catalog with
  | none => ({ catalog := catalog, raised := true }, s)
  | some catalog =>
    match upsert notEmbedded false catalog with
    | none => ({ catalog := catalog, raised := true }, s)
    | some catalog => ({ catalog := catalog, raised := false }, s)

/-- `run` from `items` on. -/
def runOver (m : Matching) (adjudicate : Option Adjudicator) (items : List RawItem)
    (existing : List Card) (s : Sent) (catalog : Catalog) : Ran × Sent :=
  let found := deduplicate m items existing adjudicate
  writeOver w found.canonical s { catalog with rows := commitMerges existing found.merges catalog.rows }

/-- The service as a run meets it, batch by batch. -/
def voyage (meaning : ℕ → String → List ℚ) (items : List Placed) (s : Sent) : Voyage where
  apiKey := w.apiKey
  batch start :=
    match w.embed (chunkTexts items (start / batchSize)) (embedUpTo w items s (start / batchSize)).2 with
    | (.ok _, after) => some (meaning (after.requests.length - 1))
    | (.error _, _) => none

end Over

section Turns
variable {w : Wire (List ℚ)} {meaning : ℕ → String → List ℚ} {items : List Placed} {s : Sent} {b n : ℕ}

theorem embedUpTo_succ : embedUpTo w items s (n + 1) = embedTurn w items (embedUpTo w items s n) n := by
  unfold embedUpTo
  rw [List.range_succ, List.foldl_append, List.foldl_cons, List.foldl_nil]

theorem chunkTexts_fits (items : List Placed) (b : ℕ) : (chunkTexts items b).length ≤ batchSize := by
  unfold chunkTexts
  rw [List.length_map]
  exact List.length_take_le _ _

theorem chunkTexts_ne_nil (h : b < count batchSize items) : chunkTexts items b ≠ [] := by
  have hstart : batchSize * b < items.length := (Batches.lt_count (by decide)).mp h
  rw [← List.length_pos_iff]
  unfold chunkTexts
  rw [List.length_map, Batches.length_batch]
  unfold batchSize at hstart ⊢
  omega

theorem voyage_batch (b : ℕ) : (voyage w meaning items s).batch (b * batchSize) =
    match w.embed (chunkTexts items b) (embedUpTo w items s b).2 with
    | (.ok _, after) => some (meaning (after.requests.length - 1))
    | (.error _, _) => none := by
  have hplace : b * batchSize / batchSize = b := Nat.mul_div_cancel b (by decide)
  unfold voyage
  dsimp only
  rw [hplace]

/-- One turn does what the abstract service does for its batch, with at most six requests. -/
theorem embedTurn_refines (hanswers : w.Answers meaning) (hkey : w.apiKey = true)
    (hb : b < count batchSize items) :
    ∃ waits, waits.length < maxRetries ∧
      Limited w (chunkTexts items b) (embedUpTo w items s b).2.requests.length waits ∧
      embedUpTo w items s (b + 1) =
        ((embedUpTo w items s b).1 ++
            embedChunk (voyage w meaning items s) (b * batchSize) (batch batchSize items b),
          (embedUpTo w items s b).2.called (chunkTexts items b) waits) ∧
      (((voyage w meaning items s).batch (b * batchSize)).isSome = true ↔
        Granted w (chunkTexts items b) (embedUpTo w items s b).2.requests.length) := by
  obtain ⟨waits, hshort, hlimited, hsent, houtcome⟩ := Embeddings.embed_batch (w := w)
    (s := (embedUpTo w items s b).2) hanswers hkey (chunkTexts_ne_nil hb) (chunkTexts_fits items b)
  refine ⟨waits, hshort, hlimited, ?_⟩
  rw [embedUpTo_succ]
  unfold embedTurn embedChunk embedDocuments
  rw [voyage_batch]
  rcases hcall : w.embed (chunkTexts items b) (embedUpTo w items s b).2 with ⟨result, after⟩
  rw [hcall] at hsent houtcome
  obtain rfl : after = _ := hsent
  obtain ⟨⟨e, he⟩, hrefused⟩ | ⟨hok, hgranted⟩ := houtcome
  · obtain rfl : result = .error e := he
    simpa using hrefused
  · obtain rfl : result = .ok _ := hok
    refine ⟨?_, by simpa using hgranted⟩
    have hlast : ((embedUpTo w items s b).2.called (chunkTexts items b) waits).requests.length - 1 =
        (embedUpTo w items s b).2.requests.length + waits.length := by
      unfold Sent.called
      rw [List.length_append, List.length_replicate]
      omega
    simp only [Option.map_some, hlast]
    rfl

theorem embedUpTo_refines (hanswers : w.Answers meaning) (hkey : w.apiKey = true)
    (hn : n ≤ count batchSize items) :
    (embedUpTo w items s n).1 = (List.range n).flatMap fun b =>
      embedChunk (voyage w meaning items s) (b * batchSize) (batch batchSize items b) := by
  induction n with
  | zero => rfl
  | succ n ih =>
    obtain ⟨_, _, _, hturn, _⟩ := embedTurn_refines (s := s) hanswers hkey (Nat.lt_of_succ_le hn)
    rw [hturn, List.range_succ, List.flatMap_append, ih (Nat.le_of_succ_le hn), List.flatMap_singleton]

theorem embedOver_refines (hanswers : w.Answers meaning) :
    (embedOver w items s).1 = embed (voyage w meaning items s) items := by
  have hkeys : (voyage w meaning items s).apiKey = w.apiKey := rfl
  unfold embedOver embed
  rw [hkeys]
  cases hkey : w.apiKey with
  | false => rfl
  | true => exact embedUpTo_refines hanswers hkey (Nat.le_refl _)

theorem writeOver_refines (hanswers : w.Answers meaning) (canonical : List RawItem) (catalog : Catalog) :
    (writeOver w canonical s catalog).1 =
      write (voyage w meaning canonical.zipIdx s) canonical catalog := by
  have hembed : (embedOver w canonical.zipIdx s).1 =
      embed (voyage w meaning canonical.zipIdx s) canonical.zipIdx := embedOver_refines hanswers
  unfold writeOver write embedded notEmbedded
  rw [← hembed]
  dsimp only
  cases upsert ((embedOver w canonical.zipIdx s).1.map Prod.fst) true catalog with
  | none => rfl
  | some first =>
    dsimp only
    cases upsert ((canonical.zipIdx.filter fun p =>
        !((embedOver w canonical.zipIdx s).1.map Prod.snd).contains p.2).map Prod.fst) false first with
    | none => rfl
    | some second => rfl

/-- Whatever the service refuses, a run is one of `Pipeline`, for some behaviour of it; a batch has vectors
there exactly when one of at most six requests was answered with its entries. -/
theorem run_over_the_wire (hanswers : w.Answers meaning) (m : Matching) (adjudicate : Option Adjudicator)
    (items : List RawItem) (existing : List Card) (s : Sent) (catalog : Catalog) :
    ∃ v : Voyage, v.apiKey = w.apiKey ∧
      (runOver w m adjudicate items existing s catalog).1 = run m v adjudicate items existing catalog ∧
      (w.apiKey = true → ∀ b < count batchSize (deduplicate m items existing adjudicate).canonical.zipIdx,
        (v.batch (b * batchSize)).isSome = true ↔
          Granted w (chunkTexts (deduplicate m items existing adjudicate).canonical.zipIdx b)
            (embedUpTo w (deduplicate m items existing adjudicate).canonical.zipIdx s b).2.requests.length) := by
  refine ⟨voyage w meaning (deduplicate m items existing adjudicate).canonical.zipIdx s, rfl,
    writeOver_refines hanswers _ _, ?_⟩
  intro hkey b hb
  obtain ⟨_, _, _, _, hgranted⟩ := embedTurn_refines (s := s) hanswers hkey hb
  exact hgranted

/-- The calls of the turns so far, by the seconds that each of them slept. -/
structure Called (w : Wire (List ℚ)) (items : List Placed) (s : Sent) (calls : List (List ℚ)) (after : Sent) :
    Prop where
  short : ∀ waits ∈ calls, waits.length < maxRetries
  requests : after.requests = s.requests ++ calls.zipIdx.flatMap fun call =>
    List.replicate (call.1.length + 1) (chunkTexts items call.2)
  waits : after.waits = s.waits ++ calls.flatten
  unhinted : w.Unhinted → ∀ waits ∈ calls, waits.sum ≤ 155

theorem embedTurn_called (hkey : w.apiKey = true) (hb : b < count batchSize items) (r : List Placed × Sent) :
    ∃ waits, waits.length < maxRetries ∧ Limited w (chunkTexts items b) r.2.requests.length waits ∧
      (embedTurn w items r b).2 = r.2.called (chunkTexts items b) waits := by
  obtain ⟨waits, hshort, hlimited, hsent⟩ :=
    Embeddings.embed_sent (s := r.2) hkey (chunkTexts_ne_nil hb) (chunkTexts_fits items b)
  refine ⟨waits, hshort, hlimited, ?_⟩
  rw [← hsent]
  unfold embedTurn
  rcases w.embed (chunkTexts items b) r.2 with ⟨result, after⟩
  cases result with
  | error e => rfl
  | ok vectors => rfl

theorem embedUpTo_called (hkey : w.apiKey = true) (hn : n ≤ count batchSize items) :
    ∃ calls, calls.length = n ∧ Called w items s calls (embedUpTo w items s n).2 := by
  induction n with
  | zero => exact ⟨[], rfl, ⟨nofun, by simp [embedUpTo], by simp [embedUpTo], fun _ => nofun⟩⟩
  | succ n ih =>
    obtain ⟨calls, rfl, hcalled⟩ := ih (Nat.le_of_succ_le hn)
    obtain ⟨waits, hshort, hlimited, hturn⟩ :=
      embedTurn_called hkey (Nat.lt_of_succ_le hn) (embedUpTo w items s calls.length)
    refine ⟨calls ++ [waits], List.length_append, ?_⟩
    rw [embedUpTo_succ, hturn]
    constructor
    · exact List.forall_mem_append.mpr ⟨hcalled.short, List.forall_mem_singleton.mpr hshort⟩
    · unfold Sent.called
      rw [hcalled.requests, List.zipIdx_append, List.flatMap_append, List.append_assoc]
      simp
    · unfold Sent.called
      rw [hcalled.waits, List.flatten_append, List.append_assoc]
      simp
    · intro hplain
      refine List.forall_mem_append.mpr ⟨hcalled.unhinted hplain, List.forall_mem_singleton.mpr ?_⟩
      exact Embeddings.limited_sum_le hlimited hplain hshort

theorem writeOver_sent (canonical : List RawItem) (catalog : Catalog) :
    (writeOver w canonical s catalog).2 = (embedOver w canonical.zipIdx s).2 := by
  unfold writeOver
  dsimp only
  split
  · rfl
  · split
    · rfl
    · rfl

theorem Called.length_le {calls : List (List ℚ)} {after : Sent} (h : Called w items s calls after) :
    after.requests.length ≤ s.requests.length + maxRetries * calls.length := by
  have hone : ∀ n ∈ calls.zipIdx.map fun call =>
      (List.replicate (call.1.length + 1) (chunkTexts items call.2)).length, n ≤ maxRetries := by
    intro n hn
    obtain ⟨call, hcall, rfl⟩ := List.mem_map.mp hn
    rw [List.length_replicate]
    exact h.short call.1 (List.fst_mem_of_mem_zipIdx hcall)
  have hsum := List.sum_le_card_nsmul _ maxRetries hone
  rw [List.length_map, List.length_zipIdx, nsmul_eq_mul, Nat.cast_id, Nat.mul_comm] at hsum
  rw [h.requests, List.length_append, List.length_flatMap]
  exact Nat.add_le_add_left hsum _

theorem Called.sum_le {calls : List (List ℚ)} {after : Sent} (h : Called w items s calls after)
    (hplain : w.Unhinted) : after.waits.sum ≤ s.waits.sum + 155 * calls.length := by
  have hone : ∀ x ∈ calls.map List.sum, x ≤ 155 := by
    intro x hx
    obtain ⟨waits, hwaits, rfl⟩ := List.mem_map.mp hx
    exact h.unhinted hplain waits hwaits
  have hsum := List.sum_le_card_nsmul _ 155 hone
  rw [List.length_map, nsmul_eq_mul, mul_comm] at hsum
  rw [h.waits, List.sum_append, List.sum_flatten]
  linarith

/-- Whatever the service answers, a run posts the texts of each of its batches one to six times, batch after
batch; and it sleeps 155 seconds for a batch at most, unless the service asks for more. -/
theorem requests_of_a_run (w : Wire (List ℚ)) (m : Matching) (adjudicate : Option Adjudicator)
    (items : List RawItem) (existing : List Card) (s : Sent) (catalog : Catalog) :
    ∃ calls,
      calls.length =
        (if w.apiKey then count batchSize (deduplicate m items existing adjudicate).canonical.zipIdx else 0) ∧
      Called w (deduplicate m items existing adjudicate).canonical.zipIdx s calls
        (runOver w m adjudicate items existing s catalog).2 ∧
      (runOver w m adjudicate items existing s catalog).2.requests.length ≤
        s.requests.length + maxRetries * calls.length ∧
      (w.Unhinted → (runOver w m adjudicate items existing s catalog).2.waits.sum ≤
        s.waits.sum + 155 * calls.length) := by
  unfold runOver
  dsimp only
  generalize deduplicate m items existing adjudicate = found
  rw [writeOver_sent]
  have hcalls : ∃ calls, calls.length = (if w.apiKey then count batchSize found.canonical.zipIdx else 0) ∧
      Called w found.canonical.zipIdx s calls (embedOver w found.canonical.zipIdx s).2 := by
    unfold embedOver
    cases hkey : w.apiKey with
    | false => exact ⟨[], rfl, ⟨nofun, by simp, by simp, fun _ => nofun⟩⟩
    | true => exact embedUpTo_called hkey (Nat.le_refl _)
  obtain ⟨calls, hlength, hcalled⟩ := hcalls
  exact ⟨calls, hlength, hcalled, hcalled.length_le, hcalled.sum_le⟩

end Turns

/-! ## One rate limit -/

/-- The first request is put off by two seconds; every later one gets its entries, the last text first. -/
def limitedOnce : Wire (List ℚ) where
  apiKey := true
  respond n texts :=
    if n = 0 then .answered 429 (some (Json.ascii "2")) (.error .valueError)
    else .answered 200 none (.ok (Embeddings.entries (fun text => [(text.length : ℚ)]) texts).reverse)
  floatOfText text := if text = Json.ascii "2" then some (.finite 2) else none

theorem limitedOnce_answers : limitedOnce.Answers fun _ text => [(text.length : ℚ)] := by
  intro n texts status retryAfter data hrespond hlow hhigh _
  unfold limitedOnce at hrespond
  dsimp only at hrespond
  split_ifs at hrespond with hn
  · cases hrespond
  · cases hrespond
    exact List.reverse_perm _

theorem limitedOnce_waits : limitedOnce.judge 0 (limitedOnce.respond 0 []) = .wait 2 := by
  have hshort : ¬(2 : ℚ) ^ 63 ≤ |2| * 10 ^ 9 := by norm_num
  have hsleep : Embeddings.sleep (.finite 2) = .ok 2 := by
    simp only [Embeddings.sleep, if_neg hshort]
    rfl
  have hbackoff : limitedOnce.backoff 0 (some (Json.ascii "2")) = .ok 2 := hsleep
  have hrespond : limitedOnce.respond 0 [] = .answered 429 (some (Json.ascii "2")) (.error .valueError) := rfl
  have hagain : 0 < maxRetries - 1 := by decide
  rw [hrespond]
  simp only [Wire.judge, true_and, if_pos hagain]
  rw [hbackoff]

theorem run_over_the_wire_limitedOnce : ∃ v : Voyage, v.apiKey = true ∧
    (runOver limitedOnce asciiNames none [gala "tm/1" 5] [] {} { rows := [], nextId := 0 }).1 =
      run asciiNames v none [gala "tm/1" 5] [] { rows := [], nextId := 0 } ∧
    (v.batch 0).isSome = true := by
  obtain ⟨v, hkey, hrun, hbatch⟩ := run_over_the_wire limitedOnce_answers asciiNames none [gala "tm/1" 5] []
    {} { rows := [], nextId := 0 }
  refine ⟨v, hkey, hrun, (hbatch rfl 0 (by decide +kernel)).mpr ⟨[2], by decide, ?_, ?_⟩⟩
  · intro i hi
    obtain rfl : i = 0 := by simpa using hi
    exact ⟨2, rfl, limitedOnce_waits⟩
  · exact ⟨200, none, _, rfl, by decide, by decide, by decide +kernel⟩

end WarsawEvents.Ingestion
