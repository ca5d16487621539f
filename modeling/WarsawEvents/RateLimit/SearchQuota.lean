import WarsawEvents.Foundations.ExpiringCounter
import WarsawEvents.Foundations.IsoFormat
import WarsawEvents.Foundations.Runs
import Mathlib.Data.List.Count

/-! # The daily search quota

`check_search_quota`, any number of calls at once, each by its steps: it reads the wall clock, counts
the search up in Redis, and the first of the day sets the time after which the counter is gone. Redis
counts that time in real seconds; `_seconds_to_midnight` counts it on the wall clock.
-/

namespace WarsawEvents.RateLimit
set_option autoImplicit false

open ExpiringCounter Runs
open IsoFormat (dayLength)

/-! ## Wall clocks -/

/-- A second, in microseconds. -/
abbrev second : ℤ := 1000000

/-- A time zone: how far its wall clocks are ahead of UTC at an instant. -/
structure Zone where
  offset : ℤ → ℤ

def Zone.wall (z : Zone) (now : ℤ) : ℤ := now + z.offset now

/-- The date that `strftime` puts into the key, as a number of days. -/
def Zone.date (z : Zone) (now : ℤ) : ℤ := z.wall now / dayLength

/-- `_seconds_to_midnight`: two datetimes of one `tzinfo` differ by their wall clocks. -/
def secondsToMidnight (z : Zone) (now : ℤ) : ℤ :=
  let tomorrow := (z.wall now + dayLength) / dayLength * dayLength
  (tomorrow - z.wall now) / second

/-! ## The calls -/

structure Key where
  sid : String
  date : ℤ
  deriving DecidableEq

/-- A call under way; `counted` when `INCR` answered 1 and `EXPIRE` is still to come. -/
structure Job where
  sid : String
  now : ℤ
  counted : Bool := false
  deriving DecidableEq

def Job.key (z : Zone) (j : Job) : Key := ⟨j.sid, z.date j.now⟩

structure Answer where
  key : Key
  allowed : Bool
  remaining : ℕ
  deriving DecidableEq

/-- `used <= limit` and `max(0, limit - used)`. -/
def answer (limit : ℕ) (key : Key) (used : ℕ) : Answer := ⟨key, used ≤ limit, limit - used⟩

/-- The instant, what Redis holds, and the calls under way. -/
structure World where
  clock : ℤ
  store : Store Key := fun _ => none
  jobs : List Job := []

inductive Move where
  | wait (now : ℤ)
  | call (sid : String)
  | incr (i : ℕ)
  | expire (i : ℕ)
  | fail (i : ℕ)
  deriving DecidableEq

/-- Time passes, or one call takes its next step. -/
def step (z : Zone) (limit : ℕ) (w : World) : Move → Option (World × Option Answer)
  | .wait now => if w.clock ≤ now then some ({ w with clock := now }, none) else none
  | .call sid => some ({ w with jobs := w.jobs ++ [{ sid := sid, now := w.clock }] }, none)
  | .incr i =>
    match w.jobs[i]? with
    | none => none
    | some j =>
      if j.counted then none
      else
        let (used, store) := w.store.incr w.clock (j.key z)
        if used = 1 then
          some ({ w with store := store, jobs := w.jobs.set i { j with counted := true } }, none)
        else
          some ({ w with store := store, jobs := w.jobs.eraseIdx i },
            some (answer limit (j.key z) used))
  | .expire i =>
    match w.jobs[i]? with
    | none => none
    | some j =>
      if j.counted then
        let ttl := (secondsToMidnight z j.now + 60) * second
        some ({ w with store := w.store.expire w.clock (j.key z) ttl, jobs := w.jobs.eraseIdx i },
          some (answer limit (j.key z) 1))
      else none
  | .fail i =>
    -- `except redis.RedisError`, at either command: fail open
    match w.jobs[i]? with
    | none => none
    | some j => some ({ w with jobs := w.jobs.eraseIdx i }, some ⟨j.key z, true, limit⟩)

abbrev Log := List (Move × Option Answer)

/-- Redis answers, and each call is over on the day on which it began. -/
def withinDay (z : Zone) (_past : Log) (w : World) : Move → Prop
  | .wait _ => True
  | .call _ => True
  | .incr i => ∀ j, w.jobs[i]? = some j → z.date w.clock = z.date j.now
  | .expire i => ∀ j, w.jobs[i]? = some j → z.date w.clock = z.date j.now
  | .fail _ => False

/-- Whether the label answers a call of the key with "allowed". -/
def allows (k : Key) (l : Move × Option Answer) : Bool :=
  l.2.any fun a => decide (a.key = k) && a.allowed

/-- How many calls of the key have been allowed. -/
def allowedFor (k : Key) (log : Log) : ℕ := log.countP (allows k)

/-- Nothing in Redis, nothing under way. -/
def idle (now : ℤ) : World where
  clock := now

/-! ## Days on which the clocks go back -/

/-- What the wall clock leaves of its day. -/
def Zone.left (z : Zone) (now : ℤ) : ℤ := (z.date now + 1) * dayLength - z.wall now

/-- Between two instants of one date the clocks are set back by more than what is left of the day and
the minute of slack, up to the fraction of a second that `int` drops. -/
def Zone.SetBack (z : Zone) (date : ℤ) : Prop :=
  ∃ t t', z.date t = date ∧ z.date t' = date ∧ t ≤ t' ∧
    z.left t' + 60 * second ≤ z.offset t - z.offset t' + z.left t % second

theorem secondsToMidnight_eq (z : Zone) (now : ℤ) : secondsToMidnight z now = z.left now / second := by
  unfold secondsToMidnight Zone.left Zone.date
  have hnext : (z.wall now + dayLength) / dayLength = z.wall now / dayLength + 1 :=
    Int.add_ediv_of_dvd_right (Int.dvd_refl dayLength)
  rw [hnext]

theorem left_pos (z : Zone) (now : ℤ) : 0 < z.left now := by
  unfold Zone.left Zone.date dayLength
  omega

/-- How long after the call its counter is kept, at the least. -/
def ttl (z : Zone) (now : ℤ) : ℤ := (secondsToMidnight z now + 60) * second

theorem ttl_pos (z : Zone) (now : ℤ) : 0 < ttl z now := by
  have hleft := left_pos z now
  unfold ttl
  rw [secondsToMidnight_eq]
  unfold second
  omega

/-- The clocks are set back exactly when some counter is gone before its day is over. -/
theorem setBack_iff (z : Zone) (date : ℤ) : z.SetBack date ↔
    ∃ t t', z.date t = date ∧ z.date t' = date ∧ t ≤ t' ∧ t + ttl z t ≤ t' := by
  have hsame : ∀ t t', z.date t = date → z.date t' = date →
      (z.left t' + 60 * second ≤ z.offset t - z.offset t' + z.left t % second ↔
        t + ttl z t ≤ t') := by
    intro t t' ht ht'
    have hwall : z.left t = (date + 1) * dayLength - (t + z.offset t) := by
      unfold Zone.left Zone.wall
      rw [ht]
    have hwall' : z.left t' = (date + 1) * dayLength - (t' + z.offset t') := by
      unfold Zone.left Zone.wall
      rw [ht']
    unfold ttl
    rw [secondsToMidnight_eq]
    have hdiv := Int.emod_add_mul_ediv (z.left t) second
    generalize z.left t / second = q at hdiv ⊢
    generalize z.left t % second = r at hdiv ⊢
    unfold second at *
    omega
  constructor
  · rintro ⟨t, t', ht, ht', hle, hback⟩
    exact ⟨t, t', ht, ht', hle, (hsame t t' ht ht').mp hback⟩
  · rintro ⟨t, t', ht, ht', hle, hgone⟩
    exact ⟨t, t', ht, ht', hle, (hsame t t' ht ht').mpr hgone⟩

/-- A day on which the clocks are only ever put forward. -/
theorem not_setBack_of_forward {z : Zone} {date : ℤ}
    (h : ∀ t t', z.date t = date → z.date t' = date → t ≤ t' → z.offset t ≤ z.offset t') :
    ¬ z.SetBack date := by
  rintro ⟨t, t', ht, ht', hle, hback⟩
  have hoffset := h t t' ht ht' hle
  have hleft := left_pos z t'
  have hfraction := Int.emod_lt_of_pos (z.left t) (by unfold second; omega : 0 < second)
  unfold second at *
  omega

/-! ## The counter of a day on which the clocks are not set back -/

/-- The first call of a key that has been counted and will be allowed. -/
def toBeAllowed (z : Zone) (limit : ℕ) (k : Key) (j : Job) : Bool :=
  j.counted && decide (j.key z = k) && decide (1 ≤ limit)

/-- The counter is kept at least as long as a call of its day asked for. -/
def Kept (z : Zone) (w : World) (k : Key) (c : Counter) : Prop :=
  ∀ e, c.expiry = some e → ∃ t, z.date t = k.date ∧ t ≤ w.clock ∧ t + ttl z t ≤ e

structure Counted (z : Zone) (limit : ℕ) (k : Key) (past : Log) (w : World) : Prop where
  started : ∀ j ∈ w.jobs, j.now ≤ w.clock
  allowed : allowedFor k past + w.jobs.countP (toBeAllowed z limit k) ≤
    min limit (((w.store k).map Counter.used).getD 0)
  kept : ∀ c, w.store k = some c → Kept z w k c

variable {z : Zone} {limit : ℕ} {k : Key} {past : Log} {w w' : World} {l : Move × Option Answer}

theorem allowedFor_snoc (k : Key) (past : Log) (l : Move × Option Answer) :
    allowedFor k (past ++ [l]) = allowedFor k past + if allows k l then 1 else 0 := by
  unfold allowedFor
  rw [List.countP_append, List.countP_singleton]

theorem countP_eraseIdx {α : Type} {p : α → Bool} {xs : List α} {i : ℕ} {x : α}
    (h : xs[i]? = some x) : (xs.eraseIdx i).countP p + (if p x then 1 else 0) = xs.countP p := by
  induction xs generalizing i with
  | nil => cases h
  | cons y ys ih =>
    cases i with
    | zero =>
      obtain rfl : y = x := by simpa using h
      rw [List.eraseIdx_cons_zero, List.countP_cons]
    | succ i =>
      have hrest := ih (i := i) (by simpa using h)
      rw [List.eraseIdx_cons_succ, List.countP_cons, List.countP_cons]
      omega

theorem countP_set_add {α : Type} {p : α → Bool} {xs : List α} {i : ℕ} {x y : α}
    (h : xs[i]? = some x) : (xs.set i y).countP p + (if p x then 1 else 0) =
      xs.countP p + if p y then 1 else 0 := by
  induction xs generalizing i with
  | nil => cases h
  | cons a as ih =>
    cases i with
    | zero =>
      obtain rfl : a = x := by simpa using h
      rw [List.set_cons_zero, List.countP_cons, List.countP_cons]
      omega
    | succ i =>
      have hrest := ih (i := i) (by simpa using h)
      rw [List.set_cons_succ, List.countP_cons, List.countP_cons]
      omega

theorem Kept.later {c : Counter} (h : Kept z w k c) (hclock : w.clock ≤ w'.clock) :
    Kept z w' k c := by
  intro e he
  obtain ⟨t, hdate, hle, hkeep⟩ := h e he
  exact ⟨t, hdate, hle.trans hclock, hkeep⟩

/-- On the day of the key, without a change back, a counter that was made is still there. -/
theorem Kept.live {c : Counter} (h : Kept z w k c) (hback : ¬ z.SetBack k.date)
    (hday : z.date w.clock = k.date) : c.liveAt w.clock = true := by
  unfold Counter.liveAt
  cases he : c.expiry with
  | none => rfl
  | some e =>
    obtain ⟨t, hdate, hle, hkeep⟩ := h e he
    by_contra hgone
    have hover : e ≤ w.clock := by simpa using hgone
    exact hback ((setBack_iff z k.date).mpr ⟨t, w.clock, hdate, hday, hle, by omega⟩)

theorem Counted.count_eq (h : Counted z limit k past w) (hback : ¬ z.SetBack k.date)
    (hday : z.date w.clock = k.date) :
    w.store.count w.clock k = ((w.store k).map Counter.used).getD 0 := by
  cases hc : w.store k with
  | none =>
    unfold Store.count Store.read
    rw [hc]
    rfl
  | some c =>
    rw [Store.count_of_live hc ((h.kept c hc).live hback hday)]
    rfl

/-! ## What each step does -/

/-- `INCR`: what it does to Redis, and whether it lets one more call of the key through. -/
theorem incr_cases {i : ℕ} {out : Option Answer}
    (h : step z limit w (.incr i) = some (w', out)) :
    ∃ j, w.jobs[i]? = some j ∧ w'.clock = w.clock ∧
      w'.store = (w.store.incr w.clock (j.key z)).2 ∧
      (∀ j' ∈ w'.jobs, ∃ j ∈ w.jobs, j'.now = j.now) ∧
      ∀ k, (if allows k (.incr i, out) then 1 else 0) + w'.jobs.countP (toBeAllowed z limit k) =
        w.jobs.countP (toBeAllowed z limit k) +
          if j.key z = k ∧ w.store.count w.clock k + 1 ≤ limit then 1 else 0 := by
  simp only [step] at h
  split at h
  · cases h
  · rename_i j hj
    split at h
    · cases h
    · rename_i hfresh
      have hmem : j ∈ w.jobs := List.mem_of_getElem? hj
      have hold : ∀ k, toBeAllowed z limit k j = false := by
        intro k
        simp [toBeAllowed, hfresh]
      refine ⟨j, hj, ?_⟩
      have hused : (w.store.incr w.clock (j.key z)).1 = w.store.count w.clock (j.key z) + 1 := rfl
      rw [hused] at h
      split at h
      · rename_i hfirst
        cases h
        refine ⟨rfl, rfl, ?_, ?_⟩
        · intro j' hj'
          obtain hsame | hnew := List.mem_or_eq_of_mem_set hj'
          · exact ⟨j', hsame, rfl⟩
          · exact ⟨j, hmem, by rw [hnew]⟩
        · intro k
          have hset := countP_set_add (p := toBeAllowed z limit k)
            (y := { j with counted := true }) hj
          rw [hold k] at hset
          have hnow : toBeAllowed z limit k { j with counted := true } =
              decide (j.key z = k ∧ w.store.count w.clock k + 1 ≤ limit) := by
            have hkey : Job.key z { j with counted := true } = j.key z := rfl
            unfold toBeAllowed
            rw [hkey, Bool.true_and, ← Bool.decide_and]
            by_cases hk : j.key z = k
            · rw [← hk, hfirst]
            · simp [hk]
          rw [hnow] at hset
          simpa [allows] using hset
      · cases h
        refine ⟨rfl, rfl, ?_, ?_⟩
        · intro j' hj'
          exact ⟨j', List.mem_of_mem_eraseIdx hj', rfl⟩
        · intro k
          have herase := countP_eraseIdx (p := toBeAllowed z limit k) hj
          rw [hold k] at herase
          have hnow : allows k (.incr i, some (answer limit (j.key z)
              (w.store.count w.clock (j.key z) + 1))) =
              decide (j.key z = k ∧ w.store.count w.clock k + 1 ≤ limit) := by
            unfold allows answer
            rw [Option.any_some, ← Bool.decide_and]
            by_cases hk : j.key z = k
            · rw [← hk]
            · simp [hk]
          rw [hnow]
          simp only [decide_eq_true_eq, Bool.false_eq_true, if_false, Nat.add_zero] at herase ⊢
          omega

/-- `EXPIRE`, with the answer that was decided at the `INCR`. -/
theorem expire_cases {i : ℕ} {out : Option Answer}
    (h : step z limit w (.expire i) = some (w', out)) :
    ∃ j, w.jobs[i]? = some j ∧ w'.clock = w.clock ∧
      w'.store = w.store.expire w.clock (j.key z) (ttl z j.now) ∧
      (∀ j' ∈ w'.jobs, ∃ j ∈ w.jobs, j'.now = j.now) ∧
      ∀ k, (if allows k (.expire i, out) then 1 else 0) + w'.jobs.countP (toBeAllowed z limit k) =
        w.jobs.countP (toBeAllowed z limit k) := by
  simp only [step] at h
  split at h
  · cases h
  · rename_i j hj
    split at h
    · rename_i hcounted
      cases h
      refine ⟨j, hj, rfl, rfl, ?_, ?_⟩
      · intro j' hj'
        exact ⟨j', List.mem_of_mem_eraseIdx hj', rfl⟩
      · intro k
        have herase := countP_eraseIdx (p := toBeAllowed z limit k) hj
        have hnow : allows k (.expire i, some (answer limit (j.key z) 1)) =
            toBeAllowed z limit k j := by
          unfold allows answer toBeAllowed
          rw [Option.any_some, hcounted, Bool.true_and]
        rw [hnow]
        exact (Nat.add_comm _ _).trans herase
    · cases h

/-! ## Every run -/

theorem Counted.started_kept (h : Counted z limit k past w) (hclock : w'.clock = w.clock)
    (hjobs : ∀ j' ∈ w'.jobs, ∃ j ∈ w.jobs, j'.now = j.now) : ∀ j' ∈ w'.jobs, j'.now ≤ w'.clock := by
  intro j' hj'
  obtain ⟨j, hmem, hnow⟩ := hjobs j' hj'
  rw [hnow, hclock]
  exact h.started j hmem

theorem Counted.incr (h : Counted z limit k past w) (hback : ¬ z.SetBack k.date) {i : ℕ}
    {out : Option Answer} (hstep : step z limit w (.incr i) = some (w', out))
    (hday : ∀ j, w.jobs[i]? = some j → z.date w.clock = z.date j.now) :
    Counted z limit k (past ++ [(.incr i, out)]) w' := by
  obtain ⟨j, hj, hclock, hstore, hjobs, hallows⟩ := incr_cases hstep
  have hone := hallows k
  have hallowed := h.allowed
  refine ⟨h.started_kept hclock hjobs, ?_, ?_⟩
  · rw [allowedFor_snoc, hstore]
    by_cases hk : j.key z = k
    · have hdate : z.date w.clock = k.date := by rw [hday j hj, ← hk]; rfl
      rw [h.count_eq hback hdate] at hone
      rw [hk, Store.incr_self, Option.map_some, Option.getD_some, h.count_eq hback hdate]
      show _ ≤ min limit (((w.store k).map Counter.used).getD 0 + 1)
      simp only [hk, true_and] at hone
      by_cases hlimit : ((w.store k).map Counter.used).getD 0 + 1 ≤ limit
      · rw [if_pos hlimit] at hone
        omega
      · rw [if_neg hlimit] at hone
        omega
    · rw [Store.incr_other (Ne.symm hk)]
      simp only [hk, false_and, if_false] at hone
      omega
  · intro c hc
    rw [hstore] at hc
    by_cases hk : j.key z = k
    · rw [hk, Store.incr_self] at hc
      obtain rfl := Option.some.inj hc
      intro e he
      obtain ⟨c', hread, he'⟩ := Option.bind_eq_some_iff.mp he
      rw [hclock]
      exact h.kept c' (Option.filter_eq_some_iff.mp hread).1 e he'
    · rw [Store.incr_other (Ne.symm hk)] at hc
      exact (h.kept c hc).later hclock.ge

theorem Counted.expire (h : Counted z limit k past w) {i : ℕ} {out : Option Answer}
    (hstep : step z limit w (.expire i) = some (w', out)) :
    Counted z limit k (past ++ [(.expire i, out)]) w' := by
  obtain ⟨j, hj, hclock, hstore, hjobs, hallows⟩ := expire_cases hstep
  have hone := hallows k
  have hallowed := h.allowed
  refine ⟨h.started_kept hclock hjobs, ?_, ?_⟩
  · rw [allowedFor_snoc, hstore, Store.expire_used]
    omega
  · intro c hc
    rw [hstore] at hc
    by_cases hk : j.key z = k
    · rw [hk] at hc
      cases hc' : w.store k with
      | none =>
        rw [Store.expire_missing hc', hc'] at hc
        cases hc
      | some c' =>
        rw [Store.expire_self hc'] at hc
        obtain rfl := Option.some.inj hc
        split
        · intro e he
          have hnow := h.started j (List.mem_of_getElem? hj)
          have hend : w.clock + ttl z j.now = e := Option.some.inj he
          refine ⟨j.now, by rw [← hk]; rfl, hnow.trans hclock.ge, ?_⟩
          omega
        · exact (h.kept c' hc').later hclock.ge
    · rw [Store.expire_other (Ne.symm hk)] at hc
      exact (h.kept c hc).later hclock.ge

theorem Counted.step (h : Counted z limit k past w) (hback : ¬ z.SetBack k.date)
    (hday : withinDay z past w l.1) (hstep : step z limit w l.1 = some (w', l.2)) :
    Counted z limit k (past ++ [l]) w' := by
  obtain ⟨move, out⟩ := l
  cases move with
  | wait now =>
    simp only [RateLimit.step] at hstep
    split at hstep
    · rename_i hclock
      cases hstep
      refine ⟨fun j hj => (h.started j hj).trans hclock, ?_, fun c hc => (h.kept c hc).later hclock⟩
      rw [allowedFor_snoc]
      exact h.allowed
    · cases hstep
  | call sid =>
    cases hstep
    refine ⟨?_, ?_, fun c hc => (h.kept c hc).later le_rfl⟩
    · intro j hj
      obtain hold | hnew := List.mem_append.mp hj
      · exact h.started j hold
      · rw [List.mem_singleton.mp hnew]
    · rw [allowedFor_snoc, List.countP_append]
      exact h.allowed
  | incr i => exact h.incr hback hstep hday
  | expire i => exact h.expire hstep
  | fail i => exact hday.elim

theorem counted_idle (now : ℤ) : Counted z limit k [] (idle now) := by
  refine ⟨?_, Nat.zero_le _, ?_⟩
  · intro j hj
    cases hj
  · intro c hc
    cases hc

/-- A day without a change back: every call of the key is counted by one counter. -/
theorem allowedFor_le (hback : ¬ z.SetBack k.date) {now : ℤ} {log : Log}
    (h : Run (guarded (withinDay z) (RateLimit.step z limit)) [] (idle now) log w) :
    allowedFor k log ≤ limit := by
  have hcounted : Counted z limit k log w := by
    refine h.invariant_of_init (Counted z limit k) ?_ (counted_idle now)
    intro past w l w' hI hstep
    exact hI.step hback hstep.1 hstep.2
  have hallowed := hcounted.allowed
  omega

/-- With a limit of 0 no call is allowed on any day. -/
theorem allowedFor_zero {now : ℤ} {log : Log}
    (h : Run (guarded (withinDay z) (RateLimit.step z 0)) [] (idle now) log w) :
    allowedFor k log = 0 := by
  refine h.invariant_of_init (fun past _ => allowedFor k past = 0) ?_ rfl
  intro past w l w' hI hstep
  obtain ⟨move, out⟩ := l
  obtain ⟨hday, hstep⟩ := hstep
  have hnone : ∀ jobs : List Job, jobs.countP (toBeAllowed z 0 k) = 0 := by
    intro jobs
    rw [List.countP_eq_zero]
    intro j _
    simp [toBeAllowed]
  rw [allowedFor_snoc, hI, Nat.zero_add]
  cases move with
  | wait now =>
    simp only [RateLimit.step] at hstep
    split at hstep
    · cases hstep
      rfl
    · cases hstep
  | call sid =>
    cases hstep
    rfl
  | incr i =>
    obtain ⟨j, _, _, _, _, hallows⟩ := incr_cases hstep
    have hone := hallows k
    rw [hnone, hnone, if_neg (show ¬ (j.key z = k ∧ _ + 1 ≤ 0) from fun hle => by omega)] at hone
    exact hone
  | expire i =>
    obtain ⟨j, _, _, _, _, hallows⟩ := expire_cases hstep
    have hone := hallows k
    rw [hnone, hnone] at hone
    exact hone
  | fail i => exact hday.elim

/-! ## A day on which the clocks are set back -/

abbrev QuotaRun (z : Zone) (limit : ℕ) : Log → World → Log → World → Prop :=
  Run (guarded (withinDay z) (RateLimit.step z limit))

theorem quota_step {move : Move} {out : Option Answer} (hday : withinDay z past w move)
    (h : RateLimit.step z limit w move = some (w', out)) :
    QuotaRun z limit past w [(move, out)] w' := Run.single ⟨hday, h⟩

section Serving
variable (z limit past) (sid : String)

/-- The first call of a key: it is counted, and the time is set. -/
theorem serve_first (w : World) (hjobs : w.jobs = []) (hlimit : 1 ≤ limit)
    (hgone : w.store.read w.clock ⟨sid, z.date w.clock⟩ = none) :
    ∃ log w', QuotaRun z limit past w log w' ∧ w'.jobs = [] ∧ w'.clock = w.clock ∧
      w'.store ⟨sid, z.date w.clock⟩ = some ⟨1, some (w.clock + ttl z w.clock)⟩ ∧
      allowedFor ⟨sid, z.date w.clock⟩ log = 1 := by
  obtain ⟨clock, store, jobs⟩ := w
  subst hjobs
  let key : Key := ⟨sid, z.date clock⟩
  have hcount : store.count clock key = 0 := by
    unfold Store.count
    rw [hgone]
    rfl
  let store₁ := (store.incr clock key).2
  have hstore₁ : store₁ key = some ⟨1, none⟩ := by
    show (store.incr clock key).2 key = _
    rw [Store.incr_self, hcount, hgone]
    rfl
  have hcall : QuotaRun z limit past ⟨clock, store, []⟩ [(.call sid, none)]
      ⟨clock, store, [⟨sid, clock, false⟩]⟩ := quota_step trivial rfl
  have hincr : QuotaRun z limit (past ++ [(.call sid, none)])
      ⟨clock, store, [⟨sid, clock, false⟩]⟩ [(.incr 0, none)]
      ⟨clock, store₁, [⟨sid, clock, true⟩]⟩ := by
    refine quota_step (by rintro j' ⟨⟩; rfl) ?_
    show (if store.count clock key + 1 = 1 then _ else _) = _
    rw [hcount, if_pos rfl]
    rfl
  have hexpire : QuotaRun z limit (past ++ ([(.call sid, none)] ++ [(.incr 0, none)]))
      ⟨clock, store₁, [⟨sid, clock, true⟩]⟩ [(.expire 0, some (answer limit key 1))]
      ⟨clock, store₁.expire clock key (ttl z clock), []⟩ :=
    quota_step (by rintro j' ⟨⟩; rfl) rfl
  refine ⟨_, _, (hcall.trans hincr).trans hexpire, rfl, rfl, Store.expire_self hstore₁, ?_⟩
  simp [allowedFor, allows, answer, hlimit, key]

/-- A later call of the key, while its counter is there. -/
theorem serve_next (w : World) {c : Counter} (hjobs : w.jobs = [])
    (hc : w.store ⟨sid, z.date w.clock⟩ = some c) (hlive : c.liveAt w.clock = true)
    (hused : 1 ≤ c.used) (hlimit : c.used + 1 ≤ limit) :
    ∃ log w', QuotaRun z limit past w log w' ∧ w'.jobs = [] ∧ w'.clock = w.clock ∧
      w'.store ⟨sid, z.date w.clock⟩ = some ⟨c.used + 1, c.expiry⟩ ∧
      allowedFor ⟨sid, z.date w.clock⟩ log = 1 := by
  obtain ⟨clock, store, jobs⟩ := w
  subst hjobs
  let key : Key := ⟨sid, z.date clock⟩
  have hcount : store.count clock key = c.used := Store.count_of_live hc hlive
  have hcall : QuotaRun z limit past ⟨clock, store, []⟩ [(.call sid, none)]
      ⟨clock, store, [⟨sid, clock, false⟩]⟩ := quota_step trivial rfl
  have hincr : QuotaRun z limit (past ++ [(.call sid, none)])
      ⟨clock, store, [⟨sid, clock, false⟩]⟩ [(.incr 0, some (answer limit key (c.used + 1)))]
      ⟨clock, (store.incr clock key).2, []⟩ := by
    refine quota_step (by rintro j' ⟨⟩; rfl) ?_
    show (if store.count clock key + 1 = 1 then _
      else some (World.mk clock (store.incr clock key).2 [],
        some (answer limit key (store.count clock key + 1)))) = _
    rw [hcount, if_neg (by omega)]
  refine ⟨_, _, hcall.trans hincr, rfl, rfl, ?_, ?_⟩
  · show (store.incr clock key).2 key = _
    rw [Store.incr_self, hcount, Store.read_of_live hc hlive]
    rfl
  · simp [allowedFor, allows, answer, hlimit, key]

/-- As many more calls as the counter has left. -/
theorem serve_more (n : ℕ) (w : World) {c : Counter} (hjobs : w.jobs = [])
    (hc : w.store ⟨sid, z.date w.clock⟩ = some c) (hlive : c.liveAt w.clock = true)
    (hused : 1 ≤ c.used) (hlimit : c.used + n ≤ limit) :
    ∃ log w', QuotaRun z limit past w log w' ∧ allowedFor ⟨sid, z.date w.clock⟩ log = n := by
  induction n generalizing w c past with
  | zero => exact ⟨[], w, Run.refl, rfl⟩
  | succ n ih =>
    obtain ⟨log, w₁, hrun, hjobs₁, hclock, hstore, hone⟩ :=
      serve_next z limit past sid w hjobs hc hlive hused (by omega)
    rw [← hclock] at hstore
    have hlive₁ : Counter.liveAt ⟨c.used + 1, c.expiry⟩ w₁.clock = true := by
      rw [hclock]
      exact hlive
    obtain ⟨log', w₂, hrun', hmore⟩ := ih (past ++ log) w₁ hjobs₁ hstore hlive₁
      (Nat.le_add_left 1 _) (by show c.used + 1 + n ≤ limit; omega)
    refine ⟨log ++ log', w₂, hrun.trans hrun', ?_⟩
    rw [hclock] at hmore
    unfold allowedFor at hone hmore ⊢
    rw [List.countP_append, hone, hmore, Nat.add_comm]

end Serving

/-- A day's counter gone before the day is over: one call more than the limit is allowed. -/
theorem one_too_many (z : Zone) (limit : ℕ) (k : Key) (hback : z.SetBack k.date) (hlimit : 1 ≤ limit) :
    ∃ now log w, QuotaRun z limit [] (idle now) log w ∧ allowedFor k log = limit + 1 := by
  obtain ⟨t, t', ht, ht', hle, hgone⟩ := (setBack_iff z k.date).mp hback
  have hkey : (⟨k.sid, z.date t⟩ : Key) = k := by rw [ht]
  have hkey' : (⟨k.sid, z.date t'⟩ : Key) = k := by rw [ht']
  obtain ⟨log₁, w₁, hrun₁, hjobs₁, hclock₁, hstore₁, hone⟩ :=
    serve_first z limit [] k.sid (idle t) rfl hlimit rfl
  have hclock : w₁.clock = t := hclock₁
  have hwait : QuotaRun z limit ([] ++ log₁) w₁ [(.wait t', none)] { w₁ with clock := t' } := by
    refine quota_step trivial ?_
    simp only [RateLimit.step, hclock, hle, if_true]
  have hread : w₁.store.read t' ⟨k.sid, z.date t'⟩ = none := by
    rw [hkey', ← hkey]
    apply Store.read_of_gone hstore₁
    show decide (t' < t + ttl z t) = false
    exact decide_eq_false (by omega)
  obtain ⟨log₂, w₂, hrun₂, hjobs₂, hclock₂, hstore₂, hone'⟩ :=
    serve_first z limit ([] ++ (log₁ ++ [(.wait t', none)])) k.sid { w₁ with clock := t' } hjobs₁
      hlimit hread
  have hpos := ttl_pos z t'
  have hclock' : w₂.clock = t' := hclock₂
  have hlive : Counter.liveAt ⟨1, some (t' + ttl z t')⟩ w₂.clock = true := by
    rw [hclock']
    show decide (t' < t' + ttl z t') = true
    exact decide_eq_true (by omega)
  have hstore : w₂.store ⟨k.sid, z.date w₂.clock⟩ = some ⟨1, some (t' + ttl z t')⟩ := by
    rw [hclock']
    exact hstore₂
  obtain ⟨log₃, w₃, hrun₃, hmore⟩ := serve_more z limit
    ([] ++ (log₁ ++ [(.wait t', none)] ++ log₂)) k.sid (limit - 1) w₂ hjobs₂ hstore hlive le_rfl
    (by show 1 + (limit - 1) ≤ limit; omega)
  refine ⟨t, _, w₃, ((hrun₁.trans hwait).trans hrun₂).trans hrun₃, ?_⟩
  rw [hclock', hkey'] at hmore
  have hfirst : allowedFor k log₁ = 1 := by
    rw [← hkey]
    exact hone
  have hsecond : allowedFor k log₂ = 1 := by
    rw [← hkey']
    exact hone'
  unfold allowedFor at hfirst hsecond hmore ⊢
  rw [List.countP_append, List.countP_append, List.countP_append, hfirst, hsecond, hmore]
  have hnone : List.countP (allows k) [(Move.wait t', none)] = 0 := rfl
  omega

/-- The quota of a key is exact for every run on its day exactly when the clocks are not set back on
it by more than the slack covers, or no search is allowed at all. -/
theorem search_quota_exact_iff (z : Zone) (limit : ℕ) (k : Key) :
    (∀ now log w, Run (guarded (withinDay z) (RateLimit.step z limit)) [] (idle now) log w →
      allowedFor k log ≤ limit) ↔ limit = 0 ∨ ¬ z.SetBack k.date := by
  constructor
  · intro hexact
    by_contra hcond
    rw [not_or, not_not] at hcond
    obtain ⟨hlimit, hback⟩ := hcond
    obtain ⟨now, log, w, hrun, hmany⟩ := one_too_many z limit k hback (by omega)
    have hle := hexact now log w hrun
    omega
  · intro hcond now log w hrun
    obtain hzero | hback := hcond
    · subst hzero
      exact (allowedFor_zero hrun).le
    · exact allowedFor_le hback hrun

/-! ## The end of summer time -/

/-- `Europe/Warsaw` around the end of summer time on 2026-10-25, at 01:00 UTC. -/
def warsaw : Zone where
  offset now := if now < 1792890000 * second then 7200 * second else 3600 * second

def lastSummerDay : ℤ := 20751

theorem warsaw_setBack : warsaw.SetBack lastSummerDay := by
  refine ⟨1792879200 * second, 1792968660 * second, by decide, by decide, by decide, by decide⟩

/-- Eleven searches on a day with a limit of ten. -/
theorem quota_exceeded : ∃ now log w, Run (guarded (withinDay warsaw) (RateLimit.step warsaw 10)) []
    (idle now) log w ∧ ¬ allowedFor ⟨"ana", lastSummerDay⟩ log ≤ 10 := by
  obtain ⟨now, log, w, hrun, hmany⟩ := one_too_many warsaw 10 ⟨"ana", lastSummerDay⟩
    warsaw_setBack (by decide)
  exact ⟨now, log, w, hrun, by omega⟩

end WarsawEvents.RateLimit
