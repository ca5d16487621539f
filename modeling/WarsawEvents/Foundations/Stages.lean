import WarsawEvents.Foundations.Runs

/-! # Transactions in order, by processes that are restarted

Any number of processes run one list of stages on a shared state. A stage is one transaction: it commits
whole or not at all. When the connection breaks, which may be after the commit, the process starts the list
again, at most `retries` times in all; another error stops it, unless the stage is optional; and it may be
killed at any time.

* `done_posts`: what every commit keeps and its own stage makes true holds once a process is done.
* `work_bounded`: no process works forever.
* `gets_done`: a process that is neither refused nor killed gets done, if its connection breaks less than
  `retries` times.
-/

namespace Stages
set_option autoImplicit false

variable {σ : Type*}

structure Stage (σ : Type*) where
  /-- The state it commits; none when one of its statements fails. -/
  run : σ → Option σ
  /-- An error is only logged. -/
  optional : Bool := false

structure Program (σ : Type*) where
  stages : List (Stage σ)
  retries : ℕ
  retries_pos : 0 < retries

inductive Process where
  | running (attempt stage : ℕ)
  | done
  | stopped
  deriving DecidableEq

inductive Outcome where
  | runs
  | breaks (committed : Bool)
  | refused
  | killed (committed : Bool)
  deriving DecidableEq

inductive Move where
  | launch
  | work (i : ℕ) (outcome : Outcome)
  deriving DecidableEq

structure System (σ : Type*) where
  state : σ
  processes : List Process := []

namespace Program
variable (P : Program σ)

def next (attempt stage : ℕ) : Process :=
  if stage + 1 < P.stages.length then .running attempt (stage + 1) else .done

def again (attempt : ℕ) : Process := if attempt + 1 < P.retries then .running (attempt + 1) 0 else .stopped

/-- What an error other than a broken connection does. -/
def failing (stage : Stage σ) (attempt k : ℕ) : Process :=
  if stage.optional then P.next attempt k else .stopped

/-- One transaction: the state it leaves and where its process goes on. -/
def work (stage : Stage σ) (attempt k : ℕ) (s : σ) : Outcome → σ × Process
  | .runs =>
    match stage.run s with
    | some t => (t, P.next attempt k)
    | none => (s, P.failing stage attempt k)
  | .breaks committed => (if committed then (stage.run s).getD s else s, P.again attempt)
  | .refused => (s, P.failing stage attempt k)
  | .killed committed => (if committed then (stage.run s).getD s else s, .stopped)

def launched : Process := if P.stages = [] then .done else .running 0 0

def step (sys : System σ) : Move → Option (System σ × Unit)
  | .launch => some ({ sys with processes := sys.processes ++ [P.launched] }, ())
  | .work i outcome =>
    match sys.processes[i]? with
    | some (.running attempt k) =>
      match P.stages[k]? with
      | some stage =>
        let out := P.work stage attempt k sys.state outcome
        some ({ state := out.1, processes := sys.processes.set i out.2 }, ())
      | none => none
    | _ => none

end Program

abbrev History := List (Move × Unit)

def Reached (P : Program σ) (init : σ) : History → System σ → Prop :=
  Runs.Run (Runs.guarded Runs.anyStep P.step) [] { state := init }

variable {P : Program σ} {sys sys' : System σ} {move : Move} {past : History} {init s t : σ} {out : Unit}

/-! ## One step -/

/-- A launch, or one transaction of one running process. -/
inductive Stepped (P : Program σ) (sys : System σ) : Move → System σ → Prop
  | launch : Stepped P sys .launch { sys with processes := sys.processes ++ [P.launched] }
  | worked {i attempt k : ℕ} {stage : Stage σ} {outcome : Outcome} :
      sys.processes[i]? = some (.running attempt k) → P.stages[k]? = some stage →
      Stepped P sys (.work i outcome)
        { state := (P.work stage attempt k sys.state outcome).1
          processes := sys.processes.set i (P.work stage attempt k sys.state outcome).2 }

theorem step_stepped (h : P.step sys move = some (sys', out)) : Stepped P sys move sys' := by
  cases move with
  | launch =>
    cases h
    exact Stepped.launch
  | work i outcome =>
    simp only [Program.step] at h
    cases hp : sys.processes[i]? with
    | none => simp [hp] at h
    | some p =>
      cases p with
      | done => simp [hp] at h
      | stopped => simp [hp] at h
      | running attempt k =>
        cases hs : P.stages[k]? with
        | none => simp [hp, hs] at h
        | some stage =>
          simp only [hp, hs, Option.some.injEq, Prod.mk.injEq] at h
          rw [← h.1]
          exact Stepped.worked hp hs

/-- A transaction leaves the state alone or commits its stage. -/
theorem work_state (stage : Stage σ) (attempt k : ℕ) (s : σ) (outcome : Outcome) :
    (P.work stage attempt k s outcome).1 = s ∨
      stage.run s = some (P.work stage attempt k s outcome).1 := by
  have hbroken : ∀ committed : Bool, (if committed then (stage.run s).getD s else s) = s ∨
      stage.run s = some (if committed then (stage.run s).getD s else s) := by
    intro committed
    cases committed with
    | false => exact Or.inl rfl
    | true =>
      cases hrun : stage.run s with
      | none => exact Or.inl rfl
      | some t => exact Or.inr rfl
  cases outcome with
  | runs =>
    unfold Program.work
    cases hrun : stage.run s with
    | none => exact Or.inl rfl
    | some t => exact Or.inr rfl
  | breaks committed => exact hbroken committed
  | refused => exact Or.inl rfl
  | killed committed => exact hbroken committed

/-- A launch adds a process where there was none. -/
theorem launch_lookup (ps : List Process) (p : Process) (i : ℕ) :
    (ps ++ [p])[i]? = ps[i]? ∨ (ps[i]? = none ∧ (ps ++ [p])[i]? = some p) := by
  obtain hlt | rfl | hgt := Nat.lt_trichotomy i ps.length
  · exact Or.inl (List.getElem?_append_left hlt)
  · exact Or.inr ⟨List.getElem?_eq_none (Nat.le_refl _), List.getElem?_concat_length⟩
  · left
    rw [List.getElem?_eq_none (Nat.le_of_lt hgt), List.getElem?_eq_none (by simpa using Nat.succ_le_of_lt hgt)]

/-- What every commit keeps, every run keeps. -/
theorem run_keeps {more : History} {I : σ → Prop}
    (hcommit : ∀ stage ∈ P.stages, ∀ s t, I s → stage.run s = some t → I t)
    (h : Runs.Run (Runs.guarded Runs.anyStep P.step) past sys more sys') (hbefore : I sys.state) :
    I sys'.state := by
  refine h.invariant (fun _ sys => I sys.state) ?_ hbefore
  rintro past sys ⟨move, out⟩ sys' hI hstep
  cases step_stepped hstep.2 with
  | launch => exact hI
  | @worked i attempt k stage outcome hp hs =>
    obtain hsame | hrun := work_state (P := P) stage attempt k sys.state outcome
    · show I (P.work stage attempt k sys.state outcome).1
      rw [hsame]
      exact hI
    · exact hcommit stage (List.mem_of_getElem? hs) _ _ hI hrun

/-! ## What a process has done -/

/-- The required stages before `k`. -/
def Program.Past (P : Program σ) (post : ℕ → σ → Prop) (k : ℕ) (s : σ) : Prop :=
  ∀ j < k, ∀ stage, P.stages[j]? = some stage → stage.optional = false → post j s

/-- Every commit keeps `valid` and all of `post`, and makes its own stage's `post` true. -/
structure Program.Safe (P : Program σ) (valid : σ → Prop) (post : ℕ → σ → Prop) : Prop where
  keeps : ∀ stage ∈ P.stages, ∀ s t, valid s → stage.run s = some t → valid t
  own : ∀ k stage s t, P.stages[k]? = some stage → valid s → P.Past post k s → stage.run s = some t → post k t
  others : ∀ stage ∈ P.stages, ∀ j s t, valid s → stage.run s = some t → post j s → post j t

def Program.Behind (P : Program σ) (post : ℕ → σ → Prop) (s : σ) : Process → Prop
  | .running _ k => P.Past post k s
  | .done => P.Past post P.stages.length s
  | .stopped => True

section Posts
variable {valid : σ → Prop} {post : ℕ → σ → Prop} {stage : Stage σ} {attempt k : ℕ} {p : Process}

theorem Program.Past.follow (h : P.Past post k s) (hkeep : ∀ j, post j s → post j t) : P.Past post k t :=
  fun j hj stage hs hopt => hkeep j (h j hj stage hs hopt)

theorem Program.Behind.follow (h : P.Behind post s p) (hkeep : ∀ j, post j s → post j t) :
    P.Behind post t p := by
  cases p with
  | running attempt k => exact Program.Past.follow h hkeep
  | done => exact Program.Past.follow h hkeep
  | stopped => trivial

theorem Program.Past.next (h : P.Past post k s) (hs : P.stages[k]? = some stage)
    (hpost : stage.optional = false → post k s) : P.Behind post s (P.next attempt k) := by
  have hmore : P.Past post (k + 1) s := by
    intro j hj other hother hopt
    obtain hlt | rfl := Nat.lt_succ_iff_lt_or_eq.mp hj
    · exact h j hlt other hother hopt
    · obtain rfl := Option.some.inj (hs.symm.trans hother)
      exact hpost hopt
  obtain ⟨hlt, _⟩ := List.getElem?_eq_some_iff.mp hs
  unfold Program.next
  split_ifs with hlast
  · exact hmore
  · have hend : P.stages.length = k + 1 := by omega
    show P.Past post P.stages.length s
    rw [hend]
    exact hmore

theorem Program.Past.failing (h : P.Past post k s) (hs : P.stages[k]? = some stage) :
    P.Behind post s (P.failing stage attempt k) := by
  unfold Program.failing
  split_ifs with hopt
  · exact h.next hs fun hreq => absurd hopt (by simp [hreq])
  · trivial

theorem Program.again_behind : P.Behind post s (P.again attempt) := by
  unfold Program.again
  split_ifs
  · exact fun j hj => absurd hj (Nat.not_lt_zero j)
  · trivial

/-- After its transaction a process stands where its posts are. -/
theorem Program.Safe.work (hsafe : P.Safe valid post) (hvalid : valid s) (hs : P.stages[k]? = some stage)
    (h : P.Past post k s) (outcome : Outcome) :
    P.Behind post (P.work stage attempt k s outcome).1 (P.work stage attempt k s outcome).2 := by
  cases outcome with
  | runs =>
    unfold Program.work
    cases hrun : stage.run s with
    | none => exact h.failing hs
    | some t =>
      have hkeep := fun j => hsafe.others stage (List.mem_of_getElem? hs) j s t hvalid hrun
      exact (h.follow hkeep).next hs fun _ => hsafe.own k stage s t hs hvalid h hrun
  | breaks committed => exact Program.again_behind
  | refused => exact h.failing hs
  | killed committed => trivial

/-- What holds behind the processes before a step holds behind them after it. -/
theorem Program.Safe.step (hsafe : P.Safe valid post)
    (hbefore : valid sys.state ∧ ∀ p ∈ sys.processes, P.Behind post sys.state p)
    (h : Stepped P sys move sys') :
    valid sys'.state ∧ ∀ p ∈ sys'.processes, P.Behind post sys'.state p := by
  obtain ⟨hvalid, hbehind⟩ := hbefore
  cases h with
  | launch =>
    refine ⟨hvalid, fun p hp => ?_⟩
    obtain hold | hnew := List.mem_append.mp hp
    · exact hbehind p hold
    · rw [List.mem_singleton.mp hnew]
      unfold Program.launched
      split_ifs with hnone
      · show P.Past post P.stages.length sys.state
        rw [hnone]
        exact fun j hj => absurd hj (Nat.not_lt_zero j)
      · exact fun j hj => absurd hj (Nat.not_lt_zero j)
  | @worked i attempt k stage outcome hp hs =>
    have hmem := List.mem_of_getElem? hs
    have hwork := work_state (P := P) stage attempt k sys.state outcome
    constructor
    · obtain hsame | hrun := hwork
      · show valid (P.work stage attempt k sys.state outcome).1
        rw [hsame]
        exact hvalid
      · exact hsafe.keeps stage hmem _ _ hvalid hrun
    · intro p hmem'
      obtain hold | rfl := List.mem_or_eq_of_mem_set hmem'
      · refine (hbehind p hold).follow ?_
        obtain hsame | hrun := hwork
        · intro j hpost
          show post j (P.work stage attempt k sys.state outcome).1
          rw [hsame]
          exact hpost
        · exact fun j => hsafe.others stage hmem j _ _ hvalid hrun
      · exact hsafe.work hvalid hs (hbehind _ (List.mem_of_getElem? hp)) outcome

/-- A process that is done finds what all its required stages make true, whatever the others do. -/
theorem done_posts (hsafe : P.Safe valid post) (h : Reached P init past sys) (hinit : valid init) :
    valid sys.state ∧ ∀ p ∈ sys.processes, P.Behind post sys.state p := by
  refine h.invariant_of_init
    (fun _ sys => valid sys.state ∧ ∀ p ∈ sys.processes, P.Behind post sys.state p) ?_
    ⟨hinit, fun p hp => absurd hp (by simp)⟩
  intro past sys e sys' hbefore hstep
  exact hsafe.step hbefore (step_stepped hstep.2)

end Posts

theorem done_stays {more : History} {i : ℕ} (h : Runs.Run (Runs.guarded Runs.anyStep P.step) past sys more sys')
    (hdone : sys.processes[i]? = some .done) : sys'.processes[i]? = some .done := by
  refine h.invariant (fun _ sys => sys.processes[i]? = some .done) ?_ hdone
  rintro past sys ⟨move, out⟩ sys' hdone hstep
  cases step_stepped hstep.2 with
  | launch =>
    obtain hsame | ⟨hnone, _⟩ := launch_lookup sys.processes P.launched i
    · exact hsame.trans hdone
    · rw [hnone] at hdone
      cases hdone
  | @worked j attempt k stage outcome hp hs =>
    have hij : j ≠ i := by
      rintro rfl
      rw [hp] at hdone
      cases hdone
    exact (List.getElem?_set_ne hij).trans hdone

/-! ## How long a process works -/

def worksAt (i : ℕ) : Move → Bool
  | .work j _ => j = i
  | .launch => false

def breaksAt (i : ℕ) : Move → Bool
  | .work j (.breaks _) => j = i
  | _ => false

/-- The process is refused or killed. -/
def endsAt (i : ℕ) : Move → Bool
  | .work j .refused => j = i
  | .work j (.killed _) => j = i
  | _ => false

def worked (i : ℕ) (past : History) : ℕ := past.countP fun e => worksAt i e.1

def broken (i : ℕ) (past : History) : ℕ := past.countP fun e => breaksAt i e.1

section Work
variable {i attempt k : ℕ} {stage : Stage σ} {outcome : Outcome}

theorem worked_snoc : worked i (past ++ [(move, out)]) = worked i past + if worksAt i move then 1 else 0 := by
  unfold worked
  rw [List.countP_append, List.countP_singleton]

theorem broken_snoc : broken i (past ++ [(move, out)]) = broken i past + if breaksAt i move then 1 else 0 := by
  unfold broken
  rw [List.countP_append, List.countP_singleton]

/-- How far a process is after so many transactions. -/
def Program.Spent (P : Program σ) (n : ℕ) : Option Process → Prop
  | none => n = 0
  | some (.running attempt k) => attempt < P.retries ∧ k < P.stages.length ∧
      n ≤ attempt * P.stages.length + k
  | some _ => n ≤ P.retries * P.stages.length

theorem round_le {n : ℕ} (ha : attempt < P.retries) (hk : k < P.stages.length)
    (hn : n ≤ attempt * P.stages.length + k) : n + 1 ≤ P.retries * P.stages.length := by
  have hround : (attempt + 1) * P.stages.length ≤ P.retries * P.stages.length :=
    Nat.mul_le_mul_right _ ha
  rw [Nat.add_mul, Nat.one_mul] at hround
  omega

theorem Program.Spent.next {n : ℕ} (ha : attempt < P.retries) (hk : k < P.stages.length)
    (hn : n ≤ attempt * P.stages.length + k) : P.Spent (n + 1) (some (P.next attempt k)) := by
  unfold Program.next
  split_ifs with hlast
  · exact ⟨ha, hlast, by omega⟩
  · exact round_le ha hk hn

theorem Program.Spent.again {n : ℕ} (ha : attempt < P.retries) (hk : k < P.stages.length)
    (hn : n ≤ attempt * P.stages.length + k) : P.Spent (n + 1) (some (P.again attempt)) := by
  unfold Program.again
  split_ifs with hmore
  · refine ⟨hmore, Nat.zero_lt_of_lt hk, ?_⟩
    rw [Nat.add_mul, Nat.one_mul]
    omega
  · exact round_le ha hk hn

theorem Program.Spent.work {n : ℕ} (ha : attempt < P.retries) (hk : k < P.stages.length)
    (hn : n ≤ attempt * P.stages.length + k) (s : σ) (outcome : Outcome) :
    P.Spent (n + 1) (some (P.work stage attempt k s outcome).2) := by
  have hfailing : P.Spent (n + 1) (some (P.failing stage attempt k)) := by
    unfold Program.failing
    split_ifs
    · exact Program.Spent.next ha hk hn
    · exact round_le ha hk hn
  cases outcome with
  | runs =>
    unfold Program.work
    cases stage.run s with
    | none => exact hfailing
    | some t => exact Program.Spent.next ha hk hn
  | breaks committed => exact Program.Spent.again ha hk hn
  | refused => exact hfailing
  | killed committed => exact round_le ha hk hn

theorem reached_spent (h : Reached P init past sys) (i : ℕ) : P.Spent (worked i past) sys.processes[i]? := by
  refine h.invariant_of_init
    (fun past (sys : System σ) => P.Spent (worked i past) sys.processes[i]?) ?_ rfl
  rintro past sys ⟨move, out⟩ sys' hspent hstep
  rw [worked_snoc]
  cases step_stepped hstep.2 with
  | launch =>
    rw [if_neg (by simp [worksAt]), Nat.add_zero]
    show P.Spent _ (sys.processes ++ [P.launched])[i]?
    obtain hsame | ⟨hnone, hnew⟩ := launch_lookup sys.processes P.launched i
    · rw [hsame]
      exact hspent
    · rw [hnone] at hspent
      have hzero : worked i past = 0 := hspent
      rw [hnew, hzero]
      unfold Program.launched
      split_ifs with hstages
      · exact Nat.zero_le _
      · exact ⟨P.retries_pos, List.length_pos_iff.mpr hstages, Nat.zero_le _⟩
  | @worked j attempt k stage outcome hp hs =>
    by_cases hij : j = i
    · subst hij
      rw [if_pos (by simp [worksAt]), List.getElem?_set_self (List.getElem?_eq_some_iff.mp hp).1]
      rw [hp] at hspent
      obtain ⟨ha, hk, hn⟩ := hspent
      exact Program.Spent.work ha hk hn sys.state outcome
    · rw [if_neg (by simpa [worksAt] using hij), List.getElem?_set_ne hij]
      exact hspent

/-- No process works forever. -/
theorem work_bounded (h : Reached P init past sys) (i : ℕ) :
    worked i past ≤ P.retries * P.stages.length := by
  have hspent := reached_spent h i
  cases hp : sys.processes[i]? with
  | none =>
    rw [hp] at hspent
    exact Nat.le_trans (Nat.le_of_eq hspent) (Nat.zero_le _)
  | some p =>
    rw [hp] at hspent
    cases p with
    | running attempt k =>
      obtain ⟨ha, hk, hn⟩ := hspent
      exact Nat.le_trans (Nat.le_succ _) (round_le ha hk hn)
    | done => exact hspent
    | stopped => exact hspent

end Work

/-! ## Getting done -/

section Done
variable {valid : σ → Prop} {post : ℕ → σ → Prop} {i : ℕ}

/-- All the stages before `k`, the optional ones too. -/
def Program.Passed (P : Program σ) (post : ℕ → σ → Prop) (k : ℕ) (s : σ) : Prop :=
  ∀ j < k, ∀ stage, P.stages[j]? = some stage → post j s

/-- No stage fails by itself where the stages before it have run. -/
def Program.Runs (P : Program σ) (valid : σ → Prop) (post : ℕ → σ → Prop) : Prop :=
  ∀ k stage s, P.stages[k]? = some stage → valid s → P.Passed post k s → (stage.run s).isSome = true

/-- Every attempt but the first comes from a broken connection, and nothing of an attempt was skipped. -/
def Program.Tries (P : Program σ) (post : ℕ → σ → Prop) (n : ℕ) (s : σ) : Option Process → Prop
  | none => n = 0
  | some (.running attempt k) => attempt = n ∧ P.Passed post k s
  | some .done => True
  | some .stopped => False

theorem Program.Tries.follow {n : ℕ} {p : Option Process} (h : P.Tries post n s p)
    (hkeep : ∀ j, post j s → post j t) : P.Tries post n t p := by
  match p, h with
  | none, h => exact h
  | some (.running attempt k), ⟨hattempt, hpassed⟩ =>
    exact ⟨hattempt, fun j hj stage hs => hkeep j (hpassed j hj stage hs)⟩
  | some .done, _ => trivial

theorem Program.Tries.next {attempt k n : ℕ} {stage : Stage σ} (h : attempt = n)
    (hpassed : P.Passed post k s) (hs : P.stages[k]? = some stage) (hpost : post k s) :
    P.Tries post n s (some (P.next attempt k)) := by
  unfold Program.next
  split_ifs
  · refine ⟨h, fun j hj other hother => ?_⟩
    obtain hlt | rfl := Nat.lt_succ_iff_lt_or_eq.mp hj
    · exact hpassed j hlt other hother
    · exact hpost
  · trivial

theorem Program.Tries.work (hsafe : P.Safe valid post) (hruns : P.Runs valid post) (hvalid : valid s)
    {attempt k n : ℕ} {stage : Stage σ} {outcome : Outcome} (h : attempt = n)
    (hpassed : P.Passed post k s) (hs : P.stages[k]? = some stage)
    (hends : endsAt i (.work i outcome) = false)
    (hbroken : n + (if breaksAt i (.work i outcome) then 1 else 0) < P.retries) :
    P.Tries post (n + if breaksAt i (.work i outcome) then 1 else 0)
      (P.work stage attempt k s outcome).1 (some (P.work stage attempt k s outcome).2) := by
  cases outcome with
  | runs =>
    obtain ⟨t, ht⟩ := Option.isSome_iff_exists.mp (hruns k stage s hs hvalid hpassed)
    have hkeep := fun j => hsafe.others stage (List.mem_of_getElem? hs) j s t hvalid ht
    unfold Program.work
    rw [ht]
    refine Program.Tries.next (by simp [breaksAt, h]) (fun j hj other hother => ?_) hs ?_
    · exact hkeep j (hpassed j hj other hother)
    · exact hsafe.own k stage s t hs hvalid (fun j hj other hother _ => hpassed j hj other hother) ht
  | breaks committed =>
    have hone : breaksAt i (.work i (.breaks committed)) = true := by simp [breaksAt]
    rw [if_pos hone] at hbroken ⊢
    show P.Tries post (n + 1) _ (some (P.again attempt))
    unfold Program.again
    rw [h, if_pos hbroken]
    exact ⟨rfl, fun j hj => absurd hj (Nat.not_lt_zero j)⟩
  | refused => simp [endsAt] at hends
  | killed committed => simp [endsAt] at hends

theorem reached_tries (hsafe : P.Safe valid post) (hruns : P.Runs valid post)
    (h : Reached P init past sys) (hinit : valid init) (hends : ∀ e ∈ past, endsAt i e.1 = false)
    (hbroken : broken i past < P.retries) : P.Tries post (broken i past) sys.state sys.processes[i]? := by
  unfold Reached at h
  induction h with
  | refl => rfl
  | @snoc past sys sys' e hrun hstep ih =>
    obtain ⟨move, out⟩ := e
    obtain ⟨hvalid, _⟩ := done_posts hsafe hrun hinit
    have hmore : broken i (past ++ [(move, out)]) = broken i past + if breaksAt i move then 1 else 0 :=
      broken_snoc
    rw [hmore] at hbroken
    have hends' : ∀ e ∈ past, endsAt i e.1 = false := fun e he => hends e (List.mem_append_left _ he)
    have hlast := hends (move, out) (List.mem_append_right _ (List.mem_singleton.mpr rfl))
    have hbefore := ih hends' (Nat.lt_of_le_of_lt (Nat.le_add_right _ _) hbroken)
    rw [hmore]
    cases step_stepped hstep.2 with
    | launch =>
      rw [if_neg (by simp [breaksAt]), Nat.add_zero]
      show P.Tries post _ _ (sys.processes ++ [P.launched])[i]?
      obtain hsame | ⟨hnone, hnew⟩ := launch_lookup sys.processes P.launched i
      · rw [hsame]
        exact hbefore
      · rw [hnone] at hbefore
        have hzero : broken i past = 0 := hbefore
        rw [hnew, hzero]
        unfold Program.launched
        split_ifs
        · trivial
        · exact ⟨rfl, fun j hj => absurd hj (Nat.not_lt_zero j)⟩
    | @worked j attempt k stage outcome hp hs =>
      by_cases hij : j = i
      · subst hij
        rw [List.getElem?_set_self (List.getElem?_eq_some_iff.mp hp).1]
        rw [hp] at hbefore
        exact Program.Tries.work hsafe hruns hvalid hbefore.1 hbefore.2 hs hlast hbroken
      · have hquiet : breaksAt i (.work j outcome) = false := by
          cases outcome with
          | breaks committed => simpa [breaksAt] using hij
          | _ => rfl
        rw [hquiet, List.getElem?_set_ne hij]
        refine hbefore.follow fun l hpost => ?_
        obtain hsame | hrun := work_state (P := P) stage attempt k sys.state outcome
        · show post l (P.work stage attempt k sys.state outcome).1
          rw [hsame]
          exact hpost
        · exact hsafe.others stage (List.mem_of_getElem? hs) l _ _ hvalid hrun hpost

/-- A process that is neither refused nor killed, and whose connection breaks less than `retries` times, gets
done: it does not stop, and every break costs it one round at most. -/
theorem gets_done (hsafe : P.Safe valid post) (hruns : P.Runs valid post) (h : Reached P init past sys)
    (hinit : valid init) (hends : ∀ e ∈ past, endsAt i e.1 = false) (hbroken : broken i past < P.retries)
    (hi : i < sys.processes.length) :
    sys.processes[i]? = some .done ∨ ∃ k < P.stages.length,
      sys.processes[i]? = some (.running (broken i past) k) ∧
        worked i past ≤ broken i past * P.stages.length + k := by
  have htries := reached_tries hsafe hruns h hinit hends hbroken
  have hspent := reached_spent h i
  cases hp : sys.processes[i]? with
  | none => exact absurd (List.getElem?_eq_none_iff.mp hp) (Nat.not_le_of_lt hi)
  | some p =>
    rw [hp] at htries hspent
    cases p with
    | running attempt k =>
      obtain ⟨rfl, _⟩ := htries
      exact Or.inr ⟨k, hspent.2.1, rfl, hspent.2.2⟩
    | done => exact Or.inl rfl
    | stopped => exact absurd htries id

end Done

end Stages
