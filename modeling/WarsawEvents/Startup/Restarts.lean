import WarsawEvents.Accounts.RowInvariant
import WarsawEvents.Startup.Upgrade

/-! # Accounts while services start

The account endpoints are served by the processes that are past their startup, while others run
`_create_schema` on the same database. Every start fills `email_verified` for the Google accounts anew.

* `restarts_verify_no_address`: a start leaves every account with an address as it is.
* `rows_sound_across_restarts`: what every account row satisfies, it satisfies across upgrades and restarts.
-/

namespace WarsawEvents.Startup
open Accounts (User Deps World Event Reply Cookie)
open Stages (Program Process)
set_option autoImplicit false

/-! ## Requests and starts -/

structure Site where
  sys : Stages.System Database
  nextId : ℕ := 0
  issued : List (ℕ × Cookie) := []

def Site.world (s : Site) : World where
  db := { users := s.sys.state.users, nextId := s.nextId }
  issued := s.issued

inductive Move where
  | startup (move : Stages.Move)
  | request (i : ℕ) (event : Event)

/-- The account rows after a request; it leaves the catalog alone. -/
def Site.served (s : Site) (w : World) : Site where
  sys := { s.sys with state := { s.sys.state with users := w.db.users } }
  nextId := w.db.nextId
  issued := w.issued

/-- `lifespan` serves a request after the startup only. -/
def Site.step (d : Deps) (P : Program Database) (s : Site) : Move → Option (Site × Option Reply)
  | .startup move => (P.step s.sys move).map fun r => ({ s with sys := r.1 }, none)
  | .request i event =>
    if s.sys.processes[i]? = some .done then
      (Accounts.serve d s.world event).map fun r => (s.served r.1, some r.2)
    else none

abbrev History := List (Move × Option Reply)

def Reached (d : Deps) (P : Program Database) (start : Site) : History → Site → Prop :=
  Runs.Run (Runs.guarded Runs.anyStep (Site.step d P)) [] start

/-- A step is one of a start, or a request that a process past its startup serves. -/
inductive Stepped (d : Deps) (P : Program Database) (s : Site) : Move → Site → Prop
  | startup {move : Stages.Move} {sys' : Stages.System Database} : Stages.Stepped P s.sys move sys' →
      Stepped d P s (.startup move) { s with sys := sys' }
  | request {i : ℕ} {event : Event} {w : World} {r : Reply} : s.sys.processes[i]? = some .done →
      Accounts.serve d s.world event = some (w, r) → Stepped d P s (.request i event) (s.served w)

section
variable {d : Deps} {P : Program Database} {s s' start : Site} {move : Move} {out : Option Reply}
  {past : History} {db db' : Database} {k : ℕ} {u v : User}

theorem step_stepped (h : s.step d P move = some (s', out)) : Stepped d P s move s' := by
  cases move with
  | startup move =>
    obtain ⟨⟨sys', _⟩, hstep, heq⟩ := Option.map_eq_some_iff.mp h
    cases heq
    exact Stepped.startup (Stages.step_stepped hstep)
  | request i event =>
    simp only [Site.step] at h
    split_ifs at h with hdone
    obtain ⟨⟨w, r⟩, hserve, heq⟩ := Option.map_eq_some_iff.mp h
    cases heq
    exact Stepped.request hdone hserve

/-! ## The rows that a start changes -/

theorem runAll_same_users {statements : List Statement} (h : runAll statements db = some db')
    (hnot : Statement.verifyGoogle ∉ statements) : db'.users = db.users := by
  induction statements generalizing db with
  | nil =>
    cases h
    rfl
  | cons st statements ih =>
    obtain ⟨mid, hexec, hrest⟩ := runAll_cons h
    rw [List.mem_cons, not_or] at hnot
    rw [ih hrest hnot.2]
    cases exec_executed hexec with
    | verified => exact absurd rfl hnot.1
    | _ => rfl

theorem ensureColumns_users (h : runAll ensureColumns db = some db') :
    db'.users = db.users.map backfilled := by
  obtain ⟨mid, hfirst, hrest⟩ := runAll_append h
  obtain ⟨later, hfill, hlast⟩ := runAll_cons hrest
  rw [runAll_same_users hlast (by decide +kernel), ← runAll_same_users hfirst (by decide +kernel)]
  simp only [exec] at hfill
  split_ifs at hfill
  cases hfill
  rfl

theorem transaction_users {t : List Statement × Bool} (ht : transactions[k]? = some t)
    (h : runAll t.1 db = some db') :
    (k = 3 ∧ db'.users = db.users.map backfilled) ∨ (k ≠ 3 ∧ db'.users = db.users) := by
  have hnone : ∀ k < 7, k ≠ 3 → ∀ t ∈ transactions[k]?, Statement.verifyGoogle ∉ t.1 := by decide +kernel
  by_cases hk : k = 3
  · subst hk
    have hcolumns : transactions[3]? = some (ensureColumns, false) := rfl
    obtain rfl := Option.some.inj (hcolumns.symm.trans ht)
    exact Or.inl ⟨rfl, ensureColumns_users h⟩
  · have hlt : k < 7 := (List.getElem?_eq_some_iff.mp ht).1
    exact Or.inr ⟨hk, runAll_same_users h (hnone k hlt hk t ht)⟩

/-- A Google account without a proof has no address to prove. -/
def Settled (u : User) : Prop := u.googleSub.isSome = true → u.emailVerified = true ∨ u.email = none

theorem backfilled_cases (u : User) : backfilled u = u ∨
    (u.googleSub.isSome = true ∧ u.emailVerified = false ∧ backfilled u = { u with emailVerified := true }) := by
  unfold backfilled
  split_ifs with h
  · rw [Bool.and_eq_true, Bool.not_eq_true'] at h
    exact Or.inr ⟨h.1, h.2, rfl⟩
  · exact Or.inl rfl

theorem backfilled_settled (u : User) : Settled (backfilled u) := by
  unfold backfilled
  split_ifs with h
  · exact fun _ => Or.inl rfl
  · intro hsub
    simp only [hsub, Bool.true_and, Bool.not_eq_true', Bool.not_eq_false] at h
    exact Or.inl h

theorem Settled.backfilled (h : Settled u) : backfilled u = u ∨
    (u.googleSub.isSome = true ∧ u.email = none ∧ backfilled u = { u with emailVerified := true }) := by
  obtain hsame | ⟨hsub, hun, hset⟩ := backfilled_cases u
  · exact Or.inl hsame
  · obtain hverified | hnone := h hsub
    · rw [hun] at hverified
      cases hverified
    · exact Or.inr ⟨hsub, hnone, hset⟩

/-! ## The rows that a request commits -/

theorem RowServed.settled {amb : Accounts.Ambient} {db : Accounts.Db} {c : Cookie} {req : Accounts.Request}
    {o : Accounts.RowOutcome} (h : Accounts.RowServed d amb db c req u o) (hv : o.commit = some v)
    (hu : Settled u) : Settled v := by
  cases h with
  | @callbackSub info sub _ _ hfind =>
    simp only [Accounts.googleOutcome, Option.some.injEq] at hv
    subst hv
    have hsub : u.googleSub.isSome = true := by rw [(Accounts.findBySub_some hfind).2]; rfl
    intro _
    rw [Accounts.assertGoogle_emailVerified, Accounts.assertGoogle_email]
    cases Accounts.truthy info.email with
    | none => exact hu hsub
    | some e => exact Or.inl rfl
  | callbackEmail _ _ he _ =>
    simp only [Accounts.googleOutcome, Option.some.injEq] at hv
    subst hv
    intro _
    rw [Accounts.assertGoogle_emailVerified, he]
    exact Or.inl rfl
  | login _ =>
    obtain ⟨_, _, rfl⟩ := Accounts.login_commit hv
    exact hu
  | login2fa _ _ =>
    obtain ⟨_, ⟨_, rfl⟩ | ⟨_, rfl⟩⟩ := Accounts.login2fa_commit hv
    · exact hu
    · exact hu
  | verify _ _ =>
    obtain ⟨_, rfl⟩ | ⟨_, ⟨_, _, _, rfl⟩ | ⟨_, _, _, rfl⟩ | ⟨_, _, rfl⟩⟩ := Accounts.verifyEmail_commit hv
    · exact hu
    · exact hu
    · exact fun _ => Or.inl rfl
    · exact fun _ => Or.inl rfl
  | resend _ _ =>
    obtain ⟨m, hm, _⟩ := Accounts.resendVerification_commit hv
    obtain ⟨_, _, _, rfl⟩ := Accounts.issueVerification_some hm
    exact hu
  | @updateMe req _ _ _ =>
    have hedit : Settled (Accounts.editProfile req u) := by simpa [Settled] using hu
    obtain ⟨_, m, _, _, hm, _⟩ | ⟨_, _, rfl⟩ := Accounts.updateMe_commit hv
    · obtain ⟨_, _, _, rfl⟩ := Accounts.issueVerification_some hm
      exact hedit
    · split
      · exact hedit
      · exact hedit

theorem Inserted.settled {amb : Accounts.Ambient} {db : Accounts.Db} {req : Accounts.Request} {r : Reply}
    (h : Accounts.Inserted d amb db req r v) : Settled v := by
  obtain ⟨info, sub, _, _, _, rfl⟩ | ⟨q, hash, m, _, _, hissue⟩ := h
  · intro _
    unfold Accounts.googleUser
    rw [Accounts.assertGoogle_emailVerified, Accounts.assertGoogle_email]
    cases Accounts.truthy info.email with
    | none => exact Or.inr rfl
    | some e => exact Or.inl rfl
  · obtain ⟨_, _, _, rfl⟩ := Accounts.issueVerification_some hissue
    exact nofun

/-- What the endpoints keep of every row and give to every new one, a request keeps. -/
theorem serve_rows {I : User → Prop} {w w' : World} {event : Event} {r : Reply}
    (hrow : ∀ {amb : Accounts.Ambient} {db : Accounts.Db} {c : Cookie} {req : Accounts.Request}
      {u v : User} {o : Accounts.RowOutcome}, Accounts.RowServed d amb db c req u o →
        o.commit = some v → I u → I v)
    (hnew : ∀ {amb : Accounts.Ambient} {db : Accounts.Db} {req : Accounts.Request} {r : Reply} {v : User},
      Accounts.Inserted d amb db req r v → I v)
    (h : Accounts.serve d w event = some (w', r)) (hw : ∀ u ∈ w.db.users, I u) :
    ∀ u ∈ w'.db.users, I u := by
  obtain ⟨o, hserved, _, hdb, _, _⟩ := Accounts.serve_some h
  intro v hv
  rw [hdb] at hv
  obtain hmem | ⟨u, out, hrowServed, hc, _⟩ | hins := hserved.row_origin hv
  · exact hw v hmem
  · exact hrow hrowServed hc (hw u hrowServed.mem)
  · exact hnew hins

end

section Runs
variable {d : Deps} {retries : ℕ} {hretries : 0 < retries} {start s s' : Site} {past : History}
  {db : Database} {k : ℕ}

/-! ## The accounts under a start -/

/-- The columns' transaction leaves the Google accounts settled. -/
def settledPost (k : ℕ) (db : Database) : Prop := k = 3 → ∀ u ∈ db.users, Settled u

theorem users_settled (us : List User) : ∀ u ∈ us.map backfilled, Settled u := by
  intro u hu
  obtain ⟨v, _, rfl⟩ := List.mem_map.mp hu
  exact backfilled_settled v

theorem settled_safe : (createSchema retries hretries).Safe (fun _ => True) settledPost where
  keeps := fun _ _ _ _ _ _ => trivial
  own := by
    rintro k stage db db' hs _ _ hrun hk
    obtain ⟨t, ht, rfl⟩ := stage_transaction hs
    obtain ⟨_, husers⟩ | ⟨hne, _⟩ := transaction_users ht hrun
    · rw [husers]
      exact users_settled db.users
    · exact absurd hk hne
  others := by
    rintro stage hstage j db db' _ hrun hpost hj
    obtain ⟨k, hk⟩ := List.getElem?_of_mem hstage
    obtain ⟨t, ht, rfl⟩ := stage_transaction hk
    obtain ⟨_, husers⟩ | ⟨_, husers⟩ := transaction_users ht hrun
    · rw [husers]
      exact users_settled db.users
    · rw [husers]
      exact hpost hj

/-- Behind a process that is done its columns' transaction is. -/
theorem settled_of_done {p : Process} (hp : p = .done)
    (hbehind : (createSchema retries hretries).Behind settledPost db p) : ∀ u ∈ db.users, Settled u := by
  subst hp
  exact hbehind 3 (by decide : 3 < 7) ⟨runAll ensureColumns, false⟩ rfl rfl rfl

theorem site_settled (h : Reached d (createSchema retries hretries) start past s)
    (hstart : start.sys.processes = []) :
    ∀ p ∈ s.sys.processes, (createSchema retries hretries).Behind settledPost s.sys.state p := by
  refine h.invariant_of_init (fun _ s =>
    ∀ p ∈ s.sys.processes, (createSchema retries hretries).Behind settledPost s.sys.state p) ?_
    (by simp [hstart])
  rintro past s ⟨move, out⟩ s' hbehind hstep
  cases step_stepped hstep.2 with
  | startup hstarted => exact (settled_safe.step ⟨trivial, hbehind⟩ hstarted).2
  | @request i event w r hdone hserve =>
    have hsettled := settled_of_done rfl (hbehind _ (List.mem_of_getElem? hdone))
    have hafter := serve_rows RowServed.settled Inserted.settled hserve hsettled
    exact fun p hp => (hbehind p hp).follow fun _ _ _ => hafter

/-- Once a service has started, a further start leaves every account with an address as it is: the backfill
confirms no address that its owner has not. -/
theorem restarts_verify_no_address {move : Stages.Move} {out : Option Reply}
    (h : Reached d (createSchema retries hretries) start past s) (hstart : start.sys.processes = [])
    (hdone : Process.done ∈ s.sys.processes)
    (hstep : s.step d (createSchema retries hretries) (.startup move) = some (s', out)) :
    List.Forall₂ (fun u v => v = u ∨
        (u.googleSub.isSome = true ∧ u.email = none ∧ v = { u with emailVerified := true }))
      s.sys.state.users s'.sys.state.users := by
  have hsettled := settled_of_done rfl (site_settled h hstart _ hdone)
  have hsame : List.Forall₂ (fun u v => v = u ∨
      (u.googleSub.isSome = true ∧ u.email = none ∧ v = { u with emailVerified := true }))
      s.sys.state.users s.sys.state.users := List.forall₂_same.mpr fun u _ => Or.inl rfl
  cases step_stepped hstep with
  | startup hstarted =>
    cases hstarted with
    | launch => exact hsame
    | @worked i attempt k stage outcome hp hs =>
      obtain ⟨t, ht, rfl⟩ := stage_transaction hs
      obtain hquiet | hrun := Stages.work_state (P := createSchema retries hretries)
        ⟨runAll t.1, t.2⟩ attempt k s.sys.state outcome
      · dsimp only
        rw [hquiet]
        exact hsame
      · obtain ⟨_, husers⟩ | ⟨_, husers⟩ := transaction_users ht hrun
        · dsimp only
          rw [husers, List.forall₂_map_right_iff, List.forall₂_same]
          exact fun u hu => (hsettled u hu).backfilled
        · dsimp only
          rw [husers]
          exact hsame

/-! ## The account rows -/

/-- A start leaves the rows alone or fills every one of them. -/
theorem started_users {sys sys' : Stages.System Database} {move : Stages.Move}
    (h : Stages.Stepped (createSchema retries hretries) sys move sys') :
    sys'.state.users = sys.state.users ∨ sys'.state.users = sys.state.users.map backfilled := by
  cases h with
  | launch => exact Or.inl rfl
  | @worked i attempt k stage outcome hp hs =>
    obtain ⟨t, ht, rfl⟩ := stage_transaction hs
    obtain hquiet | hrun := Stages.work_state (P := createSchema retries hretries)
      ⟨runAll t.1, t.2⟩ attempt k sys.state outcome
    · exact Or.inl (congrArg Database.users hquiet)
    · obtain ⟨_, husers⟩ | ⟨_, husers⟩ := transaction_users ht hrun
      · exact Or.inr husers
      · exact Or.inl husers

/-- A fact about rows that requests and the backfill keep, every run keeps. -/
theorem Reached.rows {I : User → Prop} (h : Reached d (createSchema retries hretries) start past s)
    (hstart : ∀ u ∈ start.sys.state.users, I u) (hfill : ∀ u, I u → I (backfilled u))
    (hserve : ∀ {w w' : World} {event : Event} {r : Reply}, Accounts.serve d w event = some (w', r) →
      (∀ u ∈ w.db.users, I u) → ∀ u ∈ w'.db.users, I u) : ∀ u ∈ s.sys.state.users, I u := by
  refine h.invariant_of_init (fun _ s => ∀ u ∈ s.sys.state.users, I u) ?_ hstart
  rintro past s ⟨move, out⟩ s' hI hstep
  cases step_stepped hstep.2 with
  | startup hstarted =>
    obtain hsame | hfilled := started_users hstarted
    · dsimp only
      rw [hsame]
      exact hI
    · dsimp only
      rw [hfilled]
      intro u hu
      obtain ⟨v, hv, rfl⟩ := List.mem_map.mp hu
      exact hfill v (hI v hv)
  | request _ hserved => exact hserve hserved hI

end Runs

/-! ## An upgrade, a sign-up, a restart -/

def older : Site where
  sys := { state := olderVersion }
  nextId := 1

def signsUp : Move := .request 0 (Accounts.sends 1 {} (.register Accounts.signUp))

/-- The first process upgrades the database and serves a sign-up; the second one starts and gets as far as the
columns. -/
def upgradeThenRestart : List Move :=
  [.startup .launch] ++ List.replicate 7 (.startup (.work 0 .runs)) ++ [signsUp, .startup .launch] ++
    List.replicate 3 (.startup (.work 1 .runs))

def restarting : History × Site :=
  (Runs.replay Runs.anyStep (Site.step Accounts.transparent plain) [] older upgradeThenRestart).getD ([], older)

theorem restarting_reached : Reached Accounts.transparent plain older restarting.1 restarting.2 :=
  Runs.replay_getD_run _ _ _ _ upgradeThenRestart _ (by decide +kernel)

/-- The columns of the second process. -/
def restarted : Site :=
  (restarting.2.step Accounts.transparent plain (.startup (.work 1 .runs))).elim older Prod.fst

theorem restarts_verify_no_address_signUp :
    List.Forall₂ (fun u v => v = u ∨
        (u.googleSub.isSome = true ∧ u.email = none ∧ v = { u with emailVerified := true }))
        restarting.2.sys.state.users restarted.sys.state.users ∧
      restarted.sys.state.users.map User.emailVerified = [true, false] := by
  have hsome : (restarting.2.step Accounts.transparent plain (.startup (.work 1 .runs))).isSome = true := by
    decide +kernel
  obtain ⟨⟨s, out⟩, hstep⟩ := Option.isSome_iff_exists.mp hsome
  have hs : s = restarted := by
    unfold restarted
    rw [hstep]
    rfl
  rw [hs] at hstep
  exact ⟨restarts_verify_no_address restarting_reached rfl (by decide +kernel) hstep, by decide +kernel⟩

end WarsawEvents.Startup
