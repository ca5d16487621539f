import WarsawEvents.Accounts.Reachable

/-! # What every account row satisfies

A row belongs to a password or to a Google subject, never to both and never to neither; the two-factor
flag and the login code live on the password side only; a code is a hash with its expiry and a
counter within the cap. `updateMe_toggling` is the guard that makes the parts hold together: the
flag is only ever toggled on a row with a password, no subject and, to turn it on, a verified address.
-/

namespace WarsawEvents.Accounts
set_option autoImplicit false

variable {d : Deps} {amb : Ambient} {db : Db} {c : Cookie} {req : Request} {o : Outcome}
  {out : RowOutcome} {u v : User} {taken : Text → Bool}

/-! ## The invariant of a row -/

/-- The three columns of an emailed code. -/
structure CodeOk (d : Deps) (codeHash : Option Text) (expiresAt : Option ℕ) (attempts : ℕ) : Prop where
  expiry : codeHash.isSome = expiresAt.isSome
  unset : codeHash = none → attempts = 0
  capped : attempts ≤ d.settings.emailVerifyMaxAttempts

structure User.Sound (d : Deps) (u : User) : Prop where
  one_owner : u.googleSub.isSome = !u.passwordHash.isSome
  two_factor : u.twoFactorEnabled = true →
    u.passwordHash.isSome = true ∧ u.googleSub = none ∧ u.emailVerified = true
  login_code : u.loginCodeHash.isSome = true → u.twoFactorEnabled = true
  verify_columns : CodeOk d u.emailVerifyCodeHash u.emailVerifyCodeExpiresAt u.emailVerifyAttempts
  login_columns : CodeOk d u.loginCodeHash u.loginCodeExpiresAt u.loginCodeAttempts

theorem CodeOk.cleared : CodeOk d none none 0 := ⟨rfl, fun _ => rfl, Nat.zero_le _⟩

theorem CodeOk.issued (h : Text) (t : ℕ) : CodeOk d (some h) (some t) 0 :=
  ⟨rfl, fun _ => rfl, Nat.zero_le _⟩

/-- A miss is counted only while a code is live and below the cap. -/
theorem CodeOk.missed {code : Code} {codeHash : Option Text} {expiresAt : Option ℕ} {attempts : ℕ}
    {renew : String} {b : Bool} (h : CodeOk d codeHash expiresAt attempts)
    (hcheck : checkCode d amb code codeHash expiresAt attempts renew = .ok b) :
    CodeOk d codeHash expiresAt (attempts + 1) := by
  obtain ⟨hash, t, rfl, _, _, hlt, _⟩ := checkCode_ok hcheck
  refine { h with unset := ?_, capped := hlt }
  intro hnone
  cases hnone

/-! ## What keeps it -/

theorem User.Sound.clearCode (h : u.Sound d) : (clearCode u).Sound d :=
  { h with verify_columns := CodeOk.cleared }

theorem User.Sound.clearLoginCode (h : u.Sound d) : (clearLoginCode u).Sound d := by
  refine { h with login_code := ?_, login_columns := CodeOk.cleared }
  intro hsome
  cases hsome

theorem User.Sound.pending (h : u.Sound d) (p : Option Text) :
    User.Sound d { u with pendingEmail := p } := { h with }

/-- Moving the address in is harmless once it is verified. -/
theorem User.Sound.confirmed (h : u.Sound d) (e p : Option Text) :
    User.Sound d { u with email := e, pendingEmail := p, emailVerified := true } := by
  refine { h with two_factor := ?_ }
  intro h2
  obtain ⟨hp, hs, _⟩ := h.two_factor h2
  exact ⟨hp, hs, rfl⟩

theorem User.Sound.issueVerification {m : Mail} (h : u.Sound d)
    (hv : issueVerification d amb u = some (v, m)) : v.Sound d := by
  obtain ⟨_, _, _, rfl⟩ := issueVerification_some hv
  exact { h with verify_columns := CodeOk.issued _ _ }

theorem User.Sound.issueLoginCode (h : u.Sound d) (h2 : u.twoFactorEnabled = true) :
    (issueLoginCode d amb u).1.Sound d :=
  { h with login_code := fun _ => h2, login_columns := CodeOk.issued _ _ }

/-- The checks `update_me` makes before it toggles two-factor sign-in. -/
theorem updateMe_toggling {req : UpdateMeRequest} {b : Bool}
    (h : (updateMe d amb taken c req u).commit = some v) (ht : req.toggling2fa u = some b) :
    u.googleSub = none ∧ u.passwordHash.isSome = true ∧ (b = true → u.emailVerified = true) := by
  have hsub : u.googleSub = none := by
    by_contra hsub
    rw [updateMe_toggle hsub h] at ht
    cases ht
  unfold updateMe at h
  simp only [ht, hsub] at h
  split at h
  · simp [refuse] at h
  · split at h
    · simp [refuse] at h
    · rename_i hpass
      split at h
      · simp [refuse] at h
      · rename_i hverified
        refine ⟨hsub, ?_, ?_⟩
        · cases hp : u.passwordHash with
          | none => simp [hp] at hpass
          | some hash => rfl
        · intro hb
          subst hb
          simpa using hverified

theorem User.Sound.editProfile {req : UpdateMeRequest} (h : u.Sound d)
    (ht : ∀ b, req.toggling2fa u = some b →
      u.googleSub = none ∧ u.passwordHash.isSome = true ∧ (b = true → u.emailVerified = true)) :
    (editProfile req u).Sound d := by
  have hnamed : ∀ n, User.Sound d { u with name := n } := fun n => { h with }
  have htoggled : ∀ n b, req.toggling2fa u = some b →
      (Accounts.clearLoginCode { u with name := n, twoFactorEnabled := b }).Sound d := by
    intro n b hb
    obtain ⟨hsub, hpass, hverified⟩ := ht b hb
    refine { h with two_factor := ?_, login_code := ?_, login_columns := CodeOk.cleared }
    · intro h2
      exact ⟨hpass, hsub, hverified h2⟩
    · intro hsome
      cases hsome
  unfold Accounts.editProfile
  cases hname : req.name with
  | none =>
    cases htog : req.toggling2fa u with
    | none => exact h
    | some b => exact htoggled u.name b htog
  | some n =>
    cases htog : req.toggling2fa u with
    | none => exact hnamed _
    | some b => exact htoggled _ b htog

/-- Linking by address is sound because a row has two-factor sign-in only with a password, which is
voided with it. -/
theorem User.Sound.linked (h : u.Sound d) (sub : Text) (info : UserInfo) :
    (assertGoogle sub info (voidPassword u)).Sound d := by
  unfold voidPassword
  cases hp : u.passwordHash with
  | some hash =>
    rw [Option.isSome_some, if_pos rfl]
    exact ⟨rfl, nofun, nofun, h.verify_columns, CodeOk.cleared⟩
  | none =>
    rw [Option.isSome_none, if_neg Bool.false_ne_true]
    have hoff : u.twoFactorEnabled = true → False := by
      intro h2
      have hsome := (h.two_factor h2).1
      rw [hp] at hsome
      cases hsome
    refine { h with one_owner := ?_, two_factor := ?_ }
    · rw [assertGoogle_googleSub, assertGoogle_passwordHash, hp]
      rfl
    · intro h2
      exact absurd h2 hoff

theorem User.Sound.refreshed {sub : Text} (h : u.Sound d) (hsub : u.googleSub = some sub)
    (info : UserInfo) : (assertGoogle sub info u).Sound d := by
  refine { h with one_owner := ?_, two_factor := ?_ }
  · rw [assertGoogle_googleSub, assertGoogle_passwordHash, ← hsub]
    exact h.one_owner
  · intro h2
    have hnone := (h.two_factor h2).2.1
    rw [hsub] at hnone
    cases hnone

theorem googleUser_sound (id : ℕ) (sub : Text) (info : UserInfo) : (googleUser id sub info).Sound d :=
  ⟨rfl, nofun, nofun, CodeOk.cleared, CodeOk.cleared⟩

theorem registeredUser_sound (id : ℕ) (req : RegisterRequest) (h : Text) :
    (registeredUser id req h).Sound d :=
  ⟨rfl, nofun, nofun, CodeOk.cleared, CodeOk.cleared⟩

/-! ## One request -/

theorem RowServed.sound (h : RowServed d amb db c req u out) (hv : out.commit = some v)
    (hu : u.Sound d) : v.Sound d := by
  cases h with
  | callbackSub _ hfind =>
    simp only [googleOutcome, Option.some.injEq] at hv
    rw [← hv]
    exact hu.refreshed (findBySub_some hfind).2 _
  | callbackEmail _ _ _ _ =>
    simp only [googleOutcome, Option.some.injEq] at hv
    rw [← hv]
    exact hu.linked _ _
  | login _ =>
    obtain ⟨_, h2, rfl⟩ := login_commit hv
    exact hu.issueLoginCode h2
  | login2fa _ _ =>
    obtain ⟨_, ⟨hcheck, rfl⟩ | ⟨_, rfl⟩⟩ := login2fa_commit hv
    · exact { hu with login_columns := hu.login_columns.missed hcheck }
    · exact hu.clearLoginCode
  | verify _ _ =>
    obtain ⟨hcheck, rfl⟩ | ⟨_, ⟨_, _, _, rfl⟩ | ⟨_, _, _, rfl⟩ | ⟨hp, _, rfl⟩⟩ := verifyEmail_commit hv
    · exact { hu with verify_columns := hu.verify_columns.missed hcheck }
    · exact (hu.pending none).clearCode
    · exact (hu.confirmed _ none).clearCode
    · exact (hu.confirmed u.email u.pendingEmail).clearCode
  | resend _ _ =>
    obtain ⟨m, hm, _⟩ := resendVerification_commit hv
    exact hu.issueVerification hm
  | updateMe _ _ =>
    have hedit := hu.editProfile fun b hb => updateMe_toggling hv hb
    obtain ⟨e, m, _, _, hm, _⟩ | ⟨_, _, rfl⟩ := updateMe_commit hv
    · exact (hedit.pending (some e)).issueVerification hm
    · split
      · exact (hedit.pending none).clearCode
      · exact hedit

theorem RowServed.keeps_verified (h : RowServed d amb db c req u out) (hv : out.commit = some v)
    (hu : u.emailVerified = true) : v.emailVerified = true := by
  cases h with
  | callbackSub _ _ =>
    simp only [googleOutcome, Option.some.injEq] at hv
    simp [← hv, hu]
  | callbackEmail _ _ _ _ =>
    simp only [googleOutcome, Option.some.injEq] at hv
    simp [← hv, hu]
  | login _ =>
    obtain ⟨_, _, rfl⟩ := login_commit hv
    exact hu
  | login2fa _ _ =>
    obtain ⟨_, ⟨_, rfl⟩ | ⟨_, rfl⟩⟩ := login2fa_commit hv
    · exact hu
    · exact hu
  | verify _ _ =>
    obtain ⟨_, rfl⟩ | ⟨_, ⟨_, _, _, rfl⟩ | ⟨_, _, _, rfl⟩ | ⟨_, _, rfl⟩⟩ := verifyEmail_commit hv
    · exact hu
    · exact hu
    · rfl
    · rfl
  | resend _ _ =>
    obtain ⟨m, hm, _⟩ := resendVerification_commit hv
    obtain ⟨_, _, _, rfl⟩ := issueVerification_some hm
    exact hu
  | updateMe _ _ =>
    obtain ⟨_, m, _, _, hm, _⟩ | ⟨_, _, rfl⟩ := updateMe_commit hv
    · obtain ⟨_, _, _, rfl⟩ := issueVerification_some hm
      simpa using hu
    · split
      · simpa using hu
      · simpa using hu

theorem Served.sound (h : Served d amb db c req o) (hI : ∀ u ∈ db.users, u.Sound d)
    (hv : v ∈ o.db.users) : v.Sound d := by
  obtain hmem | ⟨u, out, hrow, hc, _⟩ | ⟨info, sub, _, _, _, rfl⟩ | ⟨q, hash, m, _, _, hissue⟩ :=
    h.row_origin hv
  · exact hI v hmem
  · exact hrow.sound hc (hI u hrow.mem)
  · exact googleUser_sound _ _ _
  · exact (registeredUser_sound _ _ _).issueVerification hissue

/-! ## Every run -/

theorem Reached.sound {past : History} {w : World} (h : Reached d Runs.anyStep past w) :
    ∀ v ∈ w.db.users, v.Sound d := by
  refine h.invariant_of_init (fun _ w => ∀ v ∈ w.db.users, v.Sound d) ?_ (by simp)
  intro past w l w' hI hstep v hv
  obtain ⟨o, hs, _, hdb, _, _⟩ := serve_some hstep.2
  rw [hdb] at hv
  exact hs.sound hI hv

/-- From a reached state on, a verified row stays verified for as long as it exists. -/
theorem keeps_verified_run {pre post : History} {w w' : World} (hpre : Reached d Runs.anyStep pre w)
    (hpost : Runs.Run (Runs.guarded Runs.anyStep (serve d)) pre w post w') (hu : u ∈ w.db.users)
    (hverified : u.emailVerified = true) :
    ∀ v ∈ w'.db.users, v.id = u.id → v.emailVerified = true := by
  have hrun : w'.db.Ok ∧ u.id < w'.db.nextId ∧
      ∀ v ∈ w'.db.users, v.id = u.id → v.emailVerified = true := by
    refine hpost.invariant (fun _ w' => w'.db.Ok ∧ u.id < w'.db.nextId ∧
      ∀ v ∈ w'.db.users, v.id = u.id → v.emailVerified = true) ?_ ?_
    · intro past w l w' hI hstep
      obtain ⟨hok, hlt, hkept⟩ := hI
      obtain ⟨o, hs, _, hdb, _, _⟩ := serve_some hstep.2
      rw [hdb]
      refine ⟨hs.ok hok, Nat.lt_of_lt_of_le hlt hs.nextId_le, ?_⟩
      intro v hv hid
      obtain hmem | ⟨x, out, hrow, hc, _⟩ | hins := hs.row_origin hv
      · exact hkept v hmem hid
      · have hx : x.id = u.id := by rw [← hid, hrow.commit_id hc]
        exact hrow.keeps_verified hc (hkept x hrow.mem hx)
      · rw [← hid, hins.id] at hlt
        omega
    · refine ⟨hpre.ok, hpre.ok.ids_lt u hu, ?_⟩
      intro v hv hid
      rw [hpre.ok.row_eq hu hv hid, hverified]
  exact hrun.2.2

theorem account_rows_sound {pre post : History} {w w' : World} (hpre : Reached d Runs.anyStep pre w)
    (hpost : Runs.Run (Runs.guarded Runs.anyStep (serve d)) pre w post w') :
    (∀ v ∈ w'.db.users, v.Sound d) ∧
      ∀ u ∈ w.db.users, ∀ v ∈ w'.db.users, v.id = u.id → u.emailVerified = true →
        v.emailVerified = true := by
  have hall : Reached d Runs.anyStep (pre ++ post) w' := hpre.trans (by simpa using hpost)
  refine ⟨hall.sound, ?_⟩
  intro u hu v hv hid hverified
  exact keeps_verified_run hpre hpost hu hverified v hv hid

/-! ## A two-factor account -/

def confirmedSignUp : List Event :=
  [sends 1 {} (.register signUp), sends 1 firstCookie (.verify (generateCode (drawn 0)))]

def firstTwoFactorLogin : List Event :=
  [sends 1 firstCookie (.updateMe turnOn2fa), sends 2 {} (.login addressA "hunter22")]

def afterConfirmedSignUp : History × World := played transparent Runs.anyStep ([], {}) confirmedSignUp

def afterTwoFactorLogin : History × World :=
  played transparent Runs.anyStep afterConfirmedSignUp firstTwoFactorLogin

theorem account_rows_sound_two_factor :
    (∀ v ∈ afterTwoFactorLogin.2.db.users, v.Sound transparent) ∧
      ∃ v ∈ afterTwoFactorLogin.2.db.users, v.loginCodeHash.isSome = true := by
  have hpre : Reached transparent Runs.anyStep afterConfirmedSignUp.1 afterConfirmedSignUp.2 :=
    played_run ([], {}) confirmedSignUp (by decide)
  have hpost : Runs.Run (Runs.guarded Runs.anyStep (serve transparent)) afterConfirmedSignUp.1
      afterConfirmedSignUp.2 afterTwoFactorLogin.1 afterTwoFactorLogin.2 :=
    played_run afterConfirmedSignUp firstTwoFactorLogin (by decide)
  exact ⟨(account_rows_sound hpre hpost).1, by decide⟩

end WarsawEvents.Accounts
