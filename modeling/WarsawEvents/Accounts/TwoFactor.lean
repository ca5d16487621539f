import WarsawEvents.Accounts.Transcript

/-! # Two-factor sign-in

Two things are carried through every run. The login code columns of a row are those of the code its
last password login mailed (`Observed.login_tracked`); a parked cookie comes from a password login of
its browser (`Observed.parked`). A sign-in of a two-factor account then has both factors.
-/

namespace WarsawEvents.Accounts
set_option autoImplicit false

open OneTimeCode

/-! ## The login codes of an account -/

/-- The account was signed in by its password, or by its password and a code. -/
def signedInBy (id : ℕ) (l : Event × Seen) : Bool :=
  match l.1.request, l.2.outcome.reply with
  | .login _ _, .user _ => l.2.outcome.cookie.userId = some id
  | .login2fa _, .user _ => l.2.outcome.cookie.userId = some id
  | _, _ => false

def mailedLoginCode (d : Deps) (id : ℕ) (l : Event × Seen) : Option Mailed :=
  match l.1.request, l.2.outcome.mails with
  | .login _ _, [.loginCode address code] =>
    if l.2.outcome.cookie.pending2fa = some id then
      some ⟨address, code, codeExpiry d l.1.ambient⟩
    else none
  | _, _ => none

/-- A password login issues a code or signs in; a sign-in retires the code. -/
def loginCodes (d : Deps) (id : ℕ) : Reading (Event × Seen) Mailed where
  issued := mailedLoginCode d id
  retires := signedInBy id
  misses k l :=
    match l.1.request with
    | .login2fa code => l.1.cookie.pending2fa = some id && l.1.ambient.rateOk &&
        wrongFor l.1.ambient code k
    | _ => false

/-- The request is one of the two steps of a password login. -/
def Request.isLogin : Request → Bool
  | .login _ _ => true
  | .login2fa _ => true
  | _ => false

/-- The browser gets the account's `user_id` from a password login. -/
def Acquires (id : ℕ) (l : Event × Seen) : Prop :=
  l.1.request.isLogin = true ∧ l.2.outcome.cookie.userId = some id ∧
    (l.1.cookie.userId ≠ some id ∨ ∃ p, l.2.outcome.reply = .user p)

/-- The password login, then, of the account whose row is now `u`, with the password it has now. -/
def Presented (d : Deps) (u : User) (l : Event × Seen) : Prop :=
  ∃ email password v, l.1.request = .login email password ∧
    findByEmail l.2.before.users email = some v ∧ v.id = u.id ∧ v.passwordHash = u.passwordHash ∧
      passwordOk d v password = true

variable {d : Deps} {amb : Ambient} {db : Db} {c : Cookie} {req : Request} {o : Outcome}
  {out : RowOutcome} {u v : User} {past : Transcript} {w w' : World} {ev : Event} {s : Seen} {id : ℕ}

theorem loginCodes_silent {l : Event × Seen} (h : l.1.request.isLogin = false) :
    (loginCodes d id).Silent l := by
  obtain ⟨ev, s⟩ := l
  obtain ⟨browser, cookie, request, ambient⟩ := ev
  cases request with
  | login _ _ => cases h
  | login2fa _ => cases h
  | callback _ => exact ⟨rfl, rfl, fun _ => rfl⟩
  | register _ => exact ⟨rfl, rfl, fun _ => rfl⟩
  | verify _ => exact ⟨rfl, rfl, fun _ => rfl⟩
  | resend => exact ⟨rfl, rfl, fun _ => rfl⟩
  | updateMe _ => exact ⟨rfl, rfl, fun _ => rfl⟩
  | deleteMe _ => exact ⟨rfl, rfl, fun _ => rfl⟩
  | logout => exact ⟨rfl, rfl, fun _ => rfl⟩
  | me => exact ⟨rfl, rfl, fun _ => rfl⟩

/-! ## What the two steps can do -/

inductive LoginCase (d : Deps) (amb : Ambient) (db : Db) (c : Cookie) (email : Text)
    (password : String) : Outcome → Prop
  | refused {n : ℕ} {detail : String} :
      LoginCase d amb db c email password { db := db, cookie := c, reply := .http n detail }
  | parked {u : User} : findByEmail db.users email = some u → passwordOk d u password = true →
      u.twoFactorEnabled = true →
      LoginCase d amb db c email password
        { db := { db with users := storeRow db.users (issueLoginCode d amb u).1 }
          cookie := { userId := none, pending2fa := some u.id }
          mails := [(issueLoginCode d amb u).2], reply := .pending2fa }
  | direct {u : User} : findByEmail db.users email = some u → passwordOk d u password = true →
      u.twoFactorEnabled = false →
      LoginCase d amb db c email password
        { db := db, cookie := { userId := some u.id, pending2fa := none }
          reply := .user (userPayload u) }

theorem handle_login (hI : db.Unique) (email : Text) (password : String) :
    LoginCase d amb db c email password (handle d amb db c (.login email password)) := by
  simp only [handle]
  split
  · exact LoginCase.refused
  · split
    · exact LoginCase.refused
    · rename_i u hu
      unfold login
      split
      · exact LoginCase.refused
      · rename_i hp
        have hpass : passwordOk d u password = true := by simpa using hp
        split
        · exact LoginCase.refused
        · split
          · rename_i h2
            have hno := hI.no_conflict (v := (issueLoginCode d amb u).1) (findByEmail_some hu).1 rfl
              rfl rfl
            simp only [settle, hno, Bool.false_eq_true, if_false]
            exact LoginCase.parked hu hpass h2
          · rename_i h2
            exact LoginCase.direct hu hpass (by simpa using h2)

def checkLoginCode (d : Deps) (amb : Ambient) (code : Code) (u : User) : Except Reply Bool :=
  checkCode d amb code u.loginCodeHash u.loginCodeExpiresAt u.loginCodeAttempts
    "Sign in again to get a new code."

inductive SecondStep (d : Deps) (amb : Ambient) (db : Db) (c : Cookie) (code : Code) : Outcome → Prop
  | refused {c' : Cookie} {n : ℕ} {detail : String} : c'.userId = c.userId →
      c'.pending2fa = none ∨ c'.pending2fa = c.pending2fa →
      (∀ u ∈ db.users, c.pending2fa = some u.id → amb.rateOk = false ∨ u.twoFactorEnabled = false ∨
        ∃ r, checkLoginCode d amb code u = .error r) →
      SecondStep d amb db c code { db := db, cookie := c', reply := .http n detail }
  | missed {u v : User} : u ∈ db.users → c.pending2fa = some u.id → amb.rateOk = true →
      checkLoginCode d amb code u = .ok false →
      v = { u with loginCodeAttempts := u.loginCodeAttempts + 1 } →
      SecondStep d amb db c code
        { db := { db with users := storeRow db.users v }
          cookie := c, reply := .http 400 "Invalid code." }
  | accepted {u : User} : u ∈ db.users → c.pending2fa = some u.id → amb.rateOk = true →
      checkLoginCode d amb code u = .ok true →
      SecondStep d amb db c code
        { db := { db with users := storeRow db.users (clearLoginCode u) }
          cookie := { userId := some u.id, pending2fa := none }
          reply := .user (userPayload (clearLoginCode u)) }

theorem findById_none {users : List User} (h : findById users id = none) (hu : u ∈ users) :
    u.id ≠ id := by
  have hnone := List.find?_eq_none.mp h u hu
  simpa using hnone

theorem handle_login2fa (hok : db.Ok) (hI : db.Unique) (code : Code) :
    SecondStep d amb db c code (handle d amb db c (.login2fa code)) := by
  simp only [handle]
  split
  · rename_i hrate
    exact SecondStep.refused rfl (.inr rfl) fun u _ _ => .inl (by simpa using hrate)
  · rename_i hrate
    have hpass : amb.rateOk = true := by simpa using hrate
    split
    · rename_i hfind
      refine SecondStep.refused rfl (.inl rfl) ?_
      intro u hu hc
      rw [hc, Option.bind_some] at hfind
      exact absurd rfl (findById_none hfind hu)
    · rename_i u hfind
      obtain ⟨i, hc, hu⟩ := Option.bind_eq_some_iff.mp hfind
      obtain ⟨hmem, rfl⟩ := findById_some hu
      have hsame : ∀ v ∈ db.users, c.pending2fa = some v.id → v = u := by
        intro v hv hcv
        rw [hc, Option.some.injEq] at hcv
        exact hok.row_eq hmem hv hcv.symm
      unfold login2fa
      split
      · rename_i h2
        refine SecondStep.refused rfl (.inl rfl) ?_
        intro v hv hcv
        rw [hsame v hv hcv]
        exact .inr (.inl (by simpa using h2))
      · split
        · rename_i r hcheck
          obtain ⟨n, detail, rfl⟩ := checkCode_error hcheck
          refine SecondStep.refused rfl (.inr rfl) ?_
          intro v hv hcv
          rw [hsame v hv hcv]
          exact .inr (.inr ⟨_, hcheck⟩)
        · rename_i hcheck
          have hno := hI.no_conflict (v := { u with loginCodeAttempts := u.loginCodeAttempts + 1 }) hmem
            rfl rfl rfl
          simp only [settle, hno, Bool.false_eq_true, if_false]
          exact SecondStep.missed hmem hc hpass hcheck rfl
        · rename_i hcheck
          have hno := hI.no_conflict (v := clearLoginCode u) hmem rfl rfl rfl
          simp only [settle, hno, Bool.false_eq_true, if_false]
          exact SecondStep.accepted hmem hc hpass hcheck

/-! ## The columns follow the history -/

def LoginTracked (d : Deps) (past : Transcript) (v : User) : Prop :=
  Tracked d (loginCodes d v.id) past v.loginCodeHash v.loginCodeExpiresAt v.loginCodeAttempts

theorem LoginTracked.cleared (h : v.loginCodeHash = none) : LoginTracked d past v := by
  unfold LoginTracked
  rw [h]
  exact Tracked.cleared

theorem editProfile_loginColumns (req : UpdateMeRequest) (u : User) :
    (editProfile req u).loginCodeHash = none ∨
      ((editProfile req u).loginCodeHash = u.loginCodeHash ∧
        (editProfile req u).loginCodeExpiresAt = u.loginCodeExpiresAt ∧
        (editProfile req u).loginCodeAttempts = u.loginCodeAttempts) := by
  unfold editProfile
  cases req.name with
  | none =>
    cases req.toggling2fa u with
    | none => exact .inr ⟨rfl, rfl, rfl⟩
    | some b => exact .inl rfl
  | some n =>
    cases req.toggling2fa u with
    | none => exact .inr ⟨rfl, rfl, rfl⟩
    | some b => exact .inl rfl

/-- Outside the two steps of a login the code is left alone or cleared. -/
theorem RowServed.loginColumns (h : RowServed d amb db c req u out) (hv : out.commit = some v)
    (hreq : req.isLogin = false) :
    v.loginCodeHash = none ∨
      (v.loginCodeHash = u.loginCodeHash ∧ v.loginCodeExpiresAt = u.loginCodeExpiresAt ∧
        v.loginCodeAttempts = u.loginCodeAttempts) := by
  cases h with
  | callbackSub _ _ =>
    simp only [googleOutcome, Option.some.injEq] at hv
    rw [← hv]
    exact .inr ⟨rfl, rfl, rfl⟩
  | callbackEmail _ _ _ _ =>
    simp only [googleOutcome, Option.some.injEq] at hv
    rw [← hv]
    unfold voidPassword
    split
    · exact .inl rfl
    · exact .inr ⟨rfl, rfl, rfl⟩
  | login _ => cases hreq
  | login2fa _ _ => cases hreq
  | verify _ _ =>
    obtain ⟨_, rfl⟩ | ⟨_, ⟨_, _, _, rfl⟩ | ⟨_, _, _, rfl⟩ | ⟨_, _, rfl⟩⟩ := verifyEmail_commit hv
    · exact .inr ⟨rfl, rfl, rfl⟩
    · exact .inr ⟨rfl, rfl, rfl⟩
    · exact .inr ⟨rfl, rfl, rfl⟩
    · exact .inr ⟨rfl, rfl, rfl⟩
  | resend _ _ =>
    obtain ⟨m, hm, _⟩ := resendVerification_commit hv
    obtain ⟨_, _, _, rfl⟩ := issueVerification_some hm
    exact .inr ⟨rfl, rfl, rfl⟩
  | updateMe _ _ =>
    obtain ⟨_, m, _, _, hm, _⟩ | ⟨_, _, rfl⟩ := updateMe_commit hv
    · obtain ⟨_, _, _, rfl⟩ := issueVerification_some hm
      exact editProfile_loginColumns _ u
    · split
      · exact editProfile_loginColumns _ u
      · exact editProfile_loginColumns _ u

theorem login_step_tracked {l : Event × Seen} {email : Text} {password : String}
    (hok : db.Ok) (hsound : ∀ u ∈ db.users, u.Sound d) (hI : ∀ u ∈ db.users, LoginTracked d past u)
    (hreq : l.1.request = .login email password)
    (hcase : LoginCase d l.1.ambient db l.1.cookie email password l.2.outcome)
    (hv : v ∈ l.2.outcome.db.users) : LoginTracked d (past ++ [l]) v := by
  obtain ⟨⟨browser, cookie, request, ambient⟩, ⟨before, outcome⟩⟩ := l
  cases hreq
  dsimp only at hcase
  cases hcase with
  | refused => exact (hI v hv).silent ⟨rfl, rfl, fun _ => rfl⟩
  | @parked u hu hpass h2 =>
    obtain rfl | ⟨hmem, hne⟩ := mem_storeRow hv
    · refine Tracked.issued (k := ⟨u.email, generateCode ambient.draw, codeExpiry d ambient⟩) ?_
      exact if_pos rfl
    · refine (hI v hmem).silent ⟨if_neg ?_, rfl, fun _ => rfl⟩
      intro heq
      exact hne (Option.some.inj heq).symm
  | @direct u hu hpass h2 =>
    by_cases hid : u.id = v.id
    · refine LoginTracked.cleared ?_
      have hoff : v.twoFactorEnabled = false := by
        rw [hok.row_eq (findByEmail_some hu).1 hv hid.symm, h2]
      cases hcode : v.loginCodeHash with
      | none => rfl
      | some h =>
        rw [(hsound v hv).login_code (by rw [hcode]; rfl)] at hoff
        cases hoff
    · refine (hI v hv).silent ⟨rfl, ?_, fun _ => rfl⟩
      simpa [loginCodes, signedInBy] using hid

theorem login2fa_step_tracked {l : Event × Seen} {code : Code}
    (hsound : ∀ u ∈ db.users, u.Sound d) (hI : ∀ u ∈ db.users, LoginTracked d past u)
    (hreq : l.1.request = .login2fa code)
    (hcase : SecondStep d l.1.ambient db l.1.cookie code l.2.outcome)
    (hv : v ∈ l.2.outcome.db.users) : LoginTracked d (past ++ [l]) v := by
  obtain ⟨⟨browser, cookie, request, ambient⟩, ⟨before, outcome⟩⟩ := l
  cases hreq
  -- A label of another account's second step says nothing about this one's code.
  have hother : cookie.pending2fa ≠ some v.id → outcome.cookie.userId ≠ some v.id ∨
      (∃ n detail, outcome.reply = .http n detail) → (loginCodes d v.id).Silent
        (⟨browser, cookie, .login2fa code, ambient⟩, ⟨before, outcome⟩) := by
    intro hne hreply
    refine ⟨rfl, ?_, ?_⟩
    · obtain hid | ⟨n, detail, hr⟩ := hreply
      · simp only [loginCodes, signedInBy]
        split
        · simpa using hid
        · simpa using hid
        · rfl
      · simp [loginCodes, signedInBy, hr]
    · intro k
      simp [loginCodes, hne]
  dsimp only at hcase
  cases hcase with
  | refused _ _ hwhy =>
    by_cases hpend : cookie.pending2fa = some v.id
    · obtain hrate | h2 | ⟨r, hcheck⟩ := hwhy v hv hpend
      · refine (hI v hv).silent ⟨rfl, rfl, ?_⟩
        intro k
        have hlimited : ambient.rateOk = false := hrate
        simp [loginCodes, hlimited]
      · refine LoginTracked.cleared ?_
        cases hcode : v.loginCodeHash with
        | none => rfl
        | some h =>
          rw [(hsound v hv).login_code (by rw [hcode]; rfl)] at h2
          cases h2
      · by_cases hrate : ambient.rateOk = true
        · refine (hI v hv).refused hcheck rfl rfl ?_
          intro k
          simp [loginCodes, hpend, hrate]
        · refine (hI v hv).silent ⟨rfl, rfl, ?_⟩
          intro k
          simp [loginCodes, hrate]
    · exact (hI v hv).silent (hother hpend (.inr ⟨_, _, rfl⟩))
  | @missed u x hu hpend hrate hcheck hx =>
    obtain rfl | ⟨hmem, hne⟩ := mem_storeRow hv
    · subst hx
      refine (hI u hu).missed hcheck rfl rfl ?_
      intro k
      have hparked : cookie.pending2fa = some u.id := hpend
      have hpassed : ambient.rateOk = true := hrate
      simp [loginCodes, hparked, hpassed]
    · refine (hI v hmem).silent (hother ?_ (.inr ⟨_, _, rfl⟩))
      intro hsame
      subst hx
      rw [hpend, Option.some.injEq] at hsame
      exact hne hsame.symm
  | @accepted u hu hpend hrate hcheck =>
    obtain rfl | ⟨hmem, hne⟩ := mem_storeRow hv
    · exact LoginTracked.cleared rfl
    · have hid : some u.id ≠ some v.id := fun heq => hne (Option.some.inj heq).symm
      exact (hI v hmem).silent (hother (by rwa [hpend]) (.inl hid))

theorem step_login_tracked {l : Event × Seen} (hok : db.Ok) (hunique : db.Unique)
    (hsound : ∀ u ∈ db.users, u.Sound d) (hI : ∀ u ∈ db.users, LoginTracked d past u)
    (hout : l.2.outcome = handle d l.1.ambient db l.1.cookie l.1.request)
    (hv : v ∈ l.2.outcome.db.users) : LoginTracked d (past ++ [l]) v := by
  cases hreq : l.1.request with
  | login email password =>
    have hcase : LoginCase d l.1.ambient db l.1.cookie email password l.2.outcome := by
      rw [hout, hreq]
      exact handle_login hunique email password
    exact login_step_tracked hok hsound hI hreq hcase hv
  | login2fa code =>
    have hcase : SecondStep d l.1.ambient db l.1.cookie code l.2.outcome := by
      rw [hout, hreq]
      exact handle_login2fa hok hunique code
    exact login2fa_step_tracked hsound hI hreq hcase hv
  | _ =>
    have hother : l.1.request.isLogin = false := by rw [hreq]; rfl
    have hs : Served d l.1.ambient db l.1.cookie l.1.request l.2.outcome := by
      rw [hout]
      exact handle_served l.1.request
    obtain hmem | ⟨u, out, hrow, hc, _⟩ | hins := hs.row_origin hv
    · exact (hI v hmem).silent (loginCodes_silent hother)
    · obtain hnone | ⟨hh, ht, ha⟩ := hrow.loginColumns hc hother
      · exact LoginTracked.cleared hnone
      · have hu := (hI u hrow.mem).silent (loginCodes_silent hother)
        unfold LoginTracked
        rw [hh, ht, ha, hrow.commit_id hc]
        exact hu
    · obtain ⟨_, _, _, _, _, rfl⟩ | ⟨_, _, _, _, _, hissue⟩ := hins
      · exact LoginTracked.cleared rfl
      · obtain ⟨_, _, _, rfl⟩ := issueVerification_some hissue
        exact LoginTracked.cleared rfl

theorem Observed.login_tracked (h : Observed d past w) : ∀ v ∈ w.db.users, LoginTracked d past v := by
  have hall : Observed d past w ∧ ∀ v ∈ w.db.users, LoginTracked d past v := by
    induction h with
    | refl =>
      refine ⟨Runs.Run.refl, ?_⟩
      intro v hv
      cases hv
    | snoc hrun hstep ih =>
      refine ⟨hrun.snoc hstep, ?_⟩
      intro v hv
      obtain ⟨_, _, hout, hdb, _⟩ := observe_some hstep.2
      rw [hdb] at hv
      exact step_login_tracked (Observed.ok ih.1) (Observed.unique ih.1) (Observed.sound ih.1) ih.2 hout hv
  exact hall.2

/-! ## Where a parked cookie comes from -/

/-- A cookie is left parked as it was, or not at all. -/
def KeepsParked (c c' : Cookie) : Prop := c'.pending2fa = none ∨ c'.pending2fa = c.pending2fa

theorem settle_keepsParked (h : KeepsParked c out.cookie) :
    KeepsParked c (settle db c out).cookie := by
  obtain hc | ⟨hc, _⟩ := settle_cookie db c out
  · rw [hc]
    exact .inr rfl
  · rw [hc]
    exact h

theorem withCurrentUser_keepsParked {k : User → Outcome} (h : ∀ u, KeepsParked c (k u).cookie) :
    KeepsParked c (withCurrentUser db c k).cookie := by
  unfold withCurrentUser
  split
  · exact .inr rfl
  · split
    · exact .inl rfl
    · exact h _

theorem authCallback_keepsParked (info : Option UserInfo) :
    KeepsParked c (authCallback db c info).cookie := by
  unfold authCallback
  split
  · exact .inr rfl
  · split
    · exact .inr rfl
    · split
      · exact settle_keepsParked (.inr rfl)
      · simp only
        split
        · exact .inr rfl
        · exact .inr rfl

theorem register_keepsParked (q : RegisterRequest) :
    KeepsParked c (register d amb db c q).cookie := by
  unfold register
  split
  · exact .inr rfl
  · split
    · exact .inr rfl
    · split
      · exact .inr rfl
      · simp only
        split
        · exact .inr rfl
        · split
          · exact .inr rfl
          · exact .inr rfl

/-- Only a password login parks an account. -/
theorem handle_parks (hok : db.Ok) (hI : db.Unique) {i : ℕ}
    (h : (handle d amb db c req).cookie.pending2fa = some i) :
    c.pending2fa = some i ∨ ∃ email password u, req = .login email password ∧
      findByEmail db.users email = some u ∧ u.id = i ∧ passwordOk d u password = true := by
  have hkept : ∀ {c'}, KeepsParked c c' → c'.pending2fa = some i → c.pending2fa = some i := by
    intro c' hk hi
    obtain hnone | hsame := hk
    · rw [hnone] at hi
      cases hi
    · rw [← hsame, hi]
  cases req with
  | callback info => exact .inl (hkept (authCallback_keepsParked info) h)
  | register q => exact .inl (hkept (register_keepsParked q) h)
  | login email password =>
    have hcase : LoginCase d amb db c email password (handle d amb db c (.login email password)) :=
      handle_login hI email password
    generalize handle d amb db c (.login email password) = o at h hcase
    cases hcase with
    | refused => exact .inl h
    | parked hu hpass _ => exact .inr ⟨email, password, _, rfl, hu, Option.some.inj h, hpass⟩
    | direct _ _ _ => cases h
  | login2fa code =>
    have hcase : SecondStep d amb db c code (handle d amb db c (.login2fa code)) :=
      handle_login2fa hok hI code
    generalize handle d amb db c (.login2fa code) = o at h hcase
    cases hcase with
    | refused _ hpend _ => exact .inl (hkept hpend h)
    | missed _ _ _ _ _ => exact .inl h
    | accepted _ _ _ _ => cases h
  | verify code =>
    refine .inl (hkept (withCurrentUser_keepsParked fun u => settle_keepsParked ?_) h)
    rw [verifyEmail_cookie]
    exact .inr rfl
  | resend =>
    refine .inl (hkept (withCurrentUser_keepsParked fun u => settle_keepsParked ?_) h)
    rw [resendVerification_cookie]
    exact .inr rfl
  | updateMe q =>
    refine .inl (hkept (withCurrentUser_keepsParked fun u => settle_keepsParked ?_) h)
    rw [updateMe_cookie]
    exact .inr rfl
  | deleteMe p =>
    refine .inl (hkept (withCurrentUser_keepsParked fun u => ?_) h)
    split
    · exact .inr rfl
    · exact .inl rfl
  | logout => cases h
  | me =>
    simp only [handle] at h
    split at h
    · exact .inl h
    · split at h
      · cases h
      · exact .inl h

/-- The browser logged in with the password of the account `i`, which has it still or lost it. -/
def LoggedIn (d : Deps) (past : Transcript) (users : List User) (browser i : ℕ) : Prop :=
  ∃ l ∈ past, l.1.browser = browser ∧ ∃ email password v, l.1.request = .login email password ∧
    findByEmail l.2.before.users email = some v ∧ v.id = i ∧ passwordOk d v password = true ∧
      ∀ x ∈ users, x.id = i → x.passwordHash = v.passwordHash ∨ x.passwordHash = none

theorem RowServed.keeps_password (h : RowServed d amb db c req u out) (hv : out.commit = some v) :
    v.passwordHash = u.passwordHash ∨ v.passwordHash = none := by
  obtain ⟨_, _, _, _, ⟨_, rfl⟩ | ⟨_, _, rfl⟩⟩ | ⟨_, _, hsame⟩ := h.callback_or hv
  · exact .inl rfl
  · exact .inr (by simp)
  · exact .inl hsame

theorem Served.keeps_password (h : Served d amb db c req o) {p : Option Text} {i : ℕ}
    (hi : i < db.nextId)
    (hI : ∀ x ∈ db.users, x.id = i → x.passwordHash = p ∨ x.passwordHash = none) :
    ∀ x ∈ o.db.users, x.id = i → x.passwordHash = p ∨ x.passwordHash = none := by
  intro x hx hid
  obtain hmem | ⟨u, out, hrow, hc, _⟩ | hins := h.row_origin hx
  · exact hI x hmem hid
  · have hu : u.id = i := by rw [← hrow.commit_id hc, hid]
    obtain hsame | hnone := hrow.keeps_password hc
    · rw [hsame]
      exact hI u hrow.mem hu
    · exact .inr hnone
  · have hnew := hins.id
    omega

theorem Observed.parked (h : Observed d past w) : ∀ b c i, (b, c) ∈ w.issued →
    c.pending2fa = some i → i < w.db.nextId ∧ LoggedIn d past w.db.users b i := by
  have hall : Observed d past w ∧ ∀ b c i, (b, c) ∈ w.issued → c.pending2fa = some i →
      i < w.db.nextId ∧ LoggedIn d past w.db.users b i := by
    induction h with
    | refl =>
      refine ⟨Runs.Run.refl, ?_⟩
      intro b c i hmem
      cases hmem
    | @snoc es t t' l hrun hstep ih =>
      refine ⟨hrun.snoc hstep, ?_⟩
      intro b c i hmem hpend
      obtain ⟨hheld, hbefore, hout, hdb, hissued⟩ := observe_some hstep.2
      have hs : Served d l.1.ambient t.db l.1.cookie l.1.request l.2.outcome := by
        rw [hout]
        exact handle_served l.1.request
      -- A login of the past still counts: nothing gives an account another password.
      have hold : ∀ b c, (b, c) ∈ t.issued → c.pending2fa = some i →
          i < t'.db.nextId ∧ LoggedIn d (es ++ [l]) t'.db.users b i := by
        intro b c hmem hpend
        obtain ⟨hlt, l', hl', hb, email, password, v, hreq, hfind, hid, hpass, hkept⟩ :=
          ih.2 b c i hmem hpend
        rw [hdb]
        refine ⟨Nat.lt_of_lt_of_le hlt hs.nextId_le, l', List.mem_append_left _ hl', hb, email, password,
          v, hreq, hfind, hid, hpass, hs.keeps_password hlt hkept⟩
      rw [hissued] at hmem
      obtain hmem | hnew := List.mem_append.mp hmem
      · exact hold b c hmem hpend
      · obtain ⟨rfl, rfl⟩ := Prod.mk.inj (List.mem_singleton.mp hnew)
        rw [hout] at hpend
        obtain hpend | ⟨email, password, u, hreq, hu, hid, hpass⟩ :=
          handle_parks (Observed.ok ih.1) (Observed.unique ih.1) hpend
        · obtain hempty | hheld := hheld
          · rw [hempty] at hpend
            cases hpend
          · exact hold _ _ hheld hpend
        · have hmemu := (findByEmail_some hu).1
          have hlt : i < t.db.nextId := by
            rw [← hid]
            exact (Observed.ok ih.1).ids_lt u hmemu
          have hnow : ∀ x ∈ t.db.users, x.id = i → x.passwordHash = u.passwordHash ∨
              x.passwordHash = none := by
            intro x hx hxi
            rw [(Observed.ok ih.1).row_eq hmemu hx (by rw [hxi, hid])]
            exact .inl rfl
          rw [hdb]
          refine ⟨Nat.lt_of_lt_of_le hlt hs.nextId_le, l, by simp, rfl, email, password, u, hreq, ?_, hid,
            hpass, hs.keeps_password hlt hnow⟩
          rw [hbefore]
          exact hu
  exact hall.2

/-! ## Soundness -/

theorem two_factor_sound (hinj : Function.Injective d.hashCode) (h : Observed d past w)
    (hstep : observe d w ev = some (w', s)) (hu : u ∈ w.db.users) (h2 : u.twoFactorEnabled = true)
    (hacq : Acquires u.id (ev, s)) :
    (∃ l ∈ past, l.1.browser = ev.browser ∧ Presented d u l) ∧
      ∃ code k n, ev.request = .login2fa code ∧ Outstanding (loginCodes d u.id) past k n ∧
        code = k.code ∧ ev.ambient.now ≤ k.expiresAt ∧ n < d.settings.emailVerifyMaxAttempts := by
  obtain ⟨hheld, _, hout, _, _⟩ := observe_some hstep
  obtain ⟨hlogin, huser, hfresh⟩ := hacq
  have hok := h.ok
  cases hreq : ev.request with
  | login email password =>
    have hcase : LoginCase d ev.ambient w.db ev.cookie email password s.outcome := by
      rw [hout, hreq]
      exact handle_login h.unique email password
    exfalso
    generalize s.outcome = o at hcase huser hfresh
    cases hcase with
    | refused =>
      obtain hne | ⟨p, hp⟩ := hfresh
      · exact hne huser
      · cases hp
    | parked _ _ _ => cases huser
    | direct hfind _ hoff =>
      have hsame := hok.row_eq hu (findByEmail_some hfind).1 (Option.some.inj huser)
      rw [hsame, h2] at hoff
      cases hoff
  | login2fa code =>
    have hcase : SecondStep d ev.ambient w.db ev.cookie code s.outcome := by
      rw [hout, hreq]
      exact handle_login2fa hok h.unique code
    generalize s.outcome = o at hcase huser hfresh
    cases hcase with
    | refused hsame _ _ =>
      exfalso
      obtain hne | ⟨p, hp⟩ := hfresh
      · rw [hsame] at huser
        exact hne huser
      · cases hp
    | missed _ _ _ _ _ =>
      exfalso
      obtain hne | ⟨p, hp⟩ := hfresh
      · exact hne huser
      · cases hp
    | accepted hv hpend _ hcheck =>
      obtain rfl := hok.row_eq hu hv (Option.some.inj huser)
      obtain ⟨k, n, hk⟩ := (h.login_tracked _ hv).accepted hinj hcheck
      refine ⟨?_, code, k, n, rfl, hk⟩
      obtain hempty | hheld := hheld
      · rw [hempty] at hpend
        cases hpend
      · obtain ⟨_, l, hl, hb, email, password, v, hlreq, hfind, hid, hpass, hkept⟩ :=
          h.parked _ _ _ hheld hpend
        refine ⟨l, hl, hb, email, password, v, hlreq, hfind, hid, ?_, hpass⟩
        obtain hsame | hnone := hkept _ hv rfl
        · exact hsame.symm
        · have hset := (h.sound _ hv).two_factor h2
          rw [hnone] at hset
          cases hset.1
  | _ =>
    rw [hreq] at hlogin
    cases hlogin

/-! ## A second step -/

def afterParking : Transcript × World := watched transparent (confirmedSignUp ++ firstTwoFactorLogin)

def secondStep : Event := sends 2 { pending2fa := some 0 } (.login2fa (generateCode (drawn 0)))

def afterSecondStep : World × Seen :=
  (observe transparent afterParking.2 secondStep).getD ({}, ⟨{}, ⟨{}, {}, [], .nobody⟩⟩)

def twoFactorUser : User := (findById afterParking.2.db.users 0).getD { id := 0 }

theorem two_factor_sound_second_step :
    (∃ l ∈ afterParking.1, l.1.browser = 2 ∧ Presented transparent twoFactorUser l) ∧
      ∃ code k n, secondStep.request = .login2fa code ∧
        Outstanding (loginCodes transparent twoFactorUser.id) afterParking.1 k n ∧ code = k.code ∧
          secondStep.ambient.now ≤ k.expiresAt ∧ n < transparent.settings.emailVerifyMaxAttempts := by
  have hrun : Observed transparent afterParking.1 afterParking.2 := watched_run _ (by decide)
  have hstep : observe transparent afterParking.2 secondStep =
      some (afterSecondStep.1, afterSecondStep.2) := by rfl
  have hacq : Acquires twoFactorUser.id (secondStep, afterSecondStep.2) :=
    ⟨rfl, by decide, .inl (by decide)⟩
  exact two_factor_sound transparent_hashCode_injective hrun hstep (by decide) (by decide) hacq

end WarsawEvents.Accounts
