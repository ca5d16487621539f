import WarsawEvents.Accounts.Reachable
import WarsawEvents.Foundations.Coupling

/-! # PATCH /me, statement by statement

`update_me` edits its copy of the row and commits it in one of two places, in `_issue_verification` or at
its own end. Either all of the edit is stored, or an exception leaves the row as it was and mails nothing.

* `patch_me_all_or_nothing`: for every row, request, set of other accounts and failure of a commit.
* `updateMe_refined`: the whole is the atomic endpoint of `Auth`.
-/

namespace WarsawEvents.Accounts
set_option autoImplicit false

open Coupling

/-! ## The session -/

/-- The row as it is stored, the copy the handler works on, and the mails that went out. -/
structure EditSession where
  stored : User
  copy : User
  mails : List Mail := []

abbrev EditProg (α : Type) := Prog EditSession Reply α

def EditSession.load (u : User) : EditSession := { stored := u, copy := u }

def edit (f : User → User) : EditProg Unit := modify fun s => { s with copy := f s.copy }

/-- `session.commit`; `refuses` are the rows the database raises an error for. -/
def commitCopy (refuses : User → Bool) : EditProg Unit := do
  let s ← get
  if refuses s.copy then throw .serverError else set { s with stored := s.copy }

def send (m : Mail) : EditProg Unit := modify fun s => { s with mails := s.mails ++ [m] }

variable (d : Deps) (amb : Ambient) (refuses : User → Bool) (taken : Text → Bool)
  (req : UpdateMeRequest)

/-- `_issue_verification`. -/
def sendVerification : EditProg Unit := do
  match target (← get).copy with
  | none => pure ()
  | some t =>
    edit fun u => { u with
      emailVerifyCodeHash := some (d.hashCode (generateCode amb.draw))
      emailVerifyCodeExpiresAt := some (codeExpiry d amb)
      emailVerifyAttempts := 0 }
    commitCopy refuses
    send (.verification t (generateCode amb.draw))

def raiseIf (c : Bool) (status : ℕ) (detail : String) : Except Reply Unit :=
  if c then .error (.http status detail) else .ok ()

/-- The checks of a changed two-factor setting. -/
def checkToggle (u : User) : Option Bool → Except Reply Unit
  | none => .ok ()
  | some on => do
    raiseIf (u.googleSub.isSome || u.passwordHash.isNone) 403
      "Two-factor sign-in for this account is managed by Google."
    raiseIf (on && !u.emailVerified) 400 "Verify your email before turning on two-factor sign-in."

/-- `current_password`, behind the rate limit. -/
def checkPassword (u : User) : Except Reply Unit := do
  raiseIf (!amb.rateOk) 429 "Too many attempts. Try again in a minute."
  raiseIf (!passwordOk d u (req.currentPassword.getD "")) 403 "Current password is incorrect."

/-- All the checks, which come before the first edit. -/
def validateEdit (u : User) : Except Reply Unit := do
  raiseIf ((req.changingEmail u).isSome && u.googleSub.isSome) 403
    "This account's email is managed by Google."
  checkToggle u (req.toggling2fa u)
  (if (req.changingEmail u).isSome || req.toggling2fa u = some false then checkPassword d amb req u
    else pure ())
  raiseIf ((req.changingEmail u).any taken) 409 "Email already registered"

def setName : EditProg Unit :=
  match req.name with
  | some name => edit fun v => { v with name := PyText.orNone (PyText.strip (name.getD "")) }
  | none => pure ()

def setTwoFactor : Option Bool → EditProg Unit
  | some on => do
    edit fun v => { v with twoFactorEnabled := on }
    edit clearLoginCode
  | none => pure ()

/-- The new address waits for its code; the current one cancels the waiting one. Both ways commit. -/
def setEmail : Option Text → EditProg Unit
  | some e => do
    edit fun v => { v with pendingEmail := some e }
    sendVerification d amb refuses
  | none => do
    edit fun v => if req.email.isSome && v.pendingEmail.isSome
      then clearCode { v with pendingEmail := none } else v
    commitCopy refuses

def patchMe : EditProg UserPayload := do
  let u := (← get).copy
  liftM (validateEdit d amb taken req u)
  setName req
  setTwoFactor (req.toggling2fa u)
  setEmail d amb refuses req (req.changingEmail u)
  return userPayload (← get).copy

/-! ## How it runs -/

section Execution
variable {d amb refuses taken req} {u v w : User} {r : Reply} {s : EditSession}

theorem exec_edit (f : User → User) : exec (edit f) s = (.ok (), { s with copy := f s.copy }) := rfl

theorem exec_commitCopy :
    exec (commitCopy refuses) s = if refuses s.copy then (.error .serverError, s)
      else (.ok (), { s with stored := s.copy }) := by
  have hcommit : exec (commitCopy refuses) s = exec (if refuses s.copy then throw .serverError
      else set { s with stored := s.copy }) s := rfl
  rw [hcommit]
  split
  · rfl
  · rfl

theorem exec_setName_setTwoFactor (req : UpdateMeRequest) (u : User) :
    ∃ t, exec (setName req) (EditSession.load u) = (.ok (), t) ∧
      exec (setTwoFactor (req.toggling2fa u)) t
        = (.ok (), { EditSession.load u with copy := editProfile req u }) := by
  unfold setName setTwoFactor editProfile
  cases req.name with
  | none =>
    refine ⟨_, rfl, ?_⟩
    cases req.toggling2fa u with
    | none => rfl
    | some on => rfl
  | some name =>
    refine ⟨_, rfl, ?_⟩
    cases req.toggling2fa u with
    | none => rfl
    | some on => rfl

theorem patchMe_refused (h : validateEdit d amb taken req u = .error r) :
    exec (patchMe d amb refuses taken req) (EditSession.load u) = (.error r, EditSession.load u) := by
  have hload : exec (get : EditProg EditSession) (EditSession.load u)
      = (.ok (EditSession.load u), EditSession.load u) := rfl
  have hvalid : exec (liftM (validateEdit d amb taken req u) : EditProg Unit) (EditSession.load u)
      = (.error r, EditSession.load u) := by
    rw [h]
    rfl
  refine (exec_bind_ok hload).trans ?_
  exact exec_bind_error hvalid

/-- A valid request: its email part runs on the row with the other edits made. -/
theorem patchMe_valid (h : validateEdit d amb taken req u = .ok ()) :
    exec (patchMe d amb refuses taken req) (EditSession.load u)
      = exec (setEmail d amb refuses req (req.changingEmail u) >>= fun _ =>
          get >>= fun s => pure (userPayload s.copy))
          { EditSession.load u with copy := editProfile req u } := by
  have hload : exec (get : EditProg EditSession) (EditSession.load u)
      = (.ok (EditSession.load u), EditSession.load u) := rfl
  have hvalid : exec (liftM (validateEdit d amb taken req u) : EditProg Unit) (EditSession.load u)
      = (.ok (), EditSession.load u) := by
    rw [h]
    rfl
  obtain ⟨t, hname, htwo⟩ := exec_setName_setTwoFactor req u
  refine (exec_bind_ok hload).trans ?_
  refine (exec_bind_ok hvalid).trans ?_
  refine (exec_bind_ok hname).trans ?_
  exact exec_bind_ok htwo

/-- The row as the handler leaves its copy, and what it mails. -/
def editedRow (d : Deps) (amb : Ambient) (req : UpdateMeRequest) (u : User) : User :=
  match req.changingEmail u with
  | some e =>
    { editProfile req u with
      pendingEmail := some e
      emailVerifyCodeHash := some (d.hashCode (generateCode amb.draw))
      emailVerifyCodeExpiresAt := some (codeExpiry d amb)
      emailVerifyAttempts := 0 }
  | none =>
    if req.email.isSome && (editProfile req u).pendingEmail.isSome
    then clearCode { editProfile req u with pendingEmail := none } else editProfile req u

def editMails (amb : Ambient) (req : UpdateMeRequest) (u : User) : List Mail :=
  match req.changingEmail u with
  | some e => [.verification e (generateCode amb.draw)]
  | none => []

theorem exec_setEmail (d : Deps) (amb : Ambient) (refuses : User → Bool) (req : UpdateMeRequest)
    (u : User) (t : EditSession)
    (ht : t = { EditSession.load u with copy := editProfile req u }) :
    exec (setEmail d amb refuses req (req.changingEmail u)) t
      = if refuses (editedRow d amb req u)
        then (.error .serverError, { EditSession.load u with copy := editedRow d amb req u })
        else (.ok (), ⟨editedRow d amb req u, editedRow d amb req u, editMails amb req u⟩) := by
  subst ht
  unfold setEmail editedRow editMails
  cases req.changingEmail u with
  | none =>
    refine (exec_bind_ok (exec_edit _)).trans ?_
    rw [exec_commitCopy]
    split
    · rfl
    · rfl
  | some e =>
    refine (exec_bind_ok (exec_edit _)).trans ?_
    have hload : ∀ t : EditSession, exec (get : EditProg EditSession) t = (.ok t, t) := fun _ => rfl
    refine (exec_bind_ok (hload _)).trans ?_
    refine (exec_bind_ok (exec_edit _)).trans ?_
    dsimp only
    cases hrefused : refuses { editProfile req u with
      pendingEmail := some e
      emailVerifyCodeHash := some (d.hashCode (generateCode amb.draw))
      emailVerifyCodeExpiresAt := some (codeExpiry d amb)
      emailVerifyAttempts := 0 } with
    | true =>
      refine (exec_bind_error (exec_commitCopy.trans (if_pos hrefused))).trans ?_
      rfl
    | false =>
      refine (exec_bind_ok (exec_commitCopy.trans (if_neg (Bool.not_eq_true _ ▸ hrefused)))).trans ?_
      rfl

theorem patchMe_committed (h : validateEdit d amb taken req u = .ok ()) :
    exec (patchMe d amb refuses taken req) (EditSession.load u)
      = if refuses (editedRow d amb req u)
        then (.error .serverError, { EditSession.load u with copy := editedRow d amb req u })
        else (.ok (userPayload (editedRow d amb req u)),
          ⟨editedRow d amb req u, editedRow d amb req u, editMails amb req u⟩) := by
  have hemail := exec_setEmail d amb refuses req u _ rfl
  rw [patchMe_valid h]
  split
  next hrefused =>
    rw [if_pos hrefused] at hemail
    exact exec_bind_error hemail
  next hrefused =>
    rw [if_neg hrefused] at hemail
    exact (exec_bind_ok hemail).trans rfl

end Execution

/-! ## What a request asks for -/

def User.emailCode (u : User) : Option Text × Option ℕ × ℕ :=
  (u.emailVerifyCodeHash, u.emailVerifyCodeExpiresAt, u.emailVerifyAttempts)

def User.loginCode (u : User) : Option Text × Option ℕ × ℕ :=
  (u.loginCodeHash, u.loginCodeExpiresAt, u.loginCodeAttempts)

/-- Without an address nothing happens to the pending one. The current address drops it with its code;
another one takes its place with a fresh code, which is mailed to it and to nobody else. -/
def EmailEdited (d : Deps) (amb : Ambient) (req : UpdateMeRequest) (u v : User) (mails : List Mail) :
    Prop :=
  match req.email with
  | none => v.pendingEmail = u.pendingEmail ∧ v.emailCode = u.emailCode ∧ mails = []
  | some e =>
    if u.email = some e then
      v.pendingEmail = none ∧ mails = [] ∧
        v.emailCode = if u.pendingEmail.isSome then (none, none, 0) else u.emailCode
    else
      v.pendingEmail = some e ∧ mails = [.verification e (generateCode amb.draw)] ∧
        v.emailCode = (some (d.hashCode (generateCode amb.draw)), some (codeExpiry d amb), 0)

/-- From `u` to `v`, exactly what the request asks for. -/
structure Edited (d : Deps) (amb : Ambient) (req : UpdateMeRequest) (u v : User) (mails : List Mail) :
    Prop where
  name : v.name = match req.name with
    | none => u.name
    | some name => PyText.orNone (PyText.strip (name.getD ""))
  twoFactor : v.twoFactorEnabled = req.twoFactorEnabled.getD u.twoFactorEnabled
  loginCode : v.loginCode
    = if v.twoFactorEnabled = u.twoFactorEnabled then u.loginCode else (none, none, 0)
  email : EmailEdited d amb req u v mails
  others : v = { u with
    name := v.name
    twoFactorEnabled := v.twoFactorEnabled
    loginCodeHash := v.loginCodeHash
    loginCodeExpiresAt := v.loginCodeExpiresAt
    loginCodeAttempts := v.loginCodeAttempts
    pendingEmail := v.pendingEmail
    emailVerifyCodeHash := v.emailVerifyCodeHash
    emailVerifyCodeExpiresAt := v.emailVerifyCodeExpiresAt
    emailVerifyAttempts := v.emailVerifyAttempts }

section Columns
variable {d amb req} {u : User}

theorem editProfile_columns : editProfile req u = { u with
    name := (match req.name with
      | none => u.name
      | some name => PyText.orNone (PyText.strip (name.getD "")))
    twoFactorEnabled := (req.toggling2fa u).getD u.twoFactorEnabled
    loginCodeHash := if (req.toggling2fa u).isSome then none else u.loginCodeHash
    loginCodeExpiresAt := if (req.toggling2fa u).isSome then none else u.loginCodeExpiresAt
    loginCodeAttempts := if (req.toggling2fa u).isSome then 0 else u.loginCodeAttempts } := by
  unfold editProfile
  generalize req.toggling2fa u = toggling
  cases req.name with
  | none => cases toggling <;> rfl
  | some name =>
    dsimp only
    generalize PyText.orNone (PyText.strip (name.getD "")) = stored
    cases toggling <;> rfl

/-- The login code goes where the setting flips, and only there. -/
theorem toggling_getD (req : UpdateMeRequest) (u : User) : (req.toggling2fa u).getD u.twoFactorEnabled
      = req.twoFactorEnabled.getD u.twoFactorEnabled ∧
    ((req.toggling2fa u).isSome = true
      ↔ req.twoFactorEnabled.getD u.twoFactorEnabled ≠ u.twoFactorEnabled) := by
  unfold UpdateMeRequest.toggling2fa
  cases req.twoFactorEnabled with
  | none => simp
  | some on =>
    by_cases hflips : on = u.twoFactorEnabled
    · simp [Option.filter_some, hflips]
    · simp [Option.filter_some, hflips]

theorem editProfile_profile (req : UpdateMeRequest) (u : User) : (editProfile req u).name = (match req.name with
      | none => u.name
      | some name => PyText.orNone (PyText.strip (name.getD ""))) ∧
    (editProfile req u).twoFactorEnabled = req.twoFactorEnabled.getD u.twoFactorEnabled ∧
    (editProfile req u).loginCode
      = (if (editProfile req u).twoFactorEnabled = u.twoFactorEnabled then u.loginCode
        else (none, none, 0)) := by
  obtain ⟨hstored, hflips⟩ := toggling_getD req u
  rw [editProfile_columns]
  refine ⟨rfl, hstored, ?_⟩
  simp only [User.loginCode, hstored]
  split_ifs with htoggle hsame hsame
  · exact absurd hsame (hflips.mp htoggle)
  · rfl
  · rfl
  · exact absurd (hflips.mpr hsame) htoggle

theorem editProfile_others (req : UpdateMeRequest) (u : User) : editProfile req u = { u with
    name := (editProfile req u).name
    twoFactorEnabled := (editProfile req u).twoFactorEnabled
    loginCodeHash := (editProfile req u).loginCodeHash
    loginCodeExpiresAt := (editProfile req u).loginCodeExpiresAt
    loginCodeAttempts := (editProfile req u).loginCodeAttempts } := by
  rw [editProfile_columns]

theorem changingEmail_current {e : Text} (hreq : req.email = some e) (hsame : u.email = some e) :
    req.changingEmail u = none := by
  rw [UpdateMeRequest.changingEmail, hreq]
  exact Option.filter_eq_none_iff.mpr fun x hx => by
    rw [← Option.some.inj hx, hsame]
    simp

theorem changingEmail_other {e : Text} (hreq : req.email = some e) (hother : u.email ≠ some e) :
    req.changingEmail u = some e := by
  rw [UpdateMeRequest.changingEmail, hreq]
  exact Option.filter_eq_some_iff.mpr ⟨rfl, decide_eq_true (Ne.symm hother)⟩

theorem editedRow_email : EmailEdited d amb req u (editedRow d amb req u) (editMails amb req u) := by
  have hcode : (editProfile req u).emailCode = u.emailCode := by
    rw [editProfile_others]
    rfl
  unfold EmailEdited
  cases hreq : req.email with
  | none =>
    have hchanging : req.changingEmail u = none := by
      rw [UpdateMeRequest.changingEmail, hreq]
      rfl
    simp only [editedRow, editMails, hchanging, hreq, Option.isSome_none, Bool.false_and,
      Bool.false_eq_true, if_false, editProfile_pendingEmail]
    exact ⟨trivial, hcode, trivial⟩
  | some e =>
    by_cases hsame : u.email = some e
    · have hchanging := changingEmail_current hreq hsame
      simp only [if_pos hsame, editedRow, editMails, hchanging, hreq, Option.isSome_some, Bool.true_and,
        editProfile_pendingEmail]
      cases hpending : u.pendingEmail with
      | none =>
        simp only [Option.isSome_none, Bool.false_eq_true, if_false, editProfile_pendingEmail]
        exact ⟨hpending, trivial, hcode⟩
      | some p => exact ⟨rfl, trivial, rfl⟩
    · have hchanging := changingEmail_other hreq hsame
      simp only [if_neg hsame, editedRow, editMails, hchanging]
      exact ⟨trivial, trivial, rfl⟩

theorem editedRow_edited : Edited d amb req u (editedRow d amb req u) (editMails amb req u) := by
  obtain ⟨hname, htwo, hlogin⟩ := editProfile_profile req u
  have hothers := editProfile_others req u
  have hprofile : (editedRow d amb req u).name = (editProfile req u).name ∧
      (editedRow d amb req u).twoFactorEnabled = (editProfile req u).twoFactorEnabled ∧
      (editedRow d amb req u).loginCode = (editProfile req u).loginCode := by
    unfold editedRow
    split
    · exact ⟨rfl, rfl, rfl⟩
    · split
      · exact ⟨rfl, rfl, rfl⟩
      · exact ⟨rfl, rfl, rfl⟩
  refine ⟨hprofile.1.trans hname, hprofile.2.1.trans htwo, ?_, editedRow_email, ?_⟩
  · rw [hprofile.2.2, hprofile.2.1, hlogin]
  · unfold editedRow
    split
    · rw [hothers]
    · split
      · rw [hothers]
        rfl
      · rw [hothers]

end Columns

/-- All or nothing. -/
theorem patch_me_all_or_nothing (refuses : User → Bool) (users : List User) (u : User) :
    match exec (patchMe d amb refuses (emailTaken users u.id) req) (EditSession.load u) with
    | (.error _, s) => s.stored = u ∧ s.mails = []
    | (.ok payload, s) => Edited d amb req u s.stored s.mails ∧ payload = userPayload s.stored := by
  cases hvalid : validateEdit d amb (emailTaken users u.id) req u with
  | error r =>
    rw [patchMe_refused hvalid]
    exact ⟨rfl, rfl⟩
  | ok _ =>
    rw [patchMe_committed hvalid]
    split_ifs
    · exact ⟨rfl, rfl⟩
    · exact ⟨editedRow_edited, rfl⟩

/-! ## The atomic endpoint -/

section Refinement
variable {d amb taken req} {c : Cookie} {db : Db} {u : User}

/-- The first check that fails. -/
def firstError : List (Bool × Reply) → Except Reply Unit
  | [] => .ok ()
  | (p, r) :: checks => if p then .error r else firstError checks

theorem firstError_bind (checks more : List (Bool × Reply)) :
    (firstError checks >>= fun _ => firstError more) = firstError (checks ++ more) := by
  induction checks with
  | nil => rfl
  | cons check checks ih =>
    obtain ⟨p, r⟩ := check
    cases p with
    | true => rfl
    | false => exact ih

theorem raiseIf_eq (p : Bool) (status : ℕ) (detail : String) :
    raiseIf p status detail = firstError [(p, .http status detail)] := by
  cases p <;> rfl

theorem checkToggle_eq (toggling : Option Bool) : checkToggle u toggling = firstError
    [(toggling.isSome && (u.googleSub.isSome || u.passwordHash.isNone),
        .http 403 "Two-factor sign-in for this account is managed by Google."),
      (toggling = some true && !u.emailVerified,
        .http 400 "Verify your email before turning on two-factor sign-in.")] := by
  cases toggling with
  | none => rfl
  | some on =>
    have hon : decide (some on = some true) = on := by cases on <;> rfl
    simp only [checkToggle, raiseIf_eq, firstError_bind, hon]
    rfl

theorem checkPassword_eq (needed : Bool) :
    (if needed then checkPassword d amb req u else pure ()) = firstError
      [(needed && !amb.rateOk, .http 429 "Too many attempts. Try again in a minute."),
        (needed && !passwordOk d u (req.currentPassword.getD ""),
          .http 403 "Current password is incorrect.")] := by
  cases needed with
  | false => rfl
  | true =>
    unfold checkPassword
    rw [raiseIf_eq, raiseIf_eq, firstError_bind]
    rfl

theorem editedRow_issued {e : Text} (h : req.changingEmail u = some e) :
    issueVerification d amb { editProfile req u with pendingEmail := some e }
      = some (editedRow d amb req u, .verification e (generateCode amb.draw)) := by
  simp only [editedRow, h]
  rfl

theorem validateEdit_eq : validateEdit d amb taken req u = firstError
    [((req.changingEmail u).isSome && u.googleSub.isSome,
        .http 403 "This account's email is managed by Google."),
      ((req.toggling2fa u).isSome && (u.googleSub.isSome || u.passwordHash.isNone),
        .http 403 "Two-factor sign-in for this account is managed by Google."),
      (req.toggling2fa u = some true && !u.emailVerified,
        .http 400 "Verify your email before turning on two-factor sign-in."),
      (((req.changingEmail u).isSome || req.toggling2fa u = some false) && !amb.rateOk,
        .http 429 "Too many attempts. Try again in a minute."),
      (((req.changingEmail u).isSome || req.toggling2fa u = some false)
          && !passwordOk d u (req.currentPassword.getD ""),
        .http 403 "Current password is incorrect."),
      ((req.changingEmail u).any taken, .http 409 "Email already registered")] := by
  unfold validateEdit
  rw [raiseIf_eq, checkToggle_eq, checkPassword_eq, raiseIf_eq]
  simp only [firstError_bind, List.cons_append, List.nil_append]

/-- The checks of the atomic endpoint are these, in the same order. -/
theorem updateMe_validated : updateMe d amb taken c req u =
    match validateEdit d amb taken req u with
    | .error r => { cookie := c, reply := r }
    | .ok _ => { commit := some (editedRow d amb req u), mails := editMails amb req u, cookie := c
                 reply := .user (userPayload (editedRow d amb req u)) } := by
  rw [validateEdit_eq]
  unfold updateMe
  simp only [firstError]
  split
  · rfl
  split
  · rfl
  split
  · rfl
  split
  · rfl
  split
  · rfl
  cases hchanging : req.changingEmail u with
  | none =>
    simp only [Option.any_none, Bool.false_eq_true, if_false, editedRow, editMails, hchanging]
  | some e =>
    simp only [Option.any_some, editedRow_issued hchanging, editMails, hchanging]
    split
    · rfl
    · rfl

theorem storeRow_unchanged (hok : db.Ok) (hu : u ∈ db.users) : storeRow db.users u = db.users := by
  unfold storeRow
  conv_rhs => rw [← List.map_id db.users]
  apply List.map_congr_left
  intro v hv
  split
  next hid => exact (hok.row_eq hu hv hid).symm
  next => rfl

def answer : Except Reply UserPayload → Reply
  | .ok payload => .user payload
  | .error r => r

/-- Alone on the table, with the unique constraints as what a commit may break, the statements do what
`handle` does in one step. -/
theorem updateMe_refined (hok : db.Ok) (hu : u ∈ db.users) (c : Cookie) :
    ∃ r s, exec (patchMe d amb (conflicts db.users) (emailTaken db.users u.id) req)
        (EditSession.load u) = (r, s) ∧
      (settle db c (updateMe d amb (emailTaken db.users u.id) c req u)).db
        = { db with users := storeRow db.users s.stored } ∧
      (settle db c (updateMe d amb (emailTaken db.users u.id) c req u)).mails = s.mails ∧
      (settle db c (updateMe d amb (emailTaken db.users u.id) c req u)).reply = answer r := by
  have hkept : { db with users := storeRow db.users u } = db := by rw [storeRow_unchanged hok hu]
  rw [updateMe_validated]
  cases hvalid : validateEdit d amb (emailTaken db.users u.id) req u with
  | error r => exact ⟨_, _, patchMe_refused hvalid, hkept.symm, rfl, rfl⟩
  | ok _ =>
    rw [patchMe_committed hvalid]
    simp only [settle]
    split
    · exact ⟨_, _, rfl, hkept.symm, rfl, rfl⟩
    · exact ⟨_, _, rfl, rfl, rfl, rfl⟩

end Refinement

end WarsawEvents.Accounts
