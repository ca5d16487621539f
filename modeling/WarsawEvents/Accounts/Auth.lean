import WarsawEvents.Accounts.Users

/-! # The account endpoints

`app.api.auth` (register, login, login/2fa, verify, resend, PATCH /me, DELETE /me, the Google
callback, logout, GET /me) and `app.auth.deps.current_user`.

The endpoints that work on one loaded row are functions of that row: a `RowOutcome` says which row
they commit, what they mail afterwards, what they answer and what they leave in the cookie. `handle`
serves one request on the whole table.
-/

namespace WarsawEvents.Accounts
set_option autoImplicit false

/-! ## Requests -/

/-- The claims of Google's userinfo the callback reads. -/
structure UserInfo where
  sub : Option String
  email : Option String
  name : Option String := none
  picture : Option String := none
  deriving DecidableEq, Repr

def maxPasswordBytes : ℕ := 72

/-- `RegisterRequest`, with the bounds pydantic checks on the number of characters. -/
structure RegisterRequest where
  email : Text
  password : String
  name : Option String := none
  minLength : 8 ≤ password.length
  maxLength : password.length ≤ maxPasswordBytes
  deriving DecidableEq

/-- `UpdateMeRequest`. `name` is `none` when the field is absent and `some none` when it is null. -/
structure UpdateMeRequest where
  name : Option (Option String) := none
  email : Option Text := none
  currentPassword : Option String := none
  twoFactorEnabled : Option Bool := none
  nameLength : (name.join.getD "").length ≤ 100 := by decide
  passwordLength : (currentPassword.getD "").length ≤ maxPasswordBytes := by decide
  deriving DecidableEq

inductive Request where
  | callback (info : Option UserInfo)
  | register (req : RegisterRequest)
  | login (email : Text) (password : String)
  | login2fa (code : Code)
  | verify (code : Code)
  | resend
  | updateMe (req : UpdateMeRequest)
  | deleteMe (currentPassword : Option String)
  | logout
  | me
  deriving DecidableEq

/-- What a request draws from outside: the clock in microseconds, the random code, the bcrypt salt,
and whether `check_auth_rate` lets it pass. -/
structure Ambient where
  now : ℕ
  draw : Fin (10 ^ codeDigits) := drawn 0
  salt : String := ""
  rateOk : Bool := true
  deriving DecidableEq

/-! ## Codes -/

/-- The address `_issue_verification` mails: the pending one, else the unverified own one. -/
def target (u : User) : Option Text :=
  match u.pendingEmail with
  | some p => some p
  | none => if u.emailVerified then none else u.email

variable (d : Deps) (amb : Ambient)

def minute : ℕ := 60000000

def codeExpiry : ℕ := amb.now + d.settings.emailVerifyCodeTtlMinutes * minute

/-- `_issue_verification`: the row it commits and the mail it sends, `none` when there is nothing to
verify. -/
def issueVerification (u : User) : Option (User × Mail) :=
  (target u).map fun t =>
    ({ u with
        emailVerifyCodeHash := some (d.hashCode (generateCode amb.draw))
        emailVerifyCodeExpiresAt := some (codeExpiry d amb)
        emailVerifyAttempts := 0 },
      .verification t (generateCode amb.draw))

def issueLoginCode (u : User) : User × Mail :=
  ({ u with
      loginCodeHash := some (d.hashCode (generateCode amb.draw))
      loginCodeExpiresAt := some (codeExpiry d amb)
      loginCodeAttempts := 0 },
    .loginCode u.email (generateCode amb.draw))

def checkCode (code : Code) (codeHash : Option Text) (expiresAt : Option ℕ) (attempts : ℕ)
    (renew : String) : Except Reply Bool :=
  match codeHash, expiresAt with
  | some h, some t =>
    if t < amb.now then .error (.http 400 ("Your code expired. " ++ renew))
    else if d.settings.emailVerifyMaxAttempts ≤ attempts then
      .error (.http 429 ("Too many attempts. " ++ renew))
    else .ok (verifyCode d code h)
  | _, _ => .error (.http 400 ("Your code expired. " ++ renew))

def clearCode (u : User) : User :=
  { u with emailVerifyCodeHash := none, emailVerifyCodeExpiresAt := none, emailVerifyAttempts := 0 }

def clearLoginCode (u : User) : User :=
  { u with loginCodeHash := none, loginCodeExpiresAt := none, loginCodeAttempts := 0 }

/-! ## Endpoints on one row -/

/-- How a request on a loaded row ends: `commit` is the row as the session flushes it, `cookie` and
`reply` what the browser gets, `onConflict` the answer when the commit breaks a unique constraint. -/
structure RowOutcome where
  commit : Option User := none
  mails : List Mail := []
  cookie : Cookie
  reply : Reply
  onConflict : Reply := .serverError
  deriving DecidableEq

def refuse (c : Cookie) (status : ℕ) (detail : String) : RowOutcome :=
  { cookie := c, reply := .http status detail }

/-- `_rate_limit_auth`, when the cap of the minute is hit. -/
def tooMany (c : Cookie) : RowOutcome :=
  refuse c 429 "Too many attempts. Try again in a minute."

/-- `verify_email`; `taken` is `_email_taken` for this row. -/
def verifyEmail (taken : Text → Bool) (c : Cookie) (code : Code) (u : User) : RowOutcome :=
  if !amb.rateOk then tooMany c
  else if u.emailVerified && u.pendingEmail.isNone then
    { cookie := c, reply := .user (userPayload u) }
  else
    match checkCode d amb code u.emailVerifyCodeHash u.emailVerifyCodeExpiresAt
        u.emailVerifyAttempts "Request a new one." with
    | .error r => { cookie := c, reply := r }
    | .ok false =>
      { commit := some { u with emailVerifyAttempts := u.emailVerifyAttempts + 1 }
        cookie := c, reply := .http 400 "Invalid code." }
    | .ok true =>
      match u.pendingEmail with
      | some p =>
        if taken p then
          { commit := some (clearCode { u with pendingEmail := none })
            cookie := c, reply := .http 409 "Email already registered" }
        else
          let v := clearCode { u with email := some p, pendingEmail := none, emailVerified := true }
          { commit := some v, cookie := c, reply := .user (userPayload v)
            onConflict := .http 409 "Email already registered" }
      | none =>
        let v := clearCode { u with emailVerified := true }
        { commit := some v, cookie := c, reply := .user (userPayload v)
          onConflict := .http 409 "Email already registered" }

def resendVerification (c : Cookie) (u : User) : RowOutcome :=
  if !amb.rateOk then tooMany c
  else if u.emailVerified && u.pendingEmail.isNone then
    { cookie := c, reply := .status "already_verified" }
  else
    match issueVerification d amb u with
    | some (v, m) => { commit := some v, mails := [m], cookie := c, reply := .status "sent" }
    | none => { cookie := c, reply := .status "sent" }

/-- The new address, when the request carries one that differs from the current. -/
def UpdateMeRequest.changingEmail (req : UpdateMeRequest) (u : User) : Option Text :=
  req.email.filter fun e => some e ≠ u.email

/-- The new two-factor setting, when the request carries one that differs from the current. -/
def UpdateMeRequest.toggling2fa (req : UpdateMeRequest) (u : User) : Option Bool :=
  req.twoFactorEnabled.filter fun b => b ≠ u.twoFactorEnabled

/-- `user.password_hash` is set and `verify_password` accepts. -/
def passwordOk (u : User) (password : String) : Bool :=
  match u.passwordHash with
  | some h => d.checkpw password h
  | none => false

/-- The edits `update_me` makes before it looks at the email: the name and the two-factor flag. -/
def editProfile (req : UpdateMeRequest) (u : User) : User :=
  let named := match req.name with
    | none => u
    | some n => { u with name := PyText.orNone (PyText.strip (n.getD "")) }
  match req.toggling2fa u with
  | none => named
  | some b => clearLoginCode { named with twoFactorEnabled := b }

def updateMe (taken : Text → Bool) (c : Cookie) (req : UpdateMeRequest) (u : User) : RowOutcome :=
  let changing := req.changingEmail u
  let toggling := req.toggling2fa u
  if changing.isSome && u.googleSub.isSome then
    refuse c 403 "This account's email is managed by Google."
  else if toggling.isSome && (u.googleSub.isSome || u.passwordHash.isNone) then
    refuse c 403 "Two-factor sign-in for this account is managed by Google."
  else if toggling = some true && !u.emailVerified then
    refuse c 400 "Verify your email before turning on two-factor sign-in."
  else if (changing.isSome || toggling = some false) && !amb.rateOk then tooMany c
  else if (changing.isSome || toggling = some false)
      && !passwordOk d u (req.currentPassword.getD "") then
    refuse c 403 "Current password is incorrect."
  else
    match changing with
    | some e =>
      if taken e then refuse c 409 "Email already registered"
      else
        let v := { editProfile req u with pendingEmail := some e }
        match issueVerification d amb v with
        | some (w, m) =>
          { commit := some w, mails := [m], cookie := c, reply := .user (userPayload w) }
        | none => { cookie := c, reply := .user (userPayload v) }
    | none =>
      let v := editProfile req u
      let w := if req.email.isSome && v.pendingEmail.isSome
        then clearCode { v with pendingEmail := none } else v
      { commit := some w, cookie := c, reply := .user (userPayload w) }

/-- `login`, once the row with that email is loaded. -/
def login (c : Cookie) (password : String) (u : User) : RowOutcome :=
  if !passwordOk d u password then refuse c 401 "Invalid email or password"
  else if d.settings.requireEmailVerification && !u.emailVerified then
    refuse c 403
      "Please verify your email before signing in. Check your inbox or request a new link."
  else if u.twoFactorEnabled then
    let (v, m) := issueLoginCode d amb u
    { commit := some v, mails := [m]
      cookie := { userId := none, pending2fa := some u.id }, reply := .pending2fa }
  else
    { cookie := { userId := some u.id, pending2fa := none }, reply := .user (userPayload u) }

/-- `login_2fa`, once the parked row is loaded. -/
def login2fa (c : Cookie) (code : Code) (u : User) : RowOutcome :=
  if !u.twoFactorEnabled then refuse { c with pending2fa := none } 401 "Sign in again."
  else
    match checkCode d amb code u.loginCodeHash u.loginCodeExpiresAt u.loginCodeAttempts
        "Sign in again to get a new code." with
    | .error r => { cookie := c, reply := r }
    | .ok false =>
      { commit := some { u with loginCodeAttempts := u.loginCodeAttempts + 1 }
        cookie := c, reply := .http 400 "Invalid code." }
    | .ok true =>
      let v := clearLoginCode u
      { commit := some v, cookie := { userId := some u.id, pending2fa := none }
        reply := .user (userPayload v) }

/-- `auth_callback`, the password of an account found by email rather than by subject is voided. -/
def voidPassword (u : User) : User :=
  if u.passwordHash.isSome then
    clearLoginCode { u with passwordHash := none, twoFactorEnabled := false }
  else u

/-- `auth_callback`, the part after the row is found or made: what Google leaves out stays. -/
def assertGoogle (sub : Text) (info : UserInfo) (u : User) : User :=
  { u with
    googleSub := some sub
    email := (truthy info.email).or u.email
    emailVerified := (truthy info.email).isSome || u.emailVerified
    name := ((truthy info.name).map Subtype.val).or u.name
    avatarUrl := ((truthy info.picture).map Subtype.val).or u.avatarUrl }

def googleUser (id : ℕ) (sub : Text) (info : UserInfo) : User := assertGoogle sub info { id := id }

def googleOutcome (c : Cookie) (sub : Text) (info : UserInfo) (u : User) : RowOutcome :=
  let v := assertGoogle sub info u
  { commit := some v, cookie := { c with userId := some u.id }, reply := .redirect "" }

/-- `delete_me` on the loaded row, up to the deletion: the refusal, if there is one. -/
def deleteRefusal (currentPassword : Option String) (u : User) : Option Reply :=
  match u.passwordHash with
  | none => none
  | some h =>
    match currentPassword.bind fun p => truthy (some p) with
    | none => some (.http 400 "Password required to delete account")
    | some p => if d.checkpw p.val h then none else some (.http 401 "Incorrect password")

/-! ## Requests on the table -/

structure Outcome where
  db : Db
  cookie : Cookie
  mails : List Mail := []
  reply : Reply
  deriving DecidableEq

/-- Commits a row outcome; a broken unique constraint rolls everything back. -/
def settle (db : Db) (c : Cookie) (o : RowOutcome) : Outcome :=
  match o.commit with
  | none => { db := db, cookie := o.cookie, mails := o.mails, reply := o.reply }
  | some u =>
    if conflicts db.users u then { db := db, cookie := c, reply := o.onConflict }
    else
      { db := { db with users := storeRow db.users u }
        cookie := o.cookie, mails := o.mails, reply := o.reply }

/-- `current_user`: the row of the cookie's `user_id`; a stale cookie is cleared. -/
def withCurrentUser (db : Db) (c : Cookie) (k : User → Outcome) : Outcome :=
  match c.userId with
  | none => { db := db, cookie := c, reply := .http 401 "Not authenticated" }
  | some id =>
    match findById db.users id with
    | none => { db := db, cookie := {}, reply := .http 401 "Not authenticated" }
    | some u => k u

/-- The row `auth_callback` works on: the one with the subject, else the one with the address, with
its password voided. -/
def googleRow (users : List User) (sub : Text) (email : Option Text) : Option User :=
  match findBySub users sub with
  | some u => some u
  | none => (email.bind (findByEmail users)).map voidPassword

def authCallback (db : Db) (c : Cookie) (info : Option UserInfo) : Outcome :=
  match info with
  | none => { db := db, cookie := c, reply := .redirect "/login?error=oauth" }
  | some info =>
    match truthy info.sub with
    | none => { db := db, cookie := c, reply := .http 400 "Google did not return a user id" }
    | some sub =>
      match googleRow db.users sub (truthy info.email) with
      | some u => settle db c (googleOutcome c sub info u)
      | none =>
        let u := googleUser db.nextId sub info
        if conflicts db.users u then { db := db, cookie := c, reply := .serverError }
        else
          { db := insertRow db u
            cookie := { c with userId := some db.nextId }, reply := .redirect "" }

/-- The row `register` inserts, before its address is coded. -/
def registeredUser (id : ℕ) (req : RegisterRequest) (h : Text) : User :=
  { id := id, email := some req.email, name := req.name, passwordHash := some h }

/-- `register`: the row is inserted and committed, then `_issue_verification` codes its address. -/
def register (db : Db) (c : Cookie) (req : RegisterRequest) : Outcome :=
  if !amb.rateOk then { db := db, cookie := c, reply := (tooMany c).reply }
  else if (findByEmail db.users req.email).isSome then
    { db := db, cookie := c, reply := .http 409 "Email already registered" }
  else
    match d.hashpw amb.salt req.password with
    | none => { db := db, cookie := c, reply := .serverError }
    | some h =>
      let u := registeredUser db.nextId req h
      if conflicts db.users u then
        { db := db, cookie := c, reply := .http 409 "Email already registered" }
      else
        match issueVerification d amb u with
        | some (v, m) =>
          { db := insertRow db v, cookie := { c with userId := some db.nextId }, mails := [m]
            reply := .user (userPayload v) }
        | none =>
          { db := insertRow db u, cookie := { c with userId := some db.nextId }
            reply := .user (userPayload u) }

/-- One request with its cookie, served atomically. -/
def handle (db : Db) (c : Cookie) : Request → Outcome
  | .callback info => authCallback db c info
  | .register req => register d amb db c req
  | .login email password =>
    if !amb.rateOk then settle db c (tooMany c)
    else
      match findByEmail db.users email with
      | none => settle db c (refuse c 401 "Invalid email or password")
      | some u => settle db c (login d amb c password u)
  | .login2fa code =>
    if !amb.rateOk then settle db c (tooMany c)
    else
      match c.pending2fa.bind (findById db.users) with
      | none => settle db c (refuse { c with pending2fa := none } 401 "Sign in again.")
      | some u => settle db c (login2fa d amb c code u)
  | .verify code =>
    withCurrentUser db c fun u =>
      settle db c (verifyEmail d amb (emailTaken db.users u.id) c code u)
  | .resend => withCurrentUser db c fun u => settle db c (resendVerification d amb c u)
  | .updateMe req =>
    withCurrentUser db c fun u =>
      settle db c (updateMe d amb (emailTaken db.users u.id) c req u)
  | .deleteMe currentPassword =>
    withCurrentUser db c fun u =>
      match deleteRefusal d currentPassword u with
      | some r => { db := db, cookie := c, reply := r }
      | none =>
        { db := { db with users := eraseRow db.users u.id }
          cookie := {}, mails := [.accountDeleted u.email], reply := .status "deleted" }
  | .logout => { db := db, cookie := {}, reply := .status "ok" }
  | .me =>
    match c.userId with
    | none => { db := db, cookie := c, reply := .nobody }
    | some id =>
      match findById db.users id with
      | none => { db := db, cookie := {}, reply := .nobody }
      | some u => { db := db, cookie := c, reply := .user (userPayload u) }

end WarsawEvents.Accounts
