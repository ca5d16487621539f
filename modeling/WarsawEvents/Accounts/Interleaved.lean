import WarsawEvents.Accounts.Reachable
import WarsawEvents.Foundations.WriteBack

/-! # Requests on one account, interleaved

A request loads the user row when it starts, works on its copy, and its commit writes the columns
that differ from the copy, whatever the row has become. The row functions are those of
`Accounts.Auth`; `commitRow` is the write. `register` commits the row first and codes its address in
a second transaction, which is a task of its own here (`registered`).

What other accounts do shows up in two places only: whether an address is taken, and whether a commit
fails. Both are left open: `commit` carries the first, and any job may end by `drop`.
-/

namespace WarsawEvents.Accounts
set_option autoImplicit false

open WriteBack

/-! ## Committing a copy -/

/-- `UPDATE users SET <changed columns>`: `base` as loaded, `new` as the handler left it. -/
def commitRow (base new cur : User) : User where
  id := cur.id
  googleSub := writeBack base.googleSub new.googleSub cur.googleSub
  passwordHash := writeBack base.passwordHash new.passwordHash cur.passwordHash
  email := writeBack base.email new.email cur.email
  emailVerified := writeBack base.emailVerified new.emailVerified cur.emailVerified
  emailVerifyCodeHash :=
    writeBack base.emailVerifyCodeHash new.emailVerifyCodeHash cur.emailVerifyCodeHash
  emailVerifyCodeExpiresAt :=
    writeBack base.emailVerifyCodeExpiresAt new.emailVerifyCodeExpiresAt cur.emailVerifyCodeExpiresAt
  emailVerifyAttempts :=
    writeBack base.emailVerifyAttempts new.emailVerifyAttempts cur.emailVerifyAttempts
  pendingEmail := writeBack base.pendingEmail new.pendingEmail cur.pendingEmail
  twoFactorEnabled := writeBack base.twoFactorEnabled new.twoFactorEnabled cur.twoFactorEnabled
  loginCodeHash := writeBack base.loginCodeHash new.loginCodeHash cur.loginCodeHash
  loginCodeExpiresAt := writeBack base.loginCodeExpiresAt new.loginCodeExpiresAt cur.loginCodeExpiresAt
  loginCodeAttempts := writeBack base.loginCodeAttempts new.loginCodeAttempts cur.loginCodeAttempts
  name := writeBack base.name new.name cur.name
  avatarUrl := writeBack base.avatarUrl new.avatarUrl cur.avatarUrl

/-- With nothing in between, a commit stores the handler's row: the atomic model. -/
theorem commitRow_alone {base new : User} (hid : new.id = base.id) : commitRow base new base = new := by
  cases base
  cases new
  cases hid
  simp [commitRow]

section Columns
variable (base new cur : User)

@[simp] theorem commitRow_email :
    (commitRow base new cur).email = writeBack base.email new.email cur.email := rfl
@[simp] theorem commitRow_emailVerified : (commitRow base new cur).emailVerified =
    writeBack base.emailVerified new.emailVerified cur.emailVerified := rfl
@[simp] theorem commitRow_emailVerifyCodeHash : (commitRow base new cur).emailVerifyCodeHash =
    writeBack base.emailVerifyCodeHash new.emailVerifyCodeHash cur.emailVerifyCodeHash := rfl
@[simp] theorem commitRow_pendingEmail : (commitRow base new cur).pendingEmail =
    writeBack base.pendingEmail new.pendingEmail cur.pendingEmail := rfl

end Columns

/-! ## Tasks -/

/-- What runs between a load and a commit. A callback finds the row by its subject, or by its address
when `linked`. -/
inductive Task where
  | registered
  | verify (code : Code)
  | resend
  | updateMe (req : UpdateMeRequest)
  | callback (sub : Text) (info : UserInfo) (linked : Bool)
  deriving DecidableEq

/-- The row function of a task; `taken` answers `_email_taken`. -/
def Task.outcome (d : Deps) (amb : Ambient) (taken : Bool) (base : User) : Task → RowOutcome
  | .registered =>
    match issueVerification d amb base with
    | some (v, m) =>
      { commit := some v, mails := [m], cookie := {}, reply := .user (userPayload v) }
    | none => { cookie := {}, reply := .user (userPayload base) }
  | .verify code => verifyEmail d amb (fun _ => taken) {} code base
  | .resend => resendVerification d amb {} base
  | .updateMe req => Accounts.updateMe d amb (fun _ => taken) {} req base
  | .callback sub info linked =>
    googleOutcome {} sub info (if linked then voidPassword base else base)

structure Job where
  task : Task
  base : User
  deriving DecidableEq

/-- The account's row, whether `register` still owes it the first code, and the requests under way. -/
structure Account where
  row : Option User := none
  owed : Bool := false
  jobs : List Job := []
  deriving DecidableEq

inductive Move where
  | signUp (req : RegisterRequest) (hash : Text)
  | googleInsert (sub : Text) (info : UserInfo)
  | start (task : Task)
  | commit (i : ℕ) (amb : Ambient) (taken : Bool)
  | drop (i : ℕ)
  deriving DecidableEq

/-- The loads that find this account. -/
def Task.loads (owed : Bool) (u : User) : Task → Bool
  | .registered => owed
  | .callback sub info linked =>
    if linked then (truthy info.email).isSome && truthy info.email = u.email
    else u.googleSub = some sub
  | _ => true

/-- One move, with the mails it sends. -/
def advance (d : Deps) (a : Account) : Move → Option (Account × List Mail)
  | .signUp req hash =>
    match a.row with
    | some _ => none
    | none => some ({ a with row := some (registeredUser 0 req hash), owed := true }, [])
  | .googleInsert sub info =>
    match a.row with
    | some _ => none
    | none => some ({ a with row := some (googleUser 0 sub info) }, [])
  | .start task =>
    match a.row with
    | none => none
    | some u =>
      if task.loads a.owed u then
        some ({ a with owed := a.owed && task ≠ .registered, jobs := a.jobs ++ [⟨task, u⟩] }, [])
      else none
  | .commit i amb taken =>
    match a.row, a.jobs[i]? with
    | some u, some j =>
      let o := j.task.outcome d amb taken j.base
      match o.commit with
      | some v =>
        some ({ a with row := some (commitRow j.base v u), jobs := a.jobs.eraseIdx i }, o.mails)
      | none => none
    | _, _ => none
  | .drop i => some ({ a with jobs := a.jobs.eraseIdx i }, [])

abbrev Log := List (Move × List Mail)

/-! ## What one move can do -/

inductive Advanced (d : Deps) (a : Account) : Move → Account → List Mail → Prop
  | signUp {req : RegisterRequest} {hash : Text} : a.row = none →
      Advanced d a (.signUp req hash)
        { a with row := some (registeredUser 0 req hash), owed := true } []
  | googleInsert {sub : Text} {info : UserInfo} : a.row = none →
      Advanced d a (.googleInsert sub info) { a with row := some (googleUser 0 sub info) } []
  | start {task : Task} {u : User} : a.row = some u → task.loads a.owed u = true →
      Advanced d a (.start task)
        { a with owed := a.owed && task ≠ .registered, jobs := a.jobs ++ [⟨task, u⟩] } []
  | commit {i : ℕ} {amb : Ambient} {taken : Bool} {u v : User} {j : Job} :
      a.row = some u → a.jobs[i]? = some j →
      (j.task.outcome d amb taken j.base).commit = some v →
      Advanced d a (.commit i amb taken)
        { a with row := some (commitRow j.base v u), jobs := a.jobs.eraseIdx i }
        (j.task.outcome d amb taken j.base).mails
  | drop {i : ℕ} : Advanced d a (.drop i) { a with jobs := a.jobs.eraseIdx i } []

theorem advance_advanced {d : Deps} {a a' : Account} {m : Move} {mails : List Mail}
    (h : advance d a m = some (a', mails)) : Advanced d a m a' mails := by
  cases m with
  | signUp req hash =>
    simp only [advance] at h
    split at h
    · cases h
    · rename_i hrow
      cases h
      exact Advanced.signUp hrow
  | googleInsert sub info =>
    simp only [advance] at h
    split at h
    · cases h
    · rename_i hrow
      cases h
      exact Advanced.googleInsert hrow
  | start task =>
    simp only [advance] at h
    split at h
    · cases h
    · rename_i u hrow
      split at h
      · rename_i hloads
        cases h
        exact Advanced.start hrow hloads
      · cases h
  | commit i amb taken =>
    simp only [advance] at h
    split at h
    · rename_i u j hrow hj
      split at h
      · rename_i v hv
        cases h
        exact Advanced.commit hrow hj hv
      · cases h
    · cases h
  | drop i =>
    simp only [advance] at h
    cases h
    exact Advanced.drop

end WarsawEvents.Accounts
