import WarsawEvents.Foundations.PyText
import Mathlib.Algebra.GroupWithZero.Nat

/-! # The `users` table, the session cookie and the mails

`app.catalog.models.User` with the columns the account endpoints read or write, the signed cookie of
`SessionMiddleware`, the settings and the two hashing back ends the endpoints call.

A `Text` column holds a text that passes Python's truth test: addresses come from `EmailStr` or from
a guarded Google claim, hashes from bcrypt and HMAC, so `if user.password_hash` is `isSome` here.
-/

namespace WarsawEvents.Accounts
set_option autoImplicit false

/-- A non-empty text. -/
abbrev Text := { s : String // s ≠ "" }

/-- `x or None` for a claim Google may leave out or send empty. -/
def truthy (s : Option String) : Option Text :=
  s.bind fun t => if h : t ≠ "" then some ⟨t, h⟩ else none

/-! ## Settings and hashing -/

structure Settings where
  emailVerifyCodeTtlMinutes : ℕ := 15
  emailVerifyMaxAttempts : ℕ := 5
  requireEmailVerification : Bool := false
  deriving DecidableEq, Repr

/-- `VerifyRequest.code`: `Field(min_length=4, max_length=12)`. -/
abbrev Code := { c : String // 4 ≤ c.length ∧ c.length ≤ 12 }

def codeDigits : ℕ := 6

/-- `f"{n:06d}"` for a number of at most six digits. -/
def zeroPadded (n : ℕ) : String :=
  String.ofList ((List.range codeDigits).reverse.map fun k => Nat.digitChar (n / 10 ^ k % 10))

theorem zeroPadded_length (n : ℕ) : (zeroPadded n).length = codeDigits := by
  simp [zeroPadded]

/-- A draw of `secrets.randbelow`. -/
def drawn (n : ℕ) : Fin (10 ^ codeDigits) := Fin.ofNat (10 ^ codeDigits) n

/-- `generate_code`, with the draw of `secrets.randbelow` as its argument. -/
def generateCode (draw : Fin (10 ^ codeDigits)) : Code :=
  ⟨zeroPadded draw.val, by rw [zeroPadded_length]; decide⟩

/-- The keyed code hash of `app.auth.email` and bcrypt behind `app.auth.passwords`: `hashpw` takes
the salt and fails where bcrypt raises `ValueError`, `checkpw` is `verify_password` itself, which
answers `False` there. -/
structure Deps where
  settings : Settings
  hashCode : Code → Text
  hashpw : String → String → Option Text
  checkpw : String → Text → Bool

/-- Back ends that only mark their input, for worked runs. -/
def transparent : Deps where
  settings := {}
  hashCode code := ⟨code.val, by
    intro h
    have hlen := code.property.1
    rw [h] at hlen
    exact absurd hlen (by decide)⟩
  hashpw _ password := some ⟨"$2b$" ++ password, by
    intro h
    have hlen := congrArg String.length h
    simp at hlen⟩
  checkpw password h := "$2b$" ++ password = h.val

def verifyCode (d : Deps) (code : Code) (codeHash : Text) : Bool := d.hashCode code = codeHash

/-! ## Rows -/

structure User where
  id : ℕ
  googleSub : Option Text := none
  passwordHash : Option Text := none
  email : Option Text := none
  emailVerified : Bool := false
  emailVerifyCodeHash : Option Text := none
  emailVerifyCodeExpiresAt : Option ℕ := none
  emailVerifyAttempts : ℕ := 0
  pendingEmail : Option Text := none
  twoFactorEnabled : Bool := false
  loginCodeHash : Option Text := none
  loginCodeExpiresAt : Option ℕ := none
  loginCodeAttempts : ℕ := 0
  name : Option String := none
  avatarUrl : Option String := none
  deriving DecidableEq, Repr

/-- The table with the supply of `gen_random_uuid()`, which never repeats an id. -/
structure Db where
  users : List User := []
  nextId : ℕ := 0
  deriving DecidableEq, Repr

def findById (users : List User) (id : ℕ) : Option User := users.find? fun u => u.id = id

/-- `session.query(User).filter_by(email=email).one_or_none()`; `email` is UNIQUE. -/
def findByEmail (users : List User) (email : Text) : Option User :=
  users.find? fun u => u.email = some email

/-- `session.query(User).filter_by(google_sub=sub).one_or_none()`; `google_sub` is UNIQUE. -/
def findBySub (users : List User) (sub : Text) : Option User :=
  users.find? fun u => u.googleSub = some sub

def emailTaken (users : List User) (id : ℕ) (email : Text) : Bool :=
  users.any fun v => v.email = some email && v.id ≠ id

/-- Whether committing `u` breaks `UNIQUE (email)` or `UNIQUE (google_sub)`; NULLs never clash. -/
def conflicts (users : List User) (u : User) : Bool :=
  users.any fun v => v.id ≠ u.id &&
    ((u.email.isSome && v.email = u.email) || (u.googleSub.isSome && v.googleSub = u.googleSub))

def storeRow (users : List User) (u : User) : List User :=
  users.map fun v => if v.id = u.id then u else v

/-- `INSERT INTO users`, the row taking the next id. -/
def insertRow (db : Db) (u : User) : Db :=
  { users := db.users ++ [u], nextId := db.nextId + 1 }

def eraseRow (users : List User) (id : ℕ) : List User := users.filter fun v => v.id ≠ id

theorem findById_some {users : List User} {id : ℕ} {u : User} (h : findById users id = some u) :
    u ∈ users ∧ u.id = id :=
  ⟨List.mem_of_find?_eq_some h, by simpa using List.find?_some h⟩

theorem findByEmail_some {users : List User} {e : Text} {u : User}
    (h : findByEmail users e = some u) : u ∈ users ∧ u.email = some e :=
  ⟨List.mem_of_find?_eq_some h, by simpa using List.find?_some h⟩

theorem findBySub_some {users : List User} {s : Text} {u : User}
    (h : findBySub users s = some u) : u ∈ users ∧ u.googleSub = some s :=
  ⟨List.mem_of_find?_eq_some h, by simpa using List.find?_some h⟩

theorem mem_storeRow {users : List User} {u v : User} (h : v ∈ storeRow users u) :
    v = u ∨ (v ∈ users ∧ v.id ≠ u.id) := by
  obtain ⟨x, hx, hxv⟩ := List.mem_map.mp h
  split at hxv
  · exact Or.inl hxv.symm
  · rename_i hne
    subst hxv
    exact Or.inr ⟨hx, hne⟩

theorem mem_eraseRow {users : List User} {id : ℕ} {v : User} :
    v ∈ eraseRow users id ↔ v ∈ users ∧ v.id ≠ id := by
  simp [eraseRow]

theorem storeRow_ids (users : List User) (u : User) :
    (storeRow users u).map User.id = users.map User.id := by
  unfold storeRow
  rw [List.map_map]
  apply List.map_congr_left
  intro v _
  simp only [Function.comp_apply]
  split
  · rename_i h; exact h.symm
  · rfl

/-! ## Cookie and mails -/

/-- What `request.session` holds of an account: signed, so a client cannot make one up. -/
structure Cookie where
  userId : Option ℕ := none
  pending2fa : Option ℕ := none
  deriving DecidableEq, Repr

inductive Mail where
  | verification (toEmail : Text) (code : Code)
  | loginCode (toEmail : Option Text) (code : Code)
  | accountDeleted (toEmail : Option Text)
  deriving DecidableEq, Repr

structure UserPayload where
  id : ℕ
  email : Option Text
  name : Option String
  avatarUrl : Option String
  emailVerified : Bool
  pendingEmail : Option Text
  hasPassword : Bool
  twoFactorEnabled : Bool
  deriving DecidableEq, Repr

def userPayload (u : User) : UserPayload where
  id := u.id
  email := u.email
  name := u.name
  avatarUrl := u.avatarUrl
  emailVerified := u.emailVerified
  pendingEmail := u.pendingEmail
  hasPassword := u.passwordHash.isSome
  twoFactorEnabled := u.twoFactorEnabled

/-- The answers of the account endpoints; `serverError` is an exception no handler catches. -/
inductive Reply where
  | user (p : UserPayload)
  | nobody
  | pending2fa
  | status (s : String)
  | redirect (path : String)
  | http (code : ℕ) (detail : String)
  | serverError
  deriving DecidableEq, Repr

end WarsawEvents.Accounts
