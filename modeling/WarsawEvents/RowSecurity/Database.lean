import WarsawEvents.Accounts.Auth
import WarsawEvents.Foundations.Coupling
import Mathlib.Data.List.Sort
import Mathlib.Data.Rat.Defs

/-! # The tables behind the social endpoints, and who may touch which row

The rows of `app.catalog.models`, the policies of `app.main._ensure_rls`, and the statements an
endpoint runs inside one database session. The table owner bypasses the policies; the runtime role is
subject to them, under the identity `current_user` pinned in the open transaction. A commit ends that
transaction, and the identity is gone with it.
-/

namespace WarsawEvents.RowSecurity
set_option autoImplicit false

open Accounts (Text User Mail)
open Coupling

/-! ## Rows -/

/-- The columns of `items` that `ItemOut` shows. -/
structure Item where
  id : ℕ
  kind : String := "event"
  name : String := ""
  description : Option String := none
  category : Option String := none
  priceFrom : Option ℚ := none
  priceTo : Option ℚ := none
  imageUrl : Option String := none
  source : String := ""
  sourceUrl : Option String := none
  startsAt : Option ℕ := none
  endsAt : Option ℕ := none
  isPermanent : Bool := false
  deriving DecidableEq

/-- The `users` row: the account columns and the presence heartbeat. -/
structure Person extends User where
  lastSeenAt : Option ℕ := none
  deriving DecidableEq

inductive FriendshipStatus where
  | pending
  | accepted
  deriving DecidableEq, Repr

structure Friendship where
  id : ℕ
  requesterId : ℕ
  addresseeId : ℕ
  status : FriendshipStatus
  createdAt : ℕ := 0
  deriving DecidableEq, Repr

structure SharedEvent where
  id : ℕ
  fromUserId : ℕ
  toUserId : ℕ
  itemId : ℕ
  message : Option String := none
  createdAt : ℕ := 0
  deriving DecidableEq, Repr

structure SavedItem where
  id : ℕ
  userId : ℕ
  itemId : ℕ
  createdAt : ℕ := 0
  deriving DecidableEq, Repr

structure UserFile where
  id : ℕ
  userId : ℕ
  itemId : ℕ
  filename : String
  contentType : String
  size : ℕ
  data : List UInt8
  createdAt : ℕ := 0
  deriving DecidableEq

structure UserAvatar where
  userId : ℕ
  data : List UInt8
  contentType : String
  deriving DecidableEq

/-- The columns of `intent_logs` that the code writes, the intent itself as the text it is stored as. -/
structure IntentLog where
  id : ℕ
  userPrompt : String
  intent : String
  model : String
  latencyMs : Option ℕ := none
  deriving DecidableEq, Repr

structure Db where
  users : List Person := []
  items : List Item := []
  friendships : List Friendship := []
  sharedEvents : List SharedEvent := []
  savedItems : List SavedItem := []
  userFiles : List UserFile := []
  userAvatars : List UserAvatar := []
  intentLogs : List IntentLog := []
  deriving DecidableEq

def Db.hasUser (db : Db) (id : ℕ) : Bool := db.users.any fun u => u.id = id

def Db.hasItem (db : Db) (id : ℕ) : Bool := db.items.any fun i => i.id = id

/-! ## Tables and policies -/

/-- A table: where its rows are kept, the policies that `_ensure_rls` puts on it for the identity
`app.user_id` (`none` when unset), and the constraints of the schema: the primary key, the foreign keys
and checks, and the rows that a unique constraint keeps apart. -/
structure Table (ρ : Type) where
  rows : Db → List ρ
  put : Db → List ρ → Db
  key : ρ → ℕ
  forSelect : Db → Option ℕ → ρ → Bool := fun _ _ _ => true
  forInsert : Option ℕ → ρ → Bool := fun _ _ => true
  forUpdate : Option ℕ → ρ → Bool := fun _ _ => true
  forDelete : Option ℕ → ρ → Bool := fun _ _ => true
  constraints : Db → ρ → Bool := fun _ _ => true
  clashes : ρ → ρ → Bool := fun _ _ => false

/-- A row the table can take: it meets the constraints, and its primary key is new. -/
def Table.accepts {ρ : Type} (T : Table ρ) (db : Db) (r : ρ) : Bool :=
  T.constraints db r && !(T.rows db).any fun r' => T.key r' = T.key r

/-- `UNIQUE (email)` and `UNIQUE (google_sub)`, which leave `NULL` alone. -/
def users : Table Person where
  rows := Db.users
  put db rows := { db with users := rows }
  key u := u.id
  clashes u v := (u.email.isSome && u.email = v.email) || (u.googleSub.isSome && u.googleSub = v.googleSub)

/-- `ck_items_kind` and `uq_items_source_url`. -/
def items : Table Item where
  rows := Db.items
  put db rows := { db with items := rows }
  key := Item.id
  constraints _ i := i.kind = "event" || i.kind = "place"
  clashes i j := i.sourceUrl.isSome && i.source = j.source && i.sourceUrl = j.sourceUrl

/-- `p_friendships`: the two parties, for every operation. -/
def Friendship.party (me : Option ℕ) (f : Friendship) : Bool :=
  me = some f.requesterId || me = some f.addresseeId

def friendships : Table Friendship where
  rows := Db.friendships
  put db rows := { db with friendships := rows }
  key := Friendship.id
  forSelect _ := Friendship.party
  forInsert := Friendship.party
  forUpdate := Friendship.party
  forDelete := Friendship.party
  constraints db f := db.hasUser f.requesterId && db.hasUser f.addresseeId
  clashes f g := f.requesterId = g.requesterId && f.addresseeId = g.addresseeId

/-- `p_shared_select`, `p_shared_insert` and `p_shared_delete`; no policy admits an update. -/
def sharedEvents : Table SharedEvent where
  rows := Db.sharedEvents
  put db rows := { db with sharedEvents := rows }
  key := SharedEvent.id
  forSelect _ me s := me = some s.toUserId || me = some s.fromUserId
  forInsert me s := me = some s.fromUserId
  forUpdate _ _ := false
  forDelete me s := me = some s.toUserId
  constraints db s := db.hasUser s.fromUserId && db.hasUser s.toUserId && db.hasItem s.itemId
  clashes s t := s.fromUserId = t.fromUserId && s.toUserId = t.toUserId && s.itemId = t.itemId

/-- The subquery of `p_saved_select`, over the friendships `me` may see. -/
def acceptedFriend (db : Db) (me : Option ℕ) (other : ℕ) : Bool :=
  (db.friendships.filter (Friendship.party me)).any fun f =>
    f.status = .accepted &&
      ((me = some f.requesterId && f.addresseeId = other) ||
        (me = some f.addresseeId && f.requesterId = other))

/-- `p_saved_select`, `p_saved_insert` and `p_saved_delete`; no policy admits an update. -/
def savedItems : Table SavedItem where
  rows := Db.savedItems
  put db rows := { db with savedItems := rows }
  key := SavedItem.id
  forSelect db me s := me = some s.userId || acceptedFriend db me s.userId
  forInsert me s := me = some s.userId
  forUpdate _ _ := false
  forDelete me s := me = some s.userId
  constraints db s := db.hasUser s.userId && db.hasItem s.itemId
  clashes s t := s.userId = t.userId && s.itemId = t.itemId

/-- Keep in sync with `ck_user_files_type`. -/
def storedTypes : List String :=
  ["application/pdf", "image/png", "image/jpeg", "image/webp", "image/gif"]

/-- `p_user_files`: private to the uploader for every operation. -/
def userFiles : Table UserFile where
  rows := Db.userFiles
  put db rows := { db with userFiles := rows }
  key := UserFile.id
  forSelect _ me f := me = some f.userId
  forInsert me f := me = some f.userId
  forUpdate me f := me = some f.userId
  forDelete me f := me = some f.userId
  constraints db f := db.hasUser f.userId && db.hasItem f.itemId && f.data.length ≤ 5242880 &&
    storedTypes.contains f.contentType

/-- One row for each user, and `ck_user_avatars_size`. -/
def userAvatars : Table UserAvatar where
  rows := Db.userAvatars
  put db rows := { db with userAvatars := rows }
  key := UserAvatar.userId
  constraints db a := db.hasUser a.userId && a.data.length ≤ 524288

def intentLogs : Table IntentLog where
  rows := Db.intentLogs
  put db rows := { db with intentLogs := rows }
  key := IntentLog.id

/-! ## A database session -/

inductive Role where
  | owner
  | runtime
  deriving DecidableEq, Repr

/-- One request's session: the committed database, the open transaction's view of it, the identity
pinned in that transaction, and the mails sent. -/
structure Sess where
  role : Role
  committed : Db
  view : Db
  pinned : Option ℕ := none
  mails : List Mail := []
  deriving DecidableEq

/-- A policy's answer, which the table owner does not wait for. -/
def Sess.admits (s : Sess) (policy : Bool) : Bool := s.role = .owner || policy

section Statements
variable {ε ρ : Type}

def getSess : Prog Sess ε Sess := get

/-- `SELECT ... WHERE p`: rows no policy admits are invisible. -/
def select (T : Table ρ) (p : ρ → Bool) : Prog Sess ε (List ρ) := do
  let s ← getSess
  pure ((T.rows s.view).filter fun r => p r && s.admits (T.forSelect s.view s.pinned r))

/-- A new row must pass `WITH CHECK`, and be visible: its id is read back, or a conflict is looked
up. -/
def insertAllowed (T : Table ρ) (s : Sess) (r : ρ) : Bool :=
  s.admits (T.forInsert s.pinned r) && s.admits (T.forSelect s.view s.pinned r)

/-- `INSERT`: an exception when a policy or a constraint refuses the row. -/
def insert (T : Table ρ) (crash : ε) (r : ρ) : Prog Sess ε ρ := do
  let s ← getSess
  if !insertAllowed T s r || !T.accepts s.view r || (T.rows s.view).any (T.clashes r) then
    throw crash
  else
    set { s with view := T.put s.view (T.rows s.view ++ [r]) }
    pure r

/-- `INSERT ... ON CONFLICT ON CONSTRAINT ... DO NOTHING`; the policies are asked first, and a primary key
in use is no such conflict. -/
def insertIgnore (T : Table ρ) (crash : ε) (r : ρ) : Prog Sess ε Unit := do
  let s ← getSess
  if !insertAllowed T s r then throw crash
  else if (T.rows s.view).any (T.clashes r) then pure ()
  else if !T.accepts s.view r then throw crash
  else set { s with view := T.put s.view (T.rows s.view ++ [r]) }

/-- `UPDATE ... WHERE p`, which needs the row to be visible as well. -/
def update (T : Table ρ) (crash : ε) (p : ρ → Bool) (f : ρ → ρ) : Prog Sess ε Unit := do
  let s ← getSess
  let hit r := p r && s.admits (T.forSelect s.view s.pinned r) && s.admits (T.forUpdate s.pinned r)
  if (T.rows s.view).any fun r => hit r && !s.admits (T.forUpdate s.pinned (f r)) then throw crash
  else
    set { s with view := T.put s.view ((T.rows s.view).map fun r => if hit r then f r else r) }

def delete (T : Table ρ) (p : ρ → Bool) : Prog Sess ε Unit := do
  let s ← getSess
  let hit r := p r && s.admits (T.forSelect s.view s.pinned r) && s.admits (T.forDelete s.pinned r)
  set { s with view := T.put s.view ((T.rows s.view).filter fun r => !hit r) }

/-- `DELETE FROM users WHERE id = id` with its cascades, which no policy stops. -/
def deleteUser (id : ℕ) : Prog Sess ε Unit := do
  let s ← getSess
  set { s with view :=
    { s.view with
      users := s.view.users.filter fun u => u.id ≠ id
      friendships := s.view.friendships.filter fun f => f.requesterId ≠ id && f.addresseeId ≠ id
      sharedEvents := s.view.sharedEvents.filter fun e => e.fromUserId ≠ id && e.toUserId ≠ id
      savedItems := s.view.savedItems.filter fun e => e.userId ≠ id
      userFiles := s.view.userFiles.filter fun f => f.userId ≠ id
      userAvatars := s.view.userAvatars.filter fun a => a.userId ≠ id } }

/-- `set_config('app.user_id', id, true)`. -/
def pin (id : ℕ) : Prog Sess ε Unit := do
  let s ← getSess
  set { s with pinned := some id }

/-- `COMMIT`: what was set with `is_local` is unset. -/
def commit : Prog Sess ε Unit := do
  let s ← getSess
  set { s with committed := s.view, pinned := none }

def sendMail (m : Mail) : Prog Sess ε Unit := do
  let s ← getSess
  set { s with mails := s.mails ++ [m] }

/-- `Session.get`, and `scalar_one_or_none` where at most one row can match. -/
def getById (T : Table ρ) (id : ℕ) : Prog Sess ε (Option ρ) := do
  let rows ← select T fun r => T.key r = id
  pure rows.head?

/-- `scalar_one_or_none`: an exception for a second row. -/
def oneOrNone (crash : ε) : List ρ → Prog Sess ε (Option ρ)
  | [] => pure none
  | [r] => pure (some r)
  | _ => throw crash

end Statements

end WarsawEvents.RowSecurity
