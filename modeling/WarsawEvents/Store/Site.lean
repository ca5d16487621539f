import WarsawEvents.Accounts.Avatars
import WarsawEvents.Store.Effects

/-! # One database under every endpoint

The account and avatar endpoints, the social endpoints, the search and ingestion write one database.
`Site.step` serves one request of a browser that holds the cookie it presents, logs the intent of a
search, or stores what a run of ingestion leaves; the requests of the owner of the tables and of the
runtime role may mix.
-/

namespace WarsawEvents.Store
set_option autoImplicit false

open RowSecurity
open Accounts (Deps Imaging Cookie Profiles ProfileEvent ProfileReply Avatar)

/-- The database, the next id of an account, and the cookies handed out, each with the browser that got
it. -/
structure Site where
  db : Db := {}
  nextUser : ℕ := 0
  issued : List (ℕ × Cookie) := []

inductive Move where
  | profile (d : Deps) (im : Imaging) (ev : ProfileEvent)
  | social (env : Env) (role : Role) (browser : ℕ) (cookie : Cookie) (call : Call)
  | search (log : IntentLog)
  | ingest (cards : List Item)

inductive Answer where
  | profile (r : ProfileReply)
  | social (r : Response)
  | logged
  | ingested
  deriving DecidableEq

/-! ## The account endpoints on the shared tables -/

def toAvatar (a : UserAvatar) : Avatar where
  userId := a.userId
  data := a.data
  contentType := a.contentType

def ofAvatar (a : Avatar) : UserAvatar where
  userId := a.userId
  data := a.data
  contentType := a.contentType

/-- What the account and avatar endpoints see. -/
def Site.profiles (s : Site) : Profiles where
  world :=
    { db := { users := s.db.users.map Person.toUser, nextId := s.nextUser }
      issued := s.issued }
  avatars := s.db.userAvatars.map toAvatar

/-- The one column of `users` that these endpoints leave alone. -/
def lastSeenOf (people : List Person) (id : ℕ) : Option ℕ :=
  (people.find? fun p => p.id = id).bind Person.lastSeenAt

def knows (p : Profiles) (id : ℕ) : Bool := p.world.db.users.any fun u => u.id = id

/-- The tables once an account or avatar endpoint is done: a lost account takes its rows along. -/
def withProfiles (db : Db) (p : Profiles) : Db where
  users := p.world.db.users.map fun u => { toUser := u, lastSeenAt := lastSeenOf db.users u.id }
  items := db.items
  friendships := db.friendships.filter fun f => knows p f.requesterId && knows p f.addresseeId
  sharedEvents := db.sharedEvents.filter fun s => knows p s.fromUserId && knows p s.toUserId
  savedItems := db.savedItems.filter fun s => knows p s.userId
  userFiles := db.userFiles.filter fun f => knows p f.userId
  userAvatars := p.avatars.map ofAvatar
  intentLogs := db.intentLogs

/-! ## One step -/

/-- A request behind `current_user`: the answer, the database, and the cookie sent back. -/
def authorized (env : Env) (role : Role) (db : Db) (c : Cookie) (call : Call) :
    Response × Db × Cookie :=
  match c.userId with
  | none => (.http 401 "Not authenticated", db, c)
  | some me =>
    let served := serve env role db me call
    -- the session of a missing row is cleared, and so is that of an account that deletes itself
    let cleared := !db.hasUser me || served.1 = .status "deleted"
    (served.1, served.2.1, if cleared then {} else c)

/-- What ingestion does to the catalog: it keeps every card under its id and adds cards, within the
constraints of the table. -/
def isExtension (db : Db) (cards : List Item) : Bool :=
  (db.items.map Item.id).isPrefixOf (cards.map Item.id) && (cards.map Item.id).Nodup &&
    cards.all (items.constraints db) && cards.Pairwise fun i j => items.clashes i j = false

def Site.step (s : Site) : Move → Option (Site × Answer)
  | .profile d im ev => (Accounts.serveProfile d im s.profiles ev).map fun (p, r) =>
      ({ db := withProfiles s.db p, nextUser := p.world.db.nextId, issued := p.world.issued }, .profile r)
  | .social env role browser cookie call =>
    if cookie = {} ∨ s.issued.contains (browser, cookie) then
      let (r, db, cookie') := authorized env role s.db cookie call
      some ({ s with db := db, issued := s.issued ++ [(browser, cookie')] }, .social r)
    else none
  | .search log =>
    if intentLogs.accepts s.db log then
      some ({ s with db := { s.db with intentLogs := s.db.intentLogs ++ [log] } }, .logged)
    else none
  | .ingest cards =>
    if isExtension s.db cards then some ({ s with db := { s.db with items := cards } }, .ingested)
    else none

section Inversion
variable {s s' : Site} {answer : Answer}

theorem Site.step_profile {d : Deps} {im : Imaging} {ev : ProfileEvent}
    (h : s.step (.profile d im ev) = some (s', answer)) :
    ∃ p r, Accounts.serveProfile d im s.profiles ev = some (p, r) ∧ answer = .profile r ∧
      s' = { db := withProfiles s.db p, nextUser := p.world.db.nextId, issued := p.world.issued } := by
  obtain ⟨⟨p, r⟩, hserve, hs⟩ := Option.map_eq_some_iff.mp h
  cases hs
  exact ⟨p, r, hserve, rfl, rfl⟩

theorem Site.step_social {env : Env} {role : Role} {browser : ℕ} {cookie : Cookie} {call : Call}
    (h : s.step (.social env role browser cookie call) = some (s', answer)) :
    (cookie = {} ∨ (browser, cookie) ∈ s.issued) ∧
      answer = .social (authorized env role s.db cookie call).1 ∧ s' =
        { s with
          db := (authorized env role s.db cookie call).2.1
          issued := s.issued ++ [(browser, (authorized env role s.db cookie call).2.2)] } := by
  simp only [Site.step] at h
  split_ifs at h with hheld
  cases h
  exact ⟨hheld.imp_right List.contains_iff_mem.mp, rfl, rfl⟩

theorem Site.step_search {log : IntentLog} (h : s.step (.search log) = some (s', answer)) :
    intentLogs.accepts s.db log = true ∧ answer = .logged ∧
      s' = { s with db := { s.db with intentLogs := s.db.intentLogs ++ [log] } } := by
  simp only [Site.step] at h
  split_ifs at h with haccepts
  cases h
  exact ⟨haccepts, rfl, rfl⟩

theorem Site.step_ingest {cards : List Item} (h : s.step (.ingest cards) = some (s', answer)) :
    isExtension s.db cards = true ∧ answer = .ingested ∧
      s' = { s with db := { s.db with items := cards } } := by
  simp only [Site.step] at h
  split_ifs at h with hext
  cases h
  exact ⟨hext, rfl, rfl⟩

end Inversion

abbrev History := List (Move × Answer)

abbrev Guard := History → Site → Move → Prop

/-- The site after a run of requests and ingestions, from empty tables. -/
abbrev Reached (G : Guard) (past : History) (s : Site) : Prop :=
  Runs.Run (Runs.guarded G Site.step) [] {} past s

/-! ## Two users meet -/

/-- The site after the moves, in order, with their answers. -/
def played (moves : List Move) : History × Site :=
  (Runs.replay Runs.anyStep Site.step [] {} moves).getD ([], {})

theorem played_reached (moves : List Move)
    (h : (Runs.replay Runs.anyStep Site.step [] {} moves).isSome = true) :
    Reached Runs.anyStep (played moves).1 (played moves).2 :=
  Runs.replay_getD_run Runs.anyStep Site.step [] {} moves ([], {}) h

/-- One more move, with its answer. -/
def took (moves : List Move) (move : Move) : Option (Site × Answer) := (played moves).2.step move

theorem took_reached (moves : List Move) {move : Move} {answer : Answer} {s' : Site}
    (h : (Runs.replay Runs.anyStep Site.step [] {} moves).isSome = true)
    (hstep : took moves move = some (s', answer)) :
    Reached Runs.anyStep ((played moves).1 ++ [(move, answer)]) s' :=
  (played_reached moves h).snoc ⟨trivial, hstep⟩

theorem took_some (moves : List Move) (move : Move) (answer : Answer)
    (h : (took moves move).map Prod.snd = some answer) : ∃ s', took moves move = some (s', answer) := by
  obtain ⟨⟨s', answer'⟩, htook, hanswer⟩ := Option.map_eq_some_iff.mp h
  simp only at hanswer
  rw [htook, hanswer]
  exact ⟨s', rfl⟩

def otherSubject : Accounts.Text := ⟨"110", by decide⟩

def keptAsIs : Imaging := { process := fun raw => .ok raw }

def signsIn (browser : ℕ) (sub email : Accounts.Text) : Move :=
  .profile Accounts.transparent keptAsIs (.account
    { browser := browser, request := .callback (some { sub := some sub, email := some email })
      ambient := Accounts.atStart })

/-- A request by the one browser of a user. -/
def requests (me : ℕ) (role : Role) (call : Call) : Move :=
  .social plainEnv role me { userId := some me } call

/-- The users 0 and 1 become friends; 0 saves the card 2. -/
def meeting : List Move :=
  [signsIn 0 Accounts.subject Accounts.addressA, signsIn 1 otherSubject Accounts.addressB,
    .ingest [{ id := 2, name := "Chopin Gala" }], requests 0 .owner (.sendRequest 1),
    requests 1 .runtime (.acceptRequest 0), requests 0 .runtime (.saveItem 2)]

def attachment : Upload := { itemId := 2, data := pdfMagic }

/-- Then 0 attaches a file to the card. -/
def attaching : List Move := meeting ++ [requests 0 .owner (.uploadFile attachment)]

theorem meeting_reached : Reached Runs.anyStep (played meeting).1 (played meeting).2 :=
  played_reached meeting (by decide)

end WarsawEvents.Store
