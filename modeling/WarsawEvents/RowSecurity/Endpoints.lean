import WarsawEvents.RowSecurity.Database

/-! # The authenticated endpoints on private rows

`app.api.social`, `app.api.saved`, `app.api.files`, and the export and the deletion of `app.api.auth`,
statement by statement. `serve` is one authenticated request: `current_user` loads the caller and pins
the identity, the endpoint runs, and what it did not commit is rolled back.
-/

namespace WarsawEvents.RowSecurity
set_option autoImplicit false

open Accounts (Text User Mail UserPayload)
open Coupling

/-! ## Answers -/

/-- Relationship to the requester. -/
inductive Relation where
  | self
  | friends
  | requestSent
  | requestReceived
  | none
  deriving DecidableEq, Repr

structure PublicUser where
  id : ℕ
  name : Option String
  avatarUrl : Option String
  friendship : Relation := .none
  online : Bool := false
  deriving DecidableEq, Repr

structure ItemOut where
  item : Item
  blurb : Option String := none
  deriving DecidableEq

structure SharedEventOut where
  id : ℕ
  item : ItemOut
  fromUser : PublicUser
  message : Option String
  createdAt : ℕ
  deriving DecidableEq

structure FileOut where
  id : ℕ
  itemId : ℕ
  itemName : String
  filename : String
  contentType : String
  size : ℕ
  createdAt : ℕ
  deriving DecidableEq, Repr

/-- The JSON document of `GET /me/export`, before it is rendered. -/
structure Export where
  user : UserPayload
  savedItems : List (ℕ × ℕ)
  friendships : List (ℕ × ℕ × FriendshipStatus × ℕ)
  sharedEvents : List (ℕ × ℕ × ℕ × ℕ)
  files : List (ℕ × String × String × ℕ × ℕ)
  deriving DecidableEq

inductive Response where
  | status (s : String)
  | users (us : List PublicUser)
  | user (u : PublicUser)
  | items (is : List ItemOut)
  | ids (ids : List ℕ)
  | shares (ss : List SharedEventOut)
  | files (fs : List FileOut)
  | created (f : FileOut)
  | content (data : List UInt8) (mediaType disposition filename : String)
  | export (e : Export)
  | account (r : Accounts.Reply)
  | http (code : ℕ) (detail : String)
  | serverError
  deriving DecidableEq

/-! ## What the endpoints call outside the database -/

/-- The exceptions of Pillow that the upload code can meet. -/
inductive PillowError where
  | unidentifiedImage
  | osError
  | valueError
  | syntaxError
  | decompressionBomb
  deriving DecidableEq, Repr

structure PillowImage where
  format : Option String
  width : ℕ
  height : ℕ
  verify : Option PillowError

structure Env where
  now : ℕ
  /-- What `gen_random_uuid()` draws for the row that the request inserts. -/
  newId : ℕ := 0
  deps : Accounts.Deps
  filesMaxUploadBytes : ℕ := 5 * 1024 * 1024
  filesMaxPerUser : ℕ := 20
  /-- `ILIKE` with backslash as escape: pattern, text. -/
  ilike : String → String → Bool
  /-- The order of the database's collation. -/
  collate : String → String → Bool
  openImage : List UInt8 → Except PillowError PillowImage

abbrev Handler (α : Type) := Prog Sess Response α

variable (env : Env)

/-! ## Social -/

/-- `ONLINE_WINDOW`, in microseconds. -/
def onlineWindow : ℕ := 2 * Accounts.minute

def isOnline (u : Person) : Bool :=
  match u.lastSeenAt with
  | none => false
  | some seen => env.now < seen + onlineWindow

def friendship (a b : ℕ) : Handler (Option Friendship) := do
  let rows ← select friendships fun f =>
    (f.requesterId = a && f.addresseeId = b) || (f.requesterId = b && f.addresseeId = a)
  oneOrNone .serverError rows

def statusOf (row : Option Friendship) (me : ℕ) : Relation :=
  match row with
  | none => .none
  | some f =>
    if f.status = .accepted then .friends
    else if f.requesterId = me then .requestSent else .requestReceived

def areFriends (a b : ℕ) : Handler Bool := do
  let row ← friendship a b
  pure (row.any fun f => f.status = .accepted)

def publicUser (u : Person) (friendship : Relation) : PublicUser where
  id := u.id
  name := u.name
  avatarUrl := u.avatarUrl
  friendship := friendship
  online := isOnline env u

def itemOut (i : Item) : ItemOut := { item := i }

/-- `term.replace("\\", "\\\\").replace("%", "\\%").replace("_", "\\_")`. -/
def escapeLike (term : String) : String :=
  String.ofList (term.toList.flatMap fun c =>
    if c = '\\' || c = '%' || c = '_' then ['\\', c] else [c])

/-- The other party of a friendship row. -/
def Friendship.other (f : Friendship) (me : ℕ) : ℕ :=
  if f.requesterId = me then f.addresseeId else f.requesterId

def Friendship.involves (me : ℕ) (f : Friendship) : Bool :=
  f.requesterId = me || f.addresseeId = me

/-- `_my_statuses`: a later row overwrites an earlier one. -/
def myStatuses (me : ℕ) : Handler (ℕ → Relation) := do
  let rows ← select friendships (Friendship.involves me)
  pure fun other => statusOf (rows.reverse.find? fun f => f.other me = other) me

def searchUsers (me : ℕ) (q : String) : Handler Response := do
  let pattern := "%" ++ escapeLike (PyText.strip q) ++ "%"
  let found ← select users fun u => u.id ≠ me && u.name.any (env.ilike pattern)
  let statusByOther ← myStatuses me
  let byName := found.insertionSort fun a b => env.collate (a.name.getD "") (b.name.getD "")
  pure (.users ((byName.take 20).map fun u => publicUser env u (statusByOther u.id)))

def getProfile (me userId : ℕ) : Handler Response := do
  match ← getById users userId with
  | none => throw (.http 404 "User not found")
  | some target =>
    if target.id = me then pure (.user (publicUser env target .self))
    else
      let row ← friendship me target.id
      pure (.user (publicUser env target (statusOf row me)))

/-- The items of a user's saved rows, newest first. -/
def savedItemsOf (userId limit : ℕ) : Handler (List ItemOut) := do
  let saved ← select savedItems fun s => s.userId = userId
  let rows ← select items fun _ => true
  let newest := saved.insertionSort fun a b => b.createdAt ≤ a.createdAt
  pure (((newest.filterMap fun s => rows.find? fun i => i.id = s.itemId).take limit).map itemOut)

def getUserSaved (me userId limit : ℕ) : Handler Response := do
  if userId = me then
    let found ← savedItemsOf userId limit
    pure (.items found)
  else
    let ok ← areFriends me userId
    if ok then
      let found ← savedItemsOf userId limit
      pure (.items found)
    else throw (.http 403 "Only friends can see saved items")

def sendRequest (me userId : ℕ) : Handler Response := do
  if userId = me then throw (.http 400 "Cannot friend yourself")
  else
    match ← getById users userId with
    | none => throw (.http 404 "User not found")
    | some _ =>
      match ← friendship me userId with
      | some existing =>
        if existing.status = .accepted then throw (.http 409 "Already friends")
        else if existing.requesterId = me then throw (.http 409 "Request already sent")
        else
          update friendships .serverError (fun f => f.id = existing.id)
            fun f => { f with status := .accepted }
          commit
          pure (.status "friends")
      | none =>
        let _ ← insert friendships .serverError
          { id := env.newId, requesterId := me, addresseeId := userId, status := .pending
            createdAt := env.now }
        commit
        pure (.status "request_sent")

/-- The pending request from `userId` to me. -/
def Friendship.requestFrom (userId me : ℕ) (f : Friendship) : Bool :=
  f.requesterId = userId && f.addresseeId = me && f.status = .pending

def acceptRequest (me userId : ℕ) : Handler Response := do
  let rows ← select friendships (Friendship.requestFrom userId me)
  match ← oneOrNone .serverError rows with
  | none => throw (.http 404 "No pending request from this user")
  | some row =>
    update friendships .serverError (fun f => f.id = row.id) fun f => { f with status := .accepted }
    commit
    pure (.status "friends")

def declineRequest (me userId : ℕ) : Handler Response := do
  delete friendships (Friendship.requestFrom userId me)
  commit
  pure (.status "declined")

def removeFriend (me userId : ℕ) : Handler Response := do
  delete friendships fun f =>
    (f.requesterId = me && f.addresseeId = userId) || (f.requesterId = userId && f.addresseeId = me)
  commit
  pure (.status "removed")

/-- The users with these ids, labelled. -/
def publicUsers (ids : List ℕ) (relation : Relation) : Handler Response := do
  if ids.isEmpty then pure (.users [])
  else
    let found ← select users fun u => ids.contains u.id
    pure (.users (found.map fun u => publicUser env u relation))

def listFriends (me limit : ℕ) : Handler Response := do
  let rows ← select friendships fun f => f.status = .accepted && Friendship.involves me f
  publicUsers env ((rows.take limit).map fun f => f.other me) .friends

def listRequests (me limit : ℕ) : Handler Response := do
  let rows ← select friendships fun f => f.addresseeId = me && f.status = .pending
  publicUsers env ((rows.take limit).map Friendship.requesterId) .requestReceived

structure ShareRequest where
  toUserId : ℕ
  itemId : ℕ
  message : Option String := none
  messageLength : (message.getD "").length ≤ 500 := by decide
  deriving DecidableEq

def shareEvent (me : ℕ) (req : ShareRequest) : Handler Response := do
  let ok ← areFriends me req.toUserId
  if ok then
    match ← getById items req.itemId with
    | none => throw (.http 404 "Item not found")
    | some _ =>
      insertIgnore sharedEvents .serverError
        { id := env.newId, fromUserId := me, toUserId := req.toUserId, itemId := req.itemId
          message := req.message, createdAt := env.now }
      commit
      pure (.status "shared")
  else throw (.http 403 "You can only share with friends")

def listSharedWithMe (me limit : ℕ) : Handler Response := do
  let rows ← select sharedEvents fun s => s.toUserId = me
  let cards ← select items fun _ => true
  let senders ← select users fun _ => true
  let newest := rows.insertionSort fun a b => b.createdAt ≤ a.createdAt
  let joined := newest.filterMap fun s =>
    match cards.find? fun i => i.id = s.itemId, senders.find? fun u => u.id = s.fromUserId with
    | some item, some sender =>
      some { id := s.id, item := itemOut item, fromUser := publicUser env sender .friends
             message := s.message, createdAt := s.createdAt }
    | _, _ => none
  pure (.shares (joined.take limit))

def dismissShared (me shareId : ℕ) : Handler Response := do
  delete sharedEvents fun s => s.id = shareId && s.toUserId = me
  commit
  pure (.status "removed")

def heartbeat (me : ℕ) : Handler Response := do
  update users .serverError (fun u => u.id = me) fun u => { u with lastSeenAt := some env.now }
  commit
  pure (.status "ok")

/-! ## Saved items -/

def listSaved (me limit : ℕ) : Handler Response := do
  let found ← savedItemsOf me limit
  pure (.items found)

def savedIds (me : ℕ) : Handler Response := do
  let rows ← select savedItems fun s => s.userId = me
  pure (.ids (rows.map SavedItem.itemId))

def saveItem (me itemId : ℕ) : Handler Response := do
  match ← getById items itemId with
  | none => throw (.http 404 "Item not found")
  | some _ =>
    insertIgnore savedItems .serverError
      { id := env.newId, userId := me, itemId := itemId, createdAt := env.now }
    commit
    pure (.status "saved")

def unsaveItem (me itemId : ℕ) : Handler Response := do
  delete savedItems fun s => s.userId = me && s.itemId = itemId
  commit
  pure (.status "removed")

/-! ## Attachments -/

def pdfMagic : List UInt8 := [0x25, 0x50, 0x44, 0x46, 0x2d]

def imageFormats : List (String × String) :=
  [("PNG", "image/png"), ("JPEG", "image/jpeg"), ("WEBP", "image/webp"), ("GIF", "image/gif")]

def maxFilePixels : ℕ := 50000000

def unsupported : Response := .http 415 "Use a PDF or a PNG, JPEG, WebP or GIF image"

/-- `_sniff`. `UnidentifiedImageError` is an `OSError`, so `verify` may raise it too. -/
def sniff (raw : List UInt8) : Except Response String :=
  if pdfMagic.isPrefixOf raw then .ok "application/pdf"
  else
    match env.openImage raw with
    | .error .decompressionBomb => .error .serverError
    | .error .syntaxError => .error .serverError
    | .error _ => .error unsupported
    | .ok img =>
      match imageFormats.lookup (img.format.getD "") with
      | none => .error unsupported
      | some mime =>
        if maxFilePixels < img.width * img.height then
          .error (.http 400 "Image dimensions too large")
        else
          match img.verify with
          | some _ => .error (.http 400 "Not a valid image")
          | none => .ok mime

def maxFilename : ℕ := 120

def cleanFilename (name : Option String) : String :=
  let base := ((name.getD "").toList.reverse.takeWhile fun c => c ≠ '/' && c ≠ '\\').reverse
  let kept := base.filter fun c => !(c.toNat ≤ 0x1f || c.toNat = 0x7f)
  let short := (PyText.strip (String.ofList kept)).toList.take maxFilename
  if short.isEmpty then "file" else String.ofList short

def fileOut (f : UserFile) (itemName : String) : FileOut where
  id := f.id
  itemId := f.itemId
  itemName := itemName
  filename := f.filename
  contentType := f.contentType
  size := f.size
  createdAt := f.createdAt

def listFiles (me : ℕ) : Handler Response := do
  let rows ← select userFiles fun f => f.userId = me
  let cards ← select items fun _ => true
  let newest := rows.insertionSort fun a b => b.createdAt ≤ a.createdAt
  pure (.files (newest.filterMap fun f =>
    (cards.find? fun i => i.id = f.itemId).map fun i => fileOut f i.name))

structure Upload where
  itemId : ℕ
  data : List UInt8
  filename : Option String := none
  deriving DecidableEq

/-- The checks of `upload_file` that need no database: the stored type, or the refusal. -/
def checkUpload (up : Upload) : Except Response String :=
  let raw := up.data.take (env.filesMaxUploadBytes + 1)
  if env.filesMaxUploadBytes < raw.length then
    .error (.http 413 ("File too large (max " ++
      toString (env.filesMaxUploadBytes / (1024 * 1024)) ++ " MB)"))
  else if raw.isEmpty then .error (.http 400 "Empty upload")
  else sniff env raw

def uploadedFile (me : ℕ) (up : Upload) (contentType : String) : UserFile where
  id := env.newId
  userId := me
  itemId := up.itemId
  filename := cleanFilename up.filename
  contentType := contentType
  size := up.data.length
  data := up.data
  createdAt := env.now

/-- `session.refresh`: an exception when the row cannot be seen. -/
def refresh {ρ : Type} (T : Table ρ) (id : ℕ) : Handler ρ := do
  match ← getById T id with
  | some r => pure r
  | none => throw .serverError

def uploadFile (me : ℕ) (up : Upload) : Handler Response := do
  match checkUpload env up with
  | .error r => throw r
  | .ok contentType =>
    match ← getById items up.itemId with
    | none => throw (.http 404 "Item not found")
    | some item =>
      let mine ← select userFiles fun f => f.userId = me
      if env.filesMaxPerUser ≤ mine.length then
        throw (.http 409 ("You can keep up to " ++ toString env.filesMaxPerUser ++
          " files. Delete one first."))
      else
        let row ← insert userFiles .serverError (uploadedFile env me up contentType)
        commit
        let row ← refresh userFiles row.id
        pure (.created (fileOut row item.name))

def ownFile (me fileId : ℕ) : Handler UserFile := do
  let rows ← select userFiles fun f => f.id = fileId && f.userId = me
  match rows.head? with
  | some f => pure f
  | none => throw (.http 404 "File not found")

/-- `get_file`; the bytes are a deferred column, read by key when the answer is built. -/
def getFile (me fileId : ℕ) (download : Bool) : Handler Response := do
  let f ← ownFile me fileId
  let full ← refresh userFiles f.id
  pure (.content full.data f.contentType (if download then "attachment" else "inline") f.filename)

def deleteFile (me fileId : ℕ) : Handler Response := do
  let f ← ownFile me fileId
  delete userFiles fun g => g.id = f.id
  commit
  pure (.status "removed")

/-! ## Export and deletion -/

def exportMe (me : Person) : Handler Response := do
  let saved ← select savedItems fun s => s.userId = me.id
  let friends ← select friendships (Friendship.involves me.id)
  let shared ← select sharedEvents fun s => s.fromUserId = me.id || s.toUserId = me.id
  let files ← select userFiles fun f => f.userId = me.id
  pure (.export
    { user := Accounts.userPayload me.toUser
      savedItems := saved.map fun s => (s.itemId, s.createdAt)
      friendships := friends.map fun f => (f.requesterId, f.addresseeId, f.status, f.createdAt)
      sharedEvents := shared.map fun s => (s.fromUserId, s.toUserId, s.itemId, s.createdAt)
      files := files.map fun f => (f.itemId, f.filename, f.contentType, f.size, f.createdAt) })

def deleteMe (me : Person) (currentPassword : Option String) : Handler Response := do
  match Accounts.deleteRefusal env.deps currentPassword me.toUser with
  | some r => throw (.account r)
  | none =>
    deleteUser me.id
    commit
    sendMail (.accountDeleted me.email)
    pure (.status "deleted")

/-! ## One request -/

inductive Call where
  | searchUsers (q : String)
  | getProfile (userId : ℕ)
  | getUserSaved (userId limit : ℕ)
  | sendRequest (userId : ℕ)
  | acceptRequest (userId : ℕ)
  | declineRequest (userId : ℕ)
  | removeFriend (userId : ℕ)
  | listFriends (limit : ℕ)
  | listRequests (limit : ℕ)
  | shareEvent (req : ShareRequest)
  | listSharedWithMe (limit : ℕ)
  | dismissShared (shareId : ℕ)
  | heartbeat
  | listSaved (limit : ℕ)
  | savedIds
  | saveItem (itemId : ℕ)
  | unsaveItem (itemId : ℕ)
  | listFiles
  | uploadFile (up : Upload)
  | getFile (fileId : ℕ) (download : Bool)
  | deleteFile (fileId : ℕ)
  | exportMe
  | deleteMe (currentPassword : Option String)

def Call.handler (me : Person) : Call → Handler Response
  | .searchUsers q => RowSecurity.searchUsers env me.id q
  | .getProfile userId => RowSecurity.getProfile env me.id userId
  | .getUserSaved userId limit => RowSecurity.getUserSaved me.id userId limit
  | .sendRequest userId => RowSecurity.sendRequest env me.id userId
  | .acceptRequest userId => RowSecurity.acceptRequest me.id userId
  | .declineRequest userId => RowSecurity.declineRequest me.id userId
  | .removeFriend userId => RowSecurity.removeFriend me.id userId
  | .listFriends limit => RowSecurity.listFriends env me.id limit
  | .listRequests limit => RowSecurity.listRequests env me.id limit
  | .shareEvent req => RowSecurity.shareEvent env me.id req
  | .listSharedWithMe limit => RowSecurity.listSharedWithMe env me.id limit
  | .dismissShared shareId => RowSecurity.dismissShared me.id shareId
  | .heartbeat => RowSecurity.heartbeat env me.id
  | .listSaved limit => RowSecurity.listSaved me.id limit
  | .savedIds => RowSecurity.savedIds me.id
  | .saveItem itemId => RowSecurity.saveItem env me.id itemId
  | .unsaveItem itemId => RowSecurity.unsaveItem me.id itemId
  | .listFiles => RowSecurity.listFiles me.id
  | .uploadFile up => RowSecurity.uploadFile env me.id up
  | .getFile fileId download => RowSecurity.getFile me.id fileId download
  | .deleteFile fileId => RowSecurity.deleteFile me.id fileId
  | .exportMe => RowSecurity.exportMe me
  | .deleteMe currentPassword => RowSecurity.deleteMe env me currentPassword

/-- `current_user`, then the endpoint. -/
def authenticated (uid : ℕ) (call : Call) : Handler Response := do
  match ← getById users uid with
  | none => throw (.http 401 "Not authenticated")
  | some me =>
    pin me.id
    call.handler env me

/-- One request as the given role: the answer, the database it leaves and the mails it sends. -/
def serve (role : Role) (db : Db) (uid : ℕ) (call : Call) : Response × Db × List Mail :=
  match exec (authenticated env uid call) { role := role, committed := db, view := db } with
  | (.ok r, s) => (r, s.committed, s.mails)
  | (.error r, s) => (r, s.committed, s.mails)

end WarsawEvents.RowSecurity
