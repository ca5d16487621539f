import WarsawEvents.Accounts.Reachable

/-! # Uploaded pictures beside the accounts

`app.api.avatars` on top of the account endpoints: `user_avatars` has one row a user, which goes with the
user, and `users.avatar_url` points at the public route once a picture is stored. Pillow is a parameter.
-/

namespace WarsawEvents.Accounts
set_option autoImplicit false

abbrev Bytes := List UInt8

/-- The settings of the upload, and `_process_image` with the detail of its 400. -/
structure Imaging where
  maxUploadBytes : ℕ := 5 * 1024 * 1024
  process : Bytes → Except String Bytes

/-- `ck_user_avatars_size`. -/
def maxStoredBytes : ℕ := 524288

/-- The `user_avatars` row, as far as it is served. -/
structure Avatar where
  userId : ℕ
  data : Bytes
  contentType : String
  deriving DecidableEq

inductive AvatarReply where
  | avatarUrl (url : String)
  | removed
  | http (code : ℕ) (detail : String)
  | serverError
  deriving DecidableEq

/-- `f"/avatars/{user.id}?v={version}"`. -/
def avatarPath (id version : ℕ) : String := "/avatars/" ++ toString id ++ "?v=" ++ toString version

def avatarOf (avatars : List Avatar) (id : ℕ) : Option Avatar := avatars.find? fun a => a.userId = id

/-- `INSERT INTO user_avatars ... ON CONFLICT (user_id) DO UPDATE`. -/
def upsertAvatar (avatars : List Avatar) (a : Avatar) : List Avatar :=
  if (avatarOf avatars a.userId).isSome then
    avatars.map fun b => if b.userId = a.userId then a else b
  else avatars ++ [a]

/-- `ON DELETE CASCADE`. -/
def cascade (users : List User) (avatars : List Avatar) : List Avatar :=
  avatars.filter fun a => (findById users a.userId).isSome

/-- `current_user`, or the cookie that its 401 leaves. -/
def currentUserOr401 (users : List User) (c : Cookie) : Except Cookie User :=
  match c.userId with
  | none => .error c
  | some id =>
    match findById users id with
    | none => .error {}
    | some u => .ok u

structure AvatarOutcome where
  users : List User
  avatars : List Avatar
  cookie : Cookie
  reply : AvatarReply

section
variable (im : Imaging) (users : List User) (avatars : List Avatar) (c : Cookie)

def AvatarOutcome.refused (c : Cookie) (reply : AvatarReply) : AvatarOutcome :=
  { users := users, avatars := avatars, cookie := c, reply := reply }

/-- What the row of a processed image is. -/
def jpeg (id : ℕ) (data : Bytes) : Avatar :=
  { userId := id, data := data, contentType := "image/jpeg" }

def second : ℕ := 1000000

def uploadAvatar (now : ℕ) (raw : Bytes) : AvatarOutcome :=
  match currentUserOr401 users c with
  | .error c' => .refused users avatars c' (.http 401 "Not authenticated")
  | .ok u =>
    let raw := raw.take (im.maxUploadBytes + 1)
    if im.maxUploadBytes < raw.length then
      .refused users avatars c (.http 413
        ("Image too large (max " ++ toString (im.maxUploadBytes / (1024 * 1024)) ++ " MB)"))
    else if raw.isEmpty then .refused users avatars c (.http 400 "Empty upload")
    else
      match im.process raw with
      | .error detail => .refused users avatars c (.http 400 detail)
      | .ok data =>
        -- the CHECK of the table
        if maxStoredBytes < data.length then .refused users avatars c .serverError
        else
          let url := avatarPath u.id (now / second)
          { users := storeRow users { u with avatarUrl := some url }
            avatars := upsertAvatar avatars (jpeg u.id data)
            cookie := c, reply := .avatarUrl url }

def deleteAvatar : AvatarOutcome :=
  match currentUserOr401 users c with
  | .error c' => .refused users avatars c' (.http 401 "Not authenticated")
  | .ok u =>
    { users := storeRow users { u with avatarUrl := none }
      avatars := avatars.filter fun a => a.userId ≠ u.id
      cookie := c, reply := .removed }

end

/-! ## Runs of both kinds of requests -/

structure Profiles where
  world : World := {}
  avatars : List Avatar := []

inductive ProfileEvent where
  | account (ev : Event)
  | upload (browser : ℕ) (cookie : Cookie) (now : ℕ) (raw : Bytes)
  | removeAvatar (browser : ℕ) (cookie : Cookie)
  deriving DecidableEq

inductive ProfileReply where
  | account (r : Reply)
  | avatar (r : AvatarReply)
  deriving DecidableEq

/-- The state after a request to an avatar endpoint by a browser that holds its cookie. -/
def Profiles.answer (p : Profiles) (browser : ℕ) (cookie : Cookie) (o : AvatarOutcome) :
    Option (Profiles × ProfileReply) :=
  if cookie = {} || p.world.issued.contains (browser, cookie) then
    some ({ world :=
              { db := { p.world.db with users := o.users }
                issued := p.world.issued ++ [(browser, o.cookie)] }
            avatars := o.avatars }, .avatar o.reply)
  else none

def serveProfile (d : Deps) (im : Imaging) (p : Profiles) :
    ProfileEvent → Option (Profiles × ProfileReply)
  | .account ev => (serve d p.world ev).map fun (w, r) =>
      ({ world := w, avatars := cascade w.db.users p.avatars }, .account r)
  | .upload browser cookie now raw =>
    p.answer browser cookie (uploadAvatar im p.world.db.users p.avatars cookie now raw)
  | .removeAvatar browser cookie =>
    p.answer browser cookie (deleteAvatar p.world.db.users p.avatars cookie)

abbrev ProfileGuard := List (ProfileEvent × ProfileReply) → Profiles → ProfileEvent → Prop

/-! ## What one request to an avatar endpoint does -/

section Inversion
variable {im : Imaging} {users : List User} {avatars : List Avatar} {c : Cookie} {u : User}
  {now : ℕ} {raw : Bytes} {o : AvatarOutcome}

theorem currentUserOr401_ok (h : currentUserOr401 users c = .ok u) :
    u ∈ users ∧ c.userId = some u.id := by
  unfold currentUserOr401 at h
  split at h
  · cases h
  · rename_i id hid
    split at h
    · cases h
    · rename_i v hv
      cases h
      obtain ⟨hmem, rfl⟩ := findById_some hv
      exact ⟨hmem, hid⟩

variable (im users avatars c now raw) in
/-- An upload changes nothing, or stores the picture of the signed-in user and the link to it. -/
theorem uploadAvatar_cases :
    (∃ c' reply, uploadAvatar im users avatars c now raw = .refused users avatars c' reply ∧
      ∀ url, reply ≠ .avatarUrl url) ∨
    ∃ u data, u ∈ users ∧ c.userId = some u.id ∧ data.length ≤ maxStoredBytes ∧
      uploadAvatar im users avatars c now raw =
        { users := storeRow users { u with avatarUrl := some (avatarPath u.id (now / second)) }
          avatars := upsertAvatar avatars (jpeg u.id data)
          cookie := c, reply := .avatarUrl (avatarPath u.id (now / second)) } := by
  unfold uploadAvatar
  cases hcurrent : currentUserOr401 users c with
  | error c' => exact Or.inl ⟨_, _, rfl, nofun⟩
  | ok u =>
    obtain ⟨hmem, hid⟩ := currentUserOr401_ok hcurrent
    simp only
    split
    · exact Or.inl ⟨_, _, rfl, nofun⟩
    · split
      · exact Or.inl ⟨_, _, rfl, nofun⟩
      · split
        · exact Or.inl ⟨_, _, rfl, nofun⟩
        · split
          · exact Or.inl ⟨_, _, rfl, nofun⟩
          · exact Or.inr ⟨u, _, hmem, hid, Nat.le_of_not_lt ‹_›, rfl⟩

variable (users avatars c) in
theorem deleteAvatar_cases :
    (∃ c' reply, deleteAvatar users avatars c = .refused users avatars c' reply) ∨
    ∃ u, u ∈ users ∧ c.userId = some u.id ∧
      deleteAvatar users avatars c =
        { users := storeRow users { u with avatarUrl := none }
          avatars := avatars.filter fun a => a.userId ≠ u.id
          cookie := c, reply := .removed } := by
  unfold deleteAvatar
  cases hcurrent : currentUserOr401 users c with
  | error c' => exact Or.inl ⟨_, _, rfl⟩
  | ok u =>
    obtain ⟨hmem, hid⟩ := currentUserOr401_ok hcurrent
    exact Or.inr ⟨u, hmem, hid, rfl⟩

/-- The rows after a request to an avatar endpoint. -/
def Relinked (users : List User) (c : Cookie) (users' : List User) : Prop :=
  users' = users ∨
    ∃ u link, u ∈ users ∧ c.userId = some u.id ∧ users' = storeRow users { u with avatarUrl := link }

theorem uploadAvatar_relinked :
    Relinked users c (uploadAvatar im users avatars c now raw).users := by
  obtain ⟨c', reply, h, _⟩ | ⟨u, data, hmem, hid, _, h⟩ :=
    uploadAvatar_cases im users avatars c now raw
  · rw [h]
    exact Or.inl rfl
  · rw [h]
    exact Or.inr ⟨u, _, hmem, hid, rfl⟩

theorem deleteAvatar_relinked : Relinked users c (deleteAvatar users avatars c).users := by
  obtain ⟨c', reply, h⟩ | ⟨u, hmem, hid, h⟩ := deleteAvatar_cases users avatars c
  · rw [h]
    exact Or.inl rfl
  · rw [h]
    exact Or.inr ⟨u, _, hmem, hid, rfl⟩

theorem Profiles.answer_some {p p' : Profiles} {browser : ℕ} {reply : ProfileReply}
    (h : p.answer browser c o = some (p', reply)) :
    p'.world.db = { p.world.db with users := o.users } ∧ p'.avatars = o.avatars ∧
      reply = .avatar o.reply := by
  unfold Profiles.answer at h
  split at h
  · cases h
    exact ⟨rfl, rfl, rfl⟩
  · cases h

theorem Db.Ok.relinked {db : Db} {users' : List User} (h : db.Ok)
    (hrelinked : Relinked db.users c users') : Db.Ok { db with users := users' } := by
  rcases hrelinked with rfl | ⟨u, link, hmem, _, rfl⟩
  · exact h
  · exact h.store hmem rfl

theorem serveProfile_ok {d : Deps} {p p' : Profiles} {ev : ProfileEvent} {reply : ProfileReply}
    (h : p.world.db.Ok) (hstep : serveProfile d im p ev = some (p', reply)) :
    p'.world.db.Ok ∧ p.world.db.nextId ≤ p'.world.db.nextId := by
  cases ev with
  | account e =>
    obtain ⟨⟨w, r⟩, hserve, hp⟩ := Option.map_eq_some_iff.mp hstep
    cases hp
    obtain ⟨o, hs, _, hdb, _, _⟩ := serve_some hserve
    simp only [hdb]
    exact ⟨hs.ok h, hs.nextId_le⟩
  | upload browser c now raw =>
    rw [(Profiles.answer_some hstep).1]
    exact ⟨h.relinked uploadAvatar_relinked, Nat.le_refl _⟩
  | removeAvatar browser c =>
    rw [(Profiles.answer_some hstep).1]
    exact ⟨h.relinked deleteAvatar_relinked, Nat.le_refl _⟩

end Inversion

/-- Runs of `serveProfile` from the empty tables whose steps all meet the guard. -/
abbrev ProfileReached (d : Deps) (im : Imaging) (G : ProfileGuard)
    (past : List (ProfileEvent × ProfileReply)) (p : Profiles) : Prop :=
  Runs.Run (Runs.guarded G (serveProfile d im)) [] {} past p

theorem ProfileReached.ok {d : Deps} {im : Imaging} {G : ProfileGuard}
    {past : List (ProfileEvent × ProfileReply)} {p : Profiles}
    (h : ProfileReached d im G past p) : p.world.db.Ok := by
  refine h.invariant_of_init (fun _ p => p.world.db.Ok) ?_ Db.Ok.init
  rintro past p ⟨ev, reply⟩ p' hok ⟨_, hstep⟩
  exact (serveProfile_ok hok hstep).1

end WarsawEvents.Accounts
