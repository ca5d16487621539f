import WarsawEvents.Foundations.ReadOnly
import WarsawEvents.Friends.Labels

/-! # What one request commits

`Effect` lists, for every authenticated endpoint, the answers it can give and what the database is
afterwards; `serve_effect` is the inversion that every property of a run of requests is read from. It
holds for the owner of the tables and for the runtime role: the policies change no committed row.
-/

namespace WarsawEvents.Store
set_option autoImplicit false

open RowSecurity
open Friends (between newRow acceptRow Befriended)
open Coupling

/-! ## Effects -/

/-- The endpoints that write. -/
def writes : Call → Bool
  | .sendRequest _ | .acceptRequest _ | .declineRequest _ | .removeFriend _ => true
  | .shareEvent _ | .dismissShared _ | .heartbeat => true
  | .saveItem _ | .unsaveItem _ | .uploadFile _ | .deleteFile _ | .deleteMe _ => true
  | _ => false

/-- The answers that confirm a write. -/
def acknowledged : Response → Bool
  | .status _ => true
  | .created _ => true
  | _ => false

def shareRow (env : Env) (me : ℕ) (req : ShareRequest) : SharedEvent where
  id := env.newId
  fromUserId := me
  toUserId := req.toUserId
  itemId := req.itemId
  message := req.message
  createdAt := env.now

def savedRow (env : Env) (me itemId : ℕ) : SavedItem where
  id := env.newId
  userId := me
  itemId := itemId
  createdAt := env.now

section Rows
variable (env : Env) (db : Db) (me : ℕ)

/-- The tables without the account and with its cascades done. -/
def withoutAccount : Db :=
  { db with
    users := db.users.filter fun u => u.id ≠ me
    friendships := db.friendships.filter fun f => f.requesterId ≠ me && f.addresseeId ≠ me
    sharedEvents := db.sharedEvents.filter fun e => e.fromUserId ≠ me && e.toUserId ≠ me
    savedItems := db.savedItems.filter fun e => e.userId ≠ me
    userFiles := db.userFiles.filter fun f => f.userId ≠ me
    userAvatars := db.userAvatars.filter fun a => a.userId ≠ me }

/-- One request of the user `me`: what it answers, and the database after it. -/
inductive Effect : Call → Response → Db → Prop
  | kept {call : Call} {r : Response} :
      writes call = false ∨ acknowledged r = false → Effect call r db
  | requested {userId : ℕ} :
      userId ≠ me → (∀ f ∈ db.friendships, between me userId f = false) →
      friendships.accepts db (newRow env.now me userId env.newId) = true →
      Effect (.sendRequest userId) (.status "request_sent")
        { db with friendships := db.friendships ++ [newRow env.now me userId env.newId] }
  | accepted {call : Call} {f : Friendship} :
      call = .sendRequest f.requesterId ∨ call = .acceptRequest f.requesterId →
      f ∈ db.friendships → f.addresseeId = me → f.status = .pending →
      Effect call (.status "friends") { db with friendships := acceptRow db.friendships f.id }
  | declined {userId : ℕ} :
      Effect (.declineRequest userId) (.status "declined")
        { db with friendships := db.friendships.filter fun f => !Friendship.requestFrom userId me f }
  | removed {userId : ℕ} :
      Effect (.removeFriend userId) (.status "removed")
        { db with friendships := db.friendships.filter fun f => !between me userId f }
  | shared {req : ShareRequest} :
      Befriended db.friendships me req.toUserId →
      sharedEvents.accepts db (shareRow env me req) = true →
      (db.sharedEvents.any (sharedEvents.clashes (shareRow env me req))) = false →
      Effect (.shareEvent req) (.status "shared")
        { db with sharedEvents := db.sharedEvents ++ [shareRow env me req] }
  | sharedBefore {req : ShareRequest} :
      Befriended db.friendships me req.toUserId →
      db.sharedEvents.any (sharedEvents.clashes (shareRow env me req)) = true →
      Effect (.shareEvent req) (.status "shared") db
  | dismissed {shareId : ℕ} :
      Effect (.dismissShared shareId) (.status "removed")
        { db with sharedEvents := db.sharedEvents.filter fun s => !(s.id = shareId && s.toUserId = me) }
  | pinged :
      db.hasUser me = true → Effect .heartbeat (.status "ok")
        { db with users := db.users.map fun u =>
            if u.id = me then { u with lastSeenAt := some env.now } else u }
  | saved {itemId : ℕ} :
      savedItems.accepts db (savedRow env me itemId) = true →
      (db.savedItems.any (savedItems.clashes (savedRow env me itemId))) = false →
      Effect (.saveItem itemId) (.status "saved")
        { db with savedItems := db.savedItems ++ [savedRow env me itemId] }
  | savedBefore {itemId : ℕ} :
      db.savedItems.any (savedItems.clashes (savedRow env me itemId)) = true →
      Effect (.saveItem itemId) (.status "saved") db
  | unsaved {itemId : ℕ} :
      Effect (.unsaveItem itemId) (.status "removed")
        { db with savedItems := db.savedItems.filter fun s => !(s.userId = me && s.itemId = itemId) }
  | uploaded {up : Upload} {contentType : String} {r : Response} :
      checkUpload env up = .ok contentType →
      (db.userFiles.filter fun f => f.userId = me).length < env.filesMaxPerUser →
      userFiles.accepts db (uploadedFile env me up contentType) = true →
      (∃ f, r = .created f ∧ f.id = env.newId) ∨ r = .serverError →
      Effect (.uploadFile up) r
        { db with userFiles := db.userFiles ++ [uploadedFile env me up contentType] }
  | fileDeleted {f : UserFile} :
      f ∈ db.userFiles → f.userId = me →
      Effect (.deleteFile f.id) (.status "removed")
        { db with userFiles := db.userFiles.filter fun g => !(g.id = f.id : Bool) }
  | accountDeleted {currentPassword : Option String} :
      Effect (.deleteMe currentPassword) (.status "deleted") (withoutAccount db me)

end Rows

variable {env : Env} {db db' : Db} {me userId : ℕ} {role : Role} {call : Call} {r : Response}

theorem Effect.refused (h : acknowledged r = false) : Effect env db me call r db := Effect.kept (.inr h)

/-! ## Endpoints that only read -/

section Readers
variable {ρ α : Type} {crash : Response}

theorem select_readOnly (T : Table ρ) (p : ρ → Bool) :
    ReadOnly (select T p : Handler (List ρ)) := fun _ => rfl

theorem getById_readOnly (T : Table ρ) (id : ℕ) : ReadOnly (getById T id : Handler (Option ρ)) :=
  (select_readOnly T _).bind fun _ => ReadOnly.pure _

theorem oneOrNone_readOnly (rows : List ρ) : ReadOnly (oneOrNone crash rows : Handler (Option ρ)) := by
  match rows with
  | [] => exact ReadOnly.pure _
  | [_] => exact ReadOnly.pure _
  | _ :: _ :: _ => exact ReadOnly.throw _

theorem friendship_readOnly (a b : ℕ) : ReadOnly (friendship a b) :=
  (select_readOnly _ _).bind oneOrNone_readOnly

theorem areFriends_readOnly (a b : ℕ) : ReadOnly (areFriends a b) :=
  (friendship_readOnly a b).bind fun _ => ReadOnly.pure _

theorem savedItemsOf_readOnly (userId limit : ℕ) : ReadOnly (savedItemsOf userId limit) :=
  (select_readOnly _ _).bind fun _ => (select_readOnly _ _).bind fun _ => ReadOnly.pure _

theorem publicUsers_readOnly (ids : List ℕ) (relation : Relation) :
    ReadOnly (publicUsers env ids relation) :=
  (ReadOnly.pure _).ite ((select_readOnly _ _).bind fun _ => ReadOnly.pure _)

theorem ownFile_readOnly (me fileId : ℕ) : ReadOnly (ownFile me fileId) := by
  refine (select_readOnly _ _).bind fun rows => ?_
  cases rows.head? with
  | none => exact ReadOnly.throw _
  | some f => exact ReadOnly.pure _

theorem refresh_readOnly (T : Table ρ) (id : ℕ) : ReadOnly (refresh T id : Handler ρ) := by
  refine (getById_readOnly T id).bind fun found => ?_
  cases found with
  | none => exact ReadOnly.throw _
  | some f => exact ReadOnly.pure _

theorem getProfile_readOnly : ReadOnly (getProfile env me userId) := by
  refine (getById_readOnly _ _).bind fun found => ?_
  cases found with
  | none => exact ReadOnly.throw _
  | some target =>
    exact (ReadOnly.pure _).ite ((friendship_readOnly _ _).bind fun _ => ReadOnly.pure _)

theorem handler_readOnly (u : Person) (h : writes call = false) : ReadOnly (call.handler env u) := by
  cases call with
  | searchUsers q =>
    exact (select_readOnly _ _).bind fun _ => ((select_readOnly _ _).bind fun _ =>
      ReadOnly.pure _).bind fun _ => ReadOnly.pure _
  | getProfile userId => exact getProfile_readOnly
  | getUserSaved userId limit =>
    refine ((savedItemsOf_readOnly _ _).bind fun _ => ReadOnly.pure _).ite
      ((areFriends_readOnly _ _).bind fun ok => ?_)
    exact ((savedItemsOf_readOnly _ _).bind fun _ => ReadOnly.pure _).ite (ReadOnly.throw _)
  | listFriends limit => exact (select_readOnly _ _).bind fun _ => publicUsers_readOnly _ _
  | listRequests limit => exact (select_readOnly _ _).bind fun _ => publicUsers_readOnly _ _
  | listSharedWithMe limit =>
    exact (select_readOnly _ _).bind fun _ => (select_readOnly _ _).bind fun _ =>
      (select_readOnly _ _).bind fun _ => ReadOnly.pure _
  | listSaved limit => exact (savedItemsOf_readOnly _ _).bind fun _ => ReadOnly.pure _
  | savedIds => exact (select_readOnly _ _).bind fun _ => ReadOnly.pure _
  | listFiles =>
    exact (select_readOnly _ _).bind fun _ => (select_readOnly _ _).bind fun _ => ReadOnly.pure _
  | getFile fileId download =>
    exact (ownFile_readOnly _ _).bind fun _ => (refresh_readOnly _ _).bind fun _ => ReadOnly.pure _
  | exportMe =>
    exact (select_readOnly _ _).bind fun _ => (select_readOnly _ _).bind fun _ =>
      (select_readOnly _ _).bind fun _ => (select_readOnly _ _).bind fun _ => ReadOnly.pure _
  | _ => cases h

end Readers

/-! ## Friend requests -/

theorem accepts_of_fits {ρ : Type} {T : RowSecurity.Table ρ} {row : ρ} (hfits : T.constraints db row = true)
    (hfree : ((T.rows db).any fun r => T.key r = T.key row) = false) : T.accepts db row = true := by
  unfold RowSecurity.Table.accepts
  rw [hfits, hfree, Bool.not_false, Bool.and_true]

/-- The write of a planned acceptance. -/
theorem accept_effect (env : Env) (userId : ℕ) (call : Call) {f : Friendship}
    (hcall : call = .sendRequest f.requesterId ∨ call = .acceptRequest f.requesterId)
    (hf : f ∈ db.friendships) (hme : f.addresseeId = me) (hpending : f.status = .pending) (now : ℕ) :
    ∃ t, (Friends.Plan.accept f.id).write (Friends.Table.of db env.newId) now me userId =
      .ok (.status "friends", t) ∧ Effect env db me call (.status "friends") (t.put db) := by
  have hany : ((Friends.Table.of db env.newId).rows.any fun g => g.id = f.id) = true :=
    List.any_eq_true.mpr ⟨f, hf, by simp⟩
  refine ⟨{ Friends.Table.of db env.newId with rows := acceptRow db.friendships f.id }, ?_,
    Effect.accepted hcall hf hme hpending⟩
  simp only [Friends.Plan.write, hany, if_true]
  rfl

theorem request_effect (hme : db.hasUser me = true) (userId : ℕ) :
    Effect env db me (.sendRequest userId)
      (Friends.attempt (Friends.Table.of db env.newId) env.now me userId .request).1
      ((Friends.attempt (Friends.Table.of db env.newId) env.now me userId .request).2.put db) := by
  unfold Friends.attempt Friends.readWrite Friends.plan Friends.planRequest
  split_ifs with hself hknown
  · exact Effect.refused rfl
  · exact Effect.refused rfl
  · have huser : db.hasUser userId = true := by
      have hmem : (Friends.Table.of db env.newId).users.contains userId = true := by simpa using hknown
      exact (Friends.hasUser_iff (s := pinnedSess .owner db me) env.newId).mpr hmem
    cases hpair : Friends.friendshipOf (Friends.Table.of db env.newId).rows me userId with
    | error r =>
      rw [Friends.scalarOneOrNone_error hpair]
      exact Effect.refused rfl
    | ok row =>
      cases row with
      | none =>
        have hnone : ∀ f ∈ db.friendships, between me userId f = false := by
          intro f hf
          by_contra hbetween
          have hmem : f ∈ db.friendships.filter (between me userId) :=
            List.mem_filter.mpr ⟨hf, by simpa using hbetween⟩
          unfold Friends.friendshipOf at hpair
          have hrows : (Friends.Table.of db env.newId).rows = db.friendships := rfl
          rw [hrows] at hpair
          match hfilter : db.friendships.filter (between me userId) with
          | [] =>
            rw [hfilter] at hmem
            cases hmem
          | [_] =>
            rw [hfilter] at hpair
            cases hpair
          | _ :: _ :: _ =>
            rw [hfilter] at hpair
            cases hpair
        have hfits : friendships.constraints db (newRow env.now me userId env.newId) = true := by
          simp [friendships, newRow, hme, huser]
        simp only [Except.bind, Friends.Plan.write]
        split
        · next hwrite =>
          split at hwrite
          · cases hwrite
            exact Effect.refused rfl
          · cases hwrite
        · next hwrite =>
          split at hwrite
          · cases hwrite
          · rename_i hfree
            cases hwrite
            rw [Bool.not_eq_true, Friends.any_or, Bool.or_eq_false_iff] at hfree
            exact Effect.requested hself hnone (accepts_of_fits hfits hfree.1)
      | some existing =>
        have hmem := List.mem_filter.mp (Friends.scalarOneOrNone_mem hpair)
        simp only [Except.bind]
        split_ifs with haccepted hmine
        · exact Effect.refused rfl
        · exact Effect.refused rfl
        · have hends : existing.requesterId = userId ∧ existing.addresseeId = me := by
            have hbetween := hmem.2
            unfold between at hbetween
            simp only [Bool.or_eq_true, Bool.and_eq_true, decide_eq_true_eq] at hbetween
            exact hbetween.resolve_left fun h => hmine h.1
          have hpending : existing.status = .pending := by
            cases hstatus : existing.status with
            | pending => rfl
            | accepted => exact absurd hstatus haccepted
          obtain ⟨t, hwrite, heffect⟩ := accept_effect env userId (.sendRequest userId)
            (.inl (by rw [hends.1])) hmem.1 hends.2 hpending env.now
          simp only [hwrite]
          exact heffect

theorem attempt_effect (hme : db.hasUser me = true) (action : Friends.Action) (userId : ℕ) :
    Effect env db me (action.call userId)
      (Friends.attempt (Friends.Table.of db env.newId) env.now me userId action).1
      ((Friends.attempt (Friends.Table.of db env.newId) env.now me userId action).2.put db) := by
  cases action with
  | request => exact request_effect hme userId
  | accept =>
    unfold Friends.attempt Friends.readWrite Friends.plan Friends.planAccept
    cases hpair : Friends.scalarOneOrNone ((Friends.Table.of db env.newId).rows.filter
        (Friendship.requestFrom userId me)) with
    | error r =>
      rw [Friends.scalarOneOrNone_error hpair]
      exact Effect.refused rfl
    | ok row =>
      cases row with
      | none => exact Effect.refused rfl
      | some f =>
        have hmem := List.mem_filter.mp (Friends.scalarOneOrNone_mem hpair)
        have hends := hmem.2
        simp only [Friendship.requestFrom, Bool.and_eq_true, decide_eq_true_eq] at hends
        obtain ⟨t, hwrite, heffect⟩ := accept_effect env userId (.acceptRequest userId)
          (.inr (by rw [hends.1.1])) hmem.1 hends.1.2 hends.2 env.now
        simp only [Except.bind, hwrite]
        exact heffect
  | decline => exact Effect.declined
  | remove => exact Effect.removed

/-! ## The other endpoints that write, as the table owner -/

/-- What `m` answers and commits, in the session of a signed-in owner, is an effect of `call`. -/
def Leaves (env : Env) (db : Db) (me : ℕ) (call : Call) (m : Handler Response) : Prop :=
  Effect env db me call (Friends.answered (exec m (pinnedSess .owner db me)))
    (exec m (pinnedSess .owner db me)).2.committed

section Leaves
variable {α ρ : Type} {m : Handler α} {f : α → Handler Response} {s : Sess} {a : α}
  {T : RowSecurity.Table ρ}

theorem Leaves.throw (h : acknowledged r = false) : Leaves env db me call (throw r) :=
  Effect.refused h

theorem Leaves.step (h : exec m (pinnedSess .owner db me) = (.ok a, pinnedSess .owner db me))
    (hf : Leaves env db me call (f a)) : Leaves env db me call (m >>= f) := by
  unfold Leaves
  rw [exec_bind_ok h]
  exact hf

theorem Leaves.stop (h : exec m (pinnedSess .owner db me) = (.error r, pinnedSess .owner db me))
    (hr : acknowledged r = false) : Leaves env db me call (m >>= f) := by
  unfold Leaves
  rw [exec_bind_error h]
  exact Effect.refused hr

/-- A write, the commit, and the answer. -/
theorem Leaves.written {w : Handler α} (h : exec w (pinnedSess .owner db me) = (.ok a, s))
    (heffect : Effect env db me call r s.view) :
    Leaves env db me call (w >>= fun _ => commit >>= fun _ => pure r) := by
  unfold Leaves
  rw [exec_bind_ok h]
  exact heffect

theorem Leaves.select {p : ρ → Bool} {f : List ρ → Handler Response}
    (hf : Leaves env db me call (f ((T.rows db).filter p))) :
    Leaves env db me call (select T p >>= f) :=
  Leaves.step (exec_select_owner rfl) hf

theorem Leaves.getById {id : ℕ} {f : Option ρ → Handler Response}
    (hf : Leaves env db me call (f ((T.rows db).filter fun r => T.key r = id).head?)) :
    Leaves env db me call (getById T id >>= f) := by
  refine Leaves.step ?_ hf
  unfold RowSecurity.getById
  rw [exec_bind_ok (exec_select_owner rfl)]
  rfl

theorem Leaves.delete {p : ρ → Bool}
    (heffect : Effect env db me call r (T.put db ((T.rows db).filter fun x => !p x))) :
    Leaves env db me call (delete T p >>= fun _ => commit >>= fun _ => pure r) :=
  Leaves.written (exec_delete_owner rfl) heffect

theorem Leaves.insertIgnore {row : ρ}
    (hbefore : (T.rows db).any (T.clashes row) = true → Effect env db me call r db)
    (hnew : T.accepts db row = true → (T.rows db).any (T.clashes row) = false →
      Effect env db me call r (T.put db (T.rows db ++ [row]))) :
    Leaves env db me call
      (insertIgnore T .serverError row >>= fun _ => commit >>= fun _ => pure r) := by
  have hrun : exec (RowSecurity.insertIgnore T Response.serverError row) (pinnedSess .owner db me) = _ :=
    exec_insertIgnore _ row
  have hallowed : insertAllowed T (pinnedSess .owner db me) row = true := by
    simp [insertAllowed, Sess.admits, pinnedSess]
  have hview : (pinnedSess .owner db me).view = db := rfl
  rw [hview, hallowed, if_neg (by decide)] at hrun
  split_ifs at hrun with hclash hfits
  · exact Leaves.written hrun (hbefore hclash)
  · exact Leaves.stop hrun rfl
  · exact Leaves.written hrun
      (hnew (Bool.eq_true_of_not_eq_false hfits) (Bool.eq_false_of_not_eq_true hclash))

end Leaves

theorem shareEvent_leaves (req : ShareRequest) :
    Leaves env db me (.shareEvent req) (shareEvent env me req) := by
  obtain ⟨found, hfound, herror, htrue⟩ :=
    Friends.exec_areFriends (pinnedSess .owner db me) me req.toUserId
  unfold shareEvent
  cases found with
  | error r =>
    refine Leaves.stop hfound ?_
    rw [herror r rfl]
    rfl
  | ok friends =>
    refine Leaves.step hfound ?_
    cases friends with
    | false => exact Leaves.throw rfl
    | true =>
      have hbefriended : Befriended db.friendships me req.toUserId := htrue rfl
      refine Leaves.getById ?_
      cases ((items.rows db).filter fun r => items.key r = req.itemId).head? with
      | none => exact Leaves.throw rfl
      | some item => exact Leaves.insertIgnore (.sharedBefore hbefriended) (.shared hbefriended)

theorem saveItem_leaves (itemId : ℕ) :
    Leaves env db me (.saveItem itemId) (saveItem env me itemId) := by
  unfold saveItem
  refine Leaves.getById ?_
  cases ((items.rows db).filter fun r => items.key r = itemId).head? with
  | none => exact Leaves.throw rfl
  | some item => exact Leaves.insertIgnore .savedBefore .saved

theorem heartbeat_leaves (hme : db.hasUser me = true) :
    Leaves env db me .heartbeat (heartbeat env me) := by
  unfold heartbeat
  have hhits : ∀ u ∈ users.rows db,
      hits (pinnedSess .owner db me) users users.forUpdate (fun u => u.id = me) u = (u.id = me : Bool) :=
    fun u _ => by simp [hits, Sess.admits, pinnedSess]
  have hallowed : updateRefused users (pinnedSess .owner db me) (fun u => u.id = me)
      (fun u => { u with lastSeenAt := some env.now }) = false := by
    simp [updateRefused, Sess.admits, pinnedSess]
  have hrun : exec (update users Response.serverError (fun u => u.id = me)
      (fun u => { u with lastSeenAt := some env.now })) (pinnedSess .owner db me) = _ := exec_update _ _
  have hview : (pinnedSess .owner db me).view = db := rfl
  rw [hallowed, if_neg (by decide), updated_eq hview hhits] at hrun
  refine Leaves.written hrun ?_
  simpa [users] using Effect.pinged hme

theorem deleteFile_leaves (fileId : ℕ) :
    Leaves env db me (.deleteFile fileId) (deleteFile me fileId) := by
  unfold deleteFile ownFile
  rw [bind_assoc]
  refine Leaves.select ?_
  cases hhead : ((userFiles.rows db).filter fun f => f.id = fileId && f.userId = me).head? with
  | none => exact Leaves.stop rfl rfl
  | some f =>
    have hmem := List.mem_filter.mp (List.mem_of_mem_head? hhead)
    have hown := hmem.2
    simp only [Bool.and_eq_true, decide_eq_true_eq] at hown
    obtain ⟨rfl, hme⟩ := hown
    exact Leaves.step rfl (Leaves.delete (Effect.fileDeleted hmem.1 hme))

theorem deleteMe_leaves (u : Person) (hid : u.id = me) (currentPassword : Option String) :
    Leaves env db me (.deleteMe currentPassword) (deleteMe env u currentPassword) := by
  unfold deleteMe
  cases Accounts.deleteRefusal env.deps currentPassword u.toUser with
  | some refusal => exact Leaves.throw rfl
  | none =>
    subst hid
    exact Effect.accountDeleted

/-! ## Uploads, as either role -/

theorem sniff_refused {raw : List UInt8} (h : sniff env raw = .error r) : acknowledged r = false := by
  unfold sniff at h
  split_ifs at h
  cases himage : env.openImage raw with
  | error e =>
    rw [himage] at h
    cases e <;> · cases h; rfl
  | ok img =>
    rw [himage] at h
    simp only at h
    cases hmime : imageFormats.lookup (img.format.getD "") with
    | none =>
      rw [hmime] at h
      cases h
      rfl
    | some mime =>
      rw [hmime] at h
      simp only at h
      split_ifs at h
      · cases h
        rfl
      · cases hverify : img.verify with
        | none =>
          rw [hverify] at h
          cases h
        | some e =>
          rw [hverify] at h
          cases h
          rfl

theorem checkUpload_refused {up : Upload} (h : checkUpload env up = .error r) :
    acknowledged r = false := by
  unfold checkUpload at h
  simp only at h
  split_ifs at h
  · cases h
    rfl
  · cases h
    rfl
  · exact sniff_refused h

/-- An upload that is not accepted is refused. -/
theorem uploadFile_leaves {up : Upload} (hno : acceptsUpload env db me up = false) :
    Leaves env db me (.uploadFile up) (uploadFile env me up) := by
  unfold acceptsUpload at hno
  unfold uploadFile
  cases hcheck : checkUpload env up with
  | error refusal => exact Leaves.throw (checkUpload_refused hcheck)
  | ok contentType =>
    simp only [hcheck] at hno
    refine Leaves.getById ?_
    cases hitem : ((items.rows db).filter fun r => items.key r = up.itemId).head? with
    | none => exact Leaves.throw rfl
    | some item =>
      refine Leaves.select ?_
      split_ifs with hfull
      · exact Leaves.throw rfl
      · have hlt : (db.userFiles.filter fun f => f.userId = me).length < env.filesMaxPerUser :=
          Nat.lt_of_not_le hfull
        have hbad : userFiles.accepts db (uploadedFile env me up contentType) = false := by
          simpa [hasItem_of_head? hitem, hlt] using hno
        have hrun : exec (insert userFiles Response.serverError (uploadedFile env me up contentType))
            (pinnedSess .owner db me) = _ := exec_insert _ _
        rw [if_pos (by simp [insertRefused, pinnedSess, hbad])] at hrun
        exact Leaves.stop hrun rfl

theorem refresh_key {ρ : Type} {T : RowSecurity.Table ρ} {id : ℕ} {s s' : Sess} {row : ρ}
    (h : exec (refresh T id : Handler ρ) s = (.ok row, s')) : T.key row = id := by
  unfold refresh at h
  obtain ⟨found, t, hget, hrow⟩ := exec_bind_inv h
  cases found with
  | none => cases hrow
  | some row' =>
    cases hrow
    unfold RowSecurity.getById at hget
    rw [exec_bind_ok (exec_select s)] at hget
    simp only [exec_pure, Prod.mk.injEq, Except.ok.injEq] at hget
    have hmem := List.mem_of_mem_head? hget.1
    have hcond := (List.mem_filter.mp hmem).2
    rw [Bool.and_eq_true, decide_eq_true_eq] at hcond
    exact hcond.1

/-- An accepted upload is stored, whatever the endpoint answers. -/
theorem uploadFile_effect (role : Role) {up : Upload} (hacc : acceptsUpload env db me up = true) :
    Effect env db me (.uploadFile up)
      (Friends.answered (exec (uploadFile env me up) (pinnedSess role db me)))
      (exec (uploadFile env me up) (pinnedSess role db me)).2.committed := by
  obtain ⟨contentType, item, hcheck, _, hrun⟩ :=
    exec_uploadFile (s := pinnedSess role db me) hacc rfl rfl
  have hfits := hacc
  simp only [acceptsUpload, hcheck, Bool.and_eq_true, decide_eq_true_eq] at hfits
  rw [hrun]
  have heffect : ∀ r, (∃ f, r = .created f ∧ f.id = env.newId) ∨ r = .serverError →
      Effect env db me (.uploadFile up) r _ := fun r hr => Effect.uploaded hcheck hfits.1.2 hfits.2 hr
  cases role with
  | owner =>
    obtain ⟨f, hf⟩ := exec_refresh_owner (s := pinnedSess .owner db me)
      (uploadedFile env me up contentType) rfl
    have hid : (uploadedFile env me up contentType).id = env.newId := rfl
    rw [hid] at hf
    rw [exec_bind_ok hf]
    exact heffect _ (.inl ⟨_, rfl, refresh_key hf⟩)
  | runtime =>
    have hf := exec_refresh_runtime (s := (pinnedSess .runtime db me).uploaded
      (uploadedFile env me up contentType)) env.newId rfl rfl
    rw [exec_bind_error hf]
    exact heffect _ (.inr rfl)

/-! ## Every endpoint -/

theorem Leaves.attempted {m : Handler Response} (action : Friends.Action)
    (hme : db.hasUser me = true) (hrun : exec m (pinnedSess .owner db me) =
      Friends.ended (pinnedSess .owner db me)
        (Friends.readWrite (Friends.Table.of db env.newId) env.now me userId action)) :
    Leaves env db me (action.call userId) m := by
  have heffect : Effect env db me (action.call userId) _ _ := attempt_effect hme action userId
  unfold Friends.attempt at heffect
  unfold Leaves
  rw [hrun]
  cases hdone : Friends.readWrite (Friends.Table.of db env.newId) env.now me userId action with
  | error r =>
    rw [hdone] at heffect
    exact heffect
  | ok done =>
    rw [hdone] at heffect
    exact heffect

theorem Leaves.read {m : Handler Response} (hread : ReadOnly m) (h : writes call = false) :
    Leaves env db me call m := by
  unfold Leaves
  rw [hread.exec_eq]
  exact Effect.kept (.inl h)

theorem handler_leaves (u : Person) (hid : u.id = me) (hme : db.hasUser me = true)
    (hno : call.acceptedUpload env db me = false) :
    Leaves env db me call (call.handler env u) := by
  subst hid
  cases hwrites : writes call with
  | false => exact Leaves.read (handler_readOnly u hwrites) hwrites
  | true =>
    cases call with
    | sendRequest userId =>
      exact Leaves.attempted .request hme (Friends.exec_sendRequest rfl hme)
    | acceptRequest userId =>
      exact Leaves.attempted .accept hme (Friends.exec_acceptRequest rfl env.now env.newId)
    | declineRequest userId => exact Leaves.delete Effect.declined
    | removeFriend userId => exact Leaves.delete Effect.removed
    | shareEvent req => exact shareEvent_leaves req
    | dismissShared shareId => exact Leaves.delete Effect.dismissed
    | heartbeat => exact heartbeat_leaves hme
    | saveItem itemId => exact saveItem_leaves itemId
    | unsaveItem itemId => exact Leaves.delete Effect.unsaved
    | uploadFile up => exact uploadFile_leaves hno
    | deleteFile fileId => exact deleteFile_leaves fileId
    | deleteMe currentPassword => exact deleteMe_leaves u rfl currentPassword
    | _ => cases hwrites

/-- A request is answered and committed as its endpoint ends. -/
theorem serve_ends (env : Env) (role : Role) (call : Call) (hme : db.hasUser me = true) :
    ∃ u : Person, u.id = me ∧
      (serve env role db me call).1 =
        Friends.answered (exec (call.handler env u) (pinnedSess role db me)) ∧
      (serve env role db me call).2.1 =
        (exec (call.handler env u) (pinnedSess role db me)).2.committed := by
  obtain ⟨u, hid, hexec⟩ := exec_authenticated env role call hme
  refine ⟨u, hid, ?_⟩
  unfold serve
  rw [hexec]
  generalize exec (call.handler env u) (pinnedSess role db me) = out
  obtain ⟨found, s⟩ := out
  cases found <;> exact ⟨rfl, rfl⟩

/-- Whoever asks, under either role: the answer, and what is committed. -/
theorem serve_effect (env : Env) (role : Role) (hkeys : db.Keyed) (me : ℕ) (call : Call) :
    Effect env db me call (serve env role db me call).1 (serve env role db me call).2.1 := by
  cases hme : db.hasUser me with
  | false =>
    rw [serve_signedOut hme]
    exact Effect.refused rfl
  | true =>
    cases hno : call.acceptedUpload env db me with
    | false =>
      rw [Friends.serve_either env me call hkeys role hno]
      obtain ⟨u, hid, hanswer, hcommitted⟩ := serve_ends env .owner call hme
      rw [hanswer, hcommitted]
      exact handler_leaves u hid hme hno
    | true =>
      obtain ⟨u, rfl, hanswer, hcommitted⟩ := serve_ends env role call hme
      rw [hanswer, hcommitted]
      cases call with
      | uploadFile up => exact uploadFile_effect role hno
      | _ => cases hno

end WarsawEvents.Store
