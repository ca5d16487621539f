import WarsawEvents.RowSecurity.Seen

/-! # Private rows do not leak

Every endpoint is made of statements that work on what the user sees, so as the runtime role it answers
alike from any two databases that agree there, under the same draw of an id that neither has in use. The
table owner is answered like the runtime role, but for the accepted upload, which it reads back.
-/

namespace WarsawEvents.RowSecurity
set_option autoImplicit false

open Coupling

variable {env : Env} {me id : ℕ} {db db' d : Db} {ρ α : Type} {T : Table ρ}

/-! ## The endpoints -/

theorem friendship_reads (other : ℕ) : Reads me id d (friendship me other) :=
  Couples.bind (select_reads friendships_private.shown) fun _ => oneOrNone_reads _

theorem areFriends_reads (other : ℕ) : Reads me id d (areFriends me other) :=
  Couples.bind (friendship_reads other) fun _ => reads_pure _

theorem savedItemsOf_reads (userId limit : ℕ) : Reads me id d (savedItemsOf userId limit) :=
  Couples.bind (select_reads savedItems_private.shown) fun _ =>
    Couples.bind (select_reads items_shown) fun _ => reads_pure _

theorem publicUsers_reads (ids : List ℕ) (relation : Relation) :
    Reads me id d (publicUsers env ids relation) := by
  unfold publicUsers
  refine Couples.ite (fun _ => reads_pure _) fun _ => ?_
  exact Couples.bind (select_reads users_shown) fun _ => reads_pure _

theorem searchUsers_reads (q : String) : Reads me id d (searchUsers env me q) := by
  unfold searchUsers myStatuses
  refine Couples.bind (select_reads users_shown) fun _ => ?_
  refine Couples.bind ?_ fun _ => reads_pure _
  exact Couples.bind (select_reads friendships_private.shown) fun _ => reads_pure _

theorem getProfile_reads (userId : ℕ) : Reads me id d (getProfile env me userId) := by
  unfold getProfile
  refine Couples.bind (getById_reads users_shown userId) fun found => ?_
  cases found with
  | none => exact reads_throw _
  | some target =>
    refine Couples.ite (fun _ => reads_pure _) fun _ => ?_
    exact Couples.bind (friendship_reads target.id) fun _ => reads_pure _

theorem getUserSaved_reads (userId limit : ℕ) : Reads me id d (getUserSaved me userId limit) := by
  have hitems : Reads me id d (savedItemsOf userId limit >>= fun found =>
      (pure (.items found) : Handler Response)) :=
    Couples.bind (savedItemsOf_reads userId limit) fun _ => reads_pure _
  unfold getUserSaved
  refine Couples.ite (fun _ => hitems) fun _ => ?_
  refine Couples.bind (areFriends_reads userId) fun ok => ?_
  exact Couples.ite (fun _ => hitems) fun _ => reads_throw _

/-- The two acceptances write the same. -/
theorem accept_blind (rowId : ℕ) : Blind me id d
    (update friendships Response.serverError (fun g => g.id = rowId)
      (fun g => { g with status := .accepted }) >>= fun _ => commit >>= fun _ =>
        (pure (.status "friends") : Handler Response)) :=
  Couples.bind (update_blind friendships_private _) fun _ => commit_answer _

theorem sendRequest_blind (userId : ℕ) : Blind me env.newId d (sendRequest env me userId) := by
  unfold sendRequest
  refine Couples.ite (fun _ => blind_throw _) fun _ => ?_
  refine Couples.bind (getById_reads users_shown userId) fun found => ?_
  cases found with
  | none => exact blind_throw _
  | some target =>
    refine Couples.bind (friendship_reads userId) fun row => ?_
    cases row with
    | none =>
      refine insert_blind friendships_private ?_ fun _ => commit_answer _
      rfl
    | some existing =>
      refine Couples.ite (fun _ => blind_throw _) fun _ => ?_
      exact Couples.ite (fun _ => blind_throw _) fun _ => accept_blind existing.id

theorem acceptRequest_blind (userId : ℕ) : Blind me id d (acceptRequest me userId) := by
  unfold acceptRequest
  refine Couples.bind (select_reads friendships_private.shown) fun rows => ?_
  refine Couples.bind (oneOrNone_reads rows) fun row => ?_
  cases row with
  | none => exact blind_throw _
  | some f => exact accept_blind f.id

theorem listFriends_reads (limit : ℕ) : Reads me id d (listFriends env me limit) :=
  Couples.bind (select_reads friendships_private.shown) fun _ => publicUsers_reads _ _

theorem listRequests_reads (limit : ℕ) : Reads me id d (listRequests env me limit) :=
  Couples.bind (select_reads friendships_private.shown) fun _ => publicUsers_reads _ _

theorem shareEvent_blind (req : ShareRequest) : Blind me env.newId d (shareEvent env me req) := by
  unfold shareEvent
  refine Couples.bind (areFriends_reads req.toUserId) fun ok => ?_
  refine Couples.ite (fun _ => ?_) fun _ => blind_throw _
  refine Couples.bind (getById_reads items_shown req.itemId) fun found => ?_
  cases found with
  | none => exact blind_throw _
  | some item =>
    exact Couples.bind (insertIgnore_blind sharedEvents_private rfl) fun _ => commit_answer _

theorem listSharedWithMe_reads (limit : ℕ) : Reads me id d (listSharedWithMe env me limit) := by
  unfold listSharedWithMe
  refine Couples.bind (select_reads sharedEvents_private.shown) fun _ => ?_
  refine Couples.bind (select_reads items_shown) fun _ => ?_
  exact Couples.bind (select_reads users_shown) fun _ => reads_pure _

theorem saveItem_blind (itemId : ℕ) : Blind me env.newId d (saveItem env me itemId) := by
  unfold saveItem
  refine Couples.bind (getById_reads items_shown itemId) fun found => ?_
  cases found with
  | none => exact blind_throw _
  | some item =>
    exact Couples.bind (insertIgnore_blind savedItems_private rfl) fun _ => commit_answer _

theorem listFiles_reads : Reads me id d (listFiles me) := by
  unfold listFiles
  refine Couples.bind (select_reads userFiles_private.shown) fun _ => ?_
  exact Couples.bind (select_reads items_shown) fun _ => reads_pure _

theorem refresh_reads (hT : T.Shown me) (key : ℕ) : Reads me id d (refresh T key) := by
  unfold refresh
  refine Couples.bind (getById_reads hT key) fun found => ?_
  cases found with
  | none => exact reads_throw _
  | some r => exact reads_pure _

/-- With the identity gone at the commit, the file that was stored is not read back. -/
theorem commit_refresh {key : ℕ} {k : UserFile → Handler α} : Couples (Wrote me d)
    (commit >>= fun _ => refresh userFiles key >>= k) (commit >>= fun _ => refresh userFiles key >>= k)
    (fun _ => Wrote me d) (Wrote me d) := by
  have hcommit : Couples (Wrote me d) (commit : Handler Unit) commit
      (fun _ s t => Wrote me d s t ∧ s.pinned = none ∧ t.pinned = none) (Wrote me d) := by
    intro s t hst
    exact Alike.ok ⟨⟨hst.left, hst.right, hst.mails, hst.view, hst.view⟩, rfl, rfl⟩
  refine Couples.bind hcommit ?_
  intro _ s t hst
  rw [exec_bind_error (exec_refresh_runtime key hst.1.left hst.2.1),
    exec_bind_error (exec_refresh_runtime key hst.1.right hst.2.2)]
  exact Alike.error hst.1

theorem uploadFile_blind (up : Upload) : Blind me env.newId d (uploadFile env me up) := by
  unfold uploadFile
  cases checkUpload env up with
  | error r => exact blind_throw _
  | ok contentType =>
    refine Couples.bind (getById_reads items_shown up.itemId) fun found => ?_
    cases found with
    | none => exact blind_throw _
    | some item =>
      refine Couples.bind (select_reads userFiles_private.shown) fun mine => ?_
      refine Couples.ite (fun _ => blind_throw _) fun _ => ?_
      refine insert_blind userFiles_private ?_ fun _ => commit_refresh
      rfl

theorem ownFile_reads (fileId : ℕ) : Reads me id d (ownFile me fileId) := by
  unfold ownFile
  refine Couples.bind (select_reads userFiles_private.shown) fun rows => ?_
  cases rows.head? with
  | none => exact reads_throw _
  | some f => exact reads_pure _

theorem getFile_reads (fileId : ℕ) (download : Bool) : Reads me id d (getFile me fileId download) := by
  unfold getFile
  refine Couples.bind (ownFile_reads fileId) fun f => ?_
  exact Couples.bind (refresh_reads userFiles_private.shown f.id) fun _ => reads_pure _

theorem deleteFile_blind (fileId : ℕ) : Blind me id d (deleteFile me fileId) := by
  unfold deleteFile
  refine Couples.bind (ownFile_reads fileId) fun f => ?_
  exact Couples.bind (delete_blind userFiles_private) fun _ => commit_answer _

theorem exportMe_reads (u : Person) : Reads u.id id d (exportMe u) := by
  unfold exportMe
  refine Couples.bind (select_reads savedItems_private.shown) fun _ => ?_
  refine Couples.bind (select_reads friendships_private.shown) fun _ => ?_
  refine Couples.bind (select_reads sharedEvents_private.shown) fun _ => ?_
  exact Couples.bind (select_reads userFiles_private.shown) fun _ => reads_pure _

theorem deleteMe_blind (u : Person) (currentPassword : Option String) :
    Blind u.id id d (deleteMe env u currentPassword) := by
  unfold deleteMe
  cases Accounts.deleteRefusal env.deps currentPassword u.toUser with
  | some r => exact blind_throw _
  | none =>
    refine Couples.bind deleteUser_blind fun _ => Couples.bind commit_wrote fun _ => ?_
    exact Couples.bind (sendMail_wrote _) fun _ => Couples.pure fun _ _ h => h

variable (env) in
theorem handler_blind (u : Person) (call : Call) : Blind u.id env.newId d (call.handler env u) := by
  cases call with
  | searchUsers q => exact (searchUsers_reads q).blind
  | getProfile userId => exact (getProfile_reads userId).blind
  | getUserSaved userId limit => exact (getUserSaved_reads userId limit).blind
  | sendRequest userId => exact sendRequest_blind userId
  | acceptRequest userId => exact acceptRequest_blind userId
  | declineRequest userId =>
    exact Couples.bind (delete_blind friendships_private) fun _ => commit_answer _
  | removeFriend userId =>
    exact Couples.bind (delete_blind friendships_private) fun _ => commit_answer _
  | listFriends limit => exact (listFriends_reads limit).blind
  | listRequests limit => exact (listRequests_reads limit).blind
  | shareEvent req => exact shareEvent_blind req
  | listSharedWithMe limit => exact (listSharedWithMe_reads limit).blind
  | dismissShared shareId =>
    exact Couples.bind (delete_blind sharedEvents_private) fun _ => commit_answer _
  | heartbeat => exact Couples.bind (heartbeat_write env.now) fun _ => commit_answer _
  | listSaved limit =>
    exact Couples.bind (savedItemsOf_reads u.id limit) fun _ => blind_pure _
  | savedIds => exact Couples.bind (select_reads savedItems_private.shown) fun _ => blind_pure _
  | saveItem itemId => exact saveItem_blind itemId
  | unsaveItem itemId =>
    exact Couples.bind (delete_blind savedItems_private) fun _ => commit_answer _
  | listFiles => exact listFiles_reads.blind
  | uploadFile up => exact uploadFile_blind up
  | getFile fileId download => exact (getFile_reads fileId download).blind
  | deleteFile fileId => exact deleteFile_blind fileId
  | exportMe => exact (exportMe_reads u).blind
  | deleteMe currentPassword => exact deleteMe_blind u currentPassword

/-! ## One request -/

theorem agree_pinned (hseen : db.seenBy me = db'.seenBy me) (hnew : db.Unused id)
    (hnew' : db'.Unused id) :
    Agree me id db (pinnedSess .runtime db me) (pinnedSess .runtime db' me) :=
  { left := rfl, right := rfl, mails := rfl, view := rfl, committed := rfl, pinned := rfl
    pinned' := rfl, seen := hseen, unused := hnew, unused' := hnew' }

variable (env) in
/-- The runtime role, whatever the endpoint. -/
theorem serve_blind (hseen : db.seenBy me = db'.seenBy me) (hnew : db.Unused env.newId)
    (hnew' : db'.Unused env.newId) (call : Call) :
    (serve env .runtime db me call).1 = (serve env .runtime db' me call).1 ∧
      (serve env .runtime db me call).2.2 = (serve env .runtime db' me call).2.2 ∧
        (serve env .runtime db me call).2.1.apartFrom me = db.apartFrom me := by
  have husers : db'.users = db.users := (congrArg Db.users hseen).symm
  unfold serve
  rw [exec_current_user, exec_current_user]
  have hrows : users.rows db' = users.rows db := husers
  rw [hrows]
  cases hu : ((users.rows db).filter fun r => users.key r = me).head? with
  | none => exact ⟨rfl, rfl, rfl⟩
  | some u =>
    obtain rfl := id_of_head? hu
    have hend := handler_blind (d := db) env u call _ _ (agree_pinned hseen hnew hnew')
    dsimp only
    generalize exec (call.handler env u) (pinnedSess .runtime db u.id) = r1 at hend ⊢
    generalize exec (call.handler env u) (pinnedSess .runtime db' u.id) = r2 at hend ⊢
    cases hend with
    | ok h => exact ⟨rfl, h.mails, h.committed⟩
    | error h => exact ⟨rfl, h.mails, h.committed⟩

/-! ## The upload that the owner accepts -/

variable (env) in
theorem acceptsUpload_seen (hseen : db.seenBy me = db'.seenBy me) (hnew : db.Unused env.newId)
    (hnew' : db'.Unused env.newId) (up : Upload) :
    acceptsUpload env db me up = acceptsUpload env db' me up := by
  unfold acceptsUpload
  cases checkUpload env up with
  | error r => rfl
  | ok contentType =>
    have hmine : (db.userFiles.filter fun f => f.userId = me) =
        db'.userFiles.filter fun f => f.userId = me := congrArg Db.userFiles hseen
    have hprivate : userFiles.Private me fun f => f.userId = me := userFiles_private
    have hfits : userFiles.accepts db (uploadedFile env me up contentType) =
        userFiles.accepts db' (uploadedFile env me up contentType) := by
      rw [accepts_of_free (hprivate.free_unused db (uploadedFile env me up contentType) hnew),
        accepts_of_free (hprivate.free_unused db' (uploadedFile env me up contentType) hnew'),
        ← hprivate.constraints_seen db, hseen]
      rfl
    simp only [hmine, hfits, hasItem_seen hseen]

variable (env) in
theorem acceptedUpload_seen (hseen : db.seenBy me = db'.seenBy me) (hnew : db.Unused env.newId)
    (hnew' : db'.Unused env.newId) (call : Call) :
    call.acceptedUpload env db me = call.acceptedUpload env db' me := by
  cases call with
  | uploadFile up => exact acceptsUpload_seen env hseen hnew hnew' up
  | _ => rfl

/-- With a new id, the owner reads back the row it stored. -/
theorem exec_refresh_stored {s : Sess} (row : UserFile) (hrole : s.role = .owner)
    (hfree : userFiles.Free s.view row) :
    exec (refresh userFiles row.id) (s.uploaded row) = (.ok row, s.uploaded row) := by
  have hrows : ((userFiles.rows (s.uploaded row).view).filter fun f =>
      decide (userFiles.key f = row.id) && (s.uploaded row).admits
        (userFiles.forSelect (s.uploaded row).view (s.uploaded row).pinned f)) = [row] := by
    have hold : (s.view.userFiles.filter fun f => decide (f.id = row.id)) = [] := by
      rw [List.filter_eq_nil_iff]
      intro f hf hid
      exact hfree f hf (of_decide_eq_true hid)
    have hadmits : ∀ b, (s.uploaded row).admits b = true := fun b => owner_admits hrole
    simp only [hadmits, Bool.and_true]
    show ((s.view.userFiles ++ [row]).filter fun f => decide (f.id = row.id)) = [row]
    rw [List.filter_append, hold, List.filter_singleton, decide_eq_true rfl]
    rfl
  have hget : exec (getById userFiles row.id : Handler (Option UserFile)) (s.uploaded row) =
      (.ok (some row), s.uploaded row) := by
    show (Except.ok ((userFiles.rows (s.uploaded row).view).filter _).head?, _) = _
    rw [hrows]
    rfl
  unfold refresh
  rw [exec_bind_ok hget]
  rfl

/-- The id of an accepted upload is new. -/
theorem free_of_acceptsUpload {up : Upload} {contentType : String}
    (hcheck : checkUpload env up = .ok contentType) (h : acceptsUpload env db me up = true) :
    userFiles.Free db (uploadedFile env me up contentType) := by
  unfold acceptsUpload at h
  rw [hcheck] at h
  exact free_of_accepts (Bool.and_eq_true_iff.mp h).2

variable (env me) in
/-- The answer to an accepted upload, and the row it leaves. -/
theorem serve_stored (up : Upload) (h : acceptsUpload env db me up = true) :
    ∃ contentType item, checkUpload env up = .ok contentType ∧
      ((items.rows db).filter fun r => items.key r = up.itemId).head? = some item ∧
      serve env .owner db me (.uploadFile up) =
        (.created (fileOut (uploadedFile env me up contentType) item.name),
          ((pinnedSess .owner db me).uploaded (uploadedFile env me up contentType)).committed, []) := by
  obtain ⟨u, hid, hpinned⟩ := exec_authenticated env .owner (.uploadFile up)
    (hasUser_of_acceptsUpload h)
  subst hid
  obtain ⟨contentType, item, hcheck, hitem, hup⟩ :=
    exec_uploadFile (s := pinnedSess .owner db u.id) h rfl rfl
  refine ⟨contentType, item, hcheck, hitem, ?_⟩
  have hback := exec_refresh_stored (s := pinnedSess .owner db u.id)
    (uploadedFile env u.id up contentType) rfl (free_of_acceptsUpload hcheck h)
  have hrun : exec (authenticated env u.id (.uploadFile up))
      { role := .owner, committed := db, view := db } = _ := hpinned.trans (hup.trans
        (exec_bind_ok hback))
  unfold serve
  rw [hrun]
  rfl

theorem uploaded_apart (env : Env) (me : ℕ) (up : Upload) (contentType : String) :
    ((pinnedSess .owner db me).uploaded
      (uploadedFile env me up contentType)).committed.apartFrom me = db.apartFrom me := by
  have hmine : decide ((uploadedFile env me up contentType).userId = me) = true := decide_eq_true rfl
  refine (userFiles_private : userFiles.Private me _).put_apart db (db.userFiles ++
    [uploadedFile env me up contentType]) ?_
  show (db.userFiles ++ [uploadedFile env me up contentType]).filter _ = _
  rw [List.filter_append, List.filter_singleton, hmine]
  exact List.append_nil _

/-! ## Every endpoint, as either role -/

theorem serve_owner (hdb : db.Keyed) (hdb' : db'.Keyed) (hseen : db.seenBy me = db'.seenBy me)
    (hnew : db.Unused env.newId) (hnew' : db'.Unused env.newId) (call : Call) :
    (serve env .owner db me call).1 = (serve env .owner db' me call).1 ∧
      (serve env .owner db me call).2.2 = (serve env .owner db' me call).2.2 ∧
      (serve env .owner db me call).2.1.apartFrom me = db.apartFrom me := by
  cases hacc : call.acceptedUpload env db me with
  | false =>
    have hacc' := acceptedUpload_seen env hseen hnew hnew' call
    rw [hacc] at hacc'
    rw [serve_mirror hdb call hacc, serve_mirror hdb' call hacc'.symm]
    exact serve_blind env hseen hnew hnew' call
  | true =>
    cases call with
    | uploadFile up =>
      have hacc' : acceptsUpload env db' me up = true := by
        rw [← acceptsUpload_seen env hseen hnew hnew']
        exact hacc
      obtain ⟨contentType, item, hcheck, hitem, hserve⟩ := serve_stored env me up hacc
      obtain ⟨contentType', item', hcheck', hitem', hserve'⟩ := serve_stored env me up hacc'
      have hitems : items.rows (db.seenBy me) = items.rows (db'.seenBy me) := by rw [hseen]
      have hsame : items.rows db = items.rows db' := hitems
      rw [hsame, hitem'] at hitem
      rw [hcheck'] at hcheck
      obtain rfl := Option.some.inj hitem
      obtain rfl := Except.ok.inj hcheck
      rw [hserve, hserve']
      exact ⟨rfl, rfl, uploaded_apart env me up contentType'⟩
    | _ => cases hacc

theorem serve_role (hdb : db.Keyed) (hdb' : db'.Keyed) (hseen : db.seenBy me = db'.seenBy me)
    (hnew : db.Unused env.newId) (hnew' : db'.Unused env.newId) (role : Role) (call : Call) :
    (serve env role db me call).1 = (serve env role db' me call).1 ∧
      (serve env role db me call).2.2 = (serve env role db' me call).2.2 ∧
      (serve env role db me call).2.1.apartFrom me = db.apartFrom me := by
  cases role with
  | owner => exact serve_owner hdb hdb' hseen hnew hnew' call
  | runtime => exact serve_blind env hseen hnew hnew' call

/-- No file of the user's own has the id. -/
def NotMine (db : Db) (me fileId : ℕ) : Prop := ∀ f ∈ db.userFiles, f.userId = me → f.id ≠ fileId

theorem exec_ownFile_notMine {s : Sess} {fileId : ℕ} (h : NotMine s.view me fileId) :
    exec (ownFile me fileId) s = (.error (.http 404 "File not found"), s) := by
  have hnone : ((userFiles.rows s.view).filter fun f =>
      (f.id = fileId && f.userId = me : Bool) &&
        s.admits (userFiles.forSelect s.view s.pinned f)) = [] := by
    rw [List.filter_eq_nil_iff]
    intro f hf hmatch
    simp only [Bool.and_eq_true, decide_eq_true_eq] at hmatch
    exact h f hf hmatch.1.2 hmatch.1.1
  have hselect : exec (select userFiles fun f => f.id = fileId && f.userId = me :
      Handler (List UserFile)) s = (.ok [], s) := by
    rw [exec_select, hnone]
  unfold ownFile
  rw [exec_bind_ok hselect]
  rfl

/-- A file of another user is answered like a file that is not there. -/
theorem serve_notMine (role : Role) {i j : ℕ} (hi : NotMine db me i) (hj : NotMine db me j)
    (download : Bool) :
    serve env role db me (.getFile i download) = serve env role db me (.getFile j download) ∧
      serve env role db me (.deleteFile i) = serve env role db me (.deleteFile j) := by
  unfold serve
  rw [exec_current_user, exec_current_user, exec_current_user, exec_current_user]
  cases hu : ((users.rows db).filter fun r => users.key r = me).head? with
  | none => exact ⟨rfl, rfl⟩
  | some u =>
    obtain rfl := id_of_head? hu
    have hown : ∀ k, NotMine db u.id k → exec (ownFile u.id k) (pinnedSess role db u.id) =
        (.error (.http 404 "File not found"), pinnedSess role db u.id) :=
      fun k hk => exec_ownFile_notMine (s := pinnedSess role db u.id) hk
    have hget : ∀ k, NotMine db u.id k →
        exec (getFile u.id k download) (pinnedSess role db u.id) =
          (.error (.http 404 "File not found"), pinnedSess role db u.id) :=
      fun k hk => exec_bind_error (hown k hk)
    have hdelete : ∀ k, NotMine db u.id k →
        exec (deleteFile u.id k) (pinnedSess role db u.id) =
          (.error (.http 404 "File not found"), pinnedSess role db u.id) :=
      fun k hk => exec_bind_error (hown k hk)
    simp only [Call.handler, hget i hi, hget j hj, hdelete i hi, hdelete j hj, and_self]

variable (env) in
theorem private_rows_do_not_leak (hdb : db.Keyed) (hdb' : db'.Keyed)
    (hnew : db.Unused env.newId) (hnew' : db'.Unused env.newId)
    (hseen : db.seenBy me = db'.seenBy me) (role : Role) :
    (∀ call, (serve env role db me call).1 = (serve env role db' me call).1 ∧
      (serve env role db me call).2.2 = (serve env role db' me call).2.2 ∧
      (serve env role db me call).2.1.apartFrom me = db.apartFrom me) ∧
    ∀ i j download, NotMine db me i → NotMine db me j →
      serve env role db me (.getFile i download) = serve env role db me (.getFile j download) ∧
        serve env role db me (.deleteFile i) = serve env role db me (.deleteFile j) :=
  ⟨fun call => serve_role hdb hdb' hseen hnew hnew' role call,
    fun _ _ download hi hj => serve_notMine role hi hj download⟩

/-! ## Another user's file -/

/-- User 7 and user 8, who has stored `files`. -/
def besideFiles (files : List UserFile) : Db where
  users := [{ id := 7 }, { id := 8 }]
  items := [{ id := 3, name := "Chopin Gala" }]
  userFiles := files

def foreignFile : UserFile where
  id := 0
  userId := 8
  itemId := 3
  filename := "ticket.pdf"
  contentType := "application/pdf"
  size := 5
  data := pdfMagic

def drawsOne : Env := { plainEnv with newId := 1 }

theorem besideFiles_unused {files : List UserFile} (h : ∀ f ∈ files, f.id ≠ 1) :
    (besideFiles files).Unused drawsOne.newId where
  friendships _ := nofun
  sharedEvents _ := nofun
  savedItems _ := nofun
  userFiles := h

theorem private_rows_do_not_leak_upload :
    (serve drawsOne .owner (besideFiles [foreignFile]) 7 pdfUpload).1 =
        (serve drawsOne .owner (besideFiles []) 7 pdfUpload).1 ∧
      serve drawsOne .owner (besideFiles [foreignFile]) 7 (.getFile 0 true) =
        serve drawsOne .owner (besideFiles [foreignFile]) 7 (.getFile 5 true) := by
  have hseen : (besideFiles [foreignFile]).seenBy 7 = (besideFiles []).seenBy 7 := rfl
  have hkeyed : (besideFiles [foreignFile]).Keyed := ⟨List.nodup_nil, List.nodup_singleton _⟩
  have hunused : (besideFiles [foreignFile]).Unused drawsOne.newId := besideFiles_unused (by decide)
  have hkeyed' : (besideFiles []).Keyed := ⟨List.nodup_nil, List.nodup_nil⟩
  have hunused' : (besideFiles []).Unused drawsOne.newId := besideFiles_unused (by decide)
  have hnotMine : ∀ k, NotMine (besideFiles [foreignFile]) 7 k := by
    intro k f hf hmine
    rw [List.mem_singleton.mp hf] at hmine
    exact absurd hmine (by decide)
  have h := private_rows_do_not_leak drawsOne hkeyed hkeyed' hunused hunused' hseen .owner
  exact ⟨(h.1 pdfUpload).1, (h.2 0 5 true (hnotMine 0) (hnotMine 5)).1⟩

end WarsawEvents.RowSecurity
