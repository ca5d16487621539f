import WarsawEvents.RowSecurity.Mirror

/-! # Row-level security is transparent, but for one refresh

The same request as the table owner and as the runtime role, from the same database. Every statement
of the endpoints runs in the transaction in which the identity was pinned, on rows its policy admits,
so both runs go through the same states. One endpoint reads after its commit: `upload_file` refreshes
the row it stored when the identity is gone, and the runtime role cannot see it any more.
-/

namespace WarsawEvents.RowSecurity
set_option autoImplicit false

open Coupling

/-- The primary keys of the two tables whose rows are written or read back by key. -/
structure Db.Keyed (db : Db) : Prop where
  friendships : (db.friendships.map Friendship.id).Nodup
  userFiles : (db.userFiles.map UserFile.id).Nodup

variable {env : Env} {me uid : ℕ} {db : Db}

/-- Both roles run the endpoint alike. -/
abbrev Transparent (me : ℕ) (db : Db) (m : Handler Response) : Prop :=
  Couples (Mirror (some me) db) m m (fun _ => Split) Split

/-! ## Friendships -/

theorem involves_party {f : Friendship} (h : Friendship.involves me f = true) :
    Friendship.party (some me) f = true := by
  simp only [Friendship.involves, Bool.or_eq_true, decide_eq_true_eq] at h
  simp only [Friendship.party, Bool.or_eq_true, decide_eq_true_eq, Option.some.injEq]
  exact h.imp Eq.symm Eq.symm

theorem friendship_then {other : ℕ} {k : Option Friendship → Handler Response}
    (hk : ∀ row : Option Friendship, (∀ f ∈ row, f ∈ db.friendships ∧
      ((f.requesterId = me ∧ f.addresseeId = other) ∨ (f.requesterId = other ∧ f.addresseeId = me))) →
      Transparent me db (k row)) : Transparent me db (friendship me other >>= k) := by
  unfold friendship
  rw [bind_assoc]
  refine select_then ?_ (oneOrNone_then fun row hrow => hk row fun f hf => ?_)
  · intro f _ hf
    apply involves_party
    simp only [Bool.or_eq_true, Bool.and_eq_true, decide_eq_true_eq] at hf
    simp only [Friendship.involves, Bool.or_eq_true, decide_eq_true_eq]
    exact hf.imp (fun h => h.1) fun h => h.2
  · obtain ⟨hmem, hpair⟩ := List.mem_filter.mp (hrow f hf)
    exact ⟨hmem, by simpa using hpair⟩

/-- What the policy on saved items asks is what `_are_friends` answers. -/
theorem areFriends_then {other : ℕ} {k : Bool → Handler Response}
    (hk : ∀ ok : Bool, (ok = true → acceptedFriend db (some me) other = true) →
      Transparent me db (k ok)) : Transparent me db (areFriends me other >>= k) := by
  unfold areFriends
  rw [bind_assoc]
  refine friendship_then fun row hrow => ?_
  rw [pure_bind]
  refine hk _ fun hok => ?_
  cases row with
  | none => cases hok
  | some f =>
    obtain ⟨hmem, hpair⟩ := hrow f rfl
    have haccepted : f.status = .accepted := by simpa using hok
    simp only [acceptedFriend, List.any_filter, List.any_eq_true]
    refine ⟨f, hmem, ?_⟩
    obtain ⟨h1, h2⟩ | ⟨h1, h2⟩ := hpair
    · simp [Friendship.party, haccepted, h1, h2]
    · simp [Friendship.party, haccepted, h1, h2]

theorem publicUsers_mirror (ids : List ℕ) (relation : Relation) :
    Transparent me db (publicUsers env ids relation) := by
  unfold publicUsers
  refine Couples.ite (fun _ => answer _) fun _ => ?_
  exact select_then (fun _ _ _ => rfl) (answer _)

theorem searchUsers_mirror (q : String) : Transparent me db (searchUsers env me q) := by
  unfold searchUsers myStatuses
  refine select_then (fun _ _ _ => rfl) ?_
  rw [bind_assoc]
  exact select_then (fun f _ hf => involves_party hf) (answer _)

theorem getProfile_mirror (userId : ℕ) : Transparent me db (getProfile env me userId) := by
  unfold getProfile
  refine getById_then rfl ?_
  cases ((users.rows db).filter fun r => users.key r = userId).head? with
  | none => exact refuse _
  | some target =>
    refine Couples.ite (fun _ => answer _) fun _ => ?_
    exact friendship_then fun _ _ => answer _

theorem savedItemsOf_then {userId limit : ℕ} {k : List ItemOut → Handler Response}
    (hadmitted : userId = me ∨ acceptedFriend db (some me) userId = true)
    (hk : ∀ found, Transparent me db (k found)) :
    Transparent me db (savedItemsOf userId limit >>= k) := by
  unfold savedItemsOf
  rw [bind_assoc]
  refine select_then ?_ ?_
  · intro r _ hr
    have huser : r.userId = userId := by simpa using hr
    obtain hme | hfriend := hadmitted
    · simp [savedItems, huser, hme]
    · simp [savedItems, huser, hfriend]
  · rw [bind_assoc]
    exact select_then (fun _ _ _ => rfl) (hk _)

theorem getUserSaved_mirror (userId limit : ℕ) :
    Transparent me db (getUserSaved me userId limit) := by
  unfold getUserSaved
  refine Couples.ite (fun hself => ?_) fun _ => ?_
  · exact savedItemsOf_then (Or.inl hself) fun _ => answer _
  · refine areFriends_then fun ok hok => ?_
    refine Couples.ite (fun h => ?_) fun _ => refuse _
    exact savedItemsOf_then (Or.inr (hok h)) fun _ => answer _

/-- By its key, an `UPDATE` reaches the one row that was loaded. -/
theorem accept_mirror (hkeys : db.Keyed) {f : Friendship} (hmem : f ∈ db.friendships)
    (hparty : Friendship.party (some me) f = true) :
    Couples (Mirror (some me) db)
      (update friendships Response.serverError (fun g => g.id = f.id)
        fun g => { g with status := .accepted })
      (update friendships Response.serverError (fun g => g.id = f.id)
        fun g => { g with status := .accepted }) (fun _ => Split) Split := by
  refine update_mirror fun g hg hid => ?_
  have hsame : g = f :=
    List.inj_on_of_nodup_map hkeys.friendships hg hmem (by simpa using hid)
  rw [hsame]
  exact ⟨hparty, hparty, hparty⟩

theorem pair_party {f : Friendship} {other : ℕ}
    (h : (f.requesterId = me ∧ f.addresseeId = other) ∨
      (f.requesterId = other ∧ f.addresseeId = me)) : Friendship.party (some me) f = true := by
  obtain ⟨h1, _⟩ | ⟨_, h2⟩ := h
  · simp [Friendship.party, h1]
  · simp [Friendship.party, h2]

theorem sendRequest_mirror (hkeys : db.Keyed) (userId : ℕ) :
    Transparent me db (sendRequest env me userId) := by
  unfold sendRequest
  refine Couples.ite (fun _ => refuse _) fun _ => ?_
  refine getById_then rfl ?_
  cases ((users.rows db).filter fun r => users.key r = userId).head? with
  | none => exact refuse _
  | some target =>
    refine friendship_then fun row hrow => ?_
    cases row with
    | none => exact write_commit (insert_mirror (by simp [friendships, Friendship.party])
        (by simp [friendships, Friendship.party]))
    | some existing =>
      obtain ⟨hmem, hpair⟩ := hrow existing rfl
      refine Couples.ite (fun _ => refuse _) fun _ => ?_
      refine Couples.ite (fun _ => refuse _) fun _ => ?_
      exact write_commit (accept_mirror hkeys hmem (pair_party hpair))

theorem requestFrom_party {f : Friendship} {userId : ℕ}
    (h : Friendship.requestFrom userId me f = true) : Friendship.party (some me) f = true := by
  simp only [Friendship.requestFrom, Bool.and_eq_true, decide_eq_true_eq] at h
  simp [Friendship.party, h.1.2]

theorem acceptRequest_mirror (hkeys : db.Keyed) (userId : ℕ) :
    Transparent me db (acceptRequest me userId) := by
  unfold acceptRequest
  refine select_then (fun f _ hf => requestFrom_party hf) (oneOrNone_then fun row hrow => ?_)
  cases row with
  | none => exact refuse _
  | some f =>
    obtain ⟨hmem, hf⟩ := List.mem_filter.mp (hrow f rfl)
    exact write_commit (accept_mirror hkeys hmem (requestFrom_party hf))

theorem declineRequest_mirror (userId : ℕ) : Transparent me db (declineRequest me userId) :=
  write_commit (delete_mirror fun _ _ hf => ⟨requestFrom_party hf, requestFrom_party hf⟩)

theorem removeFriend_mirror (userId : ℕ) : Transparent me db (removeFriend me userId) := by
  refine write_commit (delete_mirror fun f _ hf => ?_)
  have hparty : Friendship.party (some me) f = true := pair_party (by simpa using hf)
  exact ⟨hparty, hparty⟩

theorem listFriends_mirror (limit : ℕ) : Transparent me db (listFriends env me limit) := by
  unfold listFriends
  refine select_then (fun f _ hf => ?_) (publicUsers_mirror _ _)
  rw [Bool.and_eq_true] at hf
  exact involves_party hf.2

theorem listRequests_mirror (limit : ℕ) : Transparent me db (listRequests env me limit) := by
  unfold listRequests
  refine select_then (fun f _ hf => ?_) (publicUsers_mirror _ _)
  simp only [Bool.and_eq_true, decide_eq_true_eq] at hf
  simp [friendships, Friendship.party, hf.1]

/-! ## Sharing and presence -/

theorem shareEvent_mirror (req : ShareRequest) : Transparent me db (shareEvent env me req) := by
  unfold shareEvent
  refine areFriends_then fun ok _ => ?_
  refine Couples.ite (fun _ => ?_) fun _ => refuse _
  refine getById_then rfl ?_
  cases ((items.rows db).filter fun r => items.key r = req.itemId).head? with
  | none => exact refuse _
  | some item =>
    exact write_commit (insertIgnore_mirror (by simp [sharedEvents]) (by simp [sharedEvents]))

theorem listSharedWithMe_mirror (limit : ℕ) :
    Transparent me db (listSharedWithMe env me limit) := by
  unfold listSharedWithMe
  refine select_then (fun s _ hs => ?_) ?_
  · simp only [decide_eq_true_eq] at hs
    simp [sharedEvents, hs]
  · refine select_then (fun _ _ _ => rfl) ?_
    exact select_then (fun _ _ _ => rfl) (answer _)

theorem dismissShared_mirror (shareId : ℕ) : Transparent me db (dismissShared me shareId) := by
  refine write_commit (delete_mirror fun s _ hs => ?_)
  simp only [Bool.and_eq_true, decide_eq_true_eq] at hs
  simp [sharedEvents, hs.2]

theorem heartbeat_mirror : Transparent me db (heartbeat env me) :=
  write_commit (update_mirror fun _ _ _ => ⟨rfl, rfl, rfl⟩)

/-! ## Saved items -/

theorem listSaved_mirror (limit : ℕ) : Transparent me db (listSaved me limit) :=
  savedItemsOf_then (Or.inl rfl) fun _ => answer _

theorem savedIds_mirror : Transparent me db (savedIds me) := by
  unfold savedIds
  refine select_then (fun s _ hs => ?_) (answer _)
  simp only [decide_eq_true_eq] at hs
  simp [savedItems, hs]

theorem saveItem_mirror (itemId : ℕ) : Transparent me db (saveItem env me itemId) := by
  unfold saveItem
  refine getById_then rfl ?_
  cases ((items.rows db).filter fun r => items.key r = itemId).head? with
  | none => exact refuse _
  | some item =>
    exact write_commit (insertIgnore_mirror (by simp [savedItems]) (by simp [savedItems]))

theorem unsaveItem_mirror (itemId : ℕ) : Transparent me db (unsaveItem me itemId) := by
  refine write_commit (delete_mirror fun s _ hs => ?_)
  simp only [Bool.and_eq_true, decide_eq_true_eq] at hs
  simp [savedItems, hs.1]

/-! ## Attachments -/

theorem own_policy {f : UserFile} (h : f.userId = me) : userFiles.forSelect db (some me) f = true := by
  simp [userFiles, h]

theorem listFiles_mirror : Transparent me db (listFiles me) := by
  unfold listFiles
  refine select_then (fun f _ hf => own_policy (by simpa using hf)) ?_
  exact select_then (fun _ _ _ => rfl) (answer _)

theorem exec_ownFile {s : Sess} (hrole : s.role = .owner) (me fileId : ℕ) :
    exec (ownFile me fileId) s =
      (match s.view.userFiles.find? fun f => f.id = fileId && f.userId = me with
        | some f => .ok f
        | none => .error (.http 404 "File not found"), s) := by
  have hrows : userFiles.rows s.view = s.view.userFiles := rfl
  unfold ownFile
  rw [exec_bind_ok (exec_select_owner hrole), List.head?_filter, hrows]
  cases s.view.userFiles.find? fun f => f.id = fileId && f.userId = me with
  | none => rfl
  | some f => rfl

theorem ownFile_then {fileId : ℕ} {k : UserFile → Handler Response}
    (hk : ∀ f ∈ db.userFiles, f.userId = me → Transparent me db (k f)) :
    Transparent me db (ownFile me fileId >>= k) := by
  unfold ownFile
  rw [bind_assoc]
  refine select_then (fun f _ hf => own_policy ?_) ?_
  · simp only [Bool.and_eq_true, decide_eq_true_eq] at hf
    exact hf.2
  · cases hrow : ((userFiles.rows db).filter fun f => f.id = fileId && f.userId = me).head? with
    | none =>
      have hrefuse : Couples (Mirror (some me) db)
          (throw (.http 404 "File not found") : Handler UserFile)
          (throw (.http 404 "File not found")) (fun _ _ _ => False) Split :=
        Couples.throw fun _ _ h => h.split
      exact Couples.bind hrefuse fun _ _ _ h => h.elim
    | some f =>
      obtain ⟨hmem, hf⟩ := List.mem_filter.mp (List.mem_of_mem_head? hrow)
      simp only [Bool.and_eq_true, decide_eq_true_eq] at hf
      rw [pure_bind]
      exact hk f hmem hf.2

theorem file_key_eq (hkeys : db.Keyed) {f g : UserFile} (hf : f ∈ db.userFiles)
    (hg : g ∈ db.userFiles) (hid : g.id = f.id) : g = f :=
  List.inj_on_of_nodup_map hkeys.userFiles hg hf hid

theorem getFile_mirror (hkeys : db.Keyed) (fileId : ℕ) (download : Bool) :
    Transparent me db (getFile me fileId download) := by
  unfold getFile
  refine ownFile_then fun f hf hown => ?_
  unfold refresh getById
  rw [bind_assoc, bind_assoc]
  refine select_then (fun g hg hid => ?_) ?_
  · rw [file_key_eq hkeys hf hg (by simpa [userFiles] using hid)]
    exact own_policy hown
  · rw [pure_bind]
    cases ((userFiles.rows db).filter fun r => userFiles.key r = f.id).head? with
    | none =>
      have hcrash : Couples (Mirror (some me) db) (throw .serverError : Handler UserFile)
          (throw .serverError) (fun _ _ _ => False) Split := Couples.throw fun _ _ h => h.split
      exact Couples.bind hcrash fun _ _ _ h => h.elim
    | some full => exact answer _

theorem deleteFile_mirror (hkeys : db.Keyed) (fileId : ℕ) :
    Transparent me db (deleteFile me fileId) := by
  unfold deleteFile
  refine ownFile_then fun f hf hown => write_commit (delete_mirror fun g hg hid => ?_)
  have hpolicy : userFiles.forSelect db (some me) f = true := own_policy hown
  rw [file_key_eq hkeys hf hg (by simpa using hid)]
  exact ⟨hpolicy, hpolicy⟩

/-! ## Export and deletion -/

theorem exportMe_mirror (u : Person) : Transparent u.id db (exportMe u) := by
  unfold exportMe
  refine select_then (fun s _ hs => ?_) ?_
  · simp only [decide_eq_true_eq] at hs
    simp [savedItems, hs]
  refine select_then (fun f _ hf => involves_party hf) ?_
  refine select_then (fun s _ hs => ?_) ?_
  · simp only [Bool.or_eq_true, decide_eq_true_eq] at hs
    simp only [sharedEvents, Bool.or_eq_true, decide_eq_true_eq, Option.some.injEq]
    exact (hs.imp Eq.symm Eq.symm).symm
  exact select_then (fun f _ hf => own_policy (by simpa using hf)) (answer _)

theorem deleteMe_mirror (u : Person) (currentPassword : Option String) :
    Transparent u.id db (deleteMe env u currentPassword) := by
  unfold deleteMe
  cases Accounts.deleteRefusal env.deps currentPassword u.toUser with
  | some r => exact refuse _
  | none =>
    have hdelete : Couples (Mirror (some u.id) db) (deleteUser u.id : Handler Unit) (deleteUser u.id)
        (fun _ => Split) Split := by
      rintro s t ⟨⟨hrole, rfl⟩, _, _⟩
      exact Alike.ok ⟨hrole, rfl⟩
    have hmail : ∀ m, Couples Split (sendMail m : Handler Unit) (sendMail m) (fun _ => Split) Split := by
      rintro m s t ⟨hrole, rfl⟩
      exact Alike.ok ⟨hrole, rfl⟩
    refine Couples.bind hdelete fun _ => Couples.bind commit_split fun _ => ?_
    exact Couples.bind (hmail _) fun _ => Couples.pure fun _ _ h => h

/-! ## The upload -/

/-- The upload passes every check of `upload_file` and every constraint of `user_files`. -/
def acceptsUpload (env : Env) (db : Db) (me : ℕ) (up : Upload) : Bool :=
  match checkUpload env up with
  | .error _ => false
  | .ok contentType =>
    db.hasItem up.itemId && (db.userFiles.filter fun f => f.userId = me).length < env.filesMaxPerUser &&
      userFiles.accepts db (uploadedFile env me up contentType)

theorem head?_of_hasItem {itemId : ℕ} (h : db.hasItem itemId = true) :
    ∃ item, ((items.rows db).filter fun r => items.key r = itemId).head? = some item := by
  obtain ⟨item, hmem, hid⟩ := List.any_eq_true.mp h
  have hne : ((items.rows db).filter fun r => items.key r = itemId) ≠ [] :=
    List.ne_nil_of_mem (List.mem_filter.mpr ⟨hmem, hid⟩)
  exact ⟨_, List.head?_eq_some_head hne⟩

theorem hasItem_of_head? {itemId : ℕ} {item : Item}
    (h : ((items.rows db).filter fun r => items.key r = itemId).head? = some item) :
    db.hasItem itemId = true :=
  have hmem := List.mem_filter.mp (List.mem_of_mem_head? h)
  List.any_eq_true.mpr ⟨item, hmem⟩

theorem uploadFile_mirror {up : Upload} (hno : acceptsUpload env db me up = false) :
    Transparent me db (uploadFile env me up) := by
  unfold uploadFile
  unfold acceptsUpload at hno
  cases hcheck : checkUpload env up with
  | error r => exact refuse _
  | ok contentType =>
    simp only [hcheck] at hno
    refine getById_then rfl ?_
    cases hitem : ((items.rows db).filter fun r => items.key r = up.itemId).head? with
    | none => exact refuse _
    | some item =>
      refine select_then (fun f _ hf => own_policy (by simpa using hf)) ?_
      refine Couples.ite (fun _ => refuse _) fun hcount => ?_
      have hlt : (db.userFiles.filter fun f => f.userId = me).length < env.filesMaxPerUser :=
        Nat.lt_of_not_le hcount
      have hbad : userFiles.accepts db (uploadedFile env me up contentType) = false := by
        simpa [hasItem_of_head? hitem, hlt] using hno
      exact Couples.bind (insert_mirror_refused hbad) fun _ _ _ h => h.elim

/-- A table without policies answers both roles. -/
theorem exec_getById_open {ρ : Type} {T : Table ρ} (hopen : ∀ db me r, T.forSelect db me r = true)
    (s : Sess) (id : ℕ) : exec (getById T id : Handler (Option ρ)) s =
      (.ok ((T.rows s.view).filter fun r => T.key r = id).head?, s) := by
  have hall : ((T.rows s.view).filter fun r =>
      decide (T.key r = id) && s.admits (T.forSelect s.view s.pinned r)) =
      (T.rows s.view).filter fun r => T.key r = id :=
    List.filter_congr fun r _ => by simp [hopen, Sess.admits]
  rw [← hall]
  rfl

theorem exec_selectMine {s : Sess} (hpin : s.pinned = some me) :
    exec (select userFiles fun f => f.userId = me : Handler (List UserFile)) s =
      (.ok ((userFiles.rows s.view).filter fun f => f.userId = me), s) := by
  rw [exec_select, hpin]
  refine congrArg (fun rows => (Except.ok rows, s)) (List.filter_congr fun f _ => ?_)
  by_cases hf : f.userId = me
  · simp [Sess.admits, userFiles, hf]
  · simp [hf]

/-- The session an accepted upload leaves when it has committed. -/
def Sess.uploaded (s : Sess) (row : UserFile) : Sess :=
  { s.added userFiles row with committed := (s.added userFiles row).view, pinned := none }

/-- An accepted upload in a session of either role, up to its last read. -/
theorem exec_uploadFile {up : Upload} {s : Sess} (hacc : acceptsUpload env db me up = true)
    (hpin : s.pinned = some me) (hview : s.view = db) :
    ∃ contentType item, checkUpload env up = .ok contentType ∧
      ((items.rows db).filter fun r => items.key r = up.itemId).head? = some item ∧
      exec (uploadFile env me up) s =
        exec (refresh userFiles env.newId >>= fun f => pure (.created (fileOut f item.name)))
          (s.uploaded (uploadedFile env me up contentType)) := by
  unfold acceptsUpload at hacc
  cases hcheck : checkUpload env up with
  | error r => simp [hcheck] at hacc
  | ok contentType =>
    simp only [hcheck, Bool.and_eq_true, decide_eq_true_eq] at hacc
    obtain ⟨⟨hitem, hlt⟩, hfits⟩ := hacc
    obtain ⟨item, hhead⟩ := head?_of_hasItem hitem
    refine ⟨contentType, item, rfl, hhead, ?_⟩
    have hget := exec_getById_open (T := items) (fun _ _ _ => rfl) s up.itemId
    rw [hview, hhead] at hget
    have hmine := exec_selectMine hpin
    have hinsert : exec (insert userFiles Response.serverError (uploadedFile env me up contentType)) s =
        (.ok (uploadedFile env me up contentType),
          s.added userFiles (uploadedFile env me up contentType)) := by
      rw [exec_insert, if_neg]
      have hallowed : insertAllowed userFiles s (uploadedFile env me up contentType) = true := by
        simp [insertAllowed, Sess.admits, hpin, userFiles, uploadedFile]
      have hclash : (userFiles.rows db).any
          (userFiles.clashes (uploadedFile env me up contentType)) = false := by
        simp [userFiles]
      unfold insertRefused
      rw [hallowed, hview, hfits, hclash]
      decide
    have hcount : ¬ env.filesMaxPerUser ≤
        ((userFiles.rows db).filter fun f => f.userId = me).length := Nat.not_le_of_lt hlt
    unfold uploadFile
    simp only [hcheck]
    rw [exec_bind_ok hget]
    simp only
    rw [exec_bind_ok hmine, hview, if_neg hcount, exec_bind_ok hinsert]
    rfl

/-- The owner reads its row back. -/
theorem exec_refresh_owner {s : Sess} (row : UserFile) (hrole : s.role = .owner) :
    ∃ f, exec (refresh userFiles row.id) (s.uploaded row) = (.ok f, s.uploaded row) := by
  have hmem : row ∈ (userFiles.rows (s.uploaded row).view).filter fun f =>
      decide (userFiles.key f = row.id) && (s.uploaded row).admits
        (userFiles.forSelect (s.uploaded row).view (s.uploaded row).pinned f) := by
    refine List.mem_filter.mpr ⟨?_, ?_⟩
    · exact List.mem_append_right _ (List.mem_singleton.mpr rfl)
    · simp [Sess.uploaded, Sess.added, Sess.admits, hrole, userFiles]
  obtain ⟨f, hf⟩ : ∃ f, ((userFiles.rows (s.uploaded row).view).filter fun f =>
      decide (userFiles.key f = row.id) && (s.uploaded row).admits
        (userFiles.forSelect (s.uploaded row).view (s.uploaded row).pinned f)).head? = some f :=
    ⟨_, List.head?_eq_some_head (List.ne_nil_of_mem hmem)⟩
  have hget : exec (getById userFiles row.id : Handler (Option UserFile)) (s.uploaded row) =
      (.ok (some f), s.uploaded row) := by
    rw [← hf]
    rfl
  refine ⟨f, ?_⟩
  unfold refresh
  rw [exec_bind_ok hget]
  rfl

/-- The runtime role, with no identity pinned, sees no file at all. -/
theorem exec_refresh_runtime {s : Sess} (id : ℕ) (hrole : s.role = .runtime)
    (hpin : s.pinned = none) :
    exec (refresh userFiles id : Handler UserFile) s = (.error .serverError, s) := by
  have hnone : ((userFiles.rows s.view).filter fun f =>
      decide (userFiles.key f = id) && s.admits (userFiles.forSelect s.view s.pinned f)) = [] := by
    refine List.filter_eq_nil_iff.mpr fun f _ => ?_
    simp [Sess.admits, hrole, hpin, userFiles]
  have hget : exec (getById userFiles id : Handler (Option UserFile)) s = (.ok none, s) := by
    show (Except.ok ((userFiles.rows s.view).filter _).head?, _) = _
    rw [hnone]
    rfl
  unfold refresh
  rw [exec_bind_ok hget]
  rfl

/-! ## One request -/

/-- The request is an upload that the endpoint accepts. -/
def Call.acceptedUpload (env : Env) (db : Db) (uid : ℕ) : Call → Bool
  | .uploadFile up => acceptsUpload env db uid up
  | _ => false

/-- Every endpoint, save the accepted upload. -/
theorem handler_mirror (hkeys : db.Keyed) (u : Person) (call : Call)
    (hno : call.acceptedUpload env db u.id = false) :
    Transparent u.id db (call.handler env u) := by
  cases call with
  | searchUsers q => exact searchUsers_mirror q
  | getProfile userId => exact getProfile_mirror userId
  | getUserSaved userId limit => exact getUserSaved_mirror userId limit
  | sendRequest userId => exact sendRequest_mirror hkeys userId
  | acceptRequest userId => exact acceptRequest_mirror hkeys userId
  | declineRequest userId => exact declineRequest_mirror userId
  | removeFriend userId => exact removeFriend_mirror userId
  | listFriends limit => exact listFriends_mirror limit
  | listRequests limit => exact listRequests_mirror limit
  | shareEvent req => exact shareEvent_mirror req
  | listSharedWithMe limit => exact listSharedWithMe_mirror limit
  | dismissShared shareId => exact dismissShared_mirror shareId
  | heartbeat => exact heartbeat_mirror
  | listSaved limit => exact listSaved_mirror limit
  | savedIds => exact savedIds_mirror
  | saveItem itemId => exact saveItem_mirror itemId
  | unsaveItem itemId => exact unsaveItem_mirror itemId
  | listFiles => exact listFiles_mirror
  | uploadFile up => exact uploadFile_mirror hno
  | getFile fileId download => exact getFile_mirror hkeys fileId download
  | deleteFile fileId => exact deleteFile_mirror hkeys fileId
  | exportMe => exact exportMe_mirror u
  | deleteMe currentPassword => exact deleteMe_mirror u currentPassword

theorem pin_mirror (u : Person) : Couples (Mirror none db) (pin u.id : Handler Unit) (pin u.id)
    (fun _ => Mirror (some u.id) db) Split := by
  rintro s t ⟨⟨hrole, rfl⟩, _, hview⟩
  exact Alike.ok ⟨⟨hrole, rfl⟩, rfl, hview⟩

theorem id_of_head? {u : Person}
    (h : ((users.rows db).filter fun r => users.key r = uid).head? = some u) : u.id = uid :=
  decide_eq_true_eq.mp (List.mem_filter.mp (List.mem_of_mem_head? h)).2

theorem authenticated_mirror (hkeys : db.Keyed) (call : Call)
    (hno : call.acceptedUpload env db uid = false) :
    Couples (Mirror none db) (authenticated env uid call) (authenticated env uid call)
      (fun _ => Split) Split := by
  unfold authenticated
  refine getById_then rfl ?_
  cases hu : ((users.rows db).filter fun r => users.key r = uid).head? with
  | none => exact refuse _
  | some u =>
    rw [← id_of_head? hu] at hno
    exact Couples.bind (pin_mirror u) fun _ => handler_mirror hkeys u call hno

theorem serve_mirror (hkeys : db.Keyed) (call : Call)
    (hno : call.acceptedUpload env db uid = false) :
    serve env .owner db uid call = serve env .runtime db uid call := by
  have hstart : Mirror none db { role := .owner, committed := db, view := db }
      { role := .runtime, committed := db, view := db } := ⟨⟨rfl, rfl⟩, rfl, rfl⟩
  have hend := authenticated_mirror hkeys call hno _ _ hstart
  unfold serve
  generalize exec (authenticated env uid call) { role := .owner, committed := db, view := db } = r1
    at hend ⊢
  generalize exec (authenticated env uid call) { role := .runtime, committed := db, view := db } = r2
    at hend ⊢
  cases hend with
  | ok h => rw [h.2]
  | error h => rw [h.2]

theorem head?_of_hasUser (h : db.hasUser uid = true) :
    ∃ u, ((users.rows db).filter fun r => users.key r = uid).head? = some u ∧ u.id = uid := by
  obtain ⟨u, hmem, hid⟩ := List.any_eq_true.mp h
  have hne : ((users.rows db).filter fun r => users.key r = uid) ≠ [] :=
    List.ne_nil_of_mem (List.mem_filter.mpr ⟨hmem, hid⟩)
  have hhead := List.head?_eq_some_head hne
  exact ⟨_, hhead, id_of_head? hhead⟩

/-- An accepted upload is the upload of a user the table has. -/
theorem hasUser_of_acceptsUpload {up : Upload} (h : acceptsUpload env db uid up = true) :
    db.hasUser uid = true := by
  unfold acceptsUpload at h
  cases hcheck : checkUpload env up with
  | error r => simp [hcheck] at h
  | ok contentType =>
    simp only [hcheck, Bool.and_eq_true] at h
    have hfits := h.2
    simp only [Table.accepts, userFiles, uploadedFile, Bool.and_eq_true] at hfits
    exact hfits.1.1.1.1

/-- The session of a request once `current_user` has pinned the identity. -/
def pinnedSess (role : Role) (db : Db) (uid : ℕ) : Sess :=
  { role := role, committed := db, view := db, pinned := some uid }

variable (env) in
/-- `current_user`: the caller's row, or the refusal. -/
theorem exec_current_user (role : Role) (db : Db) (uid : ℕ) (call : Call) :
    exec (authenticated env uid call) { role := role, committed := db, view := db } =
      match ((users.rows db).filter fun r => users.key r = uid).head? with
      | none => (.error (.http 401 "Not authenticated"), { role := role, committed := db, view := db })
      | some u => exec (call.handler env u) (pinnedSess role db u.id) := by
  have hget := exec_getById_open (T := users) (fun _ _ _ => rfl)
    { role := role, committed := db, view := db } uid
  unfold authenticated
  rw [exec_bind_ok hget]
  cases ((users.rows db).filter fun r => users.key r = uid).head? with
  | none => rfl
  | some u => rfl

theorem serve_signedOut {role : Role} {call : Call} (h : db.hasUser uid = false) :
    serve env role db uid call = (.http 401 "Not authenticated", db, []) := by
  have hnone : ((users.rows db).filter fun r => users.key r = uid).head? = none := by
    rw [List.head?_eq_none_iff, List.filter_eq_nil_iff]
    intro u hu hid
    unfold Db.hasUser at h
    rw [List.any_eq_false] at h
    exact h u hu hid
  unfold serve
  rw [exec_current_user, hnone]

variable (env) in
theorem exec_authenticated (role : Role) (call : Call) (h : db.hasUser uid = true) :
    ∃ u : Person, u.id = uid ∧
      exec (authenticated env uid call) { role := role, committed := db, view := db } =
        exec (call.handler env u) (pinnedSess role db uid) := by
  obtain ⟨u, hhead, hid⟩ := head?_of_hasUser h
  refine ⟨u, hid, ?_⟩
  rw [exec_current_user, hhead, ← hid]

/-- The owner is answered with the stored file, the runtime role with an exception. -/
theorem serve_acceptedUpload {call : Call} (h : call.acceptedUpload env db uid = true) :
    (∃ f, (serve env .owner db uid call).1 = .created f) ∧
      (serve env .runtime db uid call).1 = .serverError := by
  cases call with
  | uploadFile up =>
    have hrun : ∀ role, ∃ (row : UserFile) (item : Item),
        exec (authenticated env uid (.uploadFile up)) { role := role, committed := db, view := db } =
          exec (refresh userFiles row.id >>= fun f => pure (.created (fileOut f item.name)))
            ((pinnedSess role db uid).uploaded row) := by
      intro role
      obtain ⟨u, hid, hpinned⟩ := exec_authenticated env role (.uploadFile up)
        (hasUser_of_acceptsUpload h)
      obtain ⟨contentType, item, _, _, hup⟩ := exec_uploadFile (s := pinnedSess role db uid) h rfl rfl
      refine ⟨uploadedFile env uid up contentType, item, ?_⟩
      rw [hpinned]
      subst hid
      exact hup
    constructor
    · obtain ⟨row, item, howner⟩ := hrun .owner
      obtain ⟨f, hf⟩ := exec_refresh_owner (s := pinnedSess .owner db uid) row rfl
      refine ⟨fileOut f item.name, ?_⟩
      unfold serve
      rw [howner, exec_bind_ok hf]
      rfl
    · obtain ⟨row, item, hruntime⟩ := hrun .runtime
      have hf := exec_refresh_runtime (s := (pinnedSess .runtime db uid).uploaded row) row.id rfl rfl
      unfold serve
      rw [hruntime, exec_bind_error hf]
  | _ => cases h

/-- A request is served alike by the two roles exactly when it is no accepted upload. -/
theorem rls_transparent_iff (hkeys : db.Keyed) (call : Call) :
    serve env .owner db uid call = serve env .runtime db uid call ↔
      call.acceptedUpload env db uid = false := by
  constructor
  · intro hsame
    rw [← Bool.not_eq_true]
    intro hacc
    obtain ⟨⟨f, howner⟩, hruntime⟩ := serve_acceptedUpload hacc
    rw [hsame, hruntime] at howner
    cases howner
  · exact fun hno => serve_mirror hkeys call hno

/-! ## A user attaches a PDF -/

def plainEnv : Env where
  now := 0
  deps := Accounts.transparent
  ilike _ _ := false
  collate a b := decide (a ≤ b)
  openImage _ := .error .unidentifiedImage

def oneItemDb : Db where
  users := [{ id := 7, email := some ⟨"ana@example.org", by decide⟩ }]
  items := [{ id := 3, name := "Chopin Gala" }]

def pdfUpload : Call := .uploadFile { itemId := 3, data := pdfMagic }

theorem oneItemDb_keyed : oneItemDb.Keyed := ⟨List.nodup_nil, List.nodup_nil⟩

theorem rls_transparent_iff_saved :
    serve plainEnv .owner oneItemDb 7 (.saveItem 3) =
      serve plainEnv .runtime oneItemDb 7 (.saveItem 3) :=
  (rls_transparent_iff oneItemDb_keyed (.saveItem 3)).mpr rfl

theorem rls_not_transparent :
    ¬ ∀ (env : Env) (db : Db) (uid : ℕ) (call : Call), db.Keyed →
      serve env .owner db uid call = serve env .runtime db uid call := by
  intro h
  have hsame := h plainEnv oneItemDb 7 pdfUpload oneItemDb_keyed
  have hacc : pdfUpload.acceptedUpload plainEnv oneItemDb 7 = true := by decide
  obtain ⟨⟨f, howner⟩, hruntime⟩ := serve_acceptedUpload hacc
  rw [hsame, hruntime] at howner
  cases howner

end WarsawEvents.RowSecurity
