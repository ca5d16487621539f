import WarsawEvents.RowSecurity.Transparency

/-! # What a user sees, and the statements that work on it

A statement of the runtime role works on what its policy shows, so two databases that agree there
answer it alike, whatever the endpoint asks for; and it writes only rows that the user has a part in.
The lemmas say so for each statement, as rules for two sessions over two such databases.
-/

namespace WarsawEvents.RowSecurity
set_option autoImplicit false

open Coupling

/-! ## What a user sees -/

def SharedEvent.involves (me : ℕ) (s : SharedEvent) : Bool := s.fromUserId = me || s.toUserId = me

/-- A saved item of the user's own, or of an accepted friend. -/
def Db.showsSaved (db : Db) (me : ℕ) (s : SavedItem) : Bool :=
  s.userId = me || db.friendships.any fun f => f.status = .accepted &&
    ((f.requesterId = me && f.addresseeId = s.userId) ||
      (f.addresseeId = me && f.requesterId = s.userId))

/-- The users, the items, and the private rows that are the user's own or shown to them. -/
def Db.seenBy (db : Db) (me : ℕ) : Db where
  users := db.users
  items := db.items
  friendships := db.friendships.filter (Friendship.involves me)
  sharedEvents := db.sharedEvents.filter (SharedEvent.involves me)
  savedItems := db.savedItems.filter (db.showsSaved me)
  userFiles := db.userFiles.filter fun f => f.userId = me

/-- Every row that is not the user's own: more than what is hidden from them. -/
def Db.apartFrom (db : Db) (me : ℕ) : Db where
  users := db.users.filter fun u => !decide (u.id = me)
  items := db.items
  friendships := db.friendships.filter fun f => !Friendship.involves me f
  sharedEvents := db.sharedEvents.filter fun s => !SharedEvent.involves me s
  savedItems := db.savedItems.filter fun s => !decide (s.userId = me)
  userFiles := db.userFiles.filter fun f => !decide (f.userId = me)
  userAvatars := db.userAvatars.filter fun a => !decide (a.userId = me)
  intentLogs := db.intentLogs

/-- No row of the four private tables has the id; what `gen_random_uuid()` draws is such an id. -/
structure Db.Unused (db : Db) (id : ℕ) : Prop where
  friendships : ∀ f ∈ db.friendships, f.id ≠ id
  sharedEvents : ∀ s ∈ db.sharedEvents, s.id ≠ id
  savedItems : ∀ s ∈ db.savedItems, s.id ≠ id
  userFiles : ∀ f ∈ db.userFiles, f.id ≠ id

variable {env : Env} {me id : ℕ} {db db' d : Db} {ρ α β : Type} {T : Table ρ} {mine : ρ → Bool}

theorem hasItem_seen (h : db.seenBy me = db'.seenBy me) (id : ℕ) :
    db.hasItem id = db'.hasItem id := by
  have hseen : (db.seenBy me).hasItem id = (db'.seenBy me).hasItem id := by rw [h]
  exact hseen

/-! ## What the policies say -/

/-- The policy on queries shows exactly what the user sees. -/
def Table.Shown (T : Table ρ) (me : ℕ) : Prop :=
  ∀ db, (T.rows db).filter (T.forSelect db (some me)) = T.rows (db.seenBy me)

/-- No row of the table has the key of the new one. -/
def Table.Free (T : Table ρ) (db : Db) (r : ρ) : Prop := ∀ r' ∈ T.rows db, T.key r' ≠ T.key r

theorem accepts_of_free {r : ρ} (h : T.Free db r) : T.accepts db r = T.constraints db r := by
  unfold Table.accepts
  have hnone : ((T.rows db).any fun r' => T.key r' = T.key r) = false := by
    rw [List.any_eq_false]
    intro r' hr'
    simpa using h r' hr'
  rw [hnone, Bool.not_false, Bool.and_true]

theorem free_of_accepts {r : ρ} (h : T.accepts db r = true) : T.Free db r := by
  unfold Table.accepts at h
  rw [Bool.and_eq_true, Bool.not_eq_true', List.any_eq_false] at h
  intro r' hr' hkey
  exact h.2 r' hr' (decide_eq_true hkey)

/-- The policies admit the user's own rows only, `mine`, and a clash is with a row that is shown. -/
structure Table.Private (T : Table ρ) (me : ℕ) (mine : ρ → Bool) : Prop where
  shown : T.Shown me
  insert_shown : ∀ db r, T.forInsert (some me) r = true → T.forSelect db (some me) r = true
  clash_shown : ∀ db r r', T.forInsert (some me) r = true → T.clashes r r' = true →
    T.forSelect db (some me) r' = true
  constraints_seen : ∀ db r, T.constraints (db.seenBy me) r = T.constraints db r
  insert_mine : ∀ r, T.forInsert (some me) r = true → mine r = true
  update_mine : ∀ r, T.forUpdate (some me) r = true → mine r = true
  delete_mine : ∀ r, T.forDelete (some me) r = true → mine r = true
  put_apart : ∀ db rows, rows.filter (fun r => !mine r) = (T.rows db).filter (fun r => !mine r) →
    (T.put db rows).apartFrom me = db.apartFrom me
  free_unused : ∀ db r, db.Unused (T.key r) → T.Free db r

theorem users_shown : users.Shown me := fun _ => List.filter_eq_self.mpr fun _ _ => rfl

theorem items_shown : items.Shown me := fun _ => List.filter_eq_self.mpr fun _ _ => rfl

theorem party_involves (me : ℕ) : Friendship.party (some me) = Friendship.involves me := by
  funext f
  simp only [Friendship.party, Friendship.involves, Option.some.injEq, eq_comm]

theorem friendships_private : friendships.Private me (Friendship.involves me) where
  shown db := by
    show db.friendships.filter (Friendship.party (some me)) = _
    rw [party_involves]
    rfl
  insert_shown _ _ h := h
  clash_shown db r r' h hclash := by
    simp only [friendships, Bool.and_eq_true, decide_eq_true_eq] at hclash
    have hparty : Friendship.party (some me) r = true := h
    show Friendship.party (some me) r' = true
    unfold Friendship.party at hparty ⊢
    rwa [← hclash.1, ← hclash.2]
  constraints_seen _ _ := rfl
  insert_mine r h := by rwa [← party_involves]
  update_mine r h := by rwa [← party_involves]
  delete_mine r h := by rwa [← party_involves]
  put_apart db rows h := by
    unfold Db.apartFrom
    simp only [friendships] at h ⊢
    rw [h]
  free_unused _ _ h := h.friendships

theorem sharedEvents_private : sharedEvents.Private me (SharedEvent.involves me) where
  shown db := by
    refine List.filter_congr fun s _ => ?_
    simp only [sharedEvents, SharedEvent.involves, Option.some.injEq, eq_comm, Bool.or_comm]
  insert_shown db s h := by
    have hfrom : (me = s.fromUserId) := by simpa [sharedEvents] using h
    simp [sharedEvents, hfrom]
  clash_shown db s s' h hclash := by
    have hfrom : (me = s.fromUserId) := by simpa [sharedEvents] using h
    simp only [sharedEvents, Bool.and_eq_true, decide_eq_true_eq] at hclash
    simp [sharedEvents, hfrom, hclash.1.1]
  constraints_seen _ _ := rfl
  insert_mine s h := by
    have hfrom : (me = s.fromUserId) := by simpa [sharedEvents] using h
    simp [SharedEvent.involves, hfrom]
  update_mine _ h := by cases h
  delete_mine s h := by
    have hto : (me = s.toUserId) := by simpa [sharedEvents] using h
    simp [SharedEvent.involves, hto]
  put_apart db rows h := by
    unfold Db.apartFrom
    simp only [sharedEvents] at h ⊢
    rw [h]
  free_unused _ _ h := h.sharedEvents

/-- The subquery of `p_saved_select` is friendship. -/
theorem acceptedFriend_iff (db : Db) (me other : ℕ) : acceptedFriend db (some me) other =
    db.friendships.any fun f => f.status = .accepted &&
      ((f.requesterId = me && f.addresseeId = other) ||
        (f.addresseeId = me && f.requesterId = other)) := by
  unfold acceptedFriend
  rw [List.any_filter]
  refine congrArg (List.any db.friendships) ?_
  funext f
  rw [Bool.eq_iff_iff]
  simp only [Friendship.party, Bool.and_eq_true, Bool.or_eq_true, decide_eq_true_eq,
    Option.some.injEq]
  constructor
  · rintro ⟨_, haccepted, h | h⟩
    · exact ⟨haccepted, .inl ⟨h.1.symm, h.2⟩⟩
    · exact ⟨haccepted, .inr ⟨h.1.symm, h.2⟩⟩
  · rintro ⟨haccepted, h | h⟩
    · exact ⟨.inl h.1.symm, haccepted, .inl ⟨h.1.symm, h.2⟩⟩
    · exact ⟨.inr h.1.symm, haccepted, .inr ⟨h.1.symm, h.2⟩⟩

theorem savedItems_private : savedItems.Private me fun s => s.userId = me where
  shown db := by
    refine List.filter_congr fun s _ => ?_
    show (decide (some me = some s.userId) || acceptedFriend db (some me) s.userId) = _
    rw [acceptedFriend_iff]
    simp only [Db.showsSaved, Option.some.injEq, eq_comm]
  insert_shown db s h := by
    have hown : (me = s.userId) := by simpa [savedItems] using h
    simp [savedItems, hown]
  clash_shown db s s' h hclash := by
    have hown : (me = s.userId) := by simpa [savedItems] using h
    simp only [savedItems, Bool.and_eq_true, decide_eq_true_eq] at hclash
    simp [savedItems, hown, hclash.1]
  constraints_seen _ _ := rfl
  insert_mine s h := by
    have hown : (me = s.userId) := by simpa [savedItems] using h
    simp [hown]
  update_mine _ h := by cases h
  delete_mine s h := by
    have hown : (me = s.userId) := by simpa [savedItems] using h
    simp [hown]
  put_apart db rows h := by
    unfold Db.apartFrom
    simp only [savedItems] at h ⊢
    rw [h]
  free_unused _ _ h := h.savedItems

theorem ownFile_iff (f : UserFile) : decide (some me = some f.userId) = decide (f.userId = me) := by
  simp only [Option.some.injEq, eq_comm]

theorem userFiles_private : userFiles.Private me fun f => f.userId = me where
  shown db := List.filter_congr fun f _ => ownFile_iff f
  insert_shown _ _ h := h
  clash_shown _ _ _ _ hclash := by cases hclash
  constraints_seen _ _ := rfl
  insert_mine f h := (ownFile_iff f).symm.trans h
  update_mine f h := (ownFile_iff f).symm.trans h
  delete_mine f h := (ownFile_iff f).symm.trans h
  put_apart db rows h := by
    unfold Db.apartFrom
    simp only [userFiles] at h ⊢
    rw [h]
  free_unused _ _ h := h.userFiles

/-! ## Two sessions of the runtime role -/

/-- The same mails, and nothing written that the user has no part in, since the database was `d`. -/
structure Wrote (me : ℕ) (d : Db) (s t : Sess) : Prop where
  left : s.role = .runtime
  right : t.role = .runtime
  mails : s.mails = t.mails
  view : s.view.apartFrom me = d.apartFrom me
  committed : s.committed.apartFrom me = d.apartFrom me

/-- Before the first write: the identity is pinned, both see the same, and neither has a row `id`. -/
structure Agree (me id : ℕ) (d : Db) (s t : Sess) : Prop extends Wrote me d s t where
  pinned : s.pinned = some me
  pinned' : t.pinned = some me
  seen : s.view.seenBy me = t.view.seenBy me
  unused : s.view.Unused id
  unused' : t.view.Unused id

/-- A part of an endpoint that only reads. -/
abbrev Reads (me id : ℕ) (d : Db) (m : Handler α) : Prop :=
  Couples (Agree me id d) m m (fun _ => Agree me id d) (Wrote me d)

/-- An endpoint, or its rest. -/
abbrev Blind (me id : ℕ) (d : Db) (m : Handler α) : Prop :=
  Couples (Agree me id d) m m (fun _ => Wrote me d) (Wrote me d)

theorem reads_pure (a : α) : Reads me id d (pure a : Handler α) := Couples.pure fun _ _ h => h

theorem reads_throw (r : Response) : Reads me id d (throw r : Handler α) :=
  Couples.throw fun _ _ h => h.toWrote

theorem Reads.blind {m : Handler α} (h : Reads me id d m) : Blind me id d m :=
  h.conseq (fun _ _ hst => hst) fun _ _ _ hst => hst.toWrote

theorem blind_pure (a : α) : Blind me id d (pure a : Handler α) := (reads_pure a).blind

theorem blind_throw (r : Response) : Blind me id d (throw r : Handler α) := (reads_throw r).blind

section Statements
variable {s t : Sess} {p : ρ → Bool} {crash : Response}

/-- A query sees what the user sees. -/
theorem rows_shown (hT : T.Shown me) (hrole : s.role = .runtime) (hpin : s.pinned = some me) :
    ((T.rows s.view).filter fun r => p r && s.admits (T.forSelect s.view s.pinned r)) =
      (T.rows (s.view.seenBy me)).filter p := by
  rw [← hT, List.filter_filter, hpin]
  exact List.filter_congr fun r _ => by rw [runtime_admits hrole]

theorem select_reads (hT : T.Shown me) : Reads me id d (select T p : Handler (List ρ)) := by
  intro s t hst
  rw [exec_select, exec_select, rows_shown hT hst.left hst.pinned,
    rows_shown hT hst.right hst.pinned', hst.seen]
  exact Alike.ok hst

theorem getById_reads (hT : T.Shown me) (key : ℕ) : Reads me id d (getById T key : Handler (Option ρ)) :=
  Couples.bind (select_reads hT) fun _ => reads_pure _

theorem oneOrNone_reads (rows : List ρ) : Reads me id d (oneOrNone crash rows) := by
  match rows with
  | [] => exact reads_pure none
  | [r] => exact reads_pure (some r)
  | _ :: _ :: _ => exact reads_throw crash

/-- Whether a row is refused, from what the user sees. -/
def Table.refuses (T : Table ρ) (me : ℕ) (db : Db) (r : ρ) : Bool :=
  !T.forInsert (some me) r || !T.constraints (db.seenBy me) r ||
    (T.rows (db.seenBy me)).any (T.clashes r)

theorem refuses_seen (hseen : db.seenBy me = db'.seenBy me) {r : ρ} :
    T.refuses me db r = T.refuses me db' r := by
  unfold Table.refuses
  rw [hseen]

theorem clashes_seen (hT : T.Private me mine) {r : ρ} (h : T.forInsert (some me) r = true) (db : Db) :
    (T.rows db).any (T.clashes r) = (T.rows (db.seenBy me)).any (T.clashes r) := by
  rw [← hT.shown, List.any_filter, Bool.eq_iff_iff, List.any_eq_true, List.any_eq_true]
  constructor
  · rintro ⟨r', hmem, hclash⟩
    refine ⟨r', hmem, ?_⟩
    rw [hT.clash_shown db r r' h hclash, hclash]
    rfl
  · rintro ⟨r', hmem, hclash⟩
    exact ⟨r', hmem, (Bool.and_eq_true_iff.mp hclash).2⟩

theorem insertAllowed_runtime (hT : T.Private me mine) (hrole : s.role = .runtime)
    (hpin : s.pinned = some me) (r : ρ) : insertAllowed T s r = T.forInsert (some me) r := by
  unfold insertAllowed
  rw [runtime_admits hrole, runtime_admits hrole, hpin]
  cases h : T.forInsert (some me) r with
  | true => rw [hT.insert_shown s.view r h, Bool.and_self]
  | false => rfl

theorem insertRefused_runtime (hT : T.Private me mine) (hrole : s.role = .runtime)
    (hpin : s.pinned = some me) {r : ρ} (hfree : T.Free s.view r) :
    insertRefused T s r = T.refuses me s.view r := by
  unfold insertRefused Table.refuses
  rw [insertAllowed_runtime hT hrole hpin, hT.constraints_seen, accepts_of_free hfree]
  cases h : T.forInsert (some me) r with
  | true => rw [clashes_seen hT h]
  | false => rfl

/-- Each wrote in its own view, the left one only what is the user's. -/
theorem Wrote.rewrite (h : Wrote me d s t) {v v' : Db} (hv : v.apartFrom me = s.view.apartFrom me) :
    Wrote me d { s with view := v } { t with view := v' } :=
  ⟨h.left, h.right, h.mails, hv.trans h.view, h.committed⟩

/-- A row of the user's own, put at the end. -/
theorem Wrote.added (h : Wrote me d s t) (hT : T.Private me mine) {r : ρ} (hr : mine r = true) :
    Wrote me d (s.added T r) (t.added T r) := by
  refine h.rewrite ?_
  show (T.put s.view (T.rows s.view ++ [r])).apartFrom me = s.view.apartFrom me
  apply hT.put_apart
  rw [List.filter_append, List.filter_singleton, hr]
  exact List.append_nil _

/-- An `INSERT` under a key that neither database has: whether it is refused, both see. -/
theorem insert_blind (hT : T.Private me mine) {r : ρ} (hkey : T.key r = id) {k : ρ → Handler β}
    (hk : ∀ r', Couples (Wrote me d) (k r') (k r') (fun _ => Wrote me d) (Wrote me d)) :
    Blind me id d (insert T crash r >>= k) := by
  intro s t hst
  subst hkey
  have hs : exec (insert T crash r) s = _ := exec_insert s r
  have ht : exec (insert T crash r) t = _ := exec_insert t r
  rw [insertRefused_runtime hT hst.left hst.pinned (hT.free_unused _ r hst.unused)] at hs
  rw [insertRefused_runtime hT hst.right hst.pinned' (hT.free_unused _ r hst.unused'),
    ← refuses_seen hst.seen] at ht
  cases hrefused : T.refuses me s.view r with
  | true =>
    rw [hrefused, if_pos rfl] at hs ht
    rw [exec_bind_error hs, exec_bind_error ht]
    exact Alike.error hst.toWrote
  | false =>
    rw [hrefused, if_neg Bool.false_ne_true] at hs ht
    rw [exec_bind_ok hs, exec_bind_ok ht]
    have hadmitted : T.forInsert (some me) r = true := by
      unfold Table.refuses at hrefused
      simp only [Bool.or_eq_false_iff, Bool.not_eq_false'] at hrefused
      exact hrefused.1.1
    exact hk _ _ _ (hst.toWrote.added hT (hT.insert_mine _ hadmitted))

theorem insertIgnore_blind (hT : T.Private me mine) {r : ρ} (hkey : T.key r = id) :
    Blind me id d (insertIgnore T crash r) := by
  intro s t hst
  subst hkey
  rw [exec_insertIgnore, exec_insertIgnore, insertAllowed_runtime hT hst.left hst.pinned,
    insertAllowed_runtime hT hst.right hst.pinned',
    accepts_of_free (hT.free_unused _ r hst.unused), accepts_of_free (hT.free_unused _ r hst.unused'),
    ← hT.constraints_seen s.view, ← hT.constraints_seen t.view, ← hst.seen]
  cases hadmitted : T.forInsert (some me) r with
  | false => exact Alike.error hst.toWrote
  | true =>
    rw [clashes_seen hT hadmitted s.view, clashes_seen hT hadmitted t.view, hst.seen]
    simp only [Bool.true_eq_false, if_false]
    split
    · exact Alike.ok hst.toWrote
    · split
      · exact Alike.error hst.toWrote
      · exact Alike.ok (hst.toWrote.added hT (hT.insert_mine _ hadmitted))

/-- The rows an `UPDATE` or a `DELETE` reaches are the user's own. -/
theorem hits_runtime {policy : Option ℕ → ρ → Bool} (hrole : s.role = .runtime)
    (hpin : s.pinned = some me) (r : ρ) : hits s T policy p r =
      (p r && T.forSelect s.view (some me) r && policy (some me) r) := by
  unfold hits
  rw [runtime_admits hrole, runtime_admits hrole, hpin]

theorem updateRefused_runtime (hT : T.Shown me) (hrole : s.role = .runtime)
    (hpin : s.pinned = some me) (h : ρ → ρ) : updateRefused T s p h =
      (T.rows (s.view.seenBy me)).any fun r =>
        p r && T.forUpdate (some me) r && !T.forUpdate (some me) (h r) := by
  unfold updateRefused
  rw [← hT, List.any_filter]
  refine congrArg (List.any (T.rows s.view)) ?_
  funext r
  rw [hits_runtime hrole hpin, runtime_admits hrole, hpin]
  cases p r with
  | true => simp only [Bool.true_and, Bool.and_assoc]
  | false => simp only [Bool.false_and, Bool.and_false]

theorem filter_map_mine {rows : List ρ} {hit : ρ → Bool} {h : ρ → ρ}
    (hmine : ∀ r ∈ rows, hit r = true → mine r = true ∧ mine (h r) = true) :
    (rows.map fun r => if hit r then h r else r).filter (fun r => !mine r) =
      rows.filter fun r => !mine r := by
  induction rows with
  | nil => rfl
  | cons r rest ih =>
    have hrest := ih fun r' hr' => hmine r' (List.mem_cons_of_mem r hr')
    rw [List.map_cons, List.filter_cons, List.filter_cons, hrest]
    cases hhit : hit r with
    | true =>
      obtain ⟨hr, hnew⟩ := hmine r List.mem_cons_self hhit
      simp [hr, hnew]
    | false => simp

theorem update_blind (hT : T.Private me mine) (h : ρ → ρ) : Blind me id d (update T crash p h) := by
  intro s t hst
  have hsame : updateRefused T t p h = updateRefused T s p h := by
    rw [updateRefused_runtime hT.shown hst.left hst.pinned,
      updateRefused_runtime hT.shown hst.right hst.pinned', hst.seen]
  rw [exec_update, exec_update, hsame]
  split
  · exact Alike.error hst.toWrote
  · rename_i hkept
    refine Alike.ok (hst.toWrote.rewrite (hT.put_apart _ _ (filter_map_mine fun r hr hhit => ?_)))
    have hnew : T.forUpdate (some me) (h r) = true := by
      have hnone := List.any_eq_false.mp (Bool.eq_false_iff.mpr hkept) r hr
      rw [hhit, runtime_admits hst.left, hst.pinned] at hnone
      simpa using hnone
    rw [hits_runtime hst.left hst.pinned, Bool.and_eq_true] at hhit
    exact ⟨hT.update_mine r hhit.2, hT.update_mine _ hnew⟩

theorem delete_blind (hT : T.Private me mine) : Blind me id d (delete T p : Handler Unit) := by
  intro s t hst
  rw [exec_delete, exec_delete]
  refine Alike.ok (hst.toWrote.rewrite (hT.put_apart _ _ ?_))
  rw [List.filter_filter]
  refine List.filter_congr fun r _ => ?_
  rw [hits_runtime hst.left hst.pinned]
  cases hdelete : T.forDelete (some me) r with
  | true => rw [hT.delete_mine r hdelete, Bool.not_true, Bool.false_and]
  | false => rw [Bool.and_false, Bool.not_false, Bool.and_true]

/-- The heartbeat: a table without policies, and the user's own row of it. -/
theorem heartbeat_write (now : ℕ) : Blind me id d (update users crash (fun u => u.id = me)
    fun u => { u with lastSeenAt := some now }) := by
  intro s t hst
  have hadmitted : ∀ s : Sess, updateRefused users s (fun u => u.id = me)
      (fun u => { u with lastSeenAt := some now }) = false := by
    intro s
    unfold updateRefused
    rw [List.any_eq_false]
    intro u _
    simp [users, Sess.admits]
  rw [exec_update, exec_update, hadmitted, hadmitted, if_neg Bool.false_ne_true,
    if_neg Bool.false_ne_true]
  refine Alike.ok (hst.toWrote.rewrite ?_)
  have hkept : ((s.updated users (fun u => u.id = me)
      fun u => { u with lastSeenAt := some now }).view.users.filter fun u => !decide (u.id = me)) =
      s.view.users.filter fun u => !decide (u.id = me) := by
    refine filter_map_mine fun u _ hhit => ?_
    unfold hits at hhit
    simp only [Bool.and_eq_true] at hhit
    exact ⟨hhit.1.1, hhit.1.1⟩
  exact congrArg (fun us => ({ s.view.apartFrom me with users := us } : Db)) hkept

/-- `ON DELETE CASCADE` reaches the rows the user has a part in. -/
theorem deleteUser_apart (s : Sess) (me : ℕ) :
    (exec (deleteUser me : Handler Unit) s).2.view.apartFrom me = s.view.apartFrom me := by
  show Db.apartFrom { s.view with
    users := s.view.users.filter fun u => u.id ≠ me
    friendships := s.view.friendships.filter fun f => f.requesterId ≠ me && f.addresseeId ≠ me
    sharedEvents := s.view.sharedEvents.filter fun e => e.fromUserId ≠ me && e.toUserId ≠ me
    savedItems := s.view.savedItems.filter fun e => e.userId ≠ me
    userFiles := s.view.userFiles.filter fun f => f.userId ≠ me
    userAvatars := s.view.userAvatars.filter fun a => a.userId ≠ me } me = _
  unfold Db.apartFrom Friendship.involves SharedEvent.involves
  simp [List.filter_filter]

theorem deleteUser_blind : Blind me id d (deleteUser me : Handler Unit) := by
  intro s t hst
  exact Alike.ok (hst.toWrote.rewrite (deleteUser_apart s me))

theorem commit_wrote : Couples (Wrote me d) (commit : Handler Unit) commit (fun _ => Wrote me d)
    (Wrote me d) := by
  intro s t hst
  exact Alike.ok ⟨hst.left, hst.right, hst.mails, hst.view, hst.view⟩

theorem sendMail_wrote (m : Accounts.Mail) : Couples (Wrote me d) (sendMail m : Handler Unit)
    (sendMail m) (fun _ => Wrote me d) (Wrote me d) := by
  intro s t hst
  have hmails : s.mails ++ [m] = t.mails ++ [m] := by rw [hst.mails]
  exact Alike.ok ⟨hst.left, hst.right, hmails, hst.view, hst.committed⟩

/-- The commit, and the answer. -/
theorem commit_answer (r : α) : Couples (Wrote me d) (commit >>= fun _ => (pure r : Handler α))
    (commit >>= fun _ => pure r) (fun _ => Wrote me d) (Wrote me d) :=
  Couples.bind commit_wrote fun _ => Couples.pure fun _ _ h => h

end Statements

end WarsawEvents.RowSecurity
