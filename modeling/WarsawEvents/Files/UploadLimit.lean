import WarsawEvents.Foundations.Runs
import WarsawEvents.Foundations.RowLocks
import WarsawEvents.RowSecurity.Privacy

/-! # The limit of files for each user

Any number of uploads and deletions of attachments at once, statement by statement. What a transaction
writes is there for the others when it has committed, and each statement sees what is committed when it
starts. An upload locks the row of its user before it counts the files, and keeps the lock to its end,
so nobody else stores a file of the user in between; deletions take no lock on it.
-/

namespace WarsawEvents.Files
set_option autoImplicit false

open RowSecurity (Db Env Item Upload UserFile Response checkUpload uploadedFile fileOut)
open RowLocks Runs

/-! ## Requests under way -/

/-- An upload that has passed the checks, with what it has loaded. -/
structure Attachment where
  me : ℕ
  up : Upload
  item : Item
  contentType : String
  deriving DecidableEq

/-- Where a request is. `stored` has committed and refreshes its row, `refused` has raised and is to be
rolled back. -/
inductive Tx where
  | checked (a : Attachment)
  | locked (a : Attachment)
  | counted (a : Attachment)
  | inserted (a : Attachment) (row : UserFile)
  | refused (a : Attachment)
  | stored (a : Attachment) (row : UserFile)
  | found (file : UserFile)
  | deleted (file : UserFile)
  | ended
  deriving DecidableEq

/-- The row of `users` that is locked. -/
def Tx.holds : Tx → Option ℕ
  | .locked a => some a.me
  | .counted a => some a.me
  | .inserted a _ => some a.me
  | .refused a => some a.me
  | _ => none

/-- The row of `user_files` that is locked by its `DELETE`. -/
def Tx.deletes : Tx → Option ℕ
  | .deleted file => some file.id
  | _ => none

/-- The key that an `INSERT` has put in the index; another one under that key waits. -/
def Tx.inserts : Tx → Option ℕ
  | .inserted _ row => some row.id
  | _ => none

/-- What is committed, and the requests under way. -/
structure World where
  db : Db
  txs : List Tx := []
  deriving DecidableEq

inductive Outcome where
  | quiet
  | stored (row : UserFile)
  | removed (rows : List UserFile)
  | answered (r : Response)
  deriving DecidableEq

inductive Move where
  | upload (me : ℕ) (up : Upload)
  | delete (me fileId : ℕ)
  /-- The clock, and what `gen_random_uuid()` draws if the statement inserts a row. -/
  | next (i now newId : ℕ)
  | abort (i : ℕ)
  deriving DecidableEq

def filesOf (db : Db) (me : ℕ) : List UserFile := db.userFiles.filter fun f => f.userId = me

section
variable (env : Env)

def limitReached : Response :=
  .http 409 ("You can keep up to " ++ toString env.filesMaxPerUser ++ " files. Delete one first.")

/-- The next statement of a request; `none` when it waits for a lock, or has ended. -/
def advance (w : World) (now newId : ℕ) : Tx → Option (Db × Tx × Outcome)
  -- SELECT ... FOR UPDATE
  | .checked a => if free Tx.holds w.txs a.me then some (w.db, .locked a, .quiet) else none
  -- SELECT count(*)
  | .locked a =>
    if env.filesMaxPerUser ≤ (filesOf w.db a.me).length then
      some (w.db, .refused a, .answered (limitReached env))
    else some (w.db, .counted a, .quiet)
  -- INSERT
  | .counted a =>
    let row := uploadedFile { env with now := now, newId := newId } a.me a.up a.contentType
    if free Tx.inserts w.txs newId then
      if RowSecurity.userFiles.accepts w.db row then some (w.db, .inserted a row, .quiet)
      else some (w.db, .ended, .answered .serverError)
    else none
  -- COMMIT
  | .inserted a row =>
    some ({ w.db with userFiles := w.db.userFiles ++ [row] }, .stored a row, .stored row)
  -- ROLLBACK
  | .refused _ => some (w.db, .ended, .quiet)
  -- the refresh, in a transaction of its own
  | .stored a row =>
    match w.db.userFiles.find? fun f => f.id = row.id with
    | some f => some (w.db, .ended, .answered (.created (fileOut f a.item.name)))
    | none => some (w.db, .ended, .answered .serverError)
  -- DELETE
  | .found file => if free Tx.deletes w.txs file.id then some (w.db, .deleted file, .quiet) else none
  -- COMMIT, and the answer
  | .deleted file =>
    some ({ w.db with userFiles := w.db.userFiles.filter fun f => !decide (f.id = file.id) }, .ended,
      .removed (w.db.userFiles.filter fun f => f.id = file.id))
  | .ended => none

/-- A request arrives and makes its checks, a request moves on, or one breaks off. -/
def step (w : World) : Move → Option (World × Outcome)
  | .upload me up =>
    if w.db.hasUser me then
      match checkUpload env up with
      | .error r => some (w, .answered r)
      | .ok contentType =>
        match w.db.items.find? fun item => item.id = up.itemId with
        | none => some (w, .answered (.http 404 "Item not found"))
        | some item => some ({ w with txs := w.txs ++ [.checked ⟨me, up, item, contentType⟩] }, .quiet)
    else some (w, .answered (.http 401 "Not authenticated"))
  | .delete me fileId =>
    if w.db.hasUser me then
      match w.db.userFiles.find? fun f => f.id = fileId && f.userId = me with
      | none => some (w, .answered (.http 404 "File not found"))
      | some file => some ({ w with txs := w.txs ++ [.found file] }, .quiet)
    else some (w, .answered (.http 401 "Not authenticated"))
  | .next i now newId =>
    match w.txs[i]? with
    | none => none
    | some tx => (advance env w now newId tx).map fun r => ({ db := r.1, txs := w.txs.set i r.2.1 }, r.2.2)
  | .abort i =>
    match w.txs[i]? with
    | none => none
    | some .ended => none
    | some _ => some ({ w with txs := w.txs.set i .ended }, .quiet)

end

abbrev Reached (env : Env) (db : Db) (es : List (Move × Outcome)) (w : World) : Prop :=
  Run (guarded Runs.anyStep (step env)) [] { db := db } es w

variable {env : Env} {db db' db₀ : Db} {w w' : World} {tx tx' : Tx} {out : Outcome} {a : Attachment}
  {me now newId i : ℕ} {move : Move}

/-! ## What one move does -/

theorem sniff_ne_conflict {raw : List UInt8} {r : Response} (h : RowSecurity.sniff env raw = .error r)
    (detail : String) : r ≠ .http 409 detail := by
  unfold RowSecurity.sniff at h
  rintro rfl
  split at h
  · cases h
  · split at h
    · cases h
    · cases h
    · cases h
    · split at h
      · cases h
      · split at h
        · simp at h
        · split at h
          · simp at h
          · cases h

theorem checkUpload_ne_conflict {up : Upload} {r : Response} (h : checkUpload env up = .error r)
    (detail : String) : r ≠ .http 409 detail := by
  unfold checkUpload at h
  simp only at h
  split at h
  · cases h
    simp
  · split at h
    · cases h
      simp
    · exact sniff_ne_conflict h detail


/-- Everything a move can do. -/
theorem step_cases (h : step env w move = some (w', out)) :
    (w' = w ∧ ∃ r, out = .answered r ∧ ∀ detail, r ≠ .http 409 detail) ∨
    (∃ tx, ((∃ a, tx = .checked a) ∨ ∃ file, tx = .found file) ∧
      w' = { w with txs := w.txs ++ [tx] } ∧ out = .quiet) ∨
    (∃ i now newId tx db' tx', move = .next i now newId ∧ w.txs[i]? = some tx ∧
      advance env w now newId tx = some (db', tx', out) ∧ w' = { db := db', txs := w.txs.set i tx' }) ∨
    ∃ i tx, move = .abort i ∧ w.txs[i]? = some tx ∧ w' = { w with txs := w.txs.set i .ended } ∧
      out = .quiet := by
  cases move with
  | upload me up =>
    simp only [step] at h
    split at h
    · split at h
      · rename_i r hcheck
        cases h
        exact .inl ⟨rfl, r, rfl, checkUpload_ne_conflict hcheck⟩
      · split at h
        · cases h
          exact .inl ⟨rfl, _, rfl, by simp⟩
        · cases h
          exact .inr (.inl ⟨_, .inl ⟨_, rfl⟩, rfl, rfl⟩)
    · cases h
      exact .inl ⟨rfl, _, rfl, by simp⟩
  | delete me fileId =>
    simp only [step] at h
    split at h
    · split at h
      · cases h
        exact .inl ⟨rfl, _, rfl, by simp⟩
      · cases h
        exact .inr (.inl ⟨_, .inr ⟨_, rfl⟩, rfl, rfl⟩)
    · cases h
      exact .inl ⟨rfl, _, rfl, by simp⟩
  | next i now newId =>
    simp only [step] at h
    split at h
    · cases h
    · rename_i tx htx
      obtain ⟨⟨db', tx', out'⟩, hadvance, hw⟩ := Option.map_eq_some_iff.mp h
      cases hw
      exact .inr (.inr (.inl ⟨i, now, newId, tx, db', tx', rfl, htx, hadvance, rfl⟩))
  | abort i =>
    simp only [step] at h
    split at h
    · cases h
    · cases h
    · rename_i tx _ htx
      cases h
      exact .inr (.inr (.inr ⟨i, tx, rfl, htx, rfl, rfl⟩))

/-! ## What the next statement does -/

/-- Every statement, with what it finds. -/
inductive Advances (env : Env) (w : World) (now newId : ℕ) : Tx → Db → Tx → Outcome → Prop
  | lock {a : Attachment} (hfree : free Tx.holds w.txs a.me = true) :
      Advances env w now newId (.checked a) w.db (.locked a) .quiet
  | full {a : Attachment} (hfull : env.filesMaxPerUser ≤ (filesOf w.db a.me).length) :
      Advances env w now newId (.locked a) w.db (.refused a) (.answered (limitReached env))
  | room {a : Attachment} (hroom : (filesOf w.db a.me).length < env.filesMaxPerUser) :
      Advances env w now newId (.locked a) w.db (.counted a) .quiet
  | insert {a : Attachment} : Advances env w now newId (.counted a) w.db (.inserted a
      (uploadedFile { env with now := now, newId := newId } a.me a.up a.contentType)) .quiet
  | violates {a : Attachment} : Advances env w now newId (.counted a) w.db .ended (.answered .serverError)
  | commit {a : Attachment} {row : UserFile} : Advances env w now newId (.inserted a row)
      { w.db with userFiles := w.db.userFiles ++ [row] } (.stored a row) (.stored row)
  | rollback {a : Attachment} : Advances env w now newId (.refused a) w.db .ended .quiet
  | refresh {a : Attachment} {row f : UserFile} :
      Advances env w now newId (.stored a row) w.db .ended (.answered (.created (fileOut f a.item.name)))
  | gone {a : Attachment} {row : UserFile} :
    Advances env w now newId (.stored a row) w.db .ended (.answered .serverError)
  | delete {file : UserFile} (hfree : free Tx.deletes w.txs file.id = true) :
      Advances env w now newId (.found file) w.db (.deleted file) .quiet
  | commitDelete {file : UserFile} : Advances env w now newId (.deleted file)
      { w.db with userFiles := w.db.userFiles.filter fun f => !decide (f.id = file.id) } .ended
      (.removed (w.db.userFiles.filter fun f => f.id = file.id))

theorem advances (h : advance env w now newId tx = some (db', tx', out)) :
    Advances env w now newId tx db' tx' out := by
  cases tx with
  | checked a =>
    simp only [advance] at h
    split at h <;> cases h
    exact .lock ‹_›
  | locked a =>
    simp only [advance] at h
    split at h <;> cases h
    · exact .full ‹_›
    · exact .room (Nat.lt_of_not_le ‹_›)
  | counted a =>
    simp only [advance] at h
    split at h
    · split at h <;> cases h
      · exact .insert
      · exact .violates
    · cases h
  | inserted a row =>
    cases h
    exact .commit
  | refused a =>
    cases h
    exact .rollback
  | stored a row =>
    simp only [advance] at h
    split at h <;> cases h
    · exact .refresh
    · exact .gone
  | found file =>
    simp only [advance] at h
    split at h <;> cases h
    exact .delete ‹_›
  | deleted file =>
    cases h
    exact .commitDelete
  | ended => cases h

/-- A lock is taken when it is free, and kept. -/
theorem Advances.holds (h : Advances env w now newId tx db' tx' out) (me : ℕ) (hme : tx'.holds = some me) :
    tx.holds = some me ∨ free Tx.holds w.txs me = true := by
  cases h with
  | lock hfree =>
    cases hme
    exact .inr hfree
  | full _ => exact .inl hme
  | room _ => exact .inl hme
  | insert => exact .inl hme
  | _ => cases hme

/-! ## The invariant -/

/-- What an upload relies on once it has counted: there is room, and it is its user's. -/
def Tx.Room (env : Env) (db : Db) : Tx → Prop
  | .counted a => (filesOf db a.me).length < env.filesMaxPerUser
  | .inserted a row => (filesOf db a.me).length < env.filesMaxPerUser ∧ row.userId = a.me
  | _ => True

structure Limited (env : Env) (w : World) : Prop where
  exclusive : Exclusive Tx.holds w.txs
  bound : ∀ me, (filesOf w.db me).length ≤ env.filesMaxPerUser
  room : ∀ tx ∈ w.txs, tx.Room env w.db

/-- What a user has committed grows only by an upload that holds the user's lock. -/
theorem Advances.filesOf_le (h : Advances env w now newId tx db' tx' out) (hroom : tx.Room env w.db)
    (hme : tx.holds ≠ some me) : (filesOf db' me).length ≤ (filesOf w.db me).length := by
  cases h with
  | @commit a row =>
    have hother : row.userId ≠ me := by
      rw [hroom.2]
      exact fun heq => hme (congrArg some heq)
    unfold filesOf
    rw [List.filter_append, List.filter_singleton, decide_eq_false hother]
    simp
  | commitDelete => exact (List.filter_sublist.filter _).length_le
  | _ => exact Nat.le_refl _

theorem Advances.bound (h : Advances env w now newId tx db' tx' out) (hroom : tx.Room env w.db)
    (hbound : ∀ me, (filesOf w.db me).length ≤ env.filesMaxPerUser) (me : ℕ) :
    (filesOf db' me).length ≤ env.filesMaxPerUser := by
  by_cases hme : tx.holds = some me
  · cases h with
    | @commit a row =>
      cases hme
      obtain ⟨hlt, hown⟩ := hroom
      unfold filesOf at hlt ⊢
      rw [List.filter_append, List.filter_singleton, decide_eq_true hown, cond_true,
        List.length_append, List.length_singleton]
      exact hlt
    | commitDelete => cases hme
    | _ => exact hbound me
  · exact (h.filesOf_le hroom hme).trans (hbound me)

theorem Advances.room_self (h : Advances env w now newId tx db' tx' out) (hroom : tx.Room env w.db) :
    tx'.Room env db' := by
  cases h with
  | room hless => exact hless
  | insert => exact ⟨hroom, rfl⟩
  | _ => trivial

/-- What the other uploads rely on stays, since their users' locks are theirs. -/
theorem Advances.room_others {c : Tx} (h : Advances env w now newId tx db' tx' out)
    (hroom : tx.Room env w.db) (hne : ∀ me, tx.holds = some me → c.holds ≠ some me)
    (hc : c.Room env w.db) : c.Room env db' := by
  have hle : ∀ me, c.holds = some me → (filesOf db' me).length ≤ (filesOf w.db me).length := by
    intro me hme
    exact h.filesOf_le hroom fun htx => hne me htx hme
  cases c with
  | counted a => exact Nat.lt_of_le_of_lt (hle a.me rfl) hc
  | inserted a row => exact ⟨Nat.lt_of_le_of_lt (hle a.me rfl) hc.1, hc.2⟩
  | _ => trivial

theorem Limited.step (h : Limited env w) (hstep : step env w move = some (w', out)) :
    Limited env w' := by
  obtain ⟨rfl, _⟩ | ⟨tx, hfresh, rfl, _⟩ | ⟨i, now, newId, tx, db', tx', _, htx, hadvance, rfl⟩ |
    ⟨i, tx, _, htx, rfl, _⟩ := step_cases hstep
  · exact h
  · have hnone : tx.holds = none ∧ tx.Room env w.db := by
      obtain ⟨a, rfl⟩ | ⟨file, rfl⟩ := hfresh <;> exact ⟨rfl, trivial⟩
    refine ⟨h.exclusive.append hnone.1, h.bound, ?_⟩
    intro c hc
    obtain hold | hnew := List.mem_append.mp hc
    · exact h.room c hold
    · rw [List.mem_singleton.mp hnew]
      exact hnone.2
  · have hroom := h.room tx (List.mem_of_getElem? htx)
    have hnext := advances hadvance
    refine ⟨h.exclusive.set htx hnext.holds, hnext.bound hroom h.bound, ?_⟩
    exact h.exclusive.facts htx h.room (fun c _ hne hc => hnext.room_others hroom hne hc)
      (hnext.room_self hroom)
  · refine ⟨h.exclusive.set htx nofun, h.bound, ?_⟩
    exact h.exclusive.facts htx h.room (fun c _ _ hc => hc) trivial

theorem limited_of_run {es : List (Move × Outcome)}
    (h₀ : ∀ me, (filesOf db₀ me).length ≤ env.filesMaxPerUser) (h : Reached env db₀ es w) :
    Limited env w := by
  have hinit : Limited env { db := db₀ } := by
    refine ⟨exclusive_nil, h₀, ?_⟩
    intro tx htx
    cases htx
  refine h.invariant_of_init (fun _ w => Limited env w) ?_ hinit
  intro past w e w' hw hstep
  exact hw.step hstep.2

/-! ## The ledger -/

def storedRow : Move × Outcome → Option UserFile
  | (_, .stored row) => some row
  | _ => none

def removedRows : Move × Outcome → List UserFile
  | (_, .removed rows) => rows
  | _ => []

/-- Each row that an upload stored is there, or was removed; no row came from anywhere else. -/
def Ledger (db₀ : Db) (es : List (Move × Outcome)) (w : World) : Prop :=
  (db₀.userFiles ++ es.filterMap storedRow).Perm (w.db.userFiles ++ es.flatMap removedRows)

theorem Ledger.quiet {past : List (Move × Outcome)} {e : Move × Outcome} (h : Ledger db₀ past w)
    (hsame : w'.db.userFiles = w.db.userFiles) (hstored : storedRow e = none)
    (hremoved : removedRows e = []) : Ledger db₀ (past ++ [e]) w' := by
  unfold Ledger at h ⊢
  rw [List.filterMap_append, List.flatMap_append, List.filterMap_cons_none hstored,
    List.flatMap_singleton, hremoved, hsame]
  simpa using h

theorem Ledger.stored {past : List (Move × Outcome)} {row : UserFile} (h : Ledger db₀ past w)
    (hadded : w'.db.userFiles = w.db.userFiles ++ [row]) :
    Ledger db₀ (past ++ [(move, .stored row)]) w' := by
  unfold Ledger at h ⊢
  have hrows : (past ++ [(move, Outcome.stored row)]).filterMap storedRow =
      past.filterMap storedRow ++ [row] := List.filterMap_append
  have hnone : (past ++ [(move, Outcome.stored row)]).flatMap removedRows =
      past.flatMap removedRows := by
    rw [List.flatMap_append, List.flatMap_singleton]
    exact List.append_nil _
  rw [hrows, hnone, hadded, ← List.append_assoc, List.append_assoc w.db.userFiles]
  refine (h.append_right [row]).trans ?_
  rw [List.append_assoc]
  exact List.perm_append_comm.append_left _

theorem Ledger.removed {past : List (Move × Outcome)} {p : UserFile → Bool} (h : Ledger db₀ past w)
    (hkept : w'.db.userFiles = w.db.userFiles.filter fun f => !p f) :
    Ledger db₀ (past ++ [(move, .removed (w.db.userFiles.filter p))]) w' := by
  unfold Ledger at h ⊢
  have hnone : (past ++ [(move, Outcome.removed (w.db.userFiles.filter p))]).filterMap storedRow =
      past.filterMap storedRow := by
    rw [List.filterMap_append]
    exact List.append_nil _
  rw [hnone, List.flatMap_append, List.flatMap_singleton, hkept]
  refine h.trans ?_
  have hsplit := List.filter_append_perm p w.db.userFiles
  refine (hsplit.symm.append_right _).trans ?_
  rw [List.append_assoc]
  refine List.perm_append_comm.trans ?_
  rw [List.append_assoc]
  exact List.Perm.refl _

theorem Ledger.step {past : List (Move × Outcome)} {e : Move × Outcome} (h : Ledger db₀ past w)
    (hstep : step env w e.1 = some (w', e.2)) : Ledger db₀ (past ++ [e]) w' := by
  obtain ⟨move, out⟩ := e
  obtain ⟨rfl, r, rfl, _⟩ | ⟨tx, _, rfl, rfl⟩ | ⟨i, now, newId, tx, db', tx', _, _, hadvance, rfl⟩ |
    ⟨i, tx, _, _, rfl, rfl⟩ := step_cases hstep
  · exact h.quiet rfl rfl rfl
  · exact h.quiet rfl rfl rfl
  · cases advances hadvance with
    | @commit a row => exact h.stored rfl
    | @commitDelete file => exact h.removed rfl
    | _ => exact h.quiet rfl rfl rfl
  · exact h.quiet rfl rfl rfl

theorem ledger_of_run {es : List (Move × Outcome)} (h : Reached env db₀ es w) : Ledger db₀ es w := by
  have hinit : Ledger db₀ [] { db := db₀ } := List.Perm.refl _
  refine h.invariant_of_init (Ledger db₀) ?_ hinit
  intro past w e w' hw hstep
  exact hw.step hstep.2

/-! ## A request with nobody in between -/

def Outcome.response : Outcome → Option Response
  | .answered r => some r
  | .removed _ => some (.status "removed")
  | _ => none

/-- A run from the database alone that answers once, and what it leaves. -/
def Answers (env : Env) (db : Db) (r : Response) (db' : Db) : Prop :=
  ∃ es w, Reached env db es w ∧ (es.filterMap fun l => l.2.response) = [r] ∧ w.db = db'

theorem answers_at_once (move : Move) {r : Response}
    (h : step env { db := db } move = some ({ db := db }, .answered r)) :
    Answers env db r db :=
  ⟨[(move, .answered r)], { db := db }, Run.single ⟨trivial, h⟩, rfl, rfl⟩

theorem exec_mine (me : ℕ) : Coupling.exec (RowSecurity.select RowSecurity.userFiles
      fun f => f.userId = me : RowSecurity.Handler (List UserFile)) (RowSecurity.pinnedSess .owner db me) =
    (.ok (filesOf db me), RowSecurity.pinnedSess .owner db me) :=
  RowSecurity.exec_selectMine rfl

def itemOf (db : Db) (id : ℕ) : Option Item := db.items.find? fun item => item.id = id

/-- What `POST /me/files` answers and leaves, by what it finds. -/
inductive UploadServed (env : Env) (db : Db) (me : ℕ) (up : Upload) : Response → Db → Prop
  | signedOut (hme : db.hasUser me = false) :
      UploadServed env db me up (.http 401 "Not authenticated") db
  | refused {r : Response} (hme : db.hasUser me = true) (hcheck : checkUpload env up = .error r) :
      UploadServed env db me up r db
  | noItem {contentType : String} (hme : db.hasUser me = true)
      (hcheck : checkUpload env up = .ok contentType) (hitem : itemOf db up.itemId = none) :
      UploadServed env db me up (.http 404 "Item not found") db
  | full {contentType : String} {item : Item} (hme : db.hasUser me = true)
      (hcheck : checkUpload env up = .ok contentType) (hitem : itemOf db up.itemId = some item)
      (hfull : env.filesMaxPerUser ≤ (filesOf db me).length) :
      UploadServed env db me up (limitReached env) db
  | violates {contentType : String} {item : Item} (hme : db.hasUser me = true)
      (hcheck : checkUpload env up = .ok contentType) (hitem : itemOf db up.itemId = some item)
      (hroom : ¬ env.filesMaxPerUser ≤ (filesOf db me).length)
      (hfits : RowSecurity.userFiles.accepts db
        (uploadedFile env me up contentType) = false) :
      UploadServed env db me up .serverError db
  | stored {contentType : String} {item : Item} (hme : db.hasUser me = true)
      (hcheck : checkUpload env up = .ok contentType) (hitem : itemOf db up.itemId = some item)
      (hroom : ¬ env.filesMaxPerUser ≤ (filesOf db me).length)
      (hfits : RowSecurity.userFiles.accepts db
        (uploadedFile env me up contentType) = true) :
      UploadServed env db me up
        (.created (fileOut (uploadedFile env me up contentType) item.name))
        { db with userFiles := db.userFiles ++ [uploadedFile env me up contentType] }

theorem serve_raised {call : RowSecurity.Call} {u : RowSecurity.Person} {r : Response}
    (hexec : Coupling.exec (RowSecurity.authenticated env u.id call)
        { role := .owner, committed := db, view := db } =
      Coupling.exec (call.handler env u) (RowSecurity.pinnedSess .owner db u.id))
    (hraised : Coupling.exec (call.handler env u) (RowSecurity.pinnedSess .owner db u.id) =
      (.error r, RowSecurity.pinnedSess .owner db u.id)) :
    RowSecurity.serve env .owner db u.id call = (r, db, []) := by
  unfold RowSecurity.serve
  rw [hexec, hraised]
  rfl

/-- The endpoint once it has counted. -/
def afterCount (env : Env) (me : ℕ) (up : Upload) (contentType : String) (item : Item)
    (mine : List UserFile) : RowSecurity.Handler Response := do
  if env.filesMaxPerUser ≤ mine.length then throw (limitReached env)
  else
    let row ← RowSecurity.insert RowSecurity.userFiles .serverError
      (uploadedFile env me up contentType)
    RowSecurity.commit
    let row ← RowSecurity.refresh RowSecurity.userFiles row.id
    pure (.created (fileOut row item.name))

/-- The endpoint once the item is loaded. -/
def afterItem (env : Env) (me : ℕ) (up : Upload) (contentType : String) :
    Option Item → RowSecurity.Handler Response
  | none => throw (.http 404 "Item not found")
  | some item => do
    let mine ← RowSecurity.select RowSecurity.userFiles fun f => f.userId = me
    afterCount env me up contentType item mine

section AsOne
variable {up : Upload} {contentType : String} {item : Item}

variable (db) in
theorem exec_uploadFile_checked (hcheck : checkUpload env up = .ok contentType) (me : ℕ) :
    Coupling.exec (RowSecurity.uploadFile env me up) (RowSecurity.pinnedSess .owner db me) =
      Coupling.exec (afterItem env me up contentType (itemOf db up.itemId))
        (RowSecurity.pinnedSess .owner db me) := by
  have hget := RowSecurity.exec_getById_open (T := RowSecurity.items) (fun _ _ _ => rfl)
    (RowSecurity.pinnedSess .owner db me) up.itemId
  have hfind : ((RowSecurity.items.rows db).filter fun r =>
      RowSecurity.items.key r = up.itemId).head? = itemOf db up.itemId := List.head?_filter
  rw [show (RowSecurity.pinnedSess .owner db me).view = db from rfl, hfind] at hget
  unfold RowSecurity.uploadFile
  rw [hcheck]
  exact Coupling.exec_bind_ok hget

/-- The INSERT fails on a row that the table does not take. -/
theorem exec_insert_violating {me : ℕ} {row : UserFile}
    (hfits : RowSecurity.userFiles.accepts db row = false) :
    Coupling.exec (RowSecurity.insert RowSecurity.userFiles Response.serverError row)
        (RowSecurity.pinnedSess .owner db me) =
      (.error .serverError, RowSecurity.pinnedSess .owner db me) := by
  have hinsert := @RowSecurity.exec_insert _ RowSecurity.userFiles Response.serverError
    (RowSecurity.pinnedSess .owner db me) row
  have hrefused : RowSecurity.insertRefused RowSecurity.userFiles
      (RowSecurity.pinnedSess .owner db me) row = true := by
    unfold RowSecurity.insertRefused
    rw [show (RowSecurity.pinnedSess .owner db me).view = db from rfl, hfits, Bool.not_false,
      Bool.or_true, Bool.true_or]
  exact hinsert.trans (if_pos hrefused)

theorem accepts_of_room {me : ℕ} (hcheck : checkUpload env up = .ok contentType)
    (hitem : itemOf db up.itemId = some item) (hroom : ¬ env.filesMaxPerUser ≤ (filesOf db me).length)
    (hfits : RowSecurity.userFiles.accepts db (uploadedFile env me up contentType) = true) :
    RowSecurity.acceptsUpload env db me up = true := by
  have hhas : db.hasItem up.itemId = true :=
    List.any_eq_true.mpr ⟨item, List.mem_of_find?_eq_some hitem,
      List.find?_some (p := fun item : Item => decide (item.id = up.itemId)) hitem⟩
  unfold RowSecurity.acceptsUpload
  rw [hcheck]
  simp only [Bool.and_eq_true, decide_eq_true_eq]
  exact ⟨⟨hhas, Nat.lt_of_not_le hroom⟩, hfits⟩

end AsOne

/-- The endpoint as one request. -/
theorem serve_upload (me : ℕ) (up : Upload) : UploadServed env db me up
    (RowSecurity.serve env .owner db me (.uploadFile up)).1
    (RowSecurity.serve env .owner db me (.uploadFile up)).2.1 := by
  cases hme : db.hasUser me with
  | false =>
    rw [RowSecurity.serve_signedOut hme]
    exact .signedOut hme
  | true =>
    obtain ⟨u, rfl, hexec⟩ := RowSecurity.exec_authenticated env .owner (.uploadFile up) hme
    have hhandler : (RowSecurity.Call.uploadFile up).handler env u =
        RowSecurity.uploadFile env u.id up := rfl
    cases hcheck : checkUpload env up with
    | error r =>
      have hraised : Coupling.exec ((RowSecurity.Call.uploadFile up).handler env u)
          (RowSecurity.pinnedSess .owner db u.id) =
          (.error r, RowSecurity.pinnedSess .owner db u.id) := by
        rw [hhandler]
        unfold RowSecurity.uploadFile
        rw [hcheck]
        rfl
      rw [serve_raised hexec hraised]
      exact .refused hme hcheck
    | ok contentType =>
      have hrun := exec_uploadFile_checked db hcheck u.id
      rw [← hhandler] at hrun
      cases hitem : itemOf db up.itemId with
      | none =>
        rw [hitem] at hrun
        rw [serve_raised hexec hrun]
        exact .noItem hme hcheck hitem
      | some item =>
        rw [hitem] at hrun
        have hcount := hrun.trans (Coupling.exec_bind_ok (exec_mine u.id))
        unfold afterCount at hcount
        by_cases hfull : env.filesMaxPerUser ≤ (filesOf db u.id).length
        · rw [if_pos hfull] at hcount
          rw [serve_raised hexec hcount]
          exact .full hme hcheck hitem hfull
        · rw [if_neg hfull] at hcount
          cases hfits : RowSecurity.userFiles.accepts db
              (uploadedFile env u.id up contentType) with
          | false =>
            have hraised := hcount.trans (Coupling.exec_bind_error (exec_insert_violating hfits))
            rw [serve_raised hexec hraised]
            exact .violates hme hcheck hitem hfull hfits
          | true =>
            obtain ⟨contentType', item', hcheck', hitem', hstored⟩ :=
              RowSecurity.serve_stored env u.id up (accepts_of_room hcheck hitem hfull hfits)
            rw [hcheck] at hcheck'
            cases hcheck'
            rw [show (RowSecurity.items.rows db).filter (fun r =>
              RowSecurity.items.key r = up.itemId) = db.items.filter fun r => r.id = up.itemId from rfl,
              List.head?_filter] at hitem'
            cases hitem.symm.trans hitem'
            rw [hstored]
            exact .stored hme hcheck hitem hfull hfits

/-- The only request under way moves on. -/
theorem reached_next {es : List (Move × Outcome)} (h : Reached env db₀ es { db := db, txs := [tx] })
    (now newId : ℕ)
    (hadvance : advance env { db := db, txs := [tx] } now newId tx = some (db', tx', out)) :
    Reached env db₀ (es ++ [(.next 0 now newId, out)]) { db := db', txs := [tx'] } := by
  refine Run.snoc h ⟨trivial, ?_⟩
  simp only [step, List.getElem?_cons_zero, hadvance, Option.map_some, List.set_cons_zero]

theorem advance_refresh {row f : UserFile}
    (hback : (w.db.userFiles.find? fun g => g.id = row.id) = some f) :
    advance env w now newId (.stored a row) =
      some (w.db, .ended, .answered (.created (fileOut f a.item.name))) := by
  simp only [advance, hback]

theorem reached_locked {up : Upload} {contentType : String} {item : Item}
    (hme : db.hasUser me = true) (hcheck : checkUpload env up = .ok contentType)
    (hitem : itemOf db up.itemId = some item) (now newId : ℕ) :
    Reached env db [(.upload me up, .quiet), (.next 0 now newId, .quiet)]
      { db := db, txs := [.locked ⟨me, up, item, contentType⟩] } := by
  have hstart : Reached env db [(.upload me up, .quiet)]
      { db := db, txs := [.checked ⟨me, up, item, contentType⟩] } := by
    unfold itemOf at hitem
    refine Run.single ⟨trivial, ?_⟩
    simp only [step, hme, if_true, hcheck, hitem, List.nil_append]
  refine reached_next hstart now newId ?_
  have hfree : free Tx.holds [.checked ⟨me, up, item, contentType⟩] me = true := by
    simp [free, Tx.holds]
  simp only [advance, hfree, if_true]

/-- The `INSERT` of a request on its own. -/
theorem advance_insert (db : Db) (a : Attachment) :
    advance env { db := db, txs := [.counted a] } env.now env.newId (.counted a) =
      if RowSecurity.userFiles.accepts db (uploadedFile env a.me a.up a.contentType) then
        some (db, .inserted a (uploadedFile env a.me a.up a.contentType), .quiet)
      else some (db, .ended, .answered .serverError) := by
  have hfree : free Tx.inserts [.counted a] env.newId = true := by simp [free, Tx.inserts]
  simp only [advance, hfree, if_true]

/-- A run whose moves are the statements of one request answers as the endpoint. -/
theorem answers_upload {up : Upload} {r : Response}
    (h : UploadServed env db me up r db') : Answers env db r db' := by
  cases h with
  | signedOut hme => exact answers_at_once (.upload me up) (by simp [step, hme])
  | refused hme hcheck => exact answers_at_once (.upload me up) (by simp [step, hme, hcheck])
  | noItem hme hcheck hitem =>
    unfold itemOf at hitem
    exact answers_at_once (.upload me up) (by simp [step, hme, hcheck, hitem])
  | @full contentType item hme hcheck hitem hfull =>
    have hcounted := reached_next (reached_locked hme hcheck hitem env.now env.newId) env.now env.newId
      (if_pos hfull)
    exact ⟨_, _, hcounted, rfl, rfl⟩
  | @violates contentType item hme hcheck hitem hroom hfits =>
    have hcounted := reached_next (reached_locked hme hcheck hitem env.now env.newId) env.now env.newId
      (if_neg hroom)
    have hinserted := reached_next hcounted env.now env.newId
      ((advance_insert db _).trans (if_neg (by simp [hfits])))
    exact ⟨_, _, hinserted, rfl, rfl⟩
  | @stored contentType item hme hcheck hitem hroom hfits =>
    have hcounted := reached_next (reached_locked hme hcheck hitem env.now env.newId) env.now env.newId
      (if_neg hroom)
    have hinserted := reached_next hcounted env.now env.newId
      ((advance_insert db _).trans (if_pos hfits))
    have hstored := reached_next hinserted env.now env.newId rfl
    have hback : (db.userFiles ++ [uploadedFile env me up contentType]).find?
        (fun f => f.id = env.newId) = some (uploadedFile env me up contentType) := by
      have hold : db.userFiles.find? (fun f => f.id = env.newId) = none := by
        rw [List.find?_eq_none]
        intro f hf hid
        exact RowSecurity.free_of_accepts hfits f hf (of_decide_eq_true hid)
      rw [List.find?_append, hold, Option.none_or]
      exact List.find?_cons_of_pos (decide_eq_true rfl)
    have hanswered := reached_next hstored env.now env.newId (advance_refresh hback)
    exact ⟨_, _, hanswered, rfl, rfl⟩

theorem upload_alone (me : ℕ) (up : Upload) :
    Answers env db (RowSecurity.serve env .owner db me (.uploadFile up)).1
      (RowSecurity.serve env .owner db me (.uploadFile up)).2.1 :=
  answers_upload (serve_upload me up)

theorem delete_alone (db : Db) (me fileId : ℕ) :
    Answers env db (RowSecurity.serve env .owner db me (.deleteFile fileId)).1
      (RowSecurity.serve env .owner db me (.deleteFile fileId)).2.1 := by
  cases hme : db.hasUser me with
  | false =>
    rw [RowSecurity.serve_signedOut hme]
    exact answers_at_once (.delete me fileId) (by simp [step, hme])
  | true =>
    obtain ⟨u, rfl, hexec⟩ := RowSecurity.exec_authenticated env .owner (.deleteFile fileId) hme
    have hown := RowSecurity.exec_ownFile (s := RowSecurity.pinnedSess .owner db u.id) rfl u.id fileId
    rw [show (RowSecurity.pinnedSess .owner db u.id).view = db from rfl] at hown
    cases hfile : db.userFiles.find? fun f => f.id = fileId && f.userId = u.id with
    | none =>
      have hraised : Coupling.exec ((RowSecurity.Call.deleteFile fileId).handler env u)
          (RowSecurity.pinnedSess .owner db u.id) =
          (.error (.http 404 "File not found"), RowSecurity.pinnedSess .owner db u.id) := by
        rw [hfile] at hown
        exact Coupling.exec_bind_error hown
      rw [serve_raised hexec hraised]
      exact answers_at_once (.delete u.id fileId) (by simp only [step, hme, if_true, hfile])
    | some file =>
      rw [hfile] at hown
      have hserve : RowSecurity.serve env .owner db u.id (.deleteFile fileId) = (.status "removed",
          { db with userFiles := db.userFiles.filter fun f => !decide (f.id = file.id) }, []) := by
        have hhandler : (RowSecurity.Call.deleteFile fileId).handler env u =
            RowSecurity.deleteFile u.id fileId := rfl
        unfold RowSecurity.serve
        rw [hexec, hhandler]
        unfold RowSecurity.deleteFile
        rw [Coupling.exec_bind_ok hown, Coupling.exec_bind_ok (RowSecurity.exec_delete_owner rfl)]
        rfl
      have hstart : Reached env db [(.delete u.id fileId, .quiet)] { db := db, txs := [.found file] } := by
        refine Run.single ⟨trivial, ?_⟩
        simp only [step, hme, if_true, hfile, List.nil_append]
      have hfree : free Tx.deletes [.found file] file.id = true := by simp [free, Tx.deletes]
      have hadvance : advance env { db := db, txs := [.found file] } env.now env.newId (.found file) =
          some (db, .deleted file, .quiet) := by
        simp only [advance, hfree, if_true]
      have hdeleted := reached_next hstart env.now env.newId hadvance
      rw [hserve]
      exact ⟨_, _, reached_next hdeleted env.now env.newId rfl, rfl, rfl⟩

/-! ## Every interleaving -/

theorem conflict_at_count {detail : String} (h : Limited env w)
    (hstep : step env w move = some (w', .answered (.http 409 detail))) :
    ∃ i now newId a, move = .next i now newId ∧ w.txs[i]? = some (.locked a) ∧
      (filesOf w.db a.me).length = env.filesMaxPerUser := by
  obtain ⟨_, r, hr, hno⟩ | ⟨_, _, _, hquiet⟩ | ⟨i, now, newId, tx, db', tx', hmove, htx, hadvance, _⟩ |
    ⟨_, _, _, _, _, hquiet⟩ := step_cases hstep
  · cases hr
    exact absurd rfl (hno detail)
  · cases hquiet
  · have hnext := advances hadvance
    generalize hout : Outcome.answered (.http 409 detail) = out at hnext
    cases hnext with
    | @full a hfull => exact ⟨i, now, newId, a, hmove, htx, Nat.le_antisymm (h.bound a.me) hfull⟩
    | _ => cases hout
  · cases hquiet

theorem file_limit_holds {es : List (Move × Outcome)}
    (h₀ : ∀ me, (filesOf db₀ me).length ≤ env.filesMaxPerUser) (hrun : Reached env db₀ es w) :
    (∀ me, (filesOf w.db me).length ≤ env.filesMaxPerUser) ∧ Ledger db₀ es w ∧
    ∀ move w' out, step env w move = some (w', out) →
      (∀ detail, out = .answered (.http 409 detail) → ∃ i now newId a, move = .next i now newId ∧
        w.txs[i]? = some (.locked a) ∧ (filesOf w.db a.me).length = env.filesMaxPerUser) ∧
      ∀ i now newId a row, move = .next i now newId → w.txs[i]? = some (.inserted a row) →
        out = .stored row ∧ row.userId = a.me ∧ w'.db.userFiles = w.db.userFiles ++ [row] := by
  have hlimited := limited_of_run h₀ hrun
  refine ⟨hlimited.bound, ledger_of_run hrun, ?_⟩
  intro move w' out hstep
  refine ⟨?_, ?_⟩
  · rintro detail rfl
    exact conflict_at_count hlimited hstep
  · rintro i now newId a row rfl htx
    have hown := (hlimited.room _ (List.mem_of_getElem? htx)).2
    simp only [step, htx, advance, Option.map_some, Option.some.injEq, Prod.mk.injEq] at hstep
    obtain ⟨rfl, rfl⟩ := hstep
    exact ⟨rfl, hown, rfl⟩

/-! ## Two uploads for the last place -/

def onePlace : Env := { RowSecurity.plainEnv with filesMaxPerUser := 1 }

def ticket : Upload := { itemId := 3, data := RowSecurity.pdfMagic }

/-- The second upload waits for the lock until the first has committed, and then counts its file. -/
def bothUploads : List Move :=
  [.upload 7 ticket, .upload 7 ticket, .next 0 10 0, .next 0 10 0, .next 0 10 0, .next 0 10 0, .next 1 20 1,
    .next 1 20 1]

def lastPlace : List (Move × Outcome) × World :=
  (replay Runs.anyStep (step onePlace) [] { db := RowSecurity.oneItemDb } bothUploads).getD
    ([], { db := RowSecurity.oneItemDb })

theorem file_limit_holds_last : (filesOf lastPlace.2.db 7).length = 1 ∧
    (lastPlace.1.map fun l => l.2).getLast? = some (.answered (limitReached onePlace)) ∧
    (∀ me, (filesOf lastPlace.2.db me).length ≤ 1) ∧ Ledger RowSecurity.oneItemDb lastPlace.1 lastPlace.2 := by
  have hrun : Reached onePlace RowSecurity.oneItemDb lastPlace.1 lastPlace.2 :=
    replay_getD_run _ _ _ _ bothUploads _ (by decide +kernel)
  have hempty : ∀ me, (filesOf RowSecurity.oneItemDb me).length ≤ onePlace.filesMaxPerUser :=
    fun _ => Nat.zero_le _
  have h := file_limit_holds hempty hrun
  exact ⟨by decide +kernel, by decide +kernel, h.1, h.2.1⟩

end WarsawEvents.Files
