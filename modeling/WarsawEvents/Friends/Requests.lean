import WarsawEvents.RowSecurity.Transparency

/-! # Friend requests on the rows of `friendships`

The four endpoints that write friendships, each split at its commit: what it reads decides what it will
write. `attempt` is a request served with nobody in between; `serve_attempt` says that it is what the
endpoint does to the database.
-/

namespace WarsawEvents.Friends
set_option autoImplicit false

open RowSecurity (Friendship Response Db Env Handler)
open Coupling

/-! ## What an endpoint reads -/

/-- The rows the four endpoints work on, and the id that the next row gets. Accounts are not deleted
meanwhile. -/
structure Table where
  users : List ℕ
  rows : List Friendship := []
  nextId : ℕ := 0
  deriving DecidableEq

inductive Action where
  | request
  | accept
  | decline
  | remove
  deriving DecidableEq, Repr

/-- What an endpoint has decided to write. -/
inductive Plan where
  | insert
  | accept (rowId : ℕ)
  | decline
  | remove
  deriving DecidableEq, Repr

/-- The two ends of the row are the two users, in either direction. -/
def between (a b : ℕ) (f : Friendship) : Bool :=
  (f.requesterId = a && f.addresseeId = b) || (f.requesterId = b && f.addresseeId = a)

/-- `scalar_one_or_none`. -/
def scalarOneOrNone {ρ : Type} : List ρ → Except Response (Option ρ)
  | [] => .ok none
  | [r] => .ok (some r)
  | _ => .error .serverError

/-- `_friendship`. -/
def friendshipOf (rows : List Friendship) (a b : ℕ) : Except Response (Option Friendship) :=
  scalarOneOrNone (rows.filter (between a b))

/-- `send_request`, up to its write. -/
def planRequest (t : Table) (me userId : ℕ) : Except Response Plan :=
  if userId = me then .error (.http 400 "Cannot friend yourself")
  else if !t.users.contains userId then .error (.http 404 "User not found")
  else
    match friendshipOf t.rows me userId with
    | .error r => .error r
    | .ok none => .ok .insert
    | .ok (some existing) =>
      if existing.status = .accepted then .error (.http 409 "Already friends")
      else if existing.requesterId = me then .error (.http 409 "Request already sent")
      else .ok (.accept existing.id)

/-- `accept_request`, up to its write. -/
def planAccept (t : Table) (me userId : ℕ) : Except Response Plan :=
  match scalarOneOrNone (t.rows.filter (Friendship.requestFrom userId me)) with
  | .error r => .error r
  | .ok none => .error (.http 404 "No pending request from this user")
  | .ok (some row) => .ok (.accept row.id)

/-- What the endpoint reads before its write; `decline_request` and `remove_friend` read nothing. -/
def plan (t : Table) (me userId : ℕ) : Action → Except Response Plan
  | .request => planRequest t me userId
  | .accept => planAccept t me userId
  | .decline => .ok .decline
  | .remove => .ok .remove

/-! ## What it writes -/

/-- `row.status = "accepted"`, of the row with the id. -/
def acceptRow (rows : List Friendship) (id : ℕ) : List Friendship :=
  rows.map fun f => if f.id = id then { f with status := .accepted } else f

def newRow (now me userId id : ℕ) : Friendship where
  id := id
  requesterId := me
  addresseeId := userId
  status := .pending
  createdAt := now

/-- The write and its commit: the primary key and `uq_friendship_pair` refuse a second row of an id or of
one direction, and an `UPDATE` that finds its row gone raises. -/
def Plan.write (t : Table) (now me userId : ℕ) : Plan → Except Response (Response × Table)
  | .insert =>
    if t.rows.any fun f => f.id = t.nextId || (f.requesterId = me && f.addresseeId = userId) then
      .error .serverError
    else .ok (.status "request_sent",
      { t with rows := t.rows ++ [newRow now me userId t.nextId], nextId := t.nextId + 1 })
  | .accept id =>
    if t.rows.any fun f => f.id = id then
      .ok (.status "friends", { t with rows := acceptRow t.rows id })
    else .error .serverError
  | .decline =>
    .ok (.status "declined",
      { t with rows := t.rows.filter fun f => !Friendship.requestFrom userId me f })
  | .remove =>
    .ok (.status "removed",
      { t with rows := t.rows.filter fun f => !between me userId f })

/-- What the endpoint reads, then what it writes. -/
def readWrite (t : Table) (now me userId : ℕ) (action : Action) : Except Response (Response × Table) :=
  (plan t me userId action).bind fun p => p.write t now me userId

/-- One request with nobody in between. -/
def attempt (t : Table) (now me userId : ℕ) (action : Action) : Response × Table :=
  match readWrite t now me userId action with
  | .error r => (r, t)
  | .ok done => done

/-! ## The endpoints -/

/-- The rows of a database, and the id that is drawn for a new one. -/
def Table.of (db : Db) (newId : ℕ) : Table where
  users := db.users.map fun u => u.id
  rows := db.friendships
  nextId := newId

def Table.put (t : Table) (db : Db) : Db := { db with friendships := t.rows }

def Action.call (userId : ℕ) : Action → RowSecurity.Call
  | .request => .sendRequest userId
  | .accept => .acceptRequest userId
  | .decline => .declineRequest userId
  | .remove => .removeFriend userId

section Endpoints
variable {env : Env} {me userId : ℕ} {s : RowSecurity.Sess} {α β : Type}

theorem exec_oneOrNone {ρ : Type} (rows : List ρ) :
    exec (RowSecurity.oneOrNone Response.serverError rows) s = (scalarOneOrNone rows, s) := by
  match rows with
  | [] => rfl
  | [r] => rfl
  | r :: r' :: rest => rfl

theorem exec_friendship (hrole : s.role = .owner) (a b : ℕ) :
    exec (RowSecurity.friendship a b) s = (friendshipOf s.view.friendships a b, s) := by
  unfold RowSecurity.friendship
  rw [exec_bind_ok (RowSecurity.exec_select_owner hrole)]
  exact exec_oneOrNone _

/-- The session once the table is written and committed. -/
def saved (s : RowSecurity.Sess) (t : Table) : RowSecurity.Sess :=
  { s with view := t.put s.view, committed := t.put s.view, pinned := none }

/-- The end of a run: an exception before the commit leaves the session as it was. -/
def ended (s : RowSecurity.Sess) :
    Except Response (Response × Table) → Except Response Response × RowSecurity.Sess
  | .error r => (.error r, s)
  | .ok (r, t) => (.ok r, saved s t)

theorem any_or {ρ : Type} (rows : List ρ) (p q : ρ → Bool) :
    (rows.any fun r => p r || q r) = (rows.any p || rows.any q) := by
  rw [Bool.eq_iff_iff, Bool.or_eq_true, List.any_eq_true, List.any_eq_true, List.any_eq_true]
  simp only [Bool.or_eq_true, and_or_left, exists_or]

theorem exec_request_insert (hrole : s.role = .owner) (hme : s.view.hasUser me = true)
    (huser : s.view.hasUser userId = true) (now id : ℕ) :
    exec (RowSecurity.insert RowSecurity.friendships Response.serverError (newRow now me userId id) >>=
        fun _ => RowSecurity.commit >>= fun _ =>
          (pure (Response.status "request_sent") : Handler Response)) s =
      ended s (Plan.insert.write (Table.of s.view id) now me userId) := by
  have hallowed : RowSecurity.insertAllowed RowSecurity.friendships s (newRow now me userId id) =
      true := by
    simp [RowSecurity.insertAllowed, hrole]
  have hconstraints : RowSecurity.friendships.constraints s.view (newRow now me userId id) = true := by
    simp [RowSecurity.friendships, newRow, hme, huser]
  have hrefused : RowSecurity.insertRefused RowSecurity.friendships s (newRow now me userId id) =
      s.view.friendships.any fun f =>
        f.id = id || (f.requesterId = me && f.addresseeId = userId) := by
    unfold RowSecurity.insertRefused RowSecurity.Table.accepts
    rw [hallowed, hconstraints, any_or]
    simp [RowSecurity.friendships, newRow, eq_comm]
  have hinsert := @RowSecurity.exec_insert _ RowSecurity.friendships Response.serverError s
    (newRow now me userId id)
  rw [hrefused] at hinsert
  unfold Plan.write
  have hrows : (Table.of s.view id).rows = s.view.friendships := rfl
  have hnext : (Table.of s.view id).nextId = id := rfl
  simp only [hrows, hnext]
  cases hany : s.view.friendships.any fun f =>
      f.id = id || (f.requesterId = me && f.addresseeId = userId) with
  | true =>
    rw [hany, if_pos rfl] at hinsert
    rw [if_pos rfl]
    exact exec_bind_error hinsert
  | false =>
    rw [hany, if_neg Bool.false_ne_true] at hinsert
    rw [if_neg Bool.false_ne_true]
    exact exec_bind_ok hinsert

theorem exec_accept (now me userId id : ℕ) (hrole : s.role = .owner) {f : Friendship}
    (hf : f ∈ s.view.friendships) :
    exec (RowSecurity.update RowSecurity.friendships Response.serverError (fun g => g.id = f.id)
        (fun g => { g with status := .accepted }) >>= fun _ => RowSecurity.commit >>= fun _ =>
          (pure (Response.status "friends") : Handler Response)) s =
      ended s ((Plan.accept f.id).write (Table.of s.view id) now me userId) := by
  have hhits : ∀ g ∈ RowSecurity.friendships.rows s.view,
      RowSecurity.hits s RowSecurity.friendships RowSecurity.friendships.forUpdate
        (fun g => g.id = f.id) g = decide (g.id = f.id) := by
    intro g _
    simp [RowSecurity.hits, hrole]
  have hrefused : RowSecurity.updateRefused RowSecurity.friendships s (fun g => g.id = f.id)
      (fun g => { g with status := .accepted }) = false := by
    simp [RowSecurity.updateRefused, hrole]
  have hupdate := @RowSecurity.exec_update _ RowSecurity.friendships (fun g => g.id = f.id)
    Response.serverError s fun g => { g with status := .accepted }
  rw [hrefused, RowSecurity.updated_eq rfl hhits] at hupdate
  have hany : ((Table.of s.view id).rows.any fun g => g.id = f.id) = true :=
    List.any_eq_true.mpr ⟨f, hf, by simp⟩
  unfold Plan.write
  simp only [hany, if_true]
  rw [exec_bind_ok hupdate]
  simp only [decide_eq_true_eq]
  rfl

/-- A `DELETE` and its commit. -/
theorem exec_delete_commit (hrole : s.role = .owner) (id : ℕ) (p : Friendship → Bool) (r : Response) :
    exec (RowSecurity.delete RowSecurity.friendships p >>= fun _ => RowSecurity.commit >>= fun _ =>
        (pure r : Handler Response)) s =
      (.ok r, saved s { Table.of s.view id with
        rows := s.view.friendships.filter fun f => !p f }) := by
  rw [exec_bind_ok (RowSecurity.exec_delete_owner hrole)]
  rfl

theorem head?_none_iff (id : ℕ) : ((RowSecurity.users.rows s.view).filter fun r =>
      RowSecurity.users.key r = userId).head? = none ↔
    (Table.of s.view id).users.contains userId = false := by
  rw [List.head?_eq_none_iff, List.filter_eq_nil_iff, ← Bool.not_eq_true, List.contains_iff_mem]
  simp only [Table.of, List.mem_map, not_exists, not_and, decide_eq_true_eq]
  exact Iff.rfl

theorem hasUser_iff (id : ℕ) : s.view.hasUser userId = true ↔
    (Table.of s.view id).users.contains userId = true := by
  rw [List.contains_iff_mem]
  simp [Table.of, RowSecurity.Db.hasUser]

theorem scalarOneOrNone_mem {ρ : Type} {rows : List ρ} {r : ρ}
    (h : scalarOneOrNone rows = .ok (some r)) : r ∈ rows := by
  match rows with
  | [] => cases h
  | [r'] =>
    cases h
    exact List.mem_singleton.mpr rfl
  | r' :: r'' :: rest => cases h

theorem exec_sendRequest (hrole : s.role = .owner) (hme : s.view.hasUser me = true) :
    exec (RowSecurity.sendRequest env me userId) s =
      ended s (readWrite (Table.of s.view env.newId) env.now me userId .request) := by
  unfold readWrite plan planRequest RowSecurity.sendRequest
  by_cases hself : userId = me
  · rw [if_pos hself, if_pos hself]
    rfl
  rw [if_neg hself, if_neg hself]
  have hget := RowSecurity.exec_getById_open (T := RowSecurity.users) (fun _ _ _ => rfl) s userId
  rw [exec_bind_ok hget]
  cases hhead : ((RowSecurity.users.rows s.view).filter fun r =>
      RowSecurity.users.key r = userId).head? with
  | none =>
    rw [(head?_none_iff env.newId).mp hhead]
    rfl
  | some target =>
    have hknown : (Table.of s.view env.newId).users.contains userId = true := by
      rw [← Bool.not_eq_false, ← head?_none_iff env.newId, hhead]
      exact Option.some_ne_none _
    have hread := exec_friendship hrole me userId
    have hrows : (Table.of s.view env.newId).rows = s.view.friendships := rfl
    rw [hknown, hrows]
    cases hpair : friendshipOf s.view.friendships me userId with
    | error r =>
      rw [hpair] at hread
      exact exec_bind_error hread
    | ok row =>
      rw [hpair] at hread
      rw [exec_bind_ok hread]
      cases row with
      | none => exact exec_request_insert hrole hme ((hasUser_iff env.newId).mpr hknown) env.now env.newId
      | some existing =>
        have hmem : existing ∈ s.view.friendships :=
          (List.mem_filter.mp (scalarOneOrNone_mem hpair)).1
        simp only [Bool.not_true, Bool.false_eq_true, if_false]
        split
        · rfl
        · split
          · rfl
          · exact exec_accept env.now me userId env.newId hrole hmem

theorem exec_acceptRequest (hrole : s.role = .owner) (now id : ℕ) :
    exec (RowSecurity.acceptRequest me userId) s =
      ended s (readWrite (Table.of s.view id) now me userId .accept) := by
  unfold readWrite plan planAccept RowSecurity.acceptRequest
  have hread : exec (RowSecurity.oneOrNone Response.serverError
      (s.view.friendships.filter (Friendship.requestFrom userId me))) s =
      (scalarOneOrNone ((Table.of s.view id).rows.filter (Friendship.requestFrom userId me)), s) :=
    exec_oneOrNone _
  rw [exec_bind_ok (RowSecurity.exec_select_owner hrole)]
  cases hpair : scalarOneOrNone ((Table.of s.view id).rows.filter
      (Friendship.requestFrom userId me)) with
  | error r =>
    rw [hpair] at hread
    exact exec_bind_error hread
  | ok row =>
    rw [hpair] at hread
    refine (exec_bind_ok hread).trans ?_
    cases row with
    | none => rfl
    | some f =>
      have hmem : f ∈ s.view.friendships := (List.mem_filter.mp (scalarOneOrNone_mem hpair)).1
      exact exec_accept now me userId id hrole hmem

theorem exec_declineRequest (hrole : s.role = .owner) (now id : ℕ) :
    exec (RowSecurity.declineRequest me userId) s =
      ended s (readWrite (Table.of s.view id) now me userId .decline) :=
  exec_delete_commit hrole id _ _

theorem exec_removeFriend (hrole : s.role = .owner) (now id : ℕ) :
    exec (RowSecurity.removeFriend me userId) s =
      ended s (readWrite (Table.of s.view id) now me userId .remove) :=
  exec_delete_commit hrole id _ _

end Endpoints

/-- The four endpoints, as one request of a signed-in user: what `attempt` answers and writes. -/
theorem serve_attempt (env : Env) {db : Db} {me : ℕ} (hme : db.hasUser me = true) (userId : ℕ)
    (action : Action) : RowSecurity.serve env .owner db me (action.call userId) =
      ((attempt (Table.of db env.newId) env.now me userId action).1,
        (attempt (Table.of db env.newId) env.now me userId action).2.put db, []) := by
  obtain ⟨u, rfl, hexec⟩ := RowSecurity.exec_authenticated env .owner (action.call userId) hme
  have hrun : exec ((action.call userId).handler env u)
      (RowSecurity.pinnedSess .owner db u.id) =
      ended (RowSecurity.pinnedSess .owner db u.id)
        (readWrite (Table.of db env.newId) env.now u.id userId action) := by
    cases action with
    | request => exact exec_sendRequest (s := RowSecurity.pinnedSess .owner db u.id) rfl hme
    | accept =>
      exact exec_acceptRequest (s := RowSecurity.pinnedSess .owner db u.id) rfl env.now env.newId
    | decline =>
      exact exec_declineRequest (s := RowSecurity.pinnedSess .owner db u.id) rfl env.now env.newId
    | remove =>
      exact exec_removeFriend (s := RowSecurity.pinnedSess .owner db u.id) rfl env.now env.newId
  unfold RowSecurity.serve attempt
  rw [hexec, hrun]
  cases readWrite (Table.of db env.newId) env.now u.id userId action with
  | error r => rfl
  | ok done => rfl

end WarsawEvents.Friends
