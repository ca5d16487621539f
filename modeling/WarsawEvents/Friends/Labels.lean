import WarsawEvents.Friends.Consent

/-! # The label beside a user's name

Five endpoints show users with their relationship to the caller. Four of them look at the friendship,
or have asked the database for users who have it. The fifth says `friends` of everyone who has shared
something, since sharing needed a friendship when it was done.
-/

namespace WarsawEvents.Friends
set_option autoImplicit false

open RowSecurity (Friendship SharedEvent Person Item Response Db Env Role Relation PublicUser ShareRequest
  statusOf publicUser pinnedSess)
open Coupling Runs

/-! ## Labels -/

/-- What a user is to the caller: `self`, or `_status` of the row of the two. -/
def labelOf (rows : List Friendship) (me other : ℕ) : Relation :=
  if other = me then .self else statusOf (rows.find? (between me other)) me

/-- The users that an answer shows. -/
def shownUsers : Response → List PublicUser
  | .users us => us
  | .user u => [u]
  | .shares ss => ss.map fun s => s.fromUser
  | _ => []

def Labelled (rows : List Friendship) (me : ℕ) (r : Response) : Prop :=
  ∀ u ∈ shownUsers r, u.friendship = labelOf rows me u.id

/-- The endpoints that show users. -/
inductive Listing where
  | searchUsers (q : String)
  | getProfile (userId : ℕ)
  | listFriends (limit : ℕ)
  | listRequests (limit : ℕ)
  | listSharedWithMe (limit : ℕ)

def Listing.call : Listing → RowSecurity.Call
  | .searchUsers q => .searchUsers q
  | .getProfile userId => .getProfile userId
  | .listFriends limit => .listFriends limit
  | .listRequests limit => .listRequests limit
  | .listSharedWithMe limit => .listSharedWithMe limit

/-- The shares sent to a user, newest first. -/
def received (db : Db) (me : ℕ) : List SharedEvent :=
  (db.sharedEvents.filter fun s => s.toUserId = me).insertionSort fun a b => b.createdAt ≤ a.createdAt

def Befriended (rows : List Friendship) (a b : ℕ) : Prop :=
  ∃ f ∈ rows, between a b f = true ∧ f.status = .accepted

/-- Whoever sent a share on the list is a friend now. -/
def Listing.FromFriends (db : Db) (me : ℕ) : Listing → Prop
  | .listSharedWithMe limit => ∀ s ∈ (received db me).take limit, Befriended db.friendships me s.fromUserId
  | _ => True

/-! ## Requests, one at a time -/

inductive Act where
  | friend (action : Action) (userId : ℕ)
  | share (req : ShareRequest)
  | dismiss (shareId : ℕ)

def Act.call : Act → RowSecurity.Call
  | .friend action userId => action.call userId
  | .share req => .shareEvent req
  | .dismiss shareId => .dismissShared shareId

structure SocialRequest where
  env : Env
  role : Role := .owner
  me : ℕ
  act : Act

def serveSocial (db : Db) (q : SocialRequest) : Option (Db × Response) :=
  let served := RowSecurity.serve q.env q.role db q.me q.act.call
  some (served.2.1, served.1)

/-- Users and items, and nothing between them yet. -/
def strangers (us : List Person) (is : List Item) : Db := { users := us, items := is }

abbrev SocialGuard := List (SocialRequest × Response) → Db → SocialRequest → Prop

/-- One of the two shared something with the other. -/
def sharedBetween (a b : ℕ) (s : SharedEvent) : Bool :=
  (s.fromUserId = a && s.toUserId = b) || (s.fromUserId = b && s.toUserId = a)

def spares (db : Db) (q : SocialRequest) : Bool :=
  match q.act with
  | .friend .remove userId => !db.sharedEvents.any (sharedBetween q.me userId)
  | _ => true

/-- Nobody removes a friend while a share between the two is there. -/
def Spares : SocialGuard := fun _ db q => spares db q = true

instance : ∀ past db q, Decidable (Spares past db q) := fun _ _ _ => inferInstanceAs (Decidable (_ = _))

variable {env : Env} {role : Role} {db db' : Db} {me userId now a b : ℕ} {rows : List Friendship}
  {t : Table} {f g : Friendship} {action : Action} {call : RowSecurity.Call}

/-! ## The row of two users -/

theorem between_comm (a b : ℕ) : between a b = between b a := by
  funext f
  unfold between
  rw [Bool.or_comm]

theorem OnePerPair.eq (h : OnePerPair rows) (hf : f ∈ rows) (hg : g ∈ rows) (hfab : between a b f = true)
    (hgab : between a b g = true) : g = f := by
  have hone := h a b
  have hf' : f ∈ rows.filter (between a b) := List.mem_filter.mpr ⟨hf, hfab⟩
  have hg' : g ∈ rows.filter (between a b) := List.mem_filter.mpr ⟨hg, hgab⟩
  match hrows : rows.filter (between a b) with
  | [] =>
    rw [hrows] at hf'
    cases hf'
  | [r] =>
    rw [hrows] at hf' hg'
    rw [List.mem_singleton.mp hf', List.mem_singleton.mp hg']
  | _ :: _ :: _ =>
    rw [hrows] at hone
    simp at hone

/-- Whatever finds a row of the pair finds the row. -/
theorem OnePerPair.find? (h : OnePerPair rows) (hf : f ∈ rows) (hab : between a b f = true)
    {l : List Friendship} {p : Friendship → Bool} (hsub : ∀ g ∈ l, g ∈ rows) (hmem : f ∈ l)
    (hp : ∀ g ∈ l, p g = between a b g) : l.find? p = some f := by
  cases hfind : l.find? p with
  | none =>
    have hnot := List.find?_eq_none.mp hfind f hmem
    rw [hp f hmem] at hnot
    exact absurd hab hnot
  | some g =>
    have hg := List.mem_of_find?_eq_some hfind
    have hpg := List.find?_some hfind
    rw [hp g hg] at hpg
    rw [h.eq hf (hsub g hg) hab hpg]

theorem friendshipOf_eq (h : OnePerPair rows) (a b : ℕ) :
    friendshipOf rows a b = .ok (rows.find? (between a b)) := by
  have hone := h a b
  rw [← List.head?_filter]
  unfold friendshipOf
  match hrows : rows.filter (between a b) with
  | [] => rfl
  | [_] => rfl
  | _ :: _ :: _ =>
    rw [hrows] at hone
    simp at hone

/-! ## What holds of the tables -/

structure TiedRows (rows : List Friendship) : Prop where
  ids_nodup : (rows.map Friendship.id).Nodup
  one : OnePerPair rows
  apart : ∀ f ∈ rows, f.requesterId ≠ f.addresseeId

/-- The friendships are tied, and the keys and references of the rest hold. -/
structure Tied (db : Db) : Prop where
  friendRows : TiedRows db.friendships
  files : (db.userFiles.map RowSecurity.UserFile.id).Nodup
  shares : ∀ s ∈ db.sharedEvents, RowSecurity.sharedEvents.constraints db s = true

theorem Tied.keyed (h : Tied db) : db.Keyed := ⟨h.friendRows.ids_nodup, h.files⟩

theorem tied_strangers (us : List Person) (is : List Item) : Tied (strangers us is) where
  friendRows :=
    { ids_nodup := List.nodup_nil
      one := fun _ _ => Nat.zero_le 1
      apart := nofun }
  files := List.nodup_nil
  shares := nofun

/-- An insert is planned only over no row of the pair, for another user. -/
theorem plan_insert (hone : OnePerPair t.rows) (h : plan t me userId action = .ok .insert) :
    userId ≠ me ∧ opposed t me userId = false := by
  cases action with
  | request =>
    simp only [plan, planRequest] at h
    split at h
    · cases h
    · rename_i hother
      refine ⟨hother, ?_⟩
      split at h
      · cases h
      · split at h
        · cases h
        · rename_i hnone
          rw [friendshipOf_eq hone] at hnone
          have hempty := List.find?_eq_none.mp (Except.ok.inj hnone)
          unfold opposed
          rw [List.any_eq_false]
          intro f hf hopposed
          have hnot := hempty f hf
          unfold between at hnot
          simp only [Bool.or_eq_true, not_or] at hnot
          exact hnot.2 hopposed
        · split at h
          · cases h
          · split at h <;> cases h
  | accept =>
    simp only [plan, planAccept] at h
    split at h <;> cases h
  | decline => cases h
  | remove => cases h

theorem write_tied {p : Plan} {answer : Response} {t' : Table} (h : TiedRows t.rows)
    (hp : plan t me userId action = .ok p) (hwrite : p.write t now me userId = .ok (answer, t')) :
    TiedRows t'.rows := by
  have hinsert : p = .insert → userId ≠ me ∧ opposed t me userId = false := by
    rintro rfl
    exact plan_insert h.one hp
  refine { ids_nodup := write_ids_nodup h.ids_nodup hwrite, one := ?_, apart := ?_ }
  · apply (write_onePerPair h.one hwrite).mpr
    by_cases hins : p = .insert
    · exact .inr (hinsert hins).2
    · exact .inl hins
  · intro g hg
    obtain ⟨hins, _, rfl⟩ | ⟨f, hf, _, hreq, haddr, _⟩ := write_origin hwrite hg
    · exact fun hsame => (hinsert hins).1 hsame.symm
    · rw [hreq, haddr]
      exact h.apart f hf

theorem attempt_cases (t : Table) (now me userId : ℕ) (action : Action) :
    (attempt t now me userId action).2 = t ∨ ∃ p answer, plan t me userId action = .ok p ∧
      p.write t now me userId = .ok (answer, (attempt t now me userId action).2) := by
  unfold attempt readWrite
  cases hp : plan t me userId action with
  | error r => exact .inl rfl
  | ok p =>
    cases hwrite : p.write t now me userId with
    | error r => exact .inl (by simp only [Except.bind, hwrite])
    | ok done => exact .inr ⟨p, done.1, rfl, by simp only [Except.bind, hwrite]⟩

theorem attempt_tied (h : TiedRows t.rows) : TiedRows (attempt t now me userId action).2.rows := by
  obtain hsame | ⟨p, answer, hp, hwrite⟩ := attempt_cases t now me userId action
  · rw [hsame]
    exact h
  · exact write_tied h hp hwrite

theorem plan_remove (h : plan t me userId action = .ok .remove) : action = .remove := by
  cases action with
  | request =>
    simp only [plan, planRequest] at h
    split_ifs at h
    split at h
    · cases h
    · cases h
    · split_ifs at h
      cases h
  | accept =>
    simp only [plan, planAccept] at h
    split at h <;> cases h
  | decline => cases h
  | remove => rfl

/-- An accepted row stays, except in a removal of the pair. -/
theorem attempt_keeps_accepted (hf : f ∈ t.rows) (haccepted : f.status = .accepted)
    (hkept : action = .remove → between me userId f = false) :
    f ∈ (attempt t now me userId action).2.rows := by
  obtain hsame | ⟨p, answer, hp, hwrite⟩ := attempt_cases t now me userId action
  · rw [hsame]
    exact hf
  · generalize (attempt t now me userId action).2 = t' at hwrite ⊢
    cases p with
    | insert =>
      simp only [Plan.write] at hwrite
      split at hwrite
      · cases hwrite
      · cases hwrite
        exact List.mem_append_left _ hf
    | accept id =>
      simp only [Plan.write] at hwrite
      split at hwrite
      · cases hwrite
        refine List.mem_map.mpr ⟨f, hf, ?_⟩
        split
        · rw [← haccepted]
        · rfl
      · cases hwrite
    | decline =>
      cases hwrite
      refine List.mem_filter.mpr ⟨hf, ?_⟩
      simp [Friendship.requestFrom, haccepted]
    | remove =>
      cases hwrite
      have hremove : action = .remove := plan_remove hp
      exact List.mem_filter.mpr ⟨hf, by simp [hkept hremove]⟩

/-! ## What a request does -/

variable (env me call) in
/-- The two roles are served alike here. -/
theorem serve_either (h : db.Keyed) (role : Role)
    (hno : call.acceptedUpload env db me = false) :
    RowSecurity.serve env role db me call = RowSecurity.serve env .owner db me call := by
  cases role with
  | owner => rfl
  | runtime => exact (RowSecurity.serve_mirror h call hno).symm

variable (env) in
/-- A share is stored for a friend only, and a second one of the same item is not stored. -/
theorem serve_share (hme : db.hasUser me = true) (req : ShareRequest) :
    (RowSecurity.serve env .owner db me (.shareEvent req)).2.1 = db ∨ ∃ s,
      (RowSecurity.serve env .owner db me (.shareEvent req)).2.1 =
        { db with sharedEvents := db.sharedEvents ++ [s] } ∧
      RowSecurity.sharedEvents.constraints db s = true ∧
      Befriended db.friendships s.fromUserId s.toUserId := by
  obtain ⟨u, rfl, hexec⟩ := RowSecurity.exec_authenticated env .owner (.shareEvent req) hme
  have hhandler : (RowSecurity.Call.shareEvent req).handler env u =
      RowSecurity.shareEvent env u.id req := rfl
  obtain ⟨found, hfriends, _, haccepted⟩ :=
    exec_areFriends (pinnedSess .owner db u.id) u.id req.toUserId
  unfold RowSecurity.serve
  rw [hexec, hhandler]
  unfold RowSecurity.shareEvent
  match found with
  | .error r =>
    left
    rw [exec_bind_error hfriends]
    rfl
  | .ok false =>
    left
    rw [exec_bind_ok hfriends]
    rfl
  | .ok true =>
    rw [exec_bind_ok hfriends, if_pos rfl]
    have hget := RowSecurity.exec_getById_open (T := RowSecurity.items) (fun _ _ _ => rfl)
      (pinnedSess .owner db u.id) req.itemId
    rw [exec_bind_ok hget]
    cases ((RowSecurity.items.rows (pinnedSess .owner db u.id).view).filter fun r =>
        RowSecurity.items.key r = req.itemId).head? with
    | none => exact .inl rfl
    | some item =>
      obtain hinsert | hinsert | ⟨hfits, hinsert⟩ := @RowSecurity.exec_insertIgnore_cases _
        RowSecurity.sharedEvents Response.serverError (pinnedSess .owner db u.id)
        ⟨env.newId, u.id, req.toUserId, req.itemId, req.message, env.now⟩
      · left
        simp only
        rw [exec_bind_error hinsert]
        rfl
      · left
        simp only
        rw [exec_bind_ok hinsert]
        rfl
      · right
        simp only
        rw [exec_bind_ok hinsert]
        exact ⟨_, rfl, (Bool.and_eq_true_iff.mp hfits).1, haccepted rfl⟩

theorem serve_dismiss (hme : db.hasUser me = true) (shareId : ℕ) :
    (RowSecurity.serve env .owner db me (.dismissShared shareId)).2.1 =
      { db with sharedEvents := db.sharedEvents.filter fun s => !(s.id = shareId && s.toUserId = me) } := by
  obtain ⟨u, rfl, hexec⟩ := RowSecurity.exec_authenticated env .owner (.dismissShared shareId) hme
  have hhandler : (RowSecurity.Call.dismissShared shareId).handler env u =
      RowSecurity.dismissShared u.id shareId := rfl
  unfold RowSecurity.serve
  rw [hexec, hhandler]
  unfold RowSecurity.dismissShared
  rw [exec_bind_ok (RowSecurity.exec_delete_owner rfl)]
  rfl

/-- Everything one request does to the database. -/
theorem serveSocial_cases {q : SocialRequest} {r : Response} (h : Tied db)
    (hstep : serveSocial db q = some (db', r)) :
    db' = db ∨
    (∃ action userId, q.act = .friend action userId ∧
      db' = (attempt (Table.of db q.env.newId) q.env.now q.me userId action).2.put db) ∨
    (∃ s, db' = { db with sharedEvents := db.sharedEvents ++ [s] } ∧
      RowSecurity.sharedEvents.constraints db s = true ∧
      Befriended db.friendships s.fromUserId s.toUserId) ∨
    ∃ p, db' = { db with sharedEvents := db.sharedEvents.filter p } := by
  simp only [serveSocial, Option.some.injEq, Prod.mk.injEq] at hstep
  obtain ⟨rfl, _⟩ := hstep
  cases hme : db.hasUser q.me with
  | false =>
    left
    rw [RowSecurity.serve_signedOut hme]
  | true =>
    right
    obtain ⟨env, role, me, act⟩ := q
    cases act with
    | friend action userId =>
      left
      refine ⟨action, userId, rfl, ?_⟩
      have hno : (action.call userId).acceptedUpload env db me = false := by cases action <;> rfl
      simp only [Act.call]
      rw [serve_either env me _ h.keyed role hno, serve_attempt env hme]
    | share req =>
      have hrole := serve_either env me (.shareEvent req) h.keyed role rfl
      simp only [Act.call]
      rw [hrole]
      obtain hsame | hstored := serve_share env hme req
      · right
        right
        refine ⟨fun _ => true, ?_⟩
        rw [hsame, List.filter_true]
      · exact .inr (.inl hstored)
    | dismiss shareId =>
      have hrole := serve_either env me (.dismissShared shareId) h.keyed role rfl
      right
      right
      simp only [Act.call]
      rw [hrole, serve_dismiss hme]
      exact ⟨_, rfl⟩

theorem Tied.step {q : SocialRequest} {r : Response} (h : Tied db)
    (hstep : serveSocial db q = some (db', r)) : Tied db' := by
  obtain rfl | ⟨action, userId, _, rfl⟩ | ⟨s, rfl, hfits, _⟩ | ⟨p, rfl⟩ := serveSocial_cases h hstep
  · exact h
  · have hend : TiedRows (attempt (Table.of db q.env.newId) q.env.now q.me userId action).2.rows :=
      attempt_tied h.friendRows
    exact ⟨hend, h.files, h.shares⟩
  · refine ⟨h.friendRows, h.files, ?_⟩
    intro s' hs'
    obtain hold | hnew := List.mem_append.mp hs'
    · exact h.shares s' hold
    · rw [List.mem_singleton.mp hnew]
      exact hfits
  · exact ⟨h.friendRows, h.files, fun s hs => h.shares s (List.mem_filter.mp hs).1⟩

/-- Every share is between friends. -/
def Vouched (db : Db) : Prop :=
  ∀ s ∈ db.sharedEvents, Befriended db.friendships s.fromUserId s.toUserId

/-- A removal of a friend is all that can leave a share behind. -/
theorem Vouched.step {q : SocialRequest} {r : Response} {past : List (SocialRequest × Response)}
    (h : Tied db) (hvouched : Vouched db) (hspares : Spares past db q)
    (hstep : serveSocial db q = some (db', r)) : Vouched db' := by
  obtain rfl | ⟨action, userId, hact, rfl⟩ | ⟨s, rfl, _, hfriends⟩ | ⟨p, rfl⟩ :=
    serveSocial_cases h hstep
  · exact hvouched
  · intro s hs
    obtain ⟨f, hf, hends, haccepted⟩ := hvouched s hs
    refine ⟨f, attempt_keeps_accepted hf haccepted ?_, hends, haccepted⟩
    rintro rfl
    simp only [Spares, spares, hact, Bool.not_eq_true', List.any_eq_false] at hspares
    have hother := hspares s hs
    unfold sharedBetween at hother
    unfold between at hends ⊢
    rw [← Bool.not_eq_true]
    intro hpair
    simp only [Bool.or_eq_true, Bool.and_eq_true, decide_eq_true_eq] at hother hends hpair
    omega
  · intro s' hs'
    obtain hold | hnew := List.mem_append.mp hs'
    · exact hvouched s' hold
    · rw [List.mem_singleton.mp hnew]
      exact hfriends
  · exact fun s hs => hvouched s (List.mem_filter.mp hs).1

/-! ## What the endpoints show -/

def answered : Except Response Response × RowSecurity.Sess → Response
  | (.ok r, _) => r
  | (.error r, _) => r

variable (env role call) in
theorem serve_answered (hme : db.hasUser me = true) : ∃ u : Person, u.id = me ∧
    (RowSecurity.serve env role db me call).1 =
      answered (exec (call.handler env u) (pinnedSess role db me)) := by
  obtain ⟨u, hid, hexec⟩ := RowSecurity.exec_authenticated env role call hme
  refine ⟨u, hid, ?_⟩
  unfold RowSecurity.serve
  rw [hexec]
  generalize exec (call.handler env u) (pinnedSess role db me) = out
  obtain ⟨found, s⟩ := out
  cases found <;> rfl

theorem labelOf_row (h : OnePerPair rows) (hf : f ∈ rows) (hab : between me userId f = true)
    (hother : userId ≠ me) : labelOf rows me userId = statusOf (some f) me := by
  unfold labelOf
  rw [if_neg hother, h.find? hf hab (fun _ hg => hg) hf fun _ _ => rfl]

/-- The other end of a row, for one of its ends. -/
theorem other_eq (hf : Friendship.involves me f = true) :
    decide (f.other me = userId) = between me userId f := by
  unfold Friendship.involves at hf
  unfold RowSecurity.Friendship.other between
  rw [Bool.or_eq_true, decide_eq_true_eq, decide_eq_true_eq] at hf
  rw [Bool.eq_iff_iff]
  simp only [Bool.or_eq_true, Bool.and_eq_true, decide_eq_true_eq]
  split <;> omega

/-- The map of `_my_statuses` at a user is the row of the two. -/
theorem myStatuses_row (h : OnePerPair rows) :
    ((rows.filter (Friendship.involves me)).reverse.find? fun f => f.other me = userId) =
      rows.find? (between me userId) := by
  have hsame : ∀ g ∈ (rows.filter (Friendship.involves me)).reverse,
      g ∈ rows ∧ decide (g.other me = userId) = between me userId g := by
    intro g hg
    obtain ⟨hmem, hinvolves⟩ := List.mem_filter.mp (List.mem_reverse.mp hg)
    exact ⟨hmem, other_eq hinvolves⟩
  cases hrow : rows.find? (between me userId) with
  | none =>
    rw [List.find?_eq_none] at hrow ⊢
    intro g hg
    rw [(hsame g hg).2]
    exact hrow g (hsame g hg).1
  | some f =>
    have hf := List.mem_of_find?_eq_some hrow
    have hab : between me userId f = true := List.find?_some hrow
    refine h.find? hf hab (fun g hg => (hsame g hg).1) ?_ fun g hg => (hsame g hg).2
    refine List.mem_reverse.mpr (List.mem_filter.mpr ⟨hf, ?_⟩)
    unfold between at hab
    unfold Friendship.involves
    simp only [Bool.or_eq_true, Bool.and_eq_true, decide_eq_true_eq] at hab ⊢
    omega

section Sessions
variable {s : RowSecurity.Sess}

theorem labelled_search (hrole : s.role = .owner) (hone : OnePerPair s.view.friendships) (q : String) :
    Labelled s.view.friendships me (answered (exec (RowSecurity.searchUsers env me q) s)) := by
  unfold RowSecurity.searchUsers
  rw [exec_bind_ok (RowSecurity.exec_select_owner hrole)]
  have hstatuses : exec (RowSecurity.myStatuses me) s = (.ok fun other => statusOf
      ((s.view.friendships.filter (Friendship.involves me)).reverse.find? fun f => f.other me = other)
      me, s) := by
    unfold RowSecurity.myStatuses
    rw [exec_bind_ok (RowSecurity.exec_select_owner hrole)]
    rfl
  simp only
  rw [exec_bind_ok hstatuses]
  intro u hu
  obtain ⟨person, hperson, rfl⟩ := List.mem_map.mp hu
  have hfound := (List.mem_insertionSort _).mp (List.mem_of_mem_take hperson)
  have hother : person.id ≠ me := by
    have hcond := (List.mem_filter.mp hfound).2
    rw [Bool.and_eq_true, decide_eq_true_eq] at hcond
    exact hcond.1
  show statusOf _ me = labelOf s.view.friendships me person.id
  unfold labelOf
  rw [if_neg hother, myStatuses_row hone]

theorem labelled_profile (hrole : s.role = .owner) (hone : OnePerPair s.view.friendships)
    (userId : ℕ) :
    Labelled s.view.friendships me (answered (exec (RowSecurity.getProfile env me userId) s)) := by
  unfold RowSecurity.getProfile
  rw [exec_bind_ok (RowSecurity.exec_getById_open (T := RowSecurity.users) (fun _ _ _ => rfl) s userId)]
  cases ((RowSecurity.users.rows s.view).filter fun r => RowSecurity.users.key r = userId).head? with
  | none => exact nofun
  | some target =>
    simp only
    by_cases hself : target.id = me
    · rw [if_pos hself]
      intro u hu
      rw [List.mem_singleton.mp hu]
      exact (if_pos hself).symm
    · rw [if_neg hself]
      have hread := exec_friendship hrole me target.id
      rw [friendshipOf_eq hone] at hread
      rw [exec_bind_ok hread]
      intro u hu
      rw [List.mem_singleton.mp hu]
      exact (if_neg hself).symm

/-- Users that the rows name, under the label that their rows have. -/
theorem labelled_publicUsers {ids : List ℕ} {relation : Relation} (hrole : s.role = .owner)
    (hlabel : ∀ id ∈ ids, relation = labelOf s.view.friendships me id) :
    Labelled s.view.friendships me (answered (exec (RowSecurity.publicUsers env ids relation) s)) := by
  unfold RowSecurity.publicUsers
  by_cases hempty : ids.isEmpty = true
  · rw [if_pos hempty]
    exact nofun
  · rw [if_neg hempty, exec_bind_ok (RowSecurity.exec_select_owner hrole)]
    intro u hu
    obtain ⟨person, hperson, rfl⟩ := List.mem_map.mp hu
    exact hlabel person.id (by simpa using (List.mem_filter.mp hperson).2)

theorem labelled_friends (hrole : s.role = .owner) (hone : OnePerPair s.view.friendships)
    (hapart : ∀ f ∈ s.view.friendships, f.requesterId ≠ f.addresseeId) (limit : ℕ) :
    Labelled s.view.friendships me (answered (exec (RowSecurity.listFriends env me limit) s)) := by
  unfold RowSecurity.listFriends
  rw [exec_bind_ok (RowSecurity.exec_select_owner hrole)]
  refine labelled_publicUsers hrole fun id hid => ?_
  obtain ⟨f, hf, rfl⟩ := List.mem_map.mp hid
  obtain ⟨hmem, hcond⟩ := List.mem_filter.mp (List.mem_of_mem_take hf)
  rw [Bool.and_eq_true, decide_eq_true_eq] at hcond
  have hother : f.other me ≠ me := by
    have hne := hapart f hmem
    unfold RowSecurity.Friendship.other
    split <;> omega
  have hab : between me (f.other me) f = true := by
    rw [← other_eq hcond.2]
    exact decide_eq_true rfl
  rw [labelOf_row hone hmem hab hother]
  exact (if_pos hcond.1).symm

theorem labelled_requests (hrole : s.role = .owner) (hone : OnePerPair s.view.friendships)
    (hapart : ∀ f ∈ s.view.friendships, f.requesterId ≠ f.addresseeId) (limit : ℕ) :
    Labelled s.view.friendships me (answered (exec (RowSecurity.listRequests env me limit) s)) := by
  unfold RowSecurity.listRequests
  rw [exec_bind_ok (RowSecurity.exec_select_owner hrole)]
  refine labelled_publicUsers hrole fun id hid => ?_
  obtain ⟨f, hf, rfl⟩ := List.mem_map.mp hid
  obtain ⟨hmem, hcond⟩ := List.mem_filter.mp (List.mem_of_mem_take hf)
  simp only [Bool.and_eq_true, decide_eq_true_eq] at hcond
  have hother : f.requesterId ≠ me := by
    have hne := hapart f hmem
    omega
  have hab : between me f.requesterId f = true := by
    unfold between
    simp [hcond.1]
  rw [labelOf_row hone hmem hab hother]
  simp [statusOf, hcond.2, hother]

/-- Of a list whose elements all give something, the first ones give the first things. -/
theorem take_filterMap {α β : Type} {g : α → Option β} {l : List α} (n : ℕ)
    (h : ∀ a ∈ l, (g a).isSome = true) : (l.filterMap g).take n = (l.take n).filterMap g := by
  induction l generalizing n with
  | nil => simp
  | cons a l ih =>
    obtain ⟨b, hb⟩ := Option.isSome_iff_exists.mp (h a List.mem_cons_self)
    cases n with
    | zero => rfl
    | succ n =>
      rw [List.filterMap_cons_some hb, List.take_succ_cons, List.take_succ_cons,
        List.filterMap_cons_some hb, ih n fun a' ha' => h a' (List.mem_cons_of_mem a ha')]

theorem find?_of_any {α : Type} {l : List α} {p : α → Bool} (h : l.any p = true) :
    ∃ a, l.find? p = some a ∧ p a = true := by
  obtain ⟨a, ha⟩ := Option.isSome_iff_exists.mp (List.find?_isSome.mpr (List.any_eq_true.mp h))
  exact ⟨a, ha, List.find?_some ha⟩

variable (env me) in
/-- The page of shares: each has its sender, shown as a friend. -/
theorem exec_listSharedWithMe (hrole : s.role = .owner)
    (hshares : ∀ e ∈ s.view.sharedEvents, RowSecurity.sharedEvents.constraints s.view e = true)
    (limit : ℕ) : ∃ entry : SharedEvent → Option RowSecurity.SharedEventOut,
      answered (exec (RowSecurity.listSharedWithMe env me limit) s) =
        .shares (((received s.view me).filterMap entry).take limit) ∧
      ∀ e ∈ s.view.sharedEvents, ∃ out, entry e = some out ∧ out.fromUser.id = e.fromUserId ∧
        out.fromUser.friendship = .friends := by
  unfold RowSecurity.listSharedWithMe
  rw [exec_bind_ok (RowSecurity.exec_select_owner hrole), exec_bind_ok (RowSecurity.exec_select_owner hrole),
    exec_bind_ok (RowSecurity.exec_select_owner hrole)]
  refine ⟨_, rfl, fun e he => ?_⟩
  have hfits := hshares e he
  simp only [RowSecurity.sharedEvents, Bool.and_eq_true] at hfits
  obtain ⟨sender, hsender, hid⟩ := find?_of_any hfits.1.1
  obtain ⟨item, hitem, _⟩ := find?_of_any hfits.2
  rw [decide_eq_true_eq] at hid
  simp only [RowSecurity.items, RowSecurity.users, List.filter_true, hitem, hsender]
  exact ⟨_, rfl, hid, rfl⟩

theorem befriended_iff (hone : OnePerPair rows) (hapart : ∀ f ∈ rows, f.requesterId ≠ f.addresseeId) :
    labelOf rows me userId = .friends ↔ Befriended rows me userId := by
  constructor
  · intro h
    unfold labelOf at h
    split at h
    · cases h
    · cases hrow : rows.find? (between me userId) with
      | none =>
        rw [hrow] at h
        cases h
      | some f =>
        refine ⟨f, List.mem_of_find?_eq_some hrow, List.find?_some hrow, ?_⟩
        rw [hrow] at h
        unfold RowSecurity.statusOf at h
        by_cases haccepted : f.status = .accepted
        · exact haccepted
        · simp only [haccepted, if_false] at h
          split at h <;> cases h
  · rintro ⟨f, hf, hab, haccepted⟩
    have hother : userId ≠ me := by
      have hne := hapart f hf
      unfold between at hab
      simp only [Bool.or_eq_true, Bool.and_eq_true, decide_eq_true_eq] at hab
      omega
    rw [labelOf_row hone hf hab hother]
    exact if_pos haccepted

theorem labelled_shared (hrole : s.role = .owner) (hone : OnePerPair s.view.friendships)
    (hapart : ∀ f ∈ s.view.friendships, f.requesterId ≠ f.addresseeId)
    (hshares : ∀ e ∈ s.view.sharedEvents, RowSecurity.sharedEvents.constraints s.view e = true)
    (limit : ℕ) :
    Labelled s.view.friendships me (answered (exec (RowSecurity.listSharedWithMe env me limit) s)) ↔
      (Listing.listSharedWithMe limit).FromFriends s.view me := by
  obtain ⟨entry, hanswer, hentry⟩ :=
    exec_listSharedWithMe env me hrole hshares limit
  have hstored : ∀ e ∈ received s.view me, e ∈ s.view.sharedEvents := fun e he =>
    (List.mem_filter.mp ((List.mem_insertionSort _).mp he)).1
  have hsome : ∀ e ∈ received s.view me, (entry e).isSome = true := by
    intro e he
    obtain ⟨out, hout, _⟩ := hentry e (hstored e he)
    rw [hout]
    rfl
  rw [hanswer, take_filterMap limit hsome]
  constructor
  · intro h e he
    obtain ⟨out, hout, hid, hlabel⟩ := hentry e (hstored e (List.mem_of_mem_take he))
    have hu : out.fromUser ∈ shownUsers (.shares (((received s.view me).take limit).filterMap entry)) :=
      List.mem_map.mpr ⟨out, List.mem_filterMap.mpr ⟨e, he, hout⟩, rfl⟩
    rw [← hid]
    apply (befriended_iff hone hapart).mp
    rw [← h out.fromUser hu, hlabel]
  · intro h u hu
    obtain ⟨out, hmem, rfl⟩ := List.mem_map.mp hu
    obtain ⟨e, he, hout⟩ := List.mem_filterMap.mp hmem
    obtain ⟨out', hout', hid, hlabel⟩ := hentry e (hstored e (List.mem_of_mem_take he))
    rw [hout] at hout'
    cases hout'
    rw [hlabel, hid]
    exact ((befriended_iff hone hapart).mpr (h e he)).symm

end Sessions

/-! ## Every listing, in every state -/

theorem labelled_iff (h : Tied db) (env : Env) (role : Role) (me : ℕ) (q : Listing) :
    Labelled db.friendships me (RowSecurity.serve env role db me q.call).1 ↔ q.FromFriends db me := by
  have hno : q.call.acceptedUpload env db me = false := by cases q <;> rfl
  rw [serve_either env me _ h.keyed role hno]
  cases hme : db.hasUser me with
  | false =>
    rw [RowSecurity.serve_signedOut hme]
    refine iff_of_true nofun ?_
    cases q with
    | listSharedWithMe limit =>
      intro e he
      obtain ⟨hmem, hto⟩ := List.mem_filter.mp ((List.mem_insertionSort _).mp (List.mem_of_mem_take he))
      have hfits := h.shares e hmem
      simp only [RowSecurity.sharedEvents, Bool.and_eq_true] at hfits
      rw [of_decide_eq_true hto, hme] at hfits
      exact absurd hfits.1.2 Bool.false_ne_true
    | _ => trivial
  | true =>
    obtain ⟨u, rfl, hanswer⟩ := serve_answered env .owner q.call hme
    rw [hanswer]
    have hone : OnePerPair (pinnedSess .owner db u.id).view.friendships := h.friendRows.one
    cases q with
    | searchUsers text => exact iff_of_true (labelled_search rfl hone text) trivial
    | getProfile userId => exact iff_of_true (labelled_profile rfl hone userId) trivial
    | listFriends limit => exact iff_of_true (labelled_friends rfl hone h.friendRows.apart limit) trivial
    | listRequests limit => exact iff_of_true (labelled_requests rfl hone h.friendRows.apart limit) trivial
    | listSharedWithMe limit => exact labelled_shared rfl hone h.friendRows.apart h.shares limit

theorem statusOf_dual {x y : ℕ} (hxy : x ≠ y) (hab : between x y f = true) :
    (statusOf (some f) x = .friends ↔ statusOf (some f) y = .friends) ∧
      (statusOf (some f) x = .requestSent ↔ statusOf (some f) y = .requestReceived) := by
  unfold between at hab
  simp only [Bool.or_eq_true, Bool.and_eq_true, decide_eq_true_eq] at hab
  unfold RowSecurity.statusOf
  by_cases haccepted : f.status = .accepted
  · simp [haccepted]
  · obtain ⟨hreq, haddr⟩ | ⟨hreq, haddr⟩ := hab
    · simp [haccepted, hreq, hxy]
    · simp [haccepted, hreq, hxy.symm]

/-- The two of a pair carry labels that fit. -/
theorem labels_dual (rows : List Friendship) (x y : ℕ) :
    (labelOf rows x y = .friends ↔ labelOf rows y x = .friends) ∧
      (labelOf rows x y = .requestSent ↔ labelOf rows y x = .requestReceived) := by
  unfold labelOf
  by_cases hxy : x = y
  · subst hxy
    simp
  · rw [if_neg hxy, if_neg (Ne.symm hxy), between_comm y x]
    cases hrow : rows.find? (between x y) with
    | none => simp [RowSecurity.statusOf]
    | some f => exact statusOf_dual hxy (List.find?_some hrow)

theorem tied_of_run {G : SocialGuard} {us : List Person} {is : List Item}
    {es : List (SocialRequest × Response)}
    (h : Run (guarded G serveSocial) [] (strangers us is) es db) : Tied db := by
  refine h.invariant_of_init (fun _ db => Tied db) ?_ (tied_strangers us is)
  intro past db e db' hdb hstep
  exact hdb.step hstep.2

theorem vouched_of_run {us : List Person} {is : List Item} {es : List (SocialRequest × Response)}
    (h : Run (guarded Spares serveSocial) [] (strangers us is) es db) : Tied db ∧ Vouched db := by
  refine h.invariant_of_init (fun _ db => Tied db ∧ Vouched db) ?_ ⟨tied_strangers us is, nofun⟩
  rintro past db e db' ⟨hdb, hvouched⟩ ⟨hspares, hstep⟩
  exact ⟨hdb.step hstep, hvouched.step hdb hspares hstep⟩

theorem Vouched.fromFriends (h : Vouched db) (me : ℕ) (q : Listing) : q.FromFriends db me := by
  cases q with
  | listSharedWithMe limit =>
    intro e he
    obtain ⟨hmem, hto⟩ := List.mem_filter.mp ((List.mem_insertionSort _).mp (List.mem_of_mem_take he))
    obtain ⟨f, hf, hab, haccepted⟩ := h e hmem
    rw [of_decide_eq_true hto, between_comm] at hab
    exact ⟨f, hf, hab, haccepted⟩
  | _ => trivial

/-- The labels are dual in every state. A listing is labelled as `_status` has it exactly when every
share it lists is from a friend, which it always is while nobody removes a friend they share with. -/
theorem labels_true_iff {us : List Person} {is : List Item} {es : List (SocialRequest × Response)}
    (hrun : Run (guarded Runs.anyStep serveSocial) [] (strangers us is) es db) :
    (∀ x y, (labelOf db.friendships x y = .friends ↔ labelOf db.friendships y x = .friends) ∧
      (labelOf db.friendships x y = .requestSent ↔ labelOf db.friendships y x = .requestReceived)) ∧
    (∀ env role me (q : Listing), Labelled db.friendships me
      (RowSecurity.serve env role db me q.call).1 ↔ q.FromFriends db me) ∧
    (Run (guarded Spares serveSocial) [] (strangers us is) es db → ∀ env role me (q : Listing),
      Labelled db.friendships me (RowSecurity.serve env role db me q.call).1) := by
  have htied := tied_of_run hrun
  refine ⟨labels_dual db.friendships, labelled_iff htied, ?_⟩
  intro hspared env role me q
  exact (labelled_iff htied env role me q).mpr ((vouched_of_run hspared).2.fromFriends me q)

/-! ## A friend who is one no more -/

def ana : Person := { id := 1, name := some "Ana" }

def bartek : Person := { id := 2, name := some "Bartek" }

def asAna (act : Act) : SocialRequest := { env := RowSecurity.plainEnv, me := 1, act := act }

def asBartek (act : Act) : SocialRequest := { env := RowSecurity.plainEnv, me := 2, act := act }

/-- Ana and Bartek become friends, and Ana shares a concert. -/
def concertShared : List SocialRequest :=
  [asAna (.friend .request 2), asBartek (.friend .accept 1), asAna (.share { toUserId := 2, itemId := 3 })]

def socialRun (G : SocialGuard) [∀ past db q, Decidable (G past db q)] (qs : List SocialRequest) :
    List (SocialRequest × Response) × Db :=
  (replay G serveSocial [] (strangers [ana, bartek] [{ id := 3 }]) qs).getD ([], {})

def shared : List (SocialRequest × Response) × Db := socialRun Spares concertShared

theorem shared_run :
    Run (guarded Spares serveSocial) [] (strangers [ana, bartek] [{ id := 3 }]) shared.1 shared.2 :=
  replay_getD_run _ _ _ _ concertShared _ (by decide +kernel)

theorem labels_true_iff_shared : received shared.2 2 ≠ [] ∧ Labelled shared.2.friendships 2
    (RowSecurity.serve RowSecurity.plainEnv .owner shared.2 2 (.listSharedWithMe 50)).1 := by
  refine ⟨by decide +kernel, ?_⟩
  have hrun : Run (guarded Runs.anyStep serveSocial) [] (strangers [ana, bartek] [{ id := 3 }]) shared.1
      shared.2 := shared_run.mono fun _ _ _ _ h => ⟨trivial, h.2⟩
  exact (labels_true_iff hrun).2.2 shared_run RowSecurity.plainEnv .owner 2 (.listSharedWithMe 50)

/-- Bartek ends the friendship, and Ana is still listed as his friend. -/
theorem shared_label_stays :
    ¬ ∀ (us : List Person) (is : List Item) (es : List (SocialRequest × Response)) (db : Db),
      Run (guarded Runs.anyStep serveSocial) [] (strangers us is) es db → ∀ env role me (q : Listing),
        Labelled db.friendships me (RowSecurity.serve env role db me q.call).1 := by
  intro h
  let ended := socialRun Runs.anyStep (concertShared ++ [asBartek (.friend .remove 1)])
  have hrun : Run (guarded Runs.anyStep serveSocial) [] (strangers [ana, bartek] [{ id := 3 }]) ended.1
      ended.2 := replay_getD_run _ _ _ _ _ _ (by decide +kernel)
  have htrue := h _ _ _ _ hrun RowSecurity.plainEnv .owner 2 (.listSharedWithMe 50)
  have hshown : ∃ u ∈ shownUsers (RowSecurity.serve RowSecurity.plainEnv .owner ended.2 2
      (.listSharedWithMe 50)).1, u.id = 1 ∧ u.friendship = .friends := by decide +kernel
  obtain ⟨u, hu, hid, hfriends⟩ := hshown
  have hlabel := htrue u hu
  rw [hid, hfriends] at hlabel
  have hnone : labelOf ended.2.friendships 2 1 = .none := by decide +kernel
  rw [hnone] at hlabel
  cases hlabel

end WarsawEvents.Friends
