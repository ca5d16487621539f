import WarsawEvents.Accounts.Transcript
import WarsawEvents.Accounts.Interleaved

/-! # Requests that end up writing one address

`register`, `verify` and the Google callback on the whole table, one database statement at a time: what
a request looked up may be gone when it commits. `UNIQUE (email)` and `UNIQUE (google_sub)` are checked
at the commit. `register` and `verify` answer 409 when they lose, the callback has no handler.

* `register_alone`, `verify_alone`, `callback_alone`: with nothing in between, the atomic endpoints.
* `turn_turned` lists what one turn can do. The only one that ends in an unhandled error is the commit
  of a callback with a subject or an address that another row holds by then.
-/

namespace WarsawEvents.Accounts
set_option autoImplicit false

open WriteBack

/-! ## Requests under way -/

/-- `hash` is what bcrypt made of the password, `userId` comes from the cookie, and Google's claims
are missing where `OAuthError` was raised. -/
inductive Incoming where
  | register (req : RegisterRequest) (hash : Text)
  | verify (userId : Option ℕ) (code : Code)
  | callback (info : Option UserInfo)
  deriving DecidableEq

/-- Where a handler stands between two statements, with what it holds: `base` is the row as it was
loaded, `linked` tells that it was found by its address. -/
inductive Handler where
  | arrived (req : Incoming)
  | inserting (req : RegisterRequest) (hash : Text)
  | registered (id : ℕ)
  | coding (base : User)
  | verifying (code : Code) (base : User)
  | confirming (checked : Ambient) (taken : Bool) (code : Code) (base : User)
  | finding (sub : Text) (info : UserInfo)
  | asserting (linked : Bool) (base : User) (sub : Text) (info : UserInfo)
  | creating (sub : Text) (info : UserInfo)
  deriving DecidableEq

/-- What one statement leaves: the table, the handler unless it is done, its answer if it is. -/
structure Turn where
  db : Db
  next : Option Handler := none
  committed : Bool := false
  mails : List Mail := []
  reply : Option Reply := none
  deriving DecidableEq

def Turn.goesOn (db : Db) (next : Handler) : Turn := { db := db, next := some next }

def Turn.ends (db : Db) (reply : Reply) : Turn := { db := db, reply := some reply }

def registeredAlready : Reply := .http 409 "Email already registered"

/-- `session.add` and `session.commit`. -/
def insertTurn (db : Db) (u : User) (next : Option Handler) (reply : Option Reply)
    (onConflict : Reply) : Turn :=
  if conflicts db.users u then Turn.ends db onConflict
  else { db := insertRow db u, next := next, committed := true, reply := reply }

/-- After the commit the row is read again for the payload. -/
def Reply.refreshed (stored : User) : Reply → Reply
  | .user _ => .user (userPayload stored)
  | reply => reply

/-- `session.commit` of a loaded row that the handler left as `v`. -/
def updateTurn (db : Db) (base v : User) (mails : List Mail) (reply onConflict : Reply) : Option Turn :=
  (findById db.users base.id).map fun cur =>
    let w := commitRow base v cur
    if conflicts db.users w then Turn.ends db onConflict
    else { db := { db with users := storeRow db.users w }, committed := true, mails := mails
           reply := some (reply.refreshed w) }

/-- The first statement of a request. -/
def Incoming.turn (amb : Ambient) (db : Db) : Incoming → Turn
  | .register req hash =>
    if !amb.rateOk then Turn.ends db (tooMany {}).reply
    else if (findByEmail db.users req.email).isSome then Turn.ends db registeredAlready
    else Turn.goesOn db (.inserting req hash)
  | .verify userId code =>
    match userId.bind (findById db.users) with
    | none => Turn.ends db (.http 401 "Not authenticated")
    | some u => Turn.goesOn db (.verifying code u)
  | .callback none => Turn.ends db (.redirect "/login?error=oauth")
  | .callback (some info) =>
    match truthy info.sub with
    | none => Turn.ends db (.http 400 "Google did not return a user id")
    | some sub =>
      match findBySub db.users sub with
      | some u => Turn.goesOn db (.asserting false u sub info)
      | none => Turn.goesOn db (.finding sub info)

variable (d : Deps) (amb : Ambient) (db : Db)

/-- The next statement of a handler; none if its row is gone. -/
def Handler.turn : Handler → Option Turn
  | .arrived req => some (req.turn amb db)
  | .inserting req hash =>
    some (insertTurn db (registeredUser db.nextId req hash) (some (.registered db.nextId)) none
      registeredAlready)
  | .registered id => (findById db.users id).map fun u => Turn.goesOn db (.coding u)
  | .coding base =>
    match issueVerification d amb base with
    | some (v, m) => updateTurn db base v [m] (.user (userPayload v)) .serverError
    | none => some (Turn.ends db (.user (userPayload base)))
  | .verifying code base =>
    let taken := base.pendingEmail.any (emailTaken db.users base.id)
    let o := verifyEmail d amb (fun _ => taken) {} code base
    some (if o.commit.isNone then Turn.ends db o.reply
      else Turn.goesOn db (.confirming amb taken code base))
  | .confirming checked taken code base =>
    let o := verifyEmail d checked (fun _ => taken) {} code base
    match o.commit with
    | none => some (Turn.ends db o.reply)
    | some v => updateTurn db base v o.mails o.reply o.onConflict
  | .finding sub info =>
    some (match (truthy info.email).bind (findByEmail db.users) with
      | some u => Turn.goesOn db (.asserting true u sub info)
      | none => Turn.goesOn db (.creating sub info))
  | .asserting linked base sub info =>
    updateTurn db base (assertGoogle sub info (if linked then voidPassword base else base)) []
      (.redirect "") .serverError
  | .creating sub info =>
    some (insertTurn db (googleUser db.nextId sub info) none (some (.redirect "")) .serverError)

/-! ## Runs -/

structure Traffic where
  db : Db := {}
  handlers : List Handler := []
  deriving DecidableEq

inductive TrafficMove where
  | arrive (req : Incoming)
  | turn (i : ℕ) (amb : Ambient)
  deriving DecidableEq

/-- A turn with the handler that took it and the table it found. -/
structure Taken where
  before : Db
  handler : Handler
  turn : Turn
  deriving DecidableEq

def race (s : Traffic) : TrafficMove → Option (Traffic × Option Taken)
  | .arrive req => some ({ s with handlers := s.handlers ++ [.arrived req] }, none)
  | .turn i amb =>
    s.handlers[i]?.bind fun h => (h.turn d amb s.db).map fun t =>
      ({ db := t.db, handlers := t.next.elim (s.handlers.eraseIdx i) (s.handlers.set i) },
        some ⟨s.db, h, t⟩)

/-- A turn that ends in no unhandled error, and leaves every row as it was unless it commits. -/
def Taken.Handled (t : Taken) : Prop :=
  t.turn.reply ≠ some .serverError ∧ (t.turn.committed = false → t.turn.db = t.before)

/-- A callback is about to commit a subject or an address that it did not read from its own row and
that another row holds. -/
def Handler.Clashes : Handler → Prop
  | .asserting _ base sub info => ∃ v ∈ db.users, v.id ≠ base.id ∧
      ((some sub ≠ base.googleSub ∧ v.googleSub = some sub) ∨
        ∃ e, truthy info.email = some e ∧ some e ≠ base.email ∧ v.email = some e)
  | .creating sub info => ∃ v ∈ db.users, v.googleSub = some sub ∨
      ∃ e, truthy info.email = some e ∧ v.email = some e
  | _ => False

/-! ## An address and a subject belong to one row -/

/-- Ids are distinct, and so are addresses and subjects. -/
structure Db.Keyed (db : Db) : Prop extends db.Ok where
  unique : db.Unique

section Keyed
variable {d amb db} {base u v w cur : User} {t : Turn}

theorem Db.Keyed.store (h : db.Keyed) (hu : u ∈ db.users) (hid : w.id = u.id)
    (hfree : conflicts db.users w = false) : Db.Keyed { db with users := storeRow db.users w } :=
  ⟨h.toOk.store hu hid, h.unique.store hfree⟩

theorem Db.Keyed.insert (h : db.Keyed) (hid : w.id = db.nextId)
    (hfree : conflicts db.users w = false) : (insertRow db w).Keyed :=
  ⟨h.toOk.insert hid, h.unique.insert fun _ hx hclash =>
    conflicts_eq_false_iff.mp hfree _ hx hclash.symm⟩

/-- The requests one after another. -/
theorem Reached.keyed {G : Guard} {past : History} {w : World} (h : Reached d G past w) :
    w.db.Keyed := by
  refine ⟨h.ok, h.invariant_of_init (fun _ w => w.db.Unique) ?_ (by simp [Db.Unique])⟩
  rintro past w ⟨ev, r⟩ w' hunique ⟨_, hstep⟩
  obtain ⟨o, hs, _, hdb, _, _⟩ := serve_some hstep
  rw [hdb]
  exact hs.unique hunique

/-! ## The table after a turn -/

/-- The table a turn leaves, and whether it committed. -/
inductive Written (db : Db) : Db → Bool → Prop
  | idle : Written db db false
  | stored {u w : User} : u ∈ db.users → w.id = u.id → conflicts db.users w = false →
      Written db { db with users := storeRow db.users w } true
  | inserted {w : User} : w.id = db.nextId → conflicts db.users w = false →
      Written db (insertRow db w) true

theorem insertTurn_written {next : Option Handler} {reply : Option Reply} {onConflict : Reply}
    (hid : w.id = db.nextId) :
    Written db (insertTurn db w next reply onConflict).db
      (insertTurn db w next reply onConflict).committed := by
  unfold insertTurn
  cases hfree : conflicts db.users w with
  | true => exact Written.idle
  | false => exact Written.inserted hid hfree

theorem updateTurn_written {mails : List Mail} {reply onConflict : Reply}
    (h : updateTurn db base v mails reply onConflict = some t) : Written db t.db t.committed := by
  obtain ⟨cur, hcur, rfl⟩ := Option.map_eq_some_iff.mp h
  dsimp only
  cases hfree : conflicts db.users (commitRow base v cur) with
  | true => exact Written.idle
  | false => exact Written.stored (w := commitRow base v cur) (findById_some hcur).1 rfl hfree

theorem Written.keeps {db db' : Db} {committed : Bool} (h : Written db db' committed)
    (hu : u ∈ db.users) : ∃ v ∈ db'.users, v.id = u.id := by
  cases h with
  | idle => exact ⟨u, hu, rfl⟩
  | @stored u' w _ _ _ =>
    have hids : u.id ∈ (storeRow db.users w).map User.id := by
      rw [storeRow_ids]
      exact List.mem_map_of_mem hu
    obtain ⟨v, hv, hid⟩ := List.mem_map.mp hids
    exact ⟨v, hv, hid⟩
  | inserted _ _ => exact ⟨u, List.mem_append_left _ hu, rfl⟩

theorem Written.keyed {db db' : Db} {committed : Bool} (h : Written db db' committed)
    (hkeyed : db.Keyed) : db'.Keyed := by
  cases h with
  | idle => exact hkeyed
  | stored hu hid hfree => exact hkeyed.store hu hid hfree
  | inserted hid hfree => exact hkeyed.insert hid hfree

theorem Written.unwritten {db db' : Db} (h : Written db db' false) : db' = db := by
  cases h
  rfl

/-! ## When a commit fails -/

theorem conflicts_iff : conflicts db.users w = true ↔ ∃ x ∈ db.users, Clash w x := by
  rw [← Bool.not_eq_false, conflicts_eq_false_iff]
  simp only [not_forall, not_not, exists_prop]

/-- What the copy did not change goes back as the row has it, and that clashes with nothing. -/
theorem conflicts_commitRow_iff (hkeyed : db.Keyed) (hcur : findById db.users base.id = some cur) :
    conflicts db.users (commitRow base v cur) = true ↔ ∃ x ∈ db.users, x.id ≠ base.id ∧
      ((v.googleSub ≠ base.googleSub ∧ ∃ s, v.googleSub = some s ∧ x.googleSub = some s) ∨
        (v.email ≠ base.email ∧ ∃ e, v.email = some e ∧ x.email = some e)) := by
  obtain ⟨hmem, hid⟩ := findById_some hcur
  have hw : (commitRow base v cur).id = base.id := hid
  rw [conflicts_iff]
  constructor
  · rintro ⟨x, hx, hne, hclash⟩
    rw [hw] at hne
    refine ⟨x, hx, hne, ?_⟩
    have hapart : ¬Clash cur x := hkeyed.unique cur hmem x hx
    rcases hclash with ⟨e, hwe, hxe⟩ | ⟨s, hws, hxs⟩
    · rcases writeBack_cases base.email v.email cur.email with ⟨-, hkept⟩ | ⟨hchanged, hnew⟩
      · exact absurd ⟨hid ▸ hne, Or.inl ⟨e, hkept.symm.trans hwe, hxe⟩⟩ hapart
      · exact Or.inr ⟨hchanged, e, hnew.symm.trans hwe, hxe⟩
    · rcases writeBack_cases base.googleSub v.googleSub cur.googleSub with
        ⟨-, hkept⟩ | ⟨hchanged, hnew⟩
      · exact absurd ⟨hid ▸ hne, Or.inr ⟨s, hkept.symm.trans hws, hxs⟩⟩ hapart
      · exact Or.inl ⟨hchanged, s, hnew.symm.trans hws, hxs⟩
  · rintro ⟨x, hx, hne, hclash⟩
    refine ⟨x, hx, hw ▸ hne, ?_⟩
    rcases hclash with ⟨hchanged, s, hs, hxs⟩ | ⟨hchanged, e, he, hxe⟩
    · exact Or.inr ⟨s, (writeBack_changed hchanged).trans hs, hxs⟩
    · exact Or.inl ⟨e, (writeBack_changed hchanged).trans he, hxe⟩

theorem refreshed_crashes {reply : Reply} (h : reply ≠ .serverError) :
    reply.refreshed w ≠ .serverError := by
  cases reply with
  | serverError => exact absurd rfl h
  | user p => exact fun hcrash => by cases hcrash
  | _ => exact h

theorem updateTurn_crashes_iff {mails : List Mail} {reply onConflict : Reply}
    (hreply : reply ≠ .serverError) (hcur : findById db.users base.id = some cur)
    (h : updateTurn db base v mails reply onConflict = some t) :
    t.reply = some .serverError ↔
      onConflict = .serverError ∧ conflicts db.users (commitRow base v cur) = true := by
  rw [updateTurn, hcur, Option.map_some] at h
  obtain rfl := Option.some.inj h
  dsimp only
  cases conflicts db.users (commitRow base v cur) with
  | true => simp [Turn.ends]
  | false =>
    refine ⟨fun hcrash => absurd (Option.some.inj hcrash) (refreshed_crashes hreply), ?_⟩
    rintro ⟨-, hfalse⟩
    cases hfalse

theorem updateTurn_loaded {mails : List Mail} {reply onConflict : Reply}
    (h : updateTurn db base v mails reply onConflict = some t) :
    ∃ cur, findById db.users base.id = some cur := by
  obtain ⟨cur, hcur, -⟩ := Option.map_eq_some_iff.mp h
  exact ⟨cur, hcur⟩

/-- A commit that keeps the address and the subject of the copy breaks no constraint. -/
theorem commitRow_kept (hkeyed : db.Keyed) (hcur : findById db.users base.id = some cur)
    (hsub : v.googleSub = base.googleSub) (hemail : v.email = base.email) :
    conflicts db.users (commitRow base v cur) = false := by
  rw [← Bool.not_eq_true, conflicts_commitRow_iff hkeyed hcur]
  rintro ⟨x, -, -, ⟨hchanged, -⟩ | ⟨hchanged, -⟩⟩
  · exact hchanged hsub
  · exact hchanged hemail

theorem verifyEmail_answers (d : Deps) (amb : Ambient) (taken : Text → Bool) (c : Cookie) (code : Code)
    (u : User) :
    (verifyEmail d amb taken c code u).reply ≠ .serverError ∧
      ∀ v, (verifyEmail d amb taken c code u).commit = some v → v.id = u.id ∧
        v.googleSub = u.googleSub ∧
        (v.email = u.email ∨ (verifyEmail d amb taken c code u).onConflict ≠ .serverError) ∧
        (verifyEmail d amb taken c code u).reply.refreshed v
          = (verifyEmail d amb taken c code u).reply := by
  unfold verifyEmail
  split
  next => exact ⟨(fun h => by cases h), (fun v h => by cases h)⟩
  next =>
    split
    next => exact ⟨(fun h => by cases h), (fun v h => by cases h)⟩
    next =>
      split
      next r hr =>
        obtain ⟨n, detail, rfl⟩ := checkCode_error hr
        exact ⟨(fun h => by cases h), (fun v h => by cases h)⟩
      next =>
        refine ⟨(fun h => by cases h), fun v hv => ?_⟩
        obtain rfl := Option.some.inj hv
        exact ⟨rfl, rfl, Or.inl rfl, rfl⟩
      next =>
        split
        next p hp =>
          split
          next =>
            refine ⟨(fun h => by cases h), fun v hv => ?_⟩
            obtain rfl := Option.some.inj hv
            exact ⟨rfl, rfl, Or.inl rfl, rfl⟩
          next =>
            refine ⟨(fun h => by cases h), fun v hv => ?_⟩
            obtain rfl := Option.some.inj hv
            exact ⟨rfl, rfl, Or.inr (fun h => by cases h), rfl⟩
        next =>
          refine ⟨(fun h => by cases h), fun v hv => ?_⟩
          obtain rfl := Option.some.inj hv
          exact ⟨rfl, rfl, Or.inl rfl, rfl⟩

theorem insertTurn_crashes_iff {next : Option Handler} {reply : Option Reply} {onConflict : Reply}
    (hreply : reply ≠ some .serverError) :
    (insertTurn db w next reply onConflict).reply = some .serverError ↔
      onConflict = .serverError ∧ conflicts db.users w = true := by
  unfold insertTurn
  cases conflicts db.users w with
  | true => simp [Turn.ends]
  | false => simp [hreply]

theorem assertGoogle_clashes_iff {sub : Text} {info : UserInfo} (hkeyed : db.Keyed)
    (hcur : findById db.users base.id = some cur) (linked : Bool) :
    conflicts db.users (commitRow base (assertGoogle sub info (if linked then voidPassword base
        else base)) cur) = true ↔ (Handler.asserting linked base sub info).Clashes db := by
  generalize hfound : (if linked then voidPassword base else base) = found
  have hemail : found.email = base.email := by
    rw [← hfound]
    split
    · exact voidPassword_email base
    · rfl
  have hnew : ∀ e, (((truthy info.email).or found.email ≠ base.email ∧
      (truthy info.email).or found.email = some e) ↔
        (truthy info.email = some e ∧ some e ≠ base.email)) := by
    intro e
    rw [hemail]
    cases truthy info.email with
    | none => simp
    | some e' =>
      simp only [Option.some_or, Option.some.injEq]
      constructor
      · rintro ⟨hne, rfl⟩
        exact ⟨rfl, hne⟩
      · rintro ⟨rfl, hne⟩
        exact ⟨hne, rfl⟩
  rw [conflicts_commitRow_iff hkeyed hcur]
  simp only [assertGoogle_googleSub, assertGoogle_email, Handler.Clashes]
  constructor
  · rintro ⟨x, hx, hne, ⟨hchanged, s, hs, hxs⟩ | ⟨hchanged, e, he, hxe⟩⟩
    · obtain rfl := Option.some.inj hs
      exact ⟨x, hx, hne, Or.inl ⟨hchanged, hxs⟩⟩
    · obtain ⟨hclaim, hother⟩ := (hnew e).mp ⟨hchanged, he⟩
      exact ⟨x, hx, hne, Or.inr ⟨e, hclaim, hother, hxe⟩⟩
  · rintro ⟨x, hx, hne, ⟨hchanged, hxs⟩ | ⟨e, hclaim, hother, hxe⟩⟩
    · exact ⟨x, hx, hne, Or.inl ⟨hchanged, sub, rfl, hxs⟩⟩
    · obtain ⟨hchanged, he⟩ := (hnew e).mpr ⟨hclaim, hother⟩
      exact ⟨x, hx, hne, Or.inr ⟨hchanged, e, he, hxe⟩⟩

theorem googleUser_clashes_iff {sub : Text} {info : UserInfo} (hkeyed : db.Keyed) :
    conflicts db.users (googleUser db.nextId sub info) = true ↔
      (Handler.creating sub info).Clashes db := by
  have hemail : ∀ e, (googleUser db.nextId sub info).email = some e ↔ truthy info.email = some e := by
    intro e
    simp [googleUser]
  rw [conflicts_iff]
  constructor
  · rintro ⟨x, hx, -, ⟨e, he, hxe⟩ | ⟨s, hs, hxs⟩⟩
    · exact ⟨x, hx, Or.inr ⟨e, (hemail e).mp he, hxe⟩⟩
    · obtain rfl : sub = s := Option.some.inj hs
      exact ⟨x, hx, Or.inl hxs⟩
  · rintro ⟨x, hx, hclash⟩
    have hne : x.id ≠ (googleUser db.nextId sub info).id := Nat.ne_of_lt (hkeyed.ids_lt x hx)
    refine ⟨x, hx, hne, ?_⟩
    rcases hclash with hxs | ⟨e, he, hxe⟩
    · exact Or.inr ⟨sub, rfl, hxs⟩
    · exact Or.inl ⟨e, (hemail e).mpr he, hxe⟩

/-! ## What one turn can do -/

/-- The row a handler has loaded, or committed. -/
def Handler.row : Handler → Option ℕ
  | .registered id => some id
  | .coding base => some base.id
  | .verifying _ base => some base.id
  | .confirming _ _ _ base => some base.id
  | .asserting _ base _ _ => some base.id
  | _ => none

def Present (db : Db) (h : Handler) : Prop := ∀ id, h.row = some id → ∃ u ∈ db.users, u.id = id

theorem present_none {h : Handler} (hrow : h.row = none) : Present db h := by
  intro id hid
  rw [hrow] at hid
  cases hid

theorem present_row {h : Handler} (hrow : h.row = some u.id) (hu : u ∈ db.users) : Present db h := by
  intro id hid
  rw [hrow] at hid
  exact ⟨u, hu, Option.some.inj hid⟩

theorem Present.kept {db db' : Db} {committed : Bool} {h : Handler} (hh : Present db h)
    (hwritten : Written db db' committed) : Present db' h := by
  intro id hid
  obtain ⟨u, hu, rfl⟩ := hh id hid
  exact hwritten.keeps hu

/-- A turn reads, answers, or commits; a broken constraint has no answer where the handler clashes. -/
inductive Turned (db : Db) : Handler → Turn → Prop
  | reads {h h' : Handler} : ¬h.Clashes db → (Present db h → Present db h') →
      Turned db h (Turn.goesOn db h')
  | answers {h : Handler} {r : Reply} : ¬h.Clashes db → r ≠ .serverError →
      Turned db h (Turn.ends db r)
  | updates {h : Handler} {base v : User} {mails : List Mail} {reply onConflict : Reply} {t : Turn} :
      updateTurn db base v mails reply onConflict = some t → reply ≠ .serverError →
      (∀ cur, findById db.users base.id = some cur →
        (onConflict = .serverError ∧ conflicts db.users (commitRow base v cur) = true
          ↔ h.Clashes db)) →
      Turned db h t
  | inserts {h : Handler} {w : User} {next : Option Handler} {reply : Option Reply}
      {onConflict : Reply} : w.id = db.nextId → reply ≠ some .serverError →
      (∀ h', next = some h' → h'.row = some w.id) →
      (onConflict = .serverError ∧ conflicts db.users w = true ↔ h.Clashes db) →
      Turned db h (insertTurn db w next reply onConflict)

theorem arrived_turned (amb : Ambient) (db : Db) (req : Incoming) :
    Turned db (.arrived req) (req.turn amb db) := by
  cases req with
  | register req hash =>
    simp only [Incoming.turn]
    split
    next => exact Turned.answers id (fun h => by cases h)
    next =>
      split
      next => exact Turned.answers id (fun h => by cases h)
      next => exact Turned.reads id fun _ => present_none rfl
  | verify userId code =>
    simp only [Incoming.turn]
    split
    next => exact Turned.answers id (fun h => by cases h)
    next u hu =>
      obtain ⟨id', -, hfind⟩ := Option.bind_eq_some_iff.mp hu
      exact Turned.reads id fun _ => present_row rfl (findById_some hfind).1
  | callback info =>
    cases info with
    | none => exact Turned.answers id (fun h => by cases h)
    | some info =>
      simp only [Incoming.turn]
      split
      next => exact Turned.answers id (fun h => by cases h)
      next =>
        split
        next u hu => exact Turned.reads id fun _ => present_row rfl (findBySub_some hu).1
        next => exact Turned.reads id fun _ => present_none rfl

/-- The inversion of one turn: one case for each place a handler can stand. -/
theorem turn_turned (hkeyed : db.Keyed) {h : Handler} (ht : h.turn d amb db = some t) :
    Turned db h t := by
  cases h with
  | arrived req =>
    obtain rfl := Option.some.inj ht
    exact arrived_turned amb db req
  | inserting req hash =>
    obtain rfl := Option.some.inj ht
    refine Turned.inserts rfl (by simp) (fun h' hnext => ?_) (iff_of_false (fun h => ?_) id)
    · obtain rfl := Option.some.inj hnext
      rfl
    · cases h.1
  | registered id =>
    obtain ⟨u, hu, rfl⟩ := Option.map_eq_some_iff.mp ht
    exact Turned.reads (fun h => h) fun _ => present_row rfl (findById_some hu).1
  | coding base =>
    simp only [Handler.turn] at ht
    split at ht
    next v m hissue =>
      obtain ⟨_, _, _, hv⟩ := issueVerification_some hissue
      refine Turned.updates ht (fun h => by cases h) fun cur hcur => iff_of_false (fun h => ?_) id
      rw [commitRow_kept hkeyed hcur (by rw [hv]) (by rw [hv])] at h
      cases h.2
    next =>
      obtain rfl := Option.some.inj ht
      exact Turned.answers id (fun h => by cases h)
  | verifying code base =>
    obtain rfl := Option.some.inj ht
    split
    next => exact Turned.answers id (verifyEmail_answers _ _ _ _ _ _).1
    next => exact Turned.reads id id
  | confirming checked taken code base =>
    obtain ⟨hreply, hcommit⟩ := verifyEmail_answers d checked (fun _ => taken) {} code base
    simp only [Handler.turn] at ht
    split at ht
    next =>
      obtain rfl := Option.some.inj ht
      exact Turned.answers id hreply
    next v hv =>
      obtain ⟨-, hsub, hemail, -⟩ := hcommit v hv
      refine Turned.updates ht hreply fun cur hcur => iff_of_false (fun h => ?_) id
      rcases hemail with hsame | hhandled
      · rw [commitRow_kept hkeyed hcur hsub hsame] at h
        cases h.2
      · exact hhandled h.1
  | finding sub info =>
    obtain rfl := Option.some.inj ht
    split
    next u hu =>
      obtain ⟨e, -, hfind⟩ := Option.bind_eq_some_iff.mp hu
      exact Turned.reads id fun _ => present_row rfl (findByEmail_some hfind).1
    next => exact Turned.reads id fun _ => present_none rfl
  | asserting linked base sub info =>
    refine Turned.updates ht (fun h => by cases h) fun cur hcur => ?_
    rw [assertGoogle_clashes_iff hkeyed hcur linked]
    exact and_iff_right rfl
  | creating sub info =>
    obtain rfl := Option.some.inj ht
    refine Turned.inserts rfl (by simp) (fun h' hnext => by cases hnext) ?_
    rw [googleUser_clashes_iff hkeyed]
    exact and_iff_right rfl

theorem Turned.written {h : Handler} (ht : Turned db h t) : Written db t.db t.committed := by
  cases ht with
  | reads _ _ => exact Written.idle
  | answers _ _ => exact Written.idle
  | updates hturn _ _ => exact updateTurn_written hturn
  | inserts hid _ _ _ => exact insertTurn_written hid

theorem Turned.crashes_iff {h : Handler} (ht : Turned db h t) :
    t.reply = some .serverError ↔ h.Clashes db := by
  cases ht with
  | reads hclear _ => exact iff_of_false (fun hcrash => by cases hcrash) hclear
  | answers hclear hr => exact iff_of_false (fun hcrash => hr (Option.some.inj hcrash)) hclear
  | updates hturn hreply hclash =>
    obtain ⟨cur, hcur⟩ := updateTurn_loaded hturn
    exact (updateTurn_crashes_iff hreply hcur hturn).trans (hclash cur hcur)
  | inserts _ hreply _ hclash => exact (insertTurn_crashes_iff hreply).trans hclash

theorem updateTurn_next {mails : List Mail} {reply onConflict : Reply}
    (h : updateTurn db base v mails reply onConflict = some t) : t.next = none := by
  obtain ⟨cur, -, rfl⟩ := Option.map_eq_some_iff.mp h
  dsimp only
  split
  · rfl
  · rfl

/-- What a handler goes on with, it has just read or written. -/
theorem Turned.present {h h' : Handler} (ht : Turned db h t) (hh : Present db h)
    (hnext : t.next = some h') : Present t.db h' := by
  cases ht with
  | reads _ hread =>
    obtain rfl := Option.some.inj hnext
    exact hread hh
  | answers _ _ => cases hnext
  | updates hturn _ _ =>
    rw [updateTurn_next hturn] at hnext
    cases hnext
  | @inserts w next reply onConflict hid _ hrow _ =>
    unfold insertTurn at hnext ⊢
    split at hnext
    next => cases hnext
    next hfree =>
      rw [if_neg hfree]
      exact present_row (hrow h' hnext) (List.mem_append_right _ (List.mem_singleton.mpr rfl))

/-! ## Progress -/

theorem findById_loaded {users : List User} {id : ℕ} (h : ∃ u ∈ users, u.id = id) :
    (findById users id).isSome = true := by
  obtain ⟨u, hu, rfl⟩ := h
  rw [findById, List.find?_isSome]
  exact ⟨u, hu, decide_eq_true rfl⟩

theorem updateTurn_isSome {mails : List Mail} {reply onConflict : Reply}
    (h : ∃ u ∈ db.users, u.id = base.id) :
    (updateTurn db base v mails reply onConflict).isSome = true := by
  rw [updateTurn, Option.isSome_map]
  exact findById_loaded h

/-- A handler whose row is there has a next turn. -/
theorem turn_isSome {h : Handler} (hh : Present db h) : (h.turn d amb db).isSome = true := by
  cases h with
  | arrived req => rfl
  | inserting req hash => rfl
  | registered id =>
    rw [Handler.turn, Option.isSome_map]
    exact findById_loaded (hh id rfl)
  | coding base =>
    simp only [Handler.turn]
    split
    next => exact updateTurn_isSome (hh base.id rfl)
    next => rfl
  | verifying code base => rfl
  | confirming checked taken code base =>
    simp only [Handler.turn]
    split
    next => rfl
    next => exact updateTurn_isSome (hh base.id rfl)
  | finding sub info => rfl
  | asserting linked base sub info => exact updateTurn_isSome (hh base.id rfl)
  | creating sub info => rfl

end Keyed

/-! ## A request alone -/

section Alone
variable {d amb db} {base v : User} {o : RowOutcome} {c : Cookie}

/-- A handler with nothing in between its turns: the table, the mails and the answer in the end. -/
def alone (d : Deps) (amb : Ambient) : ℕ → Db → Handler → Option (Db × List Mail × Reply)
  | 0, _, _ => none
  | n + 1, db, h => (h.turn d amb db).bind fun t =>
    match t.next with
    | some h' => alone d amb n t.db h'
    | none => t.reply.map fun r => (t.db, t.mails, r)

def Outcome.lasting (o : Outcome) : Db × List Mail × Reply := (o.db, o.mails, o.reply)

/-- A commit of the row as it was loaded is the one of the atomic endpoints. -/
theorem updateTurn_settle (hfind : findById db.users base.id = some base) (hid : v.id = base.id)
    (hcommit : o.commit = some v) (hreply : o.reply.refreshed v = o.reply) :
    ∃ t, updateTurn db base v o.mails o.reply o.onConflict = some t ∧ t.next = none ∧
      (t.reply.map fun r => (t.db, t.mails, r)) = some (settle db c o).lasting := by
  rw [updateTurn, hfind, Option.map_some, commitRow_alone hid, settle, hcommit]
  refine ⟨_, rfl, ?_⟩
  dsimp only
  rw [hreply]
  cases conflicts db.users v with
  | true => exact ⟨rfl, rfl⟩
  | false => exact ⟨rfl, rfl⟩

theorem alone_goesOn {h h' : Handler} {db' : Db} (ht : h.turn d amb db = some (Turn.goesOn db' h'))
    (n : ℕ) : alone d amb (n + 1) db h = alone d amb n db' h' := by
  rw [alone, ht]
  rfl

theorem alone_ends {h : Handler} {t : Turn} (ht : h.turn d amb db = some t) (hnext : t.next = none)
    (n : ℕ) : alone d amb (n + 1) db h = t.reply.map fun r => (t.db, t.mails, r) := by
  rw [alone, ht, Option.bind_some, hnext]

theorem callback_alone (hkeyed : db.Keyed) (info : Option UserInfo) :
    alone d amb 3 db (.arrived (.callback info)) = some (authCallback db c info).lasting := by
  have hupdate : ∀ (linked : Bool) (u : User) (sub : Text) (i : UserInfo) (n : ℕ), u ∈ db.users →
      alone d amb (n + 1) db (.asserting linked u sub i)
        = some (settle db c (googleOutcome c sub i (if linked then voidPassword u else u))).lasting := by
    intro linked u sub i n hu
    have hid : (assertGoogle sub i (if linked then voidPassword u else u)).id = u.id := by
      cases linked with
      | true => exact voidPassword_id u
      | false => rfl
    obtain ⟨t, ht, hnext, hlast⟩ := updateTurn_settle (c := c)
      (o := googleOutcome c sub i (if linked then voidPassword u else u)) (hkeyed.find hu rfl) hid rfl rfl
    have hturn : (Handler.asserting linked u sub i).turn d amb db = some t := ht
    exact (alone_ends hturn hnext n).trans hlast
  cases info with
  | none => rfl
  | some i =>
    cases hsub : truthy i.sub with
    | none => simp [alone, Handler.turn, Incoming.turn, authCallback, hsub, Turn.ends, Outcome.lasting]
    | some sub =>
      cases hfind : findBySub db.users sub with
      | some u =>
        have harrive : alone d amb 3 db (.arrived (.callback (some i)))
            = alone d amb 2 db (.asserting false u sub i) := by
          simp [alone, Handler.turn, Incoming.turn, hsub, hfind, Turn.goesOn]
        have hserved : authCallback db c (some i) = settle db c (googleOutcome c sub i u) := by
          simp only [authCallback, hsub, googleRow, hfind]
        rw [harrive, hserved]
        exact hupdate false u sub i 1 (findBySub_some hfind).1
      | none =>
        have harrive : alone d amb 3 db (.arrived (.callback (some i)))
            = alone d amb 2 db (.finding sub i) := by
          simp [alone, Handler.turn, Incoming.turn, hsub, hfind, Turn.goesOn]
        cases hfound : (truthy i.email).bind (findByEmail db.users) with
        | some u =>
          have hquery : alone d amb 2 db (.finding sub i)
              = alone d amb 1 db (.asserting true u sub i) := by
            simp [alone, Handler.turn, hfound, Turn.goesOn]
          have hserved : authCallback db c (some i)
              = settle db c (googleOutcome c sub i (voidPassword u)) := by
            simp only [authCallback, hsub, googleRow, hfind, hfound, Option.map_some]
          obtain ⟨e, -, hmem⟩ := Option.bind_eq_some_iff.mp hfound
          rw [harrive, hquery, hserved]
          exact hupdate true u sub i 0 (findByEmail_some hmem).1
        | none =>
          have hquery : alone d amb 2 db (.finding sub i) = alone d amb 1 db (.creating sub i) := by
            simp [alone, Handler.turn, hfound, Turn.goesOn]
          rw [harrive, hquery]
          simp only [alone, Handler.turn, insertTurn, Option.bind_some, authCallback, hsub, googleRow,
            hfind, hfound, Option.map_none]
          cases conflicts db.users (googleUser db.nextId sub i) with
          | true => rfl
          | false => rfl

theorem verifyEmail_reads (d : Deps) (amb : Ambient) (f : Text → Bool) (c : Cookie) (code : Code)
    (u : User) :
    verifyEmail d amb (fun _ => u.pendingEmail.any f) {} code u
      = { verifyEmail d amb f c code u with cookie := {} } := by
  unfold verifyEmail
  split
  · rfl
  · split
    · rfl
    · split
      · rfl
      · rfl
      · cases hpending : u.pendingEmail with
        | none => rfl
        | some p =>
          simp only [Option.any_some]
          split
          · rfl
          · rfl

theorem verify_alone (hkeyed : db.Keyed) (code : Code) :
    alone d amb 3 db (.arrived (.verify c.userId code))
      = some (handle d amb db c (.verify code)).lasting := by
  cases hid : c.userId with
  | none => simp [alone, Handler.turn, Incoming.turn, handle, withCurrentUser, hid, Turn.ends,
      Outcome.lasting]
  | some id =>
    cases hfind : findById db.users id with
    | none => simp [alone, Handler.turn, Incoming.turn, handle, withCurrentUser, hid, hfind, Turn.ends,
        Outcome.lasting]
    | some u =>
      obtain ⟨hmem, rfl⟩ := findById_some hfind
      have hserved : handle d amb db c (.verify code)
          = settle db c (verifyEmail d amb (emailTaken db.users u.id) c code u) := by
        simp only [handle, withCurrentUser, hid, hfind]
      have harrive : (Handler.arrived (.verify (some u.id) code)).turn d amb db
          = some (Turn.goesOn db (.verifying code u)) := by
        simp [Handler.turn, Incoming.turn, hfind]
      have hreads := verifyEmail_reads d amb (emailTaken db.users u.id) c code u
      have hmails : (verifyEmail d amb (emailTaken db.users u.id) c code u).mails = [] := verifyEmail_mails
      have hanswers := (verifyEmail_answers d amb (emailTaken db.users u.id) c code u).2
      rw [hserved, alone_goesOn harrive]
      generalize verifyEmail d amb (emailTaken db.users u.id) c code u = o at hreads hmails hanswers
      cases hcommit : o.commit with
      | none =>
        have hcheck : (Handler.verifying code u).turn d amb db = some (Turn.ends db o.reply) := by
          simp [Handler.turn, hreads, hcommit]
        rw [alone_ends hcheck rfl]
        simp only [settle, hcommit, Outcome.lasting, hmails]
        rfl
      | some v =>
        have hcheck : (Handler.verifying code u).turn d amb db
            = some (Turn.goesOn db (.confirming amb (u.pendingEmail.any (emailTaken db.users u.id))
                code u)) := by
          simp [Handler.turn, hreads, hcommit]
        obtain ⟨hid, -, -, hreply⟩ := hanswers v hcommit
        obtain ⟨t, ht, hnext, hlast⟩ := updateTurn_settle (c := c) (o := o) (hkeyed.find hmem rfl) hid
          hcommit hreply
        have hconfirm : (Handler.confirming amb (u.pendingEmail.any (emailTaken db.users u.id))
            code u).turn d amb db = some t := by
          simp only [Handler.turn, hreads, hcommit]
          exact ht
        rw [alone_goesOn hcheck, alone_ends hconfirm hnext, hlast]

theorem storeRow_inserted {u : User} (hok : db.Ok) (hu : u.id = db.nextId) (hv : v.id = db.nextId) :
    storeRow (insertRow db u).users v = (insertRow db v).users := by
  unfold storeRow insertRow
  rw [List.map_append, List.map_singleton, if_pos (hu.trans hv.symm)]
  have hold : db.users.map (fun x => if x.id = v.id then v else x) = db.users.map id := by
    apply List.map_congr_left
    intro x hx
    exact if_neg (by rw [hv]; exact Nat.ne_of_lt (hok.ids_lt x hx))
  rw [hold, List.map_id]

/-- The second transaction of `register`, right after the first. -/
theorem registered_alone {u : User} {m : Mail} (hkeyed : db.Keyed) (hid : u.id = db.nextId)
    (hfree : conflicts db.users u = false) (hissue : issueVerification d amb u = some (v, m)) :
    alone d amb 2 (insertRow db u) (.registered u.id)
      = some (insertRow db v, [m], .user (userPayload v)) := by
  obtain ⟨target, -, -, hv⟩ := issueVerification_some hissue
  have hkeyed' := hkeyed.insert hid hfree
  have hmem : u ∈ (insertRow db u).users := List.mem_append_right _ (List.mem_singleton.mpr rfl)
  have hfind : findById (insertRow db u).users u.id = some u := hkeyed'.find hmem rfl
  have hreload : (Handler.registered u.id).turn d amb (insertRow db u)
      = some (Turn.goesOn (insertRow db u) (.coding u)) := by
    simp only [Handler.turn, hfind, Option.map_some]
  have hvid : v.id = u.id := by rw [hv]
  have hcoded : conflicts (insertRow db u).users v = false :=
    hkeyed'.unique.no_conflict hmem hvid (by rw [hv]) (by rw [hv])
  have hstored : storeRow (insertRow db u).users v = (insertRow db v).users :=
    storeRow_inserted hkeyed.toOk hid (hvid.trans hid)
  have hcode : (Handler.coding u).turn d amb (insertRow db u) = some
      { db := insertRow db v, committed := true, mails := [m], reply := some (.user (userPayload v)) } := by
    simp only [Handler.turn, hissue, updateTurn, hfind, Option.map_some, commitRow_alone hvid, hcoded,
      hstored]
    rfl
  rw [alone_goesOn hreload, alone_ends hcode rfl]
  rfl

theorem register_alone (hkeyed : db.Keyed) {req : RegisterRequest} {hash : Text}
    (hhash : d.hashpw amb.salt req.password = some hash) :
    alone d amb 4 db (.arrived (.register req hash)) = some (register d amb db c req).lasting := by
  unfold register
  split
  next hrate =>
    simp [alone, Handler.turn, Incoming.turn, hrate, Turn.ends, Outcome.lasting, tooMany, refuse]
  next hrate =>
    split
    next hfound =>
      simp [alone, Handler.turn, Incoming.turn, hrate, hfound, Turn.ends, Outcome.lasting,
        registeredAlready]
    next hfound =>
      have harrive : (Handler.arrived (.register req hash)).turn d amb db
          = some (Turn.goesOn db (.inserting req hash)) := by
        simp [Handler.turn, Incoming.turn, hrate, hfound]
      obtain ⟨v, m, hissue⟩ := issueVerification_registered d amb db.nextId req hash
      rw [alone_goesOn harrive, hhash]
      dsimp only
      rw [hissue]
      cases hfree : conflicts db.users (registeredUser db.nextId req hash) with
      | true =>
        simp [alone, Handler.turn, insertTurn, hfree, Turn.ends, Outcome.lasting, registeredAlready]
      | false =>
        have hinsert : alone d amb 3 db (.inserting req hash)
            = alone d amb 2 (insertRow db (registeredUser db.nextId req hash))
                (.registered db.nextId) := by
          rw [alone]
          simp only [Handler.turn, insertTurn, hfree]
          rfl
        rw [hinsert]
        exact registered_alone hkeyed rfl hfree hissue

end Alone

/-! ## Every run -/

section Runs
variable {d} {s s' : Traffic} {m : TrafficMove} {out : Option Taken}

structure Traffic.Sound (s : Traffic) : Prop where
  keyed : s.db.Keyed
  loaded : ∀ h ∈ s.handlers, Present s.db h

/-- Every move but an arrival is one turn. -/
theorem race_cases (h : race d s m = some (s', out)) :
    (∃ req, s' = { s with handlers := s.handlers ++ [.arrived req] } ∧ out = none) ∨
      ∃ i amb handler t, s.handlers[i]? = some handler ∧ handler.turn d amb s.db = some t ∧
        s' = { db := t.db, handlers := t.next.elim (s.handlers.eraseIdx i) (s.handlers.set i) } ∧
        out = some ⟨s.db, handler, t⟩ := by
  cases m with
  | arrive req =>
    cases h
    exact Or.inl ⟨req, rfl, rfl⟩
  | turn i amb =>
    obtain ⟨handler, hi, hturn⟩ := Option.bind_eq_some_iff.mp h
    obtain ⟨t, ht, hsame⟩ := Option.map_eq_some_iff.mp hturn
    cases hsame
    exact Or.inr ⟨i, amb, handler, t, hi, ht, rfl, rfl⟩

theorem Traffic.Sound.step (hs : s.Sound) (h : race d s m = some (s', out)) : s'.Sound := by
  rcases race_cases h with ⟨req, rfl, -⟩ | ⟨i, amb, handler, t, hi, ht, rfl, -⟩
  · refine ⟨hs.keyed, fun h hh => ?_⟩
    rcases List.mem_append.mp hh with hold | hnew
    · exact hs.loaded h hold
    · rw [List.mem_singleton.mp hnew]
      exact present_none rfl
  · have hturned := turn_turned hs.keyed ht
    have hkept : ∀ h ∈ s.handlers, Present t.db h := fun h hh => (hs.loaded h hh).kept hturned.written
    refine ⟨hturned.written.keyed hs.keyed, fun h hh => ?_⟩
    cases hnext : t.next with
    | none =>
      rw [hnext] at hh
      exact hkept h (List.mem_of_mem_eraseIdx hh)
    | some handler' =>
      rw [hnext] at hh
      rcases List.mem_or_eq_of_mem_set hh with hold | rfl
      · exact hkept h hold
      · exact hturned.present (hs.loaded handler (List.mem_of_getElem? hi)) hnext

/-- A turn is handled unless it is the commit of a callback that clashes. -/
theorem taken_handled_iff (hs : s.Sound) {t : Taken} (h : race d s m = some (s', some t)) :
    t.Handled ↔ ¬t.handler.Clashes t.before := by
  rcases race_cases h with ⟨req, -, hnone⟩ | ⟨i, amb, handler, turn, -, ht, -, hout⟩
  · cases hnone
  · cases hout
    have hturned := turn_turned hs.keyed ht
    have hunwritten : turn.committed = false → turn.db = s.db := by
      intro hidle
      have hwritten := hturned.written
      rw [hidle] at hwritten
      exact hwritten.unwritten
    rw [← hturned.crashes_iff]
    exact and_iff_left hunwritten

/-- From every reachable table and in every interleaving, no two rows share an address or a subject, a
turn is handled exactly when it is no clashing commit of a callback, and no request gets stuck. -/
theorem collisions_answered_iff {past : History} {w : World}
    {es : List (TrafficMove × Option Taken)} (hw : Reached d Runs.anyStep past w)
    (hrun : Runs.Run (Runs.guarded Runs.anyStep (race d)) [] { db := w.db } es s) :
    s.db.Keyed ∧ (∀ l ∈ es, ∀ t, l.2 = some t → (t.Handled ↔ ¬t.handler.Clashes t.before)) ∧
      ∀ i < s.handlers.length, ∀ amb, (race d s (.turn i amb)).isSome = true := by
  have hstart : Traffic.Sound { db := w.db } := ⟨hw.keyed, fun h hh => absurd hh List.not_mem_nil⟩
  obtain ⟨hs, hturns⟩ := hrun.invariant_of_init
    (fun es s => s.Sound ∧ ∀ l ∈ es, ∀ t, l.2 = some t → (t.Handled ↔ ¬t.handler.Clashes t.before))
    (by
      rintro past s ⟨m, out⟩ s' ⟨hs, hturns⟩ ⟨-, hstep⟩
      refine ⟨hs.step hstep, fun l hl t hout => ?_⟩
      rcases List.mem_append.mp hl with hold | hnew
      · exact hturns l hold t hout
      · obtain rfl := List.mem_singleton.mp hnew
        obtain rfl : out = some t := hout
        exact taken_handled_iff hs hstep)
    ⟨hstart, fun l hl => absurd hl List.not_mem_nil⟩
  refine ⟨hs.keyed, hturns, fun i hi amb => ?_⟩
  have hhandler : s.handlers[i]? = some s.handlers[i] := List.getElem?_eq_getElem hi
  simp only [race, hhandler, Option.bind_some, Option.isSome_map]
  exact turn_isSome (hs.loaded _ (List.getElem_mem hi))

end Runs

/-! ## Two races -/

def raced (db : Db) (moves : List TrafficMove) : List (TrafficMove × Option Taken) × Traffic :=
  (Runs.replay Runs.anyStep (race transparent) [] { db := db } moves).getD ([], {})

/-- A registration and a callback look one address up before either commits. -/
def bothLookUp : List TrafficMove :=
  [.arrive (.register signUp signUpHash), .arrive (.callback (some userInfoA)), .turn 0 atStart,
    .turn 1 atStart, .turn 1 atStart, .turn 0 atStart, .turn 1 atStart]

theorem collisions_answered_iff_bothLookUp :
    (raced {} bothLookUp).2.db.Keyed ∧
      (∀ l ∈ (raced {} bothLookUp).1, ∀ t, l.2 = some t →
        (t.Handled ↔ ¬t.handler.Clashes t.before)) ∧
      ∀ i < (raced {} bothLookUp).2.handlers.length, ∀ amb,
        (race transparent (raced {} bothLookUp).2 (.turn i amb)).isSome = true := by
  have hw : Reached transparent Runs.anyStep [] {} := Runs.Run.refl
  have hrun := Runs.replay_getD_run Runs.anyStep (race transparent) [] { db := {} } bothLookUp ([], {})
    (by decide)
  exact collisions_answered_iff hw hrun

/-- One account by password, another one by Google under another address. -/
def twoAccounts : List Event :=
  [sends 1 {} (.register signUp),
    sends 2 {} (.callback (some { sub := some subject, email := some addressB }))]

/-- Google reports the first account's address for the second. -/
def addressMoves : List TrafficMove :=
  [.arrive (.callback (some userInfoA)), .turn 0 atStart, .turn 0 atStart]

theorem callback_collision_crashes : ¬∀ (d : Deps) (past : History) (w : World)
    (es : List (TrafficMove × Option Taken)) (s : Traffic), Reached d Runs.anyStep past w →
      Runs.Run (Runs.guarded Runs.anyStep (race d)) [] { db := w.db } es s →
      ∀ l ∈ es, ∀ t, l.2 = some t → t.Handled := by
  intro h
  have hw : Reached transparent Runs.anyStep (played transparent Runs.anyStep ([], {}) twoAccounts).1
      (played transparent Runs.anyStep ([], {}) twoAccounts).2 :=
    played_run ([], {}) twoAccounts (by decide)
  have hrun := Runs.replay_getD_run Runs.anyStep (race transparent) []
    { db := (played transparent Runs.anyStep ([], {}) twoAccounts).2.db } addressMoves ([], {}) (by decide)
  have hlast : ∃ l ∈ (raced (played transparent Runs.anyStep ([], {}) twoAccounts).2.db addressMoves).1,
      ∃ t ∈ l.2, t.turn.reply = some .serverError := by decide
  obtain ⟨l, hl, t, ht, hcrash⟩ := hlast
  exact (h _ _ _ _ _ hw hrun l hl t ht).1 hcrash

end WarsawEvents.Accounts
