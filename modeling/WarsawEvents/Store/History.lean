import WarsawEvents.Store.Erasure
import Mathlib.Data.Sym.Sym2

/-! # The database is the history of what was acknowledged

`Social` is what the social endpoints are for, with no rows in it: who has asked whom, who are friends,
what is on a user's shelf, and when a user was last seen. Its `next` reads a request and its answer.
`view` finds it in the tables, and `view_eq_history` says that no state of the tables shows anything
else: an answered request has its effect, at once, once, and no other.
-/

namespace WarsawEvents.Store
set_option autoImplicit false

open RowSecurity
open Friends (between newRow acceptRow OnePerPair)
open Accounts (Profiles ProfileEvent ProfileReply Cookie Deps Imaging)

/-! ## What the endpoints are for -/

structure Social where
  asks : Set (ℕ × ℕ)
  friends : Set (Sym2 ℕ)
  shelf : ℕ → Set ℕ
  seen : ℕ → Option ℕ

namespace Social

def nobody : Social where
  asks := ∅
  friends := ∅
  shelf _ := ∅
  seen _ := none

variable (w : Social)

def ask (me userId : ℕ) : Social := { w with asks := insert (me, userId) w.asks }

def befriend (asker me : ℕ) : Social :=
  { w with asks := w.asks \ {(asker, me)}, friends := insert s(asker, me) w.friends }

def decline (asker me : ℕ) : Social := { w with asks := w.asks \ {(asker, me)} }

def unfriend (me userId : ℕ) : Social :=
  { w with asks := w.asks \ {(me, userId), (userId, me)}, friends := w.friends \ {s(me, userId)} }

def save (me itemId : ℕ) : Social :=
  { w with shelf := Function.update w.shelf me (insert itemId (w.shelf me)) }

def unsave (me itemId : ℕ) : Social :=
  { w with shelf := Function.update w.shelf me (w.shelf me \ {itemId}) }

def ping (me now : ℕ) : Social := { w with seen := Function.update w.seen me (some now) }

def forget (me : ℕ) : Social where
  asks := {p | p ∈ w.asks ∧ p.1 ≠ me ∧ p.2 ≠ me}
  friends := {z | z ∈ w.friends ∧ me ∉ z}
  shelf := Function.update w.shelf me ∅
  seen := Function.update w.seen me none

/-- What an acknowledged request of `me` does. -/
def acted (now me : ℕ) (r : Response) : Call → Social
  | .sendRequest userId => if r = .status "friends" then w.befriend userId me else w.ask me userId
  | .acceptRequest userId => w.befriend userId me
  | .declineRequest userId => w.decline userId me
  | .removeFriend userId => w.unfriend me userId
  | .heartbeat => w.ping me now
  | .saveItem itemId => w.save me itemId
  | .unsaveItem itemId => w.unsave me itemId
  | .deleteMe _ => w.forget me
  | _ => w

/-- A request with its answer. -/
def next : Move × Answer → Social
  | (.social env _ _ c call, .social r) =>
    match c.userId with
    | none => w
    | some me => if acknowledged r then w.acted env.now me r call else w
  | (.profile _ _ (.account ev), .profile (.account r)) =>
    match ev.cookie.userId, ev.request with
    | some me, .deleteMe _ => if r = .status "deleted" then w.forget me else w
    | _, _ => w
  | _ => w

end Social

/-! ## The tables, seen so -/

def askedIn (rows : List Friendship) : Set (ℕ × ℕ) :=
  {p | ∃ f ∈ rows, f.status = .pending ∧ (f.requesterId, f.addresseeId) = p}

def friendsIn (rows : List Friendship) : Set (Sym2 ℕ) :=
  {z | ∃ f ∈ rows, f.status = .accepted ∧ s(f.requesterId, f.addresseeId) = z}

def shelfIn (rows : List SavedItem) (me : ℕ) : Set ℕ := {i | ∃ s ∈ rows, s.userId = me ∧ s.itemId = i}

def view (db : Db) : Social where
  asks := askedIn db.friendships
  friends := friendsIn db.friendships
  shelf := shelfIn db.savedItems
  seen := lastSeenOf db.users

section Rows
variable {rows : List Friendship} {f g : Friendship} {me userId id : ℕ}

/-! ### Friendships -/

theorem status_cases (f : Friendship) : f.status = .pending ∨ f.status = .accepted := by
  cases f.status with
  | pending => exact .inl rfl
  | accepted => exact .inr rfl

theorem askedIn_append (now : ℕ) :
    askedIn (rows ++ [newRow now me userId id]) = insert (me, userId) (askedIn rows) := by
  ext p
  simp only [askedIn, Set.mem_ofPred_eq, Set.mem_insert_iff, List.mem_append, List.mem_singleton]
  constructor
  · rintro ⟨f, hf | rfl, hstatus, rfl⟩
    · exact .inr ⟨f, hf, hstatus, rfl⟩
    · exact .inl rfl
  · rintro (rfl | ⟨f, hf, hstatus, rfl⟩)
    · exact ⟨_, .inr rfl, rfl, rfl⟩
    · exact ⟨f, .inl hf, hstatus, rfl⟩

theorem friendsIn_append (now : ℕ) : friendsIn (rows ++ [newRow now me userId id]) = friendsIn rows := by
  ext z
  simp only [friendsIn, Set.mem_ofPred_eq, List.mem_append, List.mem_singleton]
  constructor
  · rintro ⟨f, hf | rfl, hstatus, rfl⟩
    · exact ⟨f, hf, hstatus, rfl⟩
    · cases hstatus
  · rintro ⟨f, hf, hstatus, rfl⟩
    exact ⟨f, .inl hf, hstatus, rfl⟩

/-- The row of a pair is the only one with its id and the only one of its pair. -/
theorem askedIn_acceptRow (hkeys : (rows.map Friendship.id).Nodup) (hone : OnePerPair rows)
    (hf : f ∈ rows) : askedIn (acceptRow rows f.id) = askedIn rows \ {(f.requesterId, f.addresseeId)} := by
  ext p
  simp only [askedIn, acceptRow, Set.mem_ofPred_eq, Set.mem_sdiff, Set.mem_singleton_iff, List.mem_map]
  constructor
  · rintro ⟨_, ⟨g, hg, rfl⟩, hstatus, rfl⟩
    split at hstatus
    · cases hstatus
    · next hid =>
      rw [if_neg hid]
      refine ⟨⟨g, hg, hstatus, rfl⟩, ?_⟩
      intro hsame
      obtain ⟨hreq, haddr⟩ := Prod.mk.inj hsame
      apply hid
      rw [hone.eq hf hg (a := f.requesterId) (b := f.addresseeId) (by simp [between])
        (by simp [between, hreq, haddr])]
  · rintro ⟨⟨g, hg, hstatus, rfl⟩, hother⟩
    have hid : ¬ g.id = f.id := by
      intro hid
      apply hother
      rw [List.inj_on_of_nodup_map hkeys hg hf hid]
    exact ⟨g, ⟨g, hg, if_neg hid⟩, hstatus, rfl⟩

theorem friendsIn_acceptRow (hkeys : (rows.map Friendship.id).Nodup) (hf : f ∈ rows) :
    friendsIn (acceptRow rows f.id) = insert s(f.requesterId, f.addresseeId) (friendsIn rows) := by
  ext z
  simp only [friendsIn, acceptRow, Set.mem_ofPred_eq, Set.mem_insert_iff, List.mem_map]
  constructor
  · rintro ⟨_, ⟨g, hg, rfl⟩, hstatus, rfl⟩
    split at hstatus
    · next hid =>
      left
      rw [if_pos hid, List.inj_on_of_nodup_map hkeys hg hf hid]
    · next hid =>
      right
      exact ⟨g, hg, hstatus, by rw [if_neg hid]⟩
  · rintro (rfl | ⟨g, hg, hstatus, rfl⟩)
    · exact ⟨_, ⟨f, hf, if_pos rfl⟩, rfl, rfl⟩
    · refine ⟨_, ⟨g, hg, rfl⟩, ?_, ?_⟩
      · split
        · rfl
        · exact hstatus
      · split <;> rfl

theorem askedIn_filter (p : Friendship → Bool) :
    askedIn (rows.filter p) = {q | ∃ f ∈ rows, p f = true ∧ f.status = .pending ∧
      (f.requesterId, f.addresseeId) = q} := by
  ext q
  simp only [askedIn, Set.mem_ofPred_eq, List.mem_filter, and_assoc]

theorem friendsIn_filter (p : Friendship → Bool) :
    friendsIn (rows.filter p) = {z | ∃ f ∈ rows, p f = true ∧ f.status = .accepted ∧
      s(f.requesterId, f.addresseeId) = z} := by
  ext q
  simp only [friendsIn, Set.mem_ofPred_eq, List.mem_filter, and_assoc]

/-- Rows are dropped by what they say. -/
theorem askedIn_dropped {p : Friendship → Bool} {gone : Set (ℕ × ℕ)}
    (hp : ∀ f ∈ rows, f.status = .pending → (p f = true ↔ (f.requesterId, f.addresseeId) ∉ gone)) :
    askedIn (rows.filter p) = askedIn rows \ gone := by
  rw [askedIn_filter]
  ext q
  simp only [askedIn, Set.mem_ofPred_eq, Set.mem_sdiff]
  constructor
  · rintro ⟨f, hf, hkept, hstatus, rfl⟩
    exact ⟨⟨f, hf, hstatus, rfl⟩, (hp f hf hstatus).mp hkept⟩
  · rintro ⟨⟨f, hf, hstatus, rfl⟩, hkept⟩
    exact ⟨f, hf, (hp f hf hstatus).mpr hkept, hstatus, rfl⟩

theorem friendsIn_dropped {p : Friendship → Bool} {gone : Set (Sym2 ℕ)}
    (hp : ∀ f ∈ rows, f.status = .accepted → (p f = true ↔ s(f.requesterId, f.addresseeId) ∉ gone)) :
    friendsIn (rows.filter p) = friendsIn rows \ gone := by
  rw [friendsIn_filter]
  ext z
  simp only [friendsIn, Set.mem_ofPred_eq, Set.mem_sdiff]
  constructor
  · rintro ⟨f, hf, hkept, hstatus, rfl⟩
    exact ⟨⟨f, hf, hstatus, rfl⟩, (hp f hf hstatus).mp hkept⟩
  · rintro ⟨⟨f, hf, hstatus, rfl⟩, hkept⟩
    exact ⟨f, hf, (hp f hf hstatus).mpr hkept, hstatus, rfl⟩

/-! ### Shelves and presence -/

variable {saved : List SavedItem} {people : List Person} {itemId : ℕ}

theorem mem_shelfIn {other : ℕ} :
    itemId ∈ shelfIn saved other ↔ ∃ s ∈ saved, s.userId = other ∧ s.itemId = itemId := Iff.rfl

theorem shelfIn_append (env : Env) :
    shelfIn (saved ++ [savedRow env me itemId]) =
      Function.update (shelfIn saved) me (insert itemId (shelfIn saved me)) := by
  funext other
  ext i
  by_cases hother : other = me
  · subst hother
    simp only [Function.update_self, Set.mem_insert_iff, mem_shelfIn, List.mem_append,
      List.mem_singleton]
    constructor
    · rintro ⟨s, hs | rfl, huser, hitem⟩
      · exact .inr ⟨s, hs, huser, hitem⟩
      · exact .inl hitem.symm
    · rintro (rfl | ⟨s, hs, huser, hitem⟩)
      · exact ⟨_, .inr rfl, rfl, rfl⟩
      · exact ⟨s, .inl hs, huser, hitem⟩
  · rw [Function.update_of_ne hother]
    simp only [mem_shelfIn, List.mem_append, List.mem_singleton]
    constructor
    · rintro ⟨s, hs | rfl, huser, hitem⟩
      · exact ⟨s, hs, huser, hitem⟩
      · exact absurd huser.symm hother
    · rintro ⟨s, hs, huser, hitem⟩
      exact ⟨s, .inl hs, huser, hitem⟩

theorem shelfIn_again (hthere : itemId ∈ shelfIn saved me) :
    Function.update (shelfIn saved) me (insert itemId (shelfIn saved me)) = shelfIn saved := by
  rw [Set.insert_eq_of_mem hthere, Function.update_eq_self]

theorem shelfIn_filter (p : SavedItem → Bool) (other : ℕ) :
    shelfIn (saved.filter p) other = {i | ∃ s ∈ saved, p s = true ∧ s.userId = other ∧ s.itemId = i} := by
  ext i
  simp only [mem_shelfIn, List.mem_filter, and_assoc, Set.mem_ofPred_eq]

theorem shelfIn_unsaved (me itemId : ℕ) :
    shelfIn (saved.filter fun s => !(s.userId = me && s.itemId = itemId)) =
      Function.update (shelfIn saved) me (shelfIn saved me \ {itemId}) := by
  funext other
  rw [shelfIn_filter]
  ext i
  by_cases hother : other = me
  · subst hother
    simp only [Function.update_self, Set.mem_sdiff, Set.mem_singleton_iff, mem_shelfIn,
      Set.mem_ofPred_eq, Bool.not_eq_true', Bool.and_eq_false_iff, decide_eq_false_iff_not]
    constructor
    · rintro ⟨s, hs, hkept, huser, rfl⟩
      exact ⟨⟨s, hs, huser, rfl⟩, hkept.resolve_left fun hne => hne huser⟩
    · rintro ⟨⟨s, hs, huser, rfl⟩, hne⟩
      exact ⟨s, hs, .inr hne, huser, rfl⟩
  · rw [Function.update_of_ne hother]
    simp only [mem_shelfIn, Set.mem_ofPred_eq, Bool.not_eq_true', Bool.and_eq_false_iff,
      decide_eq_false_iff_not]
    constructor
    · rintro ⟨s, hs, _, huser, hitem⟩
      exact ⟨s, hs, huser, hitem⟩
    · rintro ⟨s, hs, rfl, hitem⟩
      exact ⟨s, hs, .inl hother, rfl, hitem⟩

theorem shelfIn_forgotten (me : ℕ) :
    shelfIn (saved.filter fun s => s.userId ≠ me) = Function.update (shelfIn saved) me ∅ := by
  funext other
  rw [shelfIn_filter]
  ext i
  by_cases hother : other = me
  · subst hother
    simp only [Function.update_self, Set.mem_empty_iff_false, iff_false, Set.mem_ofPred_eq]
    rintro ⟨s, _, hkept, huser, _⟩
    exact of_decide_eq_true hkept huser
  · rw [Function.update_of_ne hother]
    simp only [mem_shelfIn, Set.mem_ofPred_eq, ne_eq, decide_not, Bool.not_eq_true',
      decide_eq_false_iff_not]
    constructor
    · rintro ⟨s, hs, _, huser, hitem⟩
      exact ⟨s, hs, huser, hitem⟩
    · rintro ⟨s, hs, rfl, hitem⟩
      exact ⟨s, hs, hother, rfl, hitem⟩

theorem find?_pinged (now : ℕ) : (people.map fun u =>
      if u.id = me then { u with lastSeenAt := some now } else u).find? (fun p => p.id = id) =
    (people.find? fun p => p.id = id).map fun u =>
      if u.id = me then { u with lastSeenAt := some now } else u := by
  rw [List.find?_map]
  congr 2
  funext u
  simp only [Function.comp]
  split <;> rfl

theorem lastSeenOf_pinged (hme : (people.any fun u => u.id = me) = true) (now : ℕ) :
    lastSeenOf (people.map fun u => if u.id = me then { u with lastSeenAt := some now } else u) =
      Function.update (lastSeenOf people) me (some now) := by
  funext id
  unfold lastSeenOf
  rw [find?_pinged]
  by_cases hid : id = me
  · subst hid
    rw [Function.update_self]
    cases hfind : people.find? fun p => p.id = id with
    | none =>
      obtain ⟨u, hu, hkey⟩ := List.any_eq_true.mp hme
      exact absurd hkey (List.find?_eq_none.mp hfind u hu)
    | some u =>
      have hkey := List.find?_some hfind
      simp only [Option.map_some, Option.bind_some]
      rw [if_pos (of_decide_eq_true hkey)]
  · rw [Function.update_of_ne hid]
    cases hfind : people.find? fun p => p.id = id with
    | none => rfl
    | some u =>
      have hkey : u.id = id := by simpa using List.find?_some hfind
      simp only [Option.map_some, Option.bind_some]
      rw [if_neg (by omega)]

theorem lastSeenOf_forgotten (me : ℕ) :
    lastSeenOf (people.filter fun u => u.id ≠ me) = Function.update (lastSeenOf people) me none := by
  funext id
  unfold lastSeenOf
  by_cases hid : id = me
  · subst hid
    rw [Function.update_self]
    have hnone : (people.filter fun u => u.id ≠ id).find? (fun p => p.id = id) = none := by
      rw [List.find?_eq_none]
      intro u hu hkey
      exact of_decide_eq_true (List.mem_filter.mp hu).2 (of_decide_eq_true hkey)
    rw [hnone]
    rfl
  · rw [Function.update_of_ne hid, List.find?_filter]
    congr 2
    funext u
    by_cases hu : u.id = id
    · simp [hu, hid]
    · simp [hu]

end Rows

/-! ## One request -/

variable {env : Env} {db db' : Db} {me userId : ℕ} {role : Role} {call : Call} {r : Response}

theorem view_declined (db : Db) (me userId : ℕ) :
    view { db with friendships := db.friendships.filter fun f => !Friendship.requestFrom userId me f } =
      (view db).decline userId me := by
  have hasks : askedIn (db.friendships.filter fun f => !Friendship.requestFrom userId me f) =
      askedIn db.friendships \ {(userId, me)} := by
    refine askedIn_dropped fun f _ hpending => ?_
    simp [Friendship.requestFrom, hpending, imp_iff_not_or]
  have hfriends : friendsIn (db.friendships.filter fun f => !Friendship.requestFrom userId me f) =
      friendsIn db.friendships \ ∅ := by
    refine friendsIn_dropped fun f _ haccepted => ?_
    simp [Friendship.requestFrom, haccepted]
  unfold view Social.decline
  simp only [hasks, hfriends, Set.sdiff_empty]

theorem view_removed (db : Db) (me userId : ℕ) :
    view { db with friendships := db.friendships.filter fun f => !between me userId f } =
      (view db).unfriend me userId := by
  have hasks : askedIn (db.friendships.filter fun f => !between me userId f) =
      askedIn db.friendships \ {(me, userId), (userId, me)} := by
    refine askedIn_dropped fun f _ _ => ?_
    simp [between]
    tauto
  have hfriends : friendsIn (db.friendships.filter fun f => !between me userId f) =
      friendsIn db.friendships \ {s(me, userId)} := by
    refine friendsIn_dropped fun f _ _ => ?_
    simp [between]
    tauto
  unfold view Social.unfriend
  simp only [hasks, hfriends]

/-- Without an account: what is dropped is what names it. -/
theorem view_forgotten {rows : List Friendship} (me : ℕ) :
    askedIn (rows.filter fun f => f.requesterId ≠ me && f.addresseeId ≠ me) =
        {p | p ∈ askedIn rows ∧ p.1 ≠ me ∧ p.2 ≠ me} ∧
      friendsIn (rows.filter fun f => f.requesterId ≠ me && f.addresseeId ≠ me) =
        {z | z ∈ friendsIn rows ∧ me ∉ z} := by
  constructor
  · rw [askedIn_filter]
    ext p
    simp only [askedIn, Set.mem_ofPred_eq, Bool.and_eq_true, decide_eq_true_eq]
    constructor
    · rintro ⟨f, hf, hends, hstatus, rfl⟩
      exact ⟨⟨f, hf, hstatus, rfl⟩, hends⟩
    · rintro ⟨⟨f, hf, hstatus, rfl⟩, hends⟩
      exact ⟨f, hf, hends, hstatus, rfl⟩
  · rw [friendsIn_filter]
    ext z
    simp only [friendsIn, Set.mem_ofPred_eq, Bool.and_eq_true, decide_eq_true_eq]
    constructor
    · rintro ⟨f, hf, hends, hstatus, rfl⟩
      refine ⟨⟨f, hf, hstatus, rfl⟩, ?_⟩
      rw [Sym2.mem_iff]
      rintro (hme | hme)
      · exact hends.1 hme.symm
      · exact hends.2 hme.symm
    · rintro ⟨⟨f, hf, hstatus, rfl⟩, hends⟩
      rw [Sym2.mem_iff, not_or] at hends
      exact ⟨f, hf, ⟨fun h => hends.1 h.symm, fun h => hends.2 h.symm⟩, hstatus, rfl⟩

/-- A request has the effect it acknowledges. -/
theorem Effect.view_eq (h : Intact db) (heffect : Effect env db me call r db') :
    view db' = if acknowledged r then (view db).acted env.now me r call else view db := by
  cases heffect with
  | kept hkept =>
    obtain hreads | hrefused := hkept
    · split_ifs
      · cases call with
        | _ => first | rfl | cases hreads
      · rfl
    · rw [hrefused]
      rfl
  | requested _ _ _ =>
    show view _ = (view db).ask me _
    unfold view Social.ask
    simp only [askedIn_append, friendsIn_append]
  | @accepted _ f hcall hf hme _ =>
    subst hme
    have hkeys : (db.friendships.map Friendship.id).Nodup := h.friendRows.keys
    have hview : view { db with friendships := acceptRow db.friendships f.id } =
        (view db).befriend f.requesterId f.addresseeId := by
      unfold view Social.befriend
      simp only [askedIn_acceptRow hkeys h.onePerPair hf, friendsIn_acceptRow hkeys hf]
    rw [hview]
    obtain rfl | rfl := hcall <;> rfl
  | declined => exact view_declined db me _
  | removed => exact view_removed db me _
  | shared _ _ _ => rfl
  | sharedBefore _ _ => rfl
  | dismissed => rfl
  | pinged hme =>
    show view _ = (view db).ping me env.now
    unfold view Social.ping
    simp only [lastSeenOf_pinged hme]
  | saved _ _ =>
    show view _ = (view db).save me _
    unfold view Social.save
    simp only [shelfIn_append]
  | savedBefore hclash =>
    show view _ = (view db).save me _
    unfold view Social.save
    obtain ⟨s, hs, hsame⟩ := List.any_eq_true.mp hclash
    simp only [savedItems, savedRow, Bool.and_eq_true, decide_eq_true_eq] at hsame
    simp only [shelfIn_again ⟨s, hs, hsame.1.symm, hsame.2.symm⟩]
  | unsaved =>
    show view _ = (view db).unsave me _
    unfold view Social.unsave
    simp only [shelfIn_unsaved]
  | uploaded _ _ _ _ =>
    split_ifs <;> rfl
  | fileDeleted _ _ => rfl
  | accountDeleted =>
    show view _ = (view db).forget me
    unfold view Social.forget withoutAccount
    simp only [(view_forgotten me).1, (view_forgotten me).2, shelfIn_forgotten, lastSeenOf_forgotten]

/-! ## One step of the site -/

section Profiles
variable {d : Deps} {im : Imaging} {p p' : Profiles} {ev : ProfileEvent} {reply : ProfileReply}

theorem mem_ids_insertRow {users : List Accounts.User} {n : ℕ} {v : Accounts.User} {id : ℕ}
    (h : ∃ u ∈ users, u.id = id) :
    ∃ u ∈ (Accounts.insertRow { users := users, nextId := n } v).users, u.id = id := by
  obtain ⟨u, hu, hid⟩ := h
  exact ⟨u, List.mem_append_left _ hu, hid⟩

/-- An account is lost only in the request that deletes it. -/
theorem serveProfile_keeps (hstep : Accounts.serveProfile d im p ev = some (p', reply)) {id : ℕ}
    (hid : ∃ u ∈ p.world.db.users, u.id = id) :
    (∃ u ∈ p'.world.db.users, u.id = id) ∨ Erases id (.profile d im ev, .profile reply) := by
  have hrelinked : ∀ c users', Accounts.Relinked p.world.db.users c users' →
      ∃ u ∈ users', u.id = id := by
    rintro c users' (rfl | ⟨v, link, _, _, rfl⟩)
    · exact hid
    · exact mem_ids_storeRow.mpr hid
  cases ev with
  | account e =>
    obtain ⟨⟨w, r⟩, hserve, hp⟩ := Option.map_eq_some_iff.mp hstep
    cases hp
    obtain ⟨o, hserved, _, hdb, _, hreply⟩ := Accounts.serve_some hserve
    simp only
    rw [hdb]
    subst hreply
    generalize hrequest : e.request = request at hserved
    cases hserved with
    | idle _ => exact .inl hid
    | @row _ u out _ =>
      left
      obtain hsame | ⟨v, _, _, hset⟩ := Accounts.settle_cases p.world.db e.cookie out
      · rw [hsame]
        exact hid
      · rw [hset]
        exact mem_ids_storeRow.mpr hid
    | googleInsert _ _ _ => exact .inl (mem_ids_insertRow hid)
    | registerInsert _ _ => exact .inl (mem_ids_insertRow hid)
    | @erase currentPassword u hu hc _ =>
      by_cases hsame : u.id = id
      · subst hsame
        exact .inr (Erases.account hc hrequest)
      · obtain ⟨v, hv, hvid⟩ := hid
        left
        exact ⟨v, Accounts.mem_eraseRow.mpr ⟨hv, fun h => hsame (h.symm.trans hvid)⟩, hvid⟩
  | upload browser c now raw =>
    rw [(Accounts.Profiles.answer_some hstep).1]
    exact .inl (hrelinked c _ Accounts.uploadAvatar_relinked)
  | removeAvatar browser c =>
    rw [(Accounts.Profiles.answer_some hstep).1]
    exact .inl (hrelinked c _ Accounts.deleteAvatar_relinked)

theorem lastSeenOf_withProfiles (db : Db) (p : Profiles) (id : ℕ) :
    lastSeenOf (withProfiles db p).users id = if knows p id then lastSeenOf db.users id else none := by
  have hfind : (withProfiles db p).users.find? (fun u => u.id = id) =
      (p.world.db.users.find? fun u => u.id = id).map fun u =>
        { toUser := u, lastSeenAt := lastSeenOf db.users u.id } := by
    unfold withProfiles
    rw [List.find?_map]
    rfl
  have hknows : knows p id = (p.world.db.users.find? fun u => u.id = id).isSome := by
    rw [Bool.eq_iff_iff, List.find?_isSome, knows, List.any_eq_true]
  have hunfold : lastSeenOf (withProfiles db p).users id =
      ((withProfiles db p).users.find? fun u => u.id = id).bind Person.lastSeenAt := rfl
  rw [hunfold, hfind, hknows]
  cases hu : p.world.db.users.find? fun u => u.id = id with
  | none => rfl
  | some u =>
    have hid : u.id = id := by simpa using List.find?_some hu
    subst hid
    rfl

theorem lastSeenOf_none {id : ℕ} (h : db.hasUser id = false) : lastSeenOf db.users id = none := by
  have hnone : db.users.find? (fun u => u.id = id) = none :=
    List.find?_eq_none.mpr fun u hu => List.any_eq_false.mp h u hu
  unfold lastSeenOf
  rw [hnone]
  rfl

/-- No account is lost. -/
theorem view_withProfiles (h : Intact db)
    (hkept : ∀ id, db.hasUser id = true → knows p id = true) : view (withProfiles db p) = view db := by
  have hfriends : (withProfiles db p).friendships = db.friendships := by
    refine List.filter_eq_self.mpr fun f hf => ?_
    have hfits := h.friendRows.fits f hf
    simp only [friendships, Bool.and_eq_true] at hfits ⊢
    exact ⟨hkept _ hfits.1, hkept _ hfits.2⟩
  have hsaved : (withProfiles db p).savedItems = db.savedItems := by
    refine List.filter_eq_self.mpr fun s hs => ?_
    have hfits := h.savedRows.fits s hs
    simp only [savedItems, Bool.and_eq_true] at hfits
    exact hkept _ hfits.1
  have hseen : lastSeenOf (withProfiles db p).users = lastSeenOf db.users := by
    funext id
    rw [lastSeenOf_withProfiles]
    split_ifs with hknown
    · rfl
    · refine (lastSeenOf_none (Bool.eq_false_of_not_eq_true fun hid => ?_)).symm
      exact hknown (hkept id hid)
  unfold view
  rw [hfriends, hsaved, hseen]

/-- One account is lost. -/
theorem view_withProfiles_erased (h : Intact db)
    (hrest : ∀ id, db.hasUser id = true → knows p id = decide (id ≠ me)) (hgone : knows p me = false) :
    view (withProfiles db p) = (view db).forget me := by
  have hfriends : (withProfiles db p).friendships =
      db.friendships.filter fun f => f.requesterId ≠ me && f.addresseeId ≠ me := by
    refine List.filter_congr fun f hf => ?_
    have hfits := h.friendRows.fits f hf
    simp only [friendships, Bool.and_eq_true] at hfits
    rw [hrest _ hfits.1, hrest _ hfits.2]
  have hsaved : (withProfiles db p).savedItems = db.savedItems.filter fun s => s.userId ≠ me := by
    refine List.filter_congr fun s hs => ?_
    have hfits := h.savedRows.fits s hs
    simp only [savedItems, Bool.and_eq_true] at hfits
    exact hrest _ hfits.1
  have hseen : lastSeenOf (withProfiles db p).users = Function.update (lastSeenOf db.users) me none := by
    funext id
    rw [lastSeenOf_withProfiles]
    by_cases hid : id = me
    · subst hid
      rw [hgone, Function.update_self]
      rfl
    · rw [Function.update_of_ne hid]
      cases hthere : db.hasUser id with
      | false => rw [lastSeenOf_none hthere, ite_self]
      | true =>
        rw [hrest id hthere, decide_eq_true hid]
        rfl
  unfold view Social.forget
  rw [hfriends, hsaved, hseen]
  simp only [(view_forgotten me).1, (view_forgotten me).2, shelfIn_forgotten]

end Profiles

variable {s s' : Site} {move : Move} {answer : Answer}

theorem hasUser_iff_profiles (s : Site) (id : ℕ) :
    s.db.hasUser id = true ↔ ∃ u ∈ s.profiles.world.db.users, u.id = id := by
  simp [Db.hasUser, Site.profiles]

theorem knows_iff (p : Profiles) (id : ℕ) :
    knows p id = true ↔ ∃ u ∈ p.world.db.users, u.id = id := by
  simp [knows]

theorem Social.next_unerased (w : Social) {d : Deps} {im : Imaging} {ev : ProfileEvent}
    {r : ProfileReply} (h : ¬ ∃ me, Erases me (.profile d im ev, .profile r)) :
    w.next (.profile d im ev, .profile r) = w := by
  cases ev with
  | account e =>
    cases r with
    | account reply =>
      simp only [Social.next]
      split
      · next me currentPassword hc hrequest =>
        split_ifs with hdeleted
        · refine absurd ⟨me, ?_⟩ h
          rw [hdeleted]
          exact Erases.account hc hrequest
        · rfl
      · rfl
    | avatar reply => rfl
  | upload _ _ _ _ => rfl
  | removeAvatar _ _ => rfl

/-- What a request answers is what it does. -/
theorem Site.Sound.step_view (hsound : s.Sound) (hstep : s.step move = some (s', answer)) :
    view s'.db = (view s.db).next (move, answer) := by
  have h := hsound.intact
  cases move with
  | profile d im ev =>
    obtain ⟨p, r, hserve, rfl, rfl⟩ := Site.step_profile hstep
    by_cases herased : ∃ me, Erases me (.profile d im ev, .profile r)
    · obtain ⟨me, herases⟩ := herased
      cases herases with
      | @account _ _ e currentPassword hc hrequest =>
        obtain ⟨⟨w, reply⟩, haccount, hp⟩ := Option.map_eq_some_iff.mp hserve
        simp only [Prod.mk.injEq, ProfileReply.account.injEq] at hp
        obtain ⟨rfl, rfl⟩ := hp
        obtain ⟨_, husers⟩ := serve_deleted hc hrequest haccount
        generalize hq : ({ world := w, avatars := Accounts.cascade w.db.users s.profiles.avatars } :
          Profiles) = q
        have hknows : ∀ id, knows q id = (s.db.hasUser id && id ≠ me) := by
          subst hq
          intro id
          rw [Bool.eq_iff_iff, knows_iff, Bool.and_eq_true, hasUser_iff_profiles]
          simp only [husers, Accounts.mem_eraseRow, ne_eq, decide_eq_true_eq]
          constructor
          · rintro ⟨u, ⟨hu, hne⟩, rfl⟩
            exact ⟨⟨u, hu, rfl⟩, hne⟩
          · rintro ⟨⟨u, hu, rfl⟩, hne⟩
            exact ⟨u, ⟨hu, hne⟩, rfl⟩
        have hview : view (Store.withProfiles s.db q) = (view s.db).forget me := by
          refine view_withProfiles_erased h (fun id hid => ?_) ?_
          · rw [hknows, hid, Bool.true_and]
          · simp [hknows]
        rw [hview]
        simp [Social.next, hc, hrequest]
    · rw [view_withProfiles h]
      · exact (Social.next_unerased _ herased).symm
      · intro id hid
        rw [knows_iff]
        obtain hkept | herases := serveProfile_keeps hserve ((hasUser_iff_profiles s id).mp hid)
        · exact hkept
        · exact absurd ⟨id, herases⟩ herased
  | social env role browser cookie call =>
    obtain ⟨_, rfl, rfl⟩ := Site.step_social hstep
    cases hc : cookie.userId with
    | none => simp only [authorized, Social.next, hc]
    | some me =>
      simp only [authorized, Social.next, hc]
      exact Effect.view_eq h (serve_effect env role h.keyed me call)
  | search log =>
    obtain ⟨_, rfl, rfl⟩ := Site.step_search hstep
    rfl
  | ingest cards =>
    obtain ⟨_, rfl, rfl⟩ := Site.step_ingest hstep
    rfl

/-- What was acknowledged so far. -/
def soFar (past : History) : Social := past.foldl Social.next Social.nobody

theorem view_soFar {G : Guard} {past : History} (h : Reached G past s) : view s.db = soFar past := by
  have hempty : view {} = Social.nobody := by
    unfold view Social.nobody askedIn friendsIn shelfIn lastSeenOf
    simp
  have hfold := h.foldl_view (fun _ s => s.Sound) (fun s => view s.db) Social.next
    (fun _ _ _ _ hs hstep => hs.step hstep.2) (fun _ _ _ _ hs hstep => hs.step_view hstep.2) sound_empty
  rw [hfold]
  exact congrArg (past.foldl Social.next) hempty

/-- In every state, the tables show exactly what the acknowledged requests have done. -/
theorem view_eq_history {G : Guard} {past : History} (h : Reached G past s) :
    view s.db = past.foldl Social.next Social.nobody :=
  view_soFar h

theorem view_eq_history_meeting :
    view (played meeting).2.db = (played meeting).1.foldl Social.next Social.nobody :=
  view_eq_history meeting_reached

end WarsawEvents.Store
