import WarsawEvents.Store.History

/-! # What the pages show, and the history

The answers of the reading endpoints in a reachable state, from what was acknowledged before: the
identifiers of the saved cards, a shelf as its owner and as others see it, the friends and the requests,
the label beside a name, and whether a user is online.
-/

namespace WarsawEvents.Store
set_option autoImplicit false

open RowSecurity
open Friends (between OnePerPair)
open Coupling

variable {env : Env} {db : Db} {me userId id : ℕ} {role : Role} {G : Guard} {past : History} {s : Site}

/-! ## Saved cards -/

theorem serve_savedIds (env : Env) (role : Role) (hkeys : db.Keyed) (hme : db.hasUser me = true) :
    (serve env role db me .savedIds).1 =
      .ids ((db.savedItems.filter fun s => s.userId = me).map SavedItem.itemId) := by
  rw [Friends.serve_either env me .savedIds hkeys role rfl]
  obtain ⟨u, rfl, hanswer, _⟩ := serve_ends env .owner .savedIds hme
  rw [hanswer]
  simp only [Call.handler, savedIds]
  rw [exec_bind_ok (exec_select_owner rfl)]
  rfl

/-- One row for each card on a shelf. -/
theorem shelf_nodup (h : Intact db) (userId : ℕ) :
    ((db.savedItems.filter fun s => s.userId = userId).map SavedItem.itemId).Nodup := by
  have hunique : (db.savedItems.filter fun s => s.userId = userId).Pairwise
      fun s t => savedItems.clashes s t = false := h.savedRows.unique.sublist List.filter_sublist
  unfold List.Nodup
  rw [List.pairwise_map]
  refine List.Pairwise.imp_of_mem ?_ hunique
  intro s t hs ht hclash hsame
  have hsu := of_decide_eq_true (List.mem_filter.mp hs).2
  have htu := of_decide_eq_true (List.mem_filter.mp ht).2
  rw [← Bool.not_eq_true] at hclash
  apply hclash
  simp [savedItems, hsu, htu, hsame]

theorem mem_shelf (h : Reached G past s) (userId i : ℕ) :
    i ∈ (soFar past).shelf userId ↔ ∃ r ∈ s.db.savedItems, r.userId = userId ∧ r.itemId = i := by
  rw [← view_soFar h]
  exact Iff.rfl

/-- `GET /me/saved/ids` lists the cards that the caller has saved and not unsaved since, each once. -/
theorem saved_ids_show_history (h : Reached G past s) (hme : s.db.hasUser me = true) (env : Env)
    (role : Role) : ∃ ids, (serve env role s.db me .savedIds).1 = .ids ids ∧ ids.Nodup ∧
      ∀ i, i ∈ ids ↔ i ∈ (soFar past).shelf me := by
  have hintact := (reached_sound h).intact
  refine ⟨_, serve_savedIds env role hintact.keyed hme, shelf_nodup hintact me, fun i => ?_⟩
  rw [mem_shelf h]
  simp only [List.mem_map, List.mem_filter, decide_eq_true_eq, and_assoc]

theorem saved_ids_show_history_meeting :
    ∃ ids, (serve plainEnv .runtime (played meeting).2.db 0 .savedIds).1 = .ids ids ∧ ids.Nodup ∧
      ∀ i, i ∈ ids ↔ i ∈ (soFar (played meeting).1).shelf 0 :=
  saved_ids_show_history meeting_reached (by decide) plainEnv .runtime

/-- The cards of a user's shelf, newest first. -/
def shelfCards (db : Db) (userId : ℕ) : List Item :=
  ((db.savedItems.filter fun s => s.userId = userId).insertionSort fun a b =>
    b.createdAt ≤ a.createdAt).filterMap fun s => db.items.find? fun i => i.id = s.itemId

theorem exec_savedItemsOf {s : Sess} (hrole : s.role = .owner) (userId limit : ℕ) :
    exec (savedItemsOf userId limit) s =
      (.ok (((shelfCards s.view userId).take limit).map itemOut), s) := by
  unfold savedItemsOf
  rw [exec_bind_ok (exec_select_owner hrole), exec_bind_ok (exec_select_owner hrole)]
  unfold shelfCards
  simp only [savedItems, items, List.filter_true]
  rfl

theorem serve_listSaved (env : Env) (role : Role) (hkeys : db.Keyed) (hme : db.hasUser me = true)
    (limit : ℕ) : (serve env role db me (.listSaved limit)).1 =
      .items (((shelfCards db me).take limit).map itemOut) := by
  rw [Friends.serve_either env me (.listSaved limit) hkeys role rfl]
  obtain ⟨u, rfl, hanswer, _⟩ := serve_ends env .owner (.listSaved limit) hme
  rw [hanswer]
  simp only [Call.handler, listSaved]
  rw [exec_bind_ok (exec_savedItemsOf rfl u.id limit)]
  rfl

theorem exec_areFriends_one {s : Sess} (hrole : s.role = .owner) (hone : OnePerPair s.view.friendships)
    (a b : ℕ) : exec (areFriends a b) s =
      (.ok ((s.view.friendships.find? (between a b)).any fun f => f.status = .accepted), s) := by
  have hread := Friends.exec_friendship hrole a b
  rw [Friends.friendshipOf_eq hone] at hread
  unfold areFriends
  rw [exec_bind_ok hread]
  rfl

/-- A pair is friends in the rows and in what they show. -/
theorem friendsIn_iff {rows : List Friendship} (hone : OnePerPair rows) (a b : ℕ) :
    ((rows.find? (between a b)).any fun f => f.status = .accepted) = true ↔ s(a, b) ∈ friendsIn rows := by
  constructor
  · intro hany
    cases hfind : rows.find? (between a b) with
    | none =>
      rw [hfind] at hany
      cases hany
    | some f =>
      rw [hfind] at hany
      have hab := List.find?_some hfind
      refine ⟨f, List.mem_of_find?_eq_some hfind, of_decide_eq_true hany, ?_⟩
      simpa [between, Sym2.eq_iff] using hab
  · rintro ⟨f, hf, hstatus, hpair⟩
    have hab : between a b f = true := by
      rw [Sym2.eq_iff] at hpair
      simpa [between] using hpair
    rw [hone.find? hf hab (fun _ hg => hg) hf fun _ _ => rfl]
    exact decide_eq_true hstatus

theorem serve_getUserSaved (env : Env) (role : Role) (h : Intact db) (hme : db.hasUser me = true)
    (hother : userId ≠ me) (limit : ℕ) : (serve env role db me (.getUserSaved userId limit)).1 =
      if (db.friendships.find? (between me userId)).any fun f => f.status = .accepted then
        .items (((shelfCards db userId).take limit).map itemOut)
      else .http 403 "Only friends can see saved items" := by
  rw [Friends.serve_either env me (.getUserSaved userId limit) h.keyed role rfl]
  obtain ⟨u, rfl, hanswer, _⟩ := serve_ends env .owner (.getUserSaved userId limit) hme
  rw [hanswer]
  simp only [Call.handler, getUserSaved]
  have hview : (pinnedSess .owner db u.id).view = db := rfl
  rw [if_neg hother, exec_bind_ok (exec_areFriends_one rfl h.onePerPair u.id userId), hview]
  split_ifs
  · rw [exec_bind_ok (exec_savedItemsOf rfl userId limit)]
    rfl
  · rfl

theorem mem_shelfCards (userId : ℕ) {i : Item} (hi : i ∈ shelfCards db userId) :
    i ∈ db.items := by
  obtain ⟨r, _, hfind⟩ := List.mem_filterMap.mp hi
  exact List.mem_of_find?_eq_some hfind

/-- Every card of a shelf is still in the catalog. -/
theorem shelfCards_ids (h : Intact db) (userId : ℕ) :
    ((shelfCards db userId).map Item.id).Perm
      ((db.savedItems.filter fun s => s.userId = userId).map SavedItem.itemId) := by
  have hperm := List.perm_insertionSort (fun a b : SavedItem => b.createdAt ≤ a.createdAt)
    (db.savedItems.filter fun s => s.userId = userId)
  have hall : ∀ r ∈ (db.savedItems.filter fun s => s.userId = userId).insertionSort
      (fun a b => b.createdAt ≤ a.createdAt),
      (db.items.find? fun i => i.id = r.itemId).map Item.id = some r.itemId := by
    intro r hr
    have hmem := (List.mem_filter.mp ((List.mem_insertionSort _).mp hr)).1
    have hfits := h.savedRows.fits r hmem
    simp only [savedItems, Bool.and_eq_true] at hfits
    obtain ⟨i, hfind, hid⟩ := Friends.find?_of_any hfits.2
    rw [hfind, Option.map_some, of_decide_eq_true hid]
  have hids : (shelfCards db userId).map Item.id =
      ((db.savedItems.filter fun s => s.userId = userId).insertionSort
        fun a b => b.createdAt ≤ a.createdAt).map SavedItem.itemId := by
    unfold shelfCards
    rw [List.map_filterMap, ← List.filterMap_eq_map]
    exact List.filterMap_congr hall
  rw [hids]
  exact hperm.map SavedItem.itemId

/-- A shelf, whoever looks: its owner sees the cards that were saved and not unsaved since, each once,
and so does a friend; whoever is not a friend at that moment is refused. -/
theorem friends_see_the_shelf (h : Reached G past s) (huser : s.db.hasUser userId = true) :
    ∃ cards : List Item, (cards.map Item.id).Nodup ∧ (∀ i ∈ cards, i ∈ s.db.items) ∧
      (∀ i, i ∈ cards.map Item.id ↔ i ∈ (soFar past).shelf userId) ∧
      (∀ (env : Env) (role : Role) (limit : ℕ), (serve env role s.db userId (.listSaved limit)).1 =
        .items ((cards.take limit).map itemOut)) ∧
      ∀ (env : Env) (role : Role) (me limit : ℕ), s.db.hasUser me = true → me ≠ userId →
        (s(me, userId) ∈ (soFar past).friends →
          (serve env role s.db me (.getUserSaved userId limit)).1 =
            .items ((cards.take limit).map itemOut)) ∧
        (s(me, userId) ∉ (soFar past).friends →
          (serve env role s.db me (.getUserSaved userId limit)).1 =
            .http 403 "Only friends can see saved items") := by
  have hintact := (reached_sound h).intact
  have hperm := shelfCards_ids hintact userId
  have hfriends : (soFar past).friends = friendsIn s.db.friendships := by
    rw [← view_soFar h]
    rfl
  refine ⟨shelfCards s.db userId, ?_, fun i => mem_shelfCards userId, ?_, ?_, ?_⟩
  · exact hperm.nodup_iff.mpr (shelf_nodup hintact userId)
  · intro i
    rw [mem_shelf h, hperm.mem_iff]
    simp only [List.mem_map, List.mem_filter, decide_eq_true_eq, and_assoc]
  · exact fun env role limit => serve_listSaved env role hintact.keyed huser limit
  · intro env role me limit hme hother
    rw [hfriends, ← friendsIn_iff hintact.onePerPair, serve_getUserSaved env role hintact hme hother.symm]
    exact ⟨fun hpair => if_pos hpair, fun hpair => if_neg hpair⟩

theorem friends_see_the_shelf_meeting :
    ∃ cards : List Item, (∀ i, i ∈ cards.map Item.id ↔ i ∈ (soFar (played meeting).1).shelf 0) ∧
      (serve plainEnv .runtime (played meeting).2.db 0 (.listSaved 24)).1 =
        .items ((cards.take 24).map itemOut) := by
  obtain ⟨cards, _, _, hshelf, hown, _⟩ := friends_see_the_shelf meeting_reached
    (show (played meeting).2.db.hasUser 0 = true by decide)
  exact ⟨cards, hshelf, hown plainEnv .runtime 24⟩

/-! ## Friends, requests and labels -/

theorem Intact.tied (h : Intact db) : Friends.Tied db where
  friendRows :=
    { ids_nodup := h.friendRows.keys
      one := h.onePerPair
      apart := h.apart }
  files := h.fileRows.keys
  shares := h.shareRows.fits

/-- What the label beside a user says of the two. -/
def Relates (w : Social) (me other : ℕ) : Relation → Prop
  | .self => other = me
  | .friends => s(me, other) ∈ w.friends
  | .requestSent => (me, other) ∈ w.asks
  | .requestReceived => (other, me) ∈ w.asks
  | .none => other ≠ me ∧ s(me, other) ∉ w.friends ∧ (me, other) ∉ w.asks ∧ (other, me) ∉ w.asks

theorem relates_labelOf {rows : List Friendship} (hrows : rows = db.friendships) (other : ℕ) :
    Relates (view db) me other (Friends.labelOf rows me other) := by
  subst hrows
  unfold Friends.labelOf
  by_cases hself : other = me
  · rw [if_pos hself]
    exact hself
  · rw [if_neg hself]
    cases hfind : db.friendships.find? (between me other) with
    | none =>
      have hnone := List.find?_eq_none.mp hfind
      refine ⟨hself, ?_, ?_, ?_⟩
      · rintro ⟨f, hf, _, hpair⟩
        rw [Sym2.eq_iff] at hpair
        exact hnone f hf (by simpa [between] using hpair)
      · rintro ⟨f, hf, _, hpair⟩
        obtain ⟨hreq, haddr⟩ := Prod.mk.inj hpair
        exact hnone f hf (by simp [between, hreq, haddr])
      · rintro ⟨f, hf, _, hpair⟩
        obtain ⟨hreq, haddr⟩ := Prod.mk.inj hpair
        exact hnone f hf (by simp [between, hreq, haddr])
    | some f =>
      have hf := List.mem_of_find?_eq_some hfind
      have hab := List.find?_some hfind
      simp only [between, Bool.or_eq_true, Bool.and_eq_true, decide_eq_true_eq] at hab
      unfold statusOf
      obtain hpending | haccepted := status_cases f
      · simp only [hpending, reduceCtorEq, if_false]
        split_ifs with hmine
        · refine ⟨f, hf, hpending, ?_⟩
          obtain ⟨hreq, haddr⟩ | ⟨hreq, haddr⟩ := hab
          · rw [hreq, haddr]
          · exact absurd (hreq.symm.trans hmine) hself
        · refine ⟨f, hf, hpending, ?_⟩
          obtain ⟨hreq, haddr⟩ | ⟨hreq, haddr⟩ := hab
          · exact absurd hreq hmine
          · rw [hreq, haddr]
      · simp only [haccepted, if_true]
        exact ⟨f, hf, haccepted, Sym2.eq_iff.mpr hab⟩

/-- `_status` reads the history: on the four pages that look at the friendship, every label is what the
two have acknowledged. -/
theorem labels_follow_history (h : Reached G past s) (env : Env) (role : Role) (me : ℕ)
    (l : Friends.Listing) (hl : ∀ limit, l ≠ .listSharedWithMe limit) :
    ∀ u ∈ Friends.shownUsers (serve env role s.db me l.call).1,
      Relates (soFar past) me u.id u.friendship := by
  have hlabelled := (Friends.labelled_iff ((reached_sound h).intact).tied env role me l).mpr (by
    cases l with
    | listSharedWithMe limit => exact absurd rfl (hl limit)
    | _ => trivial)
  intro u hu
  rw [← view_soFar h, hlabelled u hu]
  exact relates_labelOf rfl u.id

theorem labels_follow_history_meeting :
    (Friends.shownUsers (serve plainEnv .runtime (played meeting).2.db 0 (.listFriends 50)).1).length = 1 ∧
      ∀ u ∈ Friends.shownUsers (serve plainEnv .runtime (played meeting).2.db 0 (.listFriends 50)).1,
        Relates (soFar (played meeting).1) 0 u.id u.friendship :=
  ⟨by decide, labels_follow_history meeting_reached plainEnv .runtime 0 (.listFriends 50) nofun⟩

/-- `_public_users`, for either role. -/
theorem exec_publicUsers {s : Sess} (hrole : s.role = .owner) (ids : List ℕ) (relation : Relation) :
    Friends.answered (exec (publicUsers env ids relation) s) =
      .users ((s.view.users.filter fun u => ids.contains u.id).map fun u => publicUser env u relation) := by
  unfold publicUsers
  split_ifs with hempty
  · rw [List.isEmpty_iff.mp hempty]
    simp [Friends.answered]
  · rw [exec_bind_ok (exec_select_owner hrole)]
    rfl

theorem serve_listFriends (env : Env) (role : Role) (hkeys : db.Keyed) (hme : db.hasUser me = true)
    (limit : ℕ) : (serve env role db me (.listFriends limit)).1 =
      .users ((db.users.filter fun u => (((db.friendships.filter fun f =>
        f.status = .accepted && Friendship.involves me f).take limit).map fun f =>
          f.other me).contains u.id).map fun u => publicUser env u .friends) := by
  rw [Friends.serve_either env me (.listFriends limit) hkeys role rfl]
  obtain ⟨u, rfl, hanswer, _⟩ := serve_ends env .owner (.listFriends limit) hme
  rw [hanswer]
  simp only [Call.handler, listFriends]
  rw [exec_bind_ok (exec_select_owner rfl)]
  exact exec_publicUsers rfl _ _

theorem serve_listRequests (env : Env) (role : Role) (hkeys : db.Keyed) (hme : db.hasUser me = true)
    (limit : ℕ) : (serve env role db me (.listRequests limit)).1 =
      .users ((db.users.filter fun u => (((db.friendships.filter fun f =>
        f.addresseeId = me && f.status = .pending).take limit).map
          Friendship.requesterId).contains u.id).map fun u => publicUser env u .requestReceived) := by
  rw [Friends.serve_either env me (.listRequests limit) hkeys role rfl]
  obtain ⟨u, rfl, hanswer, _⟩ := serve_ends env .owner (.listRequests limit) hme
  rw [hanswer]
  simp only [Call.handler, listRequests]
  rw [exec_bind_ok (exec_select_owner rfl)]
  exact exec_publicUsers rfl _ _

/-- Of users chosen by id, exactly those with a row are shown. -/
theorem shown_ids (ids : List ℕ) (relation : Relation) (hids : ∀ id ∈ ids, db.hasUser id = true) (z : ℕ) :
    (∃ u ∈ Friends.shownUsers (.users ((db.users.filter fun u => ids.contains u.id).map fun u =>
      publicUser env u relation)), u.id = z) ↔ z ∈ ids := by
  simp only [Friends.shownUsers, List.mem_map, List.mem_filter, List.contains_iff_mem]
  constructor
  · rintro ⟨_, ⟨u, ⟨_, hu⟩, rfl⟩, rfl⟩
    exact hu
  · intro hz
    obtain ⟨u, hu, hid⟩ := List.any_eq_true.mp (hids z hz)
    obtain rfl := of_decide_eq_true hid
    exact ⟨_, ⟨u, ⟨hu, hz⟩, rfl⟩, rfl⟩

theorem mem_other {rows : List Friendship} {z : ℕ} (hapart : ∀ f ∈ rows, f.requesterId ≠ f.addresseeId) :
    z ∈ (rows.filter fun f => f.status = .accepted && Friendship.involves me f).map (fun f => f.other me) ↔
      s(me, z) ∈ friendsIn rows := by
  simp only [List.mem_map, List.mem_filter, Bool.and_eq_true, decide_eq_true_eq, Friendship.involves,
    Bool.or_eq_true, friendsIn, Set.mem_ofPred_eq, Sym2.eq_iff]
  constructor
  · rintro ⟨f, ⟨hf, haccepted, hme⟩, rfl⟩
    refine ⟨f, hf, haccepted, ?_⟩
    unfold RowSecurity.Friendship.other
    split_ifs with hreq
    · exact .inl ⟨hreq, rfl⟩
    · exact .inr ⟨rfl, hme.resolve_left hreq⟩
  · rintro ⟨f, hf, haccepted, ⟨hreq, haddr⟩ | ⟨hreq, haddr⟩⟩
    · exact ⟨f, ⟨hf, haccepted, .inl hreq⟩, by simp [RowSecurity.Friendship.other, hreq, haddr]⟩
    · refine ⟨f, ⟨hf, haccepted, .inr haddr⟩, ?_⟩
      have hne : f.requesterId ≠ me := fun hreq' => hapart f hf (hreq'.trans haddr.symm)
      unfold RowSecurity.Friendship.other
      rw [if_neg hne]
      exact hreq

/-- The accepted friendships of a user. -/
def friendRowsOf (db : Db) (me : ℕ) : List Friendship :=
  db.friendships.filter fun f => f.status = .accepted && Friendship.involves me f

/-- The requests a user has not answered. -/
def requestRowsTo (db : Db) (me : ℕ) : List Friendship :=
  db.friendships.filter fun f => f.addresseeId = me && f.status = .pending

/-- The page of friends and the page of requests are the history's, each when its limit does not cut the
caller's own rows. -/
theorem friends_pages_show_history (h : Reached G past s) (hme : s.db.hasUser me = true) (env : Env)
    (role : Role) (limit : ℕ) (z : ℕ) :
    ((friendRowsOf s.db me).length ≤ limit →
      ((∃ u ∈ Friends.shownUsers (serve env role s.db me (.listFriends limit)).1, u.id = z) ↔
        s(me, z) ∈ (soFar past).friends)) ∧
      ((requestRowsTo s.db me).length ≤ limit →
        ((∃ u ∈ Friends.shownUsers (serve env role s.db me (.listRequests limit)).1, u.id = z) ↔
          (z, me) ∈ (soFar past).asks)) := by
  have hintact := (reached_sound h).intact
  rw [← view_soFar h]
  have hends : ∀ f ∈ s.db.friendships, s.db.hasUser f.requesterId = true ∧ s.db.hasUser f.addresseeId = true := by
    intro f hf
    have hfits := hintact.friendRows.fits f hf
    simpa only [friendships, Bool.and_eq_true] using hfits
  constructor
  · intro hlimit
    have huncut := List.take_of_length_le hlimit
    unfold friendRowsOf at huncut
    rw [serve_listFriends env role hintact.keyed hme, huncut, shown_ids]
    · exact mem_other hintact.apart
    · intro id hid
      obtain ⟨f, hf, rfl⟩ := List.mem_map.mp hid
      unfold RowSecurity.Friendship.other
      split_ifs
      · exact (hends f (List.mem_filter.mp hf).1).2
      · exact (hends f (List.mem_filter.mp hf).1).1
  · intro hlimit
    have huncut := List.take_of_length_le hlimit
    unfold requestRowsTo at huncut
    rw [serve_listRequests env role hintact.keyed hme, huncut, shown_ids]
    · simp only [view, askedIn, List.mem_map, List.mem_filter, Bool.and_eq_true, decide_eq_true_eq,
        Set.mem_ofPred_eq, Prod.mk.injEq]
      constructor
      · rintro ⟨f, ⟨hf, haddr, hpending⟩, hreq⟩
        exact ⟨f, hf, hpending, hreq, haddr⟩
      · rintro ⟨f, hf, hpending, hreq, haddr⟩
        exact ⟨f, ⟨hf, haddr, hpending⟩, hreq⟩
    · intro id hid
      obtain ⟨f, hf, rfl⟩ := List.mem_map.mp hid
      exact (hends f (List.mem_filter.mp hf).1).1

theorem friends_pages_show_history_meeting :
    ((∃ u ∈ Friends.shownUsers (serve plainEnv .runtime (played meeting).2.db 0 (.listFriends 200)).1,
        u.id = 1) ↔ s(0, 1) ∈ (soFar (played meeting).1).friends) ∧
      ((∃ u ∈ Friends.shownUsers (serve plainEnv .runtime (played meeting).2.db 0 (.listRequests 200)).1,
        u.id = 1) ↔ (1, 0) ∈ (soFar (played meeting).1).asks) := by
  have hme : (played meeting).2.db.hasUser 0 = true := by decide
  obtain ⟨hfriends, hrequests⟩ := friends_pages_show_history meeting_reached hme plainEnv .runtime 200 1
  exact ⟨hfriends (by decide), hrequests (by decide)⟩

/-! ## Presence -/

/-- A user whose last heartbeat came at `seen` is online for two minutes. -/
def onlineAt (now : ℕ) (seen : Option ℕ) : Bool := seen.any fun t => now < t + onlineWindow

theorem isOnline_eq (env : Env) (u : Person) : isOnline env u = onlineAt env.now u.lastSeenAt := by
  unfold isOnline onlineAt
  cases u.lastSeenAt with
  | none => rfl
  | some t => rw [Option.any_some]

/-- Whoever is shown, on whatever page, is shown online exactly while the last acknowledged heartbeat of
that account is less than two minutes old. -/
theorem presence_follows_history (h : Reached G past s) (env : Env) (role : Role) (me : ℕ)
    (l : Friends.Listing) :
    ∀ u ∈ Friends.shownUsers (serve env role s.db me l.call).1,
      u.online = onlineAt env.now ((soFar past).seen u.id) := by
  intro u hu
  obtain ⟨v, hv, relation, rfl⟩ := serve_listing_shows env role me l u hu
  rw [← view_soFar h]
  have hseen : (view s.db).seen v.id = v.lastSeenAt := lastSeenOf_mem (reached_sound h).intact hv
  have honline : (publicUser env v relation).online = isOnline env v := rfl
  rw [honline, isOnline_eq]
  exact congrArg (onlineAt env.now) hseen.symm

theorem presence_follows_history_meeting :
    (Friends.shownUsers (serve plainEnv .runtime (played meeting).2.db 0 (.listFriends 50)).1).length = 1 ∧
      ∀ u ∈ Friends.shownUsers (serve plainEnv .runtime (played meeting).2.db 0 (.listFriends 50)).1,
        u.online = onlineAt 0 ((soFar (played meeting).1).seen u.id) :=
  ⟨by decide, presence_follows_history meeting_reached plainEnv .runtime 0 (.listFriends 50)⟩

end WarsawEvents.Store
