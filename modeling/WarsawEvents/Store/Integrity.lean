import WarsawEvents.Accounts.Transcript
import WarsawEvents.Store.Site
import Mathlib.Data.List.Pairwise

/-! # What holds of the tables, whatever the requests

Each table has distinct keys, its rows meet the constraints of the schema at every moment and not only
when they are inserted, and no two of them clash. Beyond the schema, two users never share two friendship
rows, nobody befriends or shares with himself, an attachment has the size it says, and a picture is a
JPEG. `reached_intact` is the statement for every run of requests, searches and ingestions.
-/

namespace WarsawEvents.Store
set_option autoImplicit false

open RowSecurity
open Friends (between newRow acceptRow OnePerPair Befriended)
open Accounts (Profiles Avatar)

/-! ## One table -/

structure Holds {ρ : Type} (T : RowSecurity.Table ρ) (db : Db) : Prop where
  keys : ((T.rows db).map T.key).Nodup
  fits : ∀ r ∈ T.rows db, T.constraints db r = true
  unique : (T.rows db).Pairwise fun r r' => T.clashes r r' = false

section Holds
variable {ρ : Type} {T : RowSecurity.Table ρ} {db db' : Db}

theorem Holds.empty (hrows : T.rows db = []) : Holds T db := by
  refine ⟨?_, ?_, ?_⟩ <;> rw [hrows]
  · exact List.nodup_nil
  · exact nofun
  · exact List.Pairwise.nil

/-- Rows are left out, or nothing happens to the table. -/
theorem Holds.kept (h : Holds T db) (hrows : (T.rows db').Sublist (T.rows db))
    (hfits : ∀ r ∈ T.rows db', T.constraints db r = true → T.constraints db' r = true) :
    Holds T db' where
  keys := h.keys.sublist (hrows.map T.key)
  fits r hr := hfits r hr (h.fits r (hrows.subset hr))
  unique := h.unique.sublist hrows

/-- Rows are rewritten in place. -/
theorem Holds.rewritten (h : Holds T db) (f : ρ → ρ) (hrows : T.rows db' = (T.rows db).map f)
    (hkey : ∀ r, T.key (f r) = T.key r)
    (hfits : ∀ r, T.constraints db r = true → T.constraints db' (f r) = true)
    (hclash : ∀ r r', T.clashes (f r) (f r') = T.clashes r r') : Holds T db' where
  keys := by
    have hsame : T.key ∘ f = T.key := funext hkey
    rw [hrows, List.map_map, hsame]
    exact h.keys
  fits r hr := by
    rw [hrows] at hr
    obtain ⟨r₀, hr₀, rfl⟩ := List.mem_map.mp hr
    exact hfits r₀ (h.fits r₀ hr₀)
  unique := by
    rw [hrows, List.pairwise_map]
    exact h.unique.imp fun hr => by rwa [hclash]

/-- A row is added that the table accepts and that clashes with none. -/
theorem Holds.added (h : Holds T db) (r : ρ) (hrows : T.rows db' = T.rows db ++ [r])
    (hconstraints : T.constraints db' = T.constraints db) (haccepts : T.accepts db r = true)
    (hcomm : ∀ r r', T.clashes r r' = T.clashes r' r)
    (hnew : (T.rows db).any (T.clashes r) = false) : Holds T db' := by
  unfold RowSecurity.Table.accepts at haccepts
  rw [Bool.and_eq_true, Bool.not_eq_true', List.any_eq_false] at haccepts
  obtain ⟨hfits, hfree⟩ := haccepts
  refine ⟨?_, ?_, ?_⟩
  · rw [hrows, List.map_append, List.nodup_append]
    refine ⟨h.keys, List.nodup_singleton _, ?_⟩
    intro k hk k' hk'
    obtain ⟨r', hr', rfl⟩ := List.mem_map.mp hk
    rw [List.map_singleton, List.mem_singleton] at hk'
    rw [hk']
    simpa using hfree r' hr'
  · intro r' hr'
    rw [hconstraints]
    rw [hrows] at hr'
    obtain hold | hlast := List.mem_append.mp hr'
    · exact h.fits r' hold
    · rw [List.mem_singleton.mp hlast]
      exact hfits
  · rw [hrows, List.pairwise_append]
    refine ⟨h.unique, List.pairwise_singleton _ _, ?_⟩
    intro r' hr' last hlast
    rw [List.mem_singleton.mp hlast, hcomm]
    exact Bool.eq_false_of_not_eq_true (List.any_eq_false.mp hnew r' hr')

/-- A table that is not written, when the users and the items it refers to are kept. -/
theorem Holds.unwritten (h : Holds T db) (hrows : T.rows db' = T.rows db)
    (hconstraints : T.constraints db' = T.constraints db) : Holds T db' :=
  h.kept (by rw [hrows]) fun r _ hr => by rwa [hconstraints]

end Holds

/-! ## All tables -/

structure Intact (db : Db) : Prop where
  userRows : Holds users db
  itemRows : Holds items db
  friendRows : Holds friendships db
  onePerPair : OnePerPair db.friendships
  apart : ∀ f ∈ db.friendships, f.requesterId ≠ f.addresseeId
  shareRows : Holds sharedEvents db
  sharesApart : ∀ s ∈ db.sharedEvents, s.fromUserId ≠ s.toUserId
  savedRows : Holds savedItems db
  fileRows : Holds userFiles db
  sizes : ∀ f ∈ db.userFiles, f.size = f.data.length
  avatarRows : Holds userAvatars db
  jpegs : ∀ a ∈ db.userAvatars, a.contentType = "image/jpeg"
  logRows : Holds intentLogs db

variable {env : Env} {db db' : Db} {me userId : ℕ} {call : Call} {r : Response}

theorem Intact.keyed (h : Intact db) : db.Keyed := ⟨h.friendRows.keys, h.fileRows.keys⟩

theorem Intact.avatarOwner (h : Intact db) {a : UserAvatar} (ha : a ∈ db.userAvatars) :
    db.hasUser a.userId = true := by
  have hfits := h.avatarRows.fits a ha
  simp only [userAvatars, Bool.and_eq_true] at hfits
  exact hfits.1

theorem intact_empty : Intact {} where
  userRows := .empty rfl
  itemRows := .empty rfl
  friendRows := .empty rfl
  onePerPair _ _ := Nat.zero_le 1
  apart := nofun
  shareRows := .empty rfl
  sharesApart := nofun
  savedRows := .empty rfl
  fileRows := .empty rfl
  sizes := nofun
  avatarRows := .empty rfl
  jpegs := nofun
  logRows := .empty rfl

/-! ## A request writes one table -/

theorem Intact.withFriendships (h : Intact db) {rows : List Friendship}
    (hrows : Holds friendships { db with friendships := rows }) (hone : OnePerPair rows)
    (hapart : ∀ f ∈ rows, f.requesterId ≠ f.addresseeId) : Intact { db with friendships := rows } where
  userRows := h.userRows.unwritten rfl rfl
  itemRows := h.itemRows.unwritten rfl rfl
  friendRows := hrows
  onePerPair := hone
  apart := hapart
  shareRows := h.shareRows.unwritten rfl rfl
  sharesApart := h.sharesApart
  savedRows := h.savedRows.unwritten rfl rfl
  fileRows := h.fileRows.unwritten rfl rfl
  sizes := h.sizes
  avatarRows := h.avatarRows.unwritten rfl rfl
  jpegs := h.jpegs
  logRows := h.logRows.unwritten rfl rfl

theorem Intact.withShares (h : Intact db) {rows : List SharedEvent}
    (hrows : Holds sharedEvents { db with sharedEvents := rows })
    (hapart : ∀ s ∈ rows, s.fromUserId ≠ s.toUserId) : Intact { db with sharedEvents := rows } where
  userRows := h.userRows.unwritten rfl rfl
  itemRows := h.itemRows.unwritten rfl rfl
  friendRows := h.friendRows.unwritten rfl rfl
  onePerPair := h.onePerPair
  apart := h.apart
  shareRows := hrows
  sharesApart := hapart
  savedRows := h.savedRows.unwritten rfl rfl
  fileRows := h.fileRows.unwritten rfl rfl
  sizes := h.sizes
  avatarRows := h.avatarRows.unwritten rfl rfl
  jpegs := h.jpegs
  logRows := h.logRows.unwritten rfl rfl

theorem Intact.withSaved (h : Intact db) {rows : List SavedItem}
    (hrows : Holds savedItems { db with savedItems := rows }) : Intact { db with savedItems := rows } where
  userRows := h.userRows.unwritten rfl rfl
  itemRows := h.itemRows.unwritten rfl rfl
  friendRows := h.friendRows.unwritten rfl rfl
  onePerPair := h.onePerPair
  apart := h.apart
  shareRows := h.shareRows.unwritten rfl rfl
  sharesApart := h.sharesApart
  savedRows := hrows
  fileRows := h.fileRows.unwritten rfl rfl
  sizes := h.sizes
  avatarRows := h.avatarRows.unwritten rfl rfl
  jpegs := h.jpegs
  logRows := h.logRows.unwritten rfl rfl

theorem Intact.withFiles (h : Intact db) {rows : List UserFile}
    (hrows : Holds userFiles { db with userFiles := rows })
    (hsizes : ∀ f ∈ rows, f.size = f.data.length) : Intact { db with userFiles := rows } where
  userRows := h.userRows.unwritten rfl rfl
  itemRows := h.itemRows.unwritten rfl rfl
  friendRows := h.friendRows.unwritten rfl rfl
  onePerPair := h.onePerPair
  apart := h.apart
  shareRows := h.shareRows.unwritten rfl rfl
  sharesApart := h.sharesApart
  savedRows := h.savedRows.unwritten rfl rfl
  fileRows := hrows
  sizes := hsizes
  avatarRows := h.avatarRows.unwritten rfl rfl
  jpegs := h.jpegs
  logRows := h.logRows.unwritten rfl rfl

theorem Intact.logged (h : Intact db) {log : IntentLog} (haccepts : intentLogs.accepts db log = true) :
    Intact { db with intentLogs := db.intentLogs ++ [log] } where
  userRows := h.userRows.unwritten rfl rfl
  itemRows := h.itemRows.unwritten rfl rfl
  friendRows := h.friendRows.unwritten rfl rfl
  onePerPair := h.onePerPair
  apart := h.apart
  shareRows := h.shareRows.unwritten rfl rfl
  sharesApart := h.sharesApart
  savedRows := h.savedRows.unwritten rfl rfl
  fileRows := h.fileRows.unwritten rfl rfl
  sizes := h.sizes
  avatarRows := h.avatarRows.unwritten rfl rfl
  jpegs := h.jpegs
  logRows := h.logRows.added log rfl rfl haccepts (fun _ _ => rfl)
    (List.any_eq_false.mpr fun _ _ => Bool.false_ne_true)

/-! ## One request -/

theorem clashes_of_between {f : Friendship} (h : between me userId f = false) (id now : ℕ) :
    friendships.clashes (newRow now me userId id) f = false := by
  rw [← Bool.not_eq_true] at h ⊢
  intro hclash
  apply h
  simp only [friendships, newRow, Bool.and_eq_true, decide_eq_true_eq] at hclash
  simp [between, hclash.1, hclash.2]

theorem onePerPair_append {rows : List Friendship} (h : OnePerPair rows)
    (hnone : ∀ f ∈ rows, between me userId f = false) (id now : ℕ) :
    OnePerPair (rows ++ [newRow now me userId id]) := by
  have hends : ∀ f ∈ rows, ¬(f.requesterId = me ∧ f.addresseeId = userId) ∧
      ¬(f.requesterId = userId ∧ f.addresseeId = me) := by
    intro f hf
    have hfree := hnone f hf
    unfold between at hfree
    simpa using hfree
  have hdirect : (rows.any fun f => f.requesterId = me && f.addresseeId = userId) = false := by
    rw [List.any_eq_false]
    intro f hf
    simpa using (hends f hf).1
  apply (Friends.onePerPair_insert (t := { users := [], rows := rows, nextId := id }) h hdirect).mpr
  unfold Friends.opposed
  rw [List.any_eq_false]
  intro f hf
  simpa using (hends f hf).2

theorem Intact.requested (h : Intact db) {id now : ℕ} (hother : userId ≠ me)
    (hnone : ∀ f ∈ db.friendships, between me userId f = false)
    (haccepts : friendships.accepts db (newRow now me userId id) = true) :
    Intact { db with friendships := db.friendships ++ [newRow now me userId id] } := by
  refine h.withFriendships ?_ (onePerPair_append h.onePerPair hnone _ _) ?_
  · refine h.friendRows.added (newRow now me userId id) rfl rfl haccepts ?_ ?_
    · intro f g
      simp only [friendships, eq_comm]
    · rw [List.any_eq_false]
      intro f hf
      rw [clashes_of_between (hnone f hf)]
      exact Bool.false_ne_true
  · intro f hf
    obtain hold | hnew := List.mem_append.mp hf
    · exact h.apart f hold
    · rw [List.mem_singleton.mp hnew]
      exact hother.symm

theorem Intact.accepted (h : Intact db) (id : ℕ) :
    Intact { db with friendships := acceptRow db.friendships id } := by
  have hone : OnePerPair (acceptRow db.friendships id) := fun a b =>
    (Friends.filter_acceptRow db.friendships id a b).le.trans (h.onePerPair a b)
  refine h.withFriendships (h.friendRows.rewritten
    (fun f => if f.id = id then { f with status := .accepted } else f) rfl
    (fun f => by split <;> rfl) (fun f hf => by split <;> exact hf)
    fun f g => by split <;> split <;> rfl) hone ?_
  intro f hf
  obtain ⟨g, hg, rfl⟩ := List.mem_map.mp hf
  split <;> exact h.apart g hg

theorem Intact.unfriended (h : Intact db) (p : Friendship → Bool) :
    Intact { db with friendships := db.friendships.filter p } :=
  h.withFriendships (h.friendRows.kept List.filter_sublist fun _ _ hr => hr)
    (Friends.onePerPair_filter h.onePerPair p) fun f hf => h.apart f (List.mem_filter.mp hf).1

/-- Nobody is befriended with himself. -/
theorem Intact.befriended_ne (h : Intact db) (hbefriended : Befriended db.friendships me userId) :
    me ≠ userId := by
  obtain ⟨f, hf, hends, _⟩ := hbefriended
  have hne := h.apart f hf
  simp only [between, Bool.or_eq_true, Bool.and_eq_true, decide_eq_true_eq] at hends
  obtain ⟨hreq, hadr⟩ | ⟨hreq, hadr⟩ := hends
  · rwa [hreq, hadr] at hne
  · rw [hreq, hadr] at hne
    exact hne.symm

theorem sharedEvents_clashes_comm (s t : SharedEvent) :
    sharedEvents.clashes s t = sharedEvents.clashes t s := by
  simp only [sharedEvents, eq_comm]

theorem savedItems_clashes_comm (s t : SavedItem) :
    savedItems.clashes s t = savedItems.clashes t s := by
  simp only [savedItems, eq_comm]

theorem Intact.shared (h : Intact db) {req : ShareRequest}
    (hbefriended : Befriended db.friendships me req.toUserId)
    (haccepts : sharedEvents.accepts db (shareRow env me req) = true)
    (hnew : db.sharedEvents.any (sharedEvents.clashes (shareRow env me req)) = false) :
    Intact { db with sharedEvents := db.sharedEvents ++ [shareRow env me req] } := by
  refine h.withShares (h.shareRows.added _ rfl rfl haccepts sharedEvents_clashes_comm hnew) ?_
  intro s hs
  obtain hold | hlast := List.mem_append.mp hs
  · exact h.sharesApart s hold
  · rw [List.mem_singleton.mp hlast]
    exact h.befriended_ne hbefriended

theorem Intact.pinged (h : Intact db) (now me : ℕ) :
    Intact { db with users := db.users.map fun u =>
      if u.id = me then { u with lastSeenAt := some now } else u } := by
  have hids : ∀ id, Db.hasUser { db with users := db.users.map fun u =>
      if u.id = me then { u with lastSeenAt := some now } else u } id = db.hasUser id := by
    intro id
    unfold Db.hasUser
    rw [List.any_map]
    congr 1
    funext u
    simp only [Function.comp]
    split <;> rfl
  have hkept : ∀ {ρ : Type} {T : RowSecurity.Table ρ}, Holds T db → ∀ db' : Db,
      T.rows db' = T.rows db → T.constraints db' = T.constraints db → Holds T db' :=
    fun hT db' hrows hcon => hT.unwritten hrows hcon
  exact
    { userRows := h.userRows.rewritten _ rfl (fun u => by split <;> rfl) (fun _ _ => rfl)
        fun _ _ => by split <;> split <;> rfl
      itemRows := hkept h.itemRows _ rfl rfl
      friendRows := hkept h.friendRows _ rfl (funext fun f => by simp only [friendships, hids])
      onePerPair := h.onePerPair
      apart := h.apart
      shareRows := hkept h.shareRows _ rfl
        (funext fun s => by simp only [sharedEvents, hids]; rfl)
      sharesApart := h.sharesApart
      savedRows := hkept h.savedRows _ rfl
        (funext fun s => by simp only [savedItems, hids]; rfl)
      fileRows := hkept h.fileRows _ rfl
        (funext fun f => by simp only [userFiles, hids]; rfl)
      sizes := h.sizes
      avatarRows := hkept h.avatarRows _ rfl (funext fun a => by simp only [userAvatars, hids])
      jpegs := h.jpegs
      logRows := hkept h.logRows _ rfl rfl }

theorem Intact.uploaded (h : Intact db) {up : Upload} {contentType : String}
    (haccepts : userFiles.accepts db (uploadedFile env me up contentType) = true) :
    Intact { db with userFiles := db.userFiles ++ [uploadedFile env me up contentType] } := by
  refine h.withFiles (h.fileRows.added _ rfl rfl haccepts ?_ ?_) ?_
  · exact fun _ _ => rfl
  · exact List.any_eq_false.mpr fun _ _ => Bool.false_ne_true
  · intro f hf
    obtain hold | hnew := List.mem_append.mp hf
    · exact h.sizes f hold
    · rw [List.mem_singleton.mp hnew]
      rfl

/-- An account goes, and every row that names it. -/
theorem Intact.without (h : Intact db) (me : ℕ) : Intact (withoutAccount db me) := by
  have huser : ∀ id, id ≠ me → db.hasUser id = true → (withoutAccount db me).hasUser id = true := by
    intro id hid hhas
    obtain ⟨u, hu, hkey⟩ := List.any_eq_true.mp hhas
    rw [decide_eq_true_eq] at hkey
    exact List.any_eq_true.mpr ⟨u, List.mem_filter.mpr ⟨hu, by simpa [hkey] using hid⟩, by simpa using hkey⟩
  have hitem : ∀ id, (withoutAccount db me).hasItem id = db.hasItem id := fun _ => rfl
  exact
    { userRows := h.userRows.kept List.filter_sublist fun _ _ hr => hr
      itemRows := h.itemRows.unwritten rfl rfl
      friendRows := by
        refine h.friendRows.kept List.filter_sublist fun f hf hfits => ?_
        have hends := (List.mem_filter.mp hf).2
        simp only [friendships, Bool.and_eq_true, decide_eq_true_eq] at hends hfits ⊢
        exact ⟨huser _ hends.1 hfits.1, huser _ hends.2 hfits.2⟩
      onePerPair := Friends.onePerPair_filter h.onePerPair _
      apart := fun f hf => h.apart f (List.mem_filter.mp hf).1
      shareRows := by
        refine h.shareRows.kept List.filter_sublist fun s hs hfits => ?_
        have hends := (List.mem_filter.mp hs).2
        simp only [sharedEvents, Bool.and_eq_true, decide_eq_true_eq, hitem] at hends hfits ⊢
        exact ⟨⟨huser _ hends.1 hfits.1.1, huser _ hends.2 hfits.1.2⟩, hfits.2⟩
      sharesApart := fun s hs => h.sharesApart s (List.mem_filter.mp hs).1
      savedRows := by
        refine h.savedRows.kept List.filter_sublist fun s hs hfits => ?_
        have hend := (List.mem_filter.mp hs).2
        simp only [savedItems, Bool.and_eq_true, decide_eq_true_eq, hitem] at hend hfits ⊢
        exact ⟨huser _ hend hfits.1, hfits.2⟩
      fileRows := by
        refine h.fileRows.kept List.filter_sublist fun f hf hfits => ?_
        have hend := (List.mem_filter.mp hf).2
        simp only [userFiles, Bool.and_eq_true, decide_eq_true_eq, hitem] at hend hfits ⊢
        exact ⟨⟨⟨huser _ hend hfits.1.1.1, hfits.1.1.2⟩, hfits.1.2⟩, hfits.2⟩
      sizes := fun f hf => h.sizes f (List.mem_filter.mp hf).1
      avatarRows := by
        refine h.avatarRows.kept List.filter_sublist fun a ha hfits => ?_
        have hend := (List.mem_filter.mp ha).2
        simp only [userAvatars, Bool.and_eq_true, decide_eq_true_eq] at hend hfits ⊢
        exact ⟨huser _ hend hfits.1, hfits.2⟩
      jpegs := fun a ha => h.jpegs a (List.mem_filter.mp ha).1
      logRows := h.logRows.unwritten rfl rfl }

theorem Effect.intact (h : Intact db) (heffect : Effect env db me call r db') : Intact db' := by
  cases heffect with
  | kept _ => exact h
  | requested hother hnone haccepts => exact h.requested hother hnone haccepts
  | accepted _ _ _ _ => exact h.accepted _
  | declined => exact h.unfriended _
  | removed => exact h.unfriended _
  | shared hbefriended haccepts hnew => exact h.shared hbefriended haccepts hnew
  | sharedBefore _ _ => exact h
  | dismissed =>
    exact h.withShares (h.shareRows.kept List.filter_sublist fun _ _ hr => hr)
      fun s hs => h.sharesApart s (List.mem_filter.mp hs).1
  | pinged _ => exact h.pinged _ _
  | saved haccepts hnew =>
    exact h.withSaved (h.savedRows.added _ rfl rfl haccepts savedItems_clashes_comm hnew)
  | savedBefore _ => exact h
  | unsaved => exact h.withSaved (h.savedRows.kept List.filter_sublist fun _ _ hr => hr)
  | uploaded _ _ haccepts _ => exact h.uploaded haccepts
  | fileDeleted _ _ =>
    exact h.withFiles (h.fileRows.kept List.filter_sublist fun _ _ hr => hr)
      fun f hf => h.sizes f (List.mem_filter.mp hf).1
  | accountDeleted => exact h.without me

/-- A request makes no account. -/
theorem Effect.users_of (h : Effect env db me call r db') {u : Person} (hu : u ∈ db'.users) :
    ∃ v ∈ db.users, v.id = u.id := by
  cases h with
  | pinged _ =>
    obtain ⟨v, hv, rfl⟩ := List.mem_map.mp hu
    refine ⟨v, hv, ?_⟩
    split <;> rfl
  | accountDeleted => exact ⟨u, (List.mem_filter.mp hu).1, rfl⟩
  | _ => exact ⟨u, hu, rfl⟩

/-! ## One request to an account or avatar endpoint -/

section Profiles
open Accounts (User Deps Imaging ProfileEvent ProfileReply Cookie AvatarOutcome upsertAvatar avatarOf
  storeRow storeRow_ids mem_storeRow jpeg maxStoredBytes findById_some)

/-- At most one picture for each user, none without a user, and what the upload stores. -/
structure Pictures (users : List User) (avatars : List Avatar) : Prop where
  keys : (avatars.map Avatar.userId).Nodup
  owners : ∀ a ∈ avatars, ∃ u ∈ users, u.id = a.userId
  sizes : ∀ a ∈ avatars, a.data.length ≤ maxStoredBytes
  jpegs : ∀ a ∈ avatars, a.contentType = "image/jpeg"

variable {users users' : List User} {avatars : List Avatar} {u v : User}

theorem Pictures.filter (h : Pictures users avatars) (p : Avatar → Bool)
    (hkept : ∀ a ∈ avatars, p a = true → ∃ u ∈ users', u.id = a.userId) :
    Pictures users' (avatars.filter p) where
  keys := h.keys.sublist (List.filter_sublist.map _)
  owners a ha := hkept a (List.mem_filter.mp ha).1 (List.mem_filter.mp ha).2
  sizes a ha := h.sizes a (List.mem_filter.mp ha).1
  jpegs a ha := h.jpegs a (List.mem_filter.mp ha).1

theorem mem_ids_storeRow {id : ℕ} :
    (∃ u ∈ storeRow users v, u.id = id) ↔ ∃ u ∈ users, u.id = id := by
  have hids := congrArg (fun ids => id ∈ ids) (storeRow_ids users v)
  simpa only [List.mem_map, eq_iff_iff] using hids

theorem Pictures.store (h : Pictures users avatars) (v : User) :
    Pictures (storeRow users v) avatars :=
  ⟨h.keys, fun a ha => mem_ids_storeRow.mpr (h.owners a ha), h.sizes, h.jpegs⟩

theorem mem_upsertAvatar {a b : Avatar} (h : b ∈ upsertAvatar avatars a) : b ∈ avatars ∨ b = a := by
  unfold upsertAvatar at h
  split at h
  · obtain ⟨c, hc, rfl⟩ := List.mem_map.mp h
    split
    · exact .inr rfl
    · exact .inl hc
  · obtain hold | hnew := List.mem_append.mp h
    · exact .inl hold
    · exact .inr (List.mem_singleton.mp hnew)

theorem nodup_upsertAvatar (h : (avatars.map Avatar.userId).Nodup) (a : Avatar) :
    ((upsertAvatar avatars a).map Avatar.userId).Nodup := by
  unfold upsertAvatar
  split
  · have hsame : Avatar.userId ∘ (fun b : Avatar => if b.userId = a.userId then a else b) =
        Avatar.userId := by
      funext b
      simp only [Function.comp]
      split
      · next hb => exact hb.symm
      · rfl
    rw [List.map_map, hsame]
    exact h
  · next hnone =>
    have hfree : ∀ b ∈ avatars, b.userId ≠ a.userId := by
      rw [Bool.not_eq_true, Option.isSome_eq_false_iff, Option.isNone_iff_eq_none] at hnone
      intro b hb
      exact of_decide_eq_false (Bool.eq_false_of_not_eq_true (List.find?_eq_none.mp hnone b hb))
    rw [List.map_append, List.nodup_append]
    refine ⟨h, List.nodup_singleton _, ?_⟩
    intro id hid id' hid'
    obtain ⟨b, hb, rfl⟩ := List.mem_map.mp hid
    rw [List.map_singleton, List.mem_singleton] at hid'
    rw [hid']
    exact hfree b hb

theorem Pictures.upsert (h : Pictures users avatars) (hu : u ∈ users) {data : List UInt8}
    (hsize : data.length ≤ maxStoredBytes) :
    Pictures users (upsertAvatar avatars (jpeg u.id data)) where
  keys := nodup_upsertAvatar h.keys _
  owners a ha := by
    obtain hold | rfl := mem_upsertAvatar ha
    · exact h.owners a hold
    · exact ⟨u, hu, rfl⟩
  sizes a ha := by
    obtain hold | rfl := mem_upsertAvatar ha
    · exact h.sizes a hold
    · exact hsize
  jpegs a ha := by
    obtain hold | rfl := mem_upsertAvatar ha
    · exact h.jpegs a hold
    · rfl

variable {d : Deps} {im : Imaging} {p p' : Profiles} {ev : ProfileEvent} {reply : ProfileReply}

theorem serveProfile_pictures (h : Pictures p.world.db.users p.avatars)
    (hstep : Accounts.serveProfile d im p ev = some (p', reply)) :
    Pictures p'.world.db.users p'.avatars := by
  cases ev with
  | account e =>
    obtain ⟨⟨w, r⟩, _, hp⟩ := Option.map_eq_some_iff.mp hstep
    cases hp
    refine h.filter _ fun a _ hknown => ?_
    obtain ⟨u, hfind⟩ := Option.isSome_iff_exists.mp hknown
    exact ⟨u, (findById_some hfind).1, (findById_some hfind).2⟩
  | upload browser c now raw =>
    obtain ⟨hdb, havatars, _⟩ := Accounts.Profiles.answer_some hstep
    rw [hdb, havatars]
    obtain ⟨c', r, hrefused, _⟩ | ⟨u, data, hu, _, hsize, hstored⟩ :=
      Accounts.uploadAvatar_cases im p.world.db.users p.avatars c now raw
    · rw [hrefused]
      exact h
    · rw [hstored]
      exact (h.upsert hu hsize).store _
  | removeAvatar browser c =>
    obtain ⟨hdb, havatars, _⟩ := Accounts.Profiles.answer_some hstep
    rw [hdb, havatars]
    obtain ⟨c', r, hrefused⟩ | ⟨u, hu, _, hstored⟩ :=
      Accounts.deleteAvatar_cases p.world.db.users p.avatars c
    · rw [hrefused]
      exact h
    · rw [hstored]
      exact (h.filter _ fun a ha _ => h.owners a ha).store _

theorem unique_relinked {w : Accounts.Db} {c : Cookie} (h : w.Unique)
    (hrelinked : Accounts.Relinked w.users c users') : Accounts.Db.Unique { w with users := users' } := by
  obtain rfl | ⟨v, link, hv, _, rfl⟩ := hrelinked
  · exact h
  · exact h.store (h.no_conflict hv rfl rfl rfl)

theorem serveProfile_unique (h : p.world.db.Unique)
    (hstep : Accounts.serveProfile d im p ev = some (p', reply)) : p'.world.db.Unique := by
  cases ev with
  | account e =>
    obtain ⟨⟨w, r⟩, hserve, hp⟩ := Option.map_eq_some_iff.mp hstep
    cases hp
    obtain ⟨o, hserved, _, hdb, _, _⟩ := Accounts.serve_some hserve
    simp only [hdb]
    exact hserved.unique h
  | upload browser c now raw =>
    rw [(Accounts.Profiles.answer_some hstep).1]
    exact unique_relinked h Accounts.uploadAvatar_relinked
  | removeAvatar browser c =>
    rw [(Accounts.Profiles.answer_some hstep).1]
    exact unique_relinked h Accounts.deleteAvatar_relinked

/-! ### The unique keys of the accounts -/

theorem users_clashes_iff {u v : Person} : RowSecurity.users.clashes u v = true ↔
    (∃ e, u.email = some e ∧ v.email = some e) ∨
      ∃ sub, u.googleSub = some sub ∧ v.googleSub = some sub := by
  simp only [RowSecurity.users, Bool.or_eq_true, Bool.and_eq_true, decide_eq_true_eq,
    @eq_comm _ u.email, @eq_comm _ u.googleSub, Accounts.isSome_and_eq_iff]

theorem users_clashes_comm (u v : Person) :
    RowSecurity.users.clashes u v = RowSecurity.users.clashes v u := by
  rw [Bool.eq_iff_iff, users_clashes_iff, users_clashes_iff]
  simp only [and_comm]

theorem users_apart_iff {u v : Person} (hid : v.id ≠ u.id) :
    RowSecurity.users.clashes u v = false ↔ ¬ Accounts.Clash u.toUser v.toUser := by
  rw [← Bool.not_eq_true, users_clashes_iff]
  unfold Accounts.Clash
  rw [and_iff_right hid]

theorem hasUser_withProfiles (db : Db) (p : Profiles) (id : ℕ) :
    (withProfiles db p).hasUser id = knows p id := by
  unfold Db.hasUser withProfiles knows
  rw [List.any_map]
  rfl

theorem Intact.withProfiles (h : Intact db) (hok : p.world.db.Ok) (hunique : p.world.db.Unique)
    (hpictures : Pictures p.world.db.users p.avatars) : Intact (withProfiles db p) := by
  have hitem : ∀ id, (Store.withProfiles db p).hasItem id = db.hasItem id := fun _ => rfl
  refine
    { userRows := ⟨?_, fun _ _ => rfl, ?_⟩
      itemRows := h.itemRows.unwritten rfl rfl
      friendRows := ?_
      onePerPair := Friends.onePerPair_filter h.onePerPair _
      apart := fun f hf => h.apart f (List.mem_filter.mp hf).1
      shareRows := ?_
      sharesApart := fun s hs => h.sharesApart s (List.mem_filter.mp hs).1
      savedRows := ?_
      fileRows := ?_
      sizes := fun f hf => h.sizes f (List.mem_filter.mp hf).1
      avatarRows := ⟨?_, ?_, List.pairwise_of_forall fun _ _ => rfl⟩
      jpegs := ?_
      logRows := h.logRows.unwritten rfl rfl }
  · have hids : (RowSecurity.users.rows (Store.withProfiles db p)).map RowSecurity.users.key =
        p.world.db.users.map User.id := by
      simp [RowSecurity.users, Store.withProfiles, Function.comp_def]
    rw [hids]
    exact hok.ids_nodup
  · have hids : p.world.db.users.Pairwise fun u v => u.id ≠ v.id := List.pairwise_map.mp hok.ids_nodup
    refine List.pairwise_map.mpr (hids.imp_of_mem fun {u v} hu hv hne => ?_)
    exact (users_apart_iff hne.symm).mpr (hunique u hu v hv)
  · refine h.friendRows.kept List.filter_sublist fun f hf _ => ?_
    have hends := (List.mem_filter.mp hf).2
    simpa only [friendships, hasUser_withProfiles] using hends
  · refine h.shareRows.kept List.filter_sublist fun s hs hfits => ?_
    have hends := (List.mem_filter.mp hs).2
    simp only [sharedEvents, hasUser_withProfiles, hitem, Bool.and_eq_true] at hends hfits ⊢
    exact ⟨hends, hfits.2⟩
  · refine h.savedRows.kept List.filter_sublist fun s hs hfits => ?_
    have hend := (List.mem_filter.mp hs).2
    simp only [savedItems, hasUser_withProfiles, hitem, Bool.and_eq_true] at hend hfits ⊢
    exact ⟨hend, hfits.2⟩
  · refine h.fileRows.kept List.filter_sublist fun f hf hfits => ?_
    have hend := (List.mem_filter.mp hf).2
    simp only [userFiles, hasUser_withProfiles, hitem, Bool.and_eq_true] at hend hfits ⊢
    exact ⟨⟨⟨hend, hfits.1.1.2⟩, hfits.1.2⟩, hfits.2⟩
  · have hkeys : (userAvatars.rows (Store.withProfiles db p)).map userAvatars.key =
        p.avatars.map Avatar.userId := by
      simp [userAvatars, Store.withProfiles, ofAvatar, Function.comp_def]
    rw [hkeys]
    exact hpictures.keys
  · intro a ha
    obtain ⟨b, hb, rfl⟩ := List.mem_map.mp ha
    obtain ⟨u, hu, hid⟩ := hpictures.owners b hb
    simp only [userAvatars, hasUser_withProfiles, Bool.and_eq_true, decide_eq_true_eq]
    exact ⟨List.any_eq_true.mpr ⟨u, hu, decide_eq_true hid⟩, hpictures.sizes b hb⟩
  · intro a ha
    obtain ⟨b, hb, rfl⟩ := List.mem_map.mp ha
    exact hpictures.jpegs b hb

/-! ## Every run -/

/-- The tables are intact, and the next id of an account is new. -/
structure Site.Sound (s : Site) : Prop where
  intact : Intact s.db
  ids_lt : ∀ u ∈ s.db.users, u.id < s.nextUser

/-- What the account endpoints see of a sound site. -/
theorem Site.Sound.profiles {s : Site} (h : s.Sound) :
    s.profiles.world.db.Ok ∧ s.profiles.world.db.Unique ∧
      Pictures s.profiles.world.db.users s.profiles.avatars := by
  have hids : (s.db.users.map Person.toUser).map User.id = s.db.users.map fun u => u.id := by
    simp [Function.comp_def]
  refine ⟨⟨?_, ?_⟩, ?_, ?_, ?_, ?_, ?_⟩
  · intro u hu
    obtain ⟨v, hv, rfl⟩ := List.mem_map.mp hu
    exact h.ids_lt v hv
  · show ((s.db.users.map Person.toUser).map User.id).Nodup
    rw [hids]
    exact h.intact.userRows.keys
  · intro u hu v hv hclash
    obtain ⟨a, ha, rfl⟩ := List.mem_map.mp hu
    obtain ⟨b, hb, rfl⟩ := List.mem_map.mp hv
    have hne : a ≠ b := fun hab => hclash.1 (by rw [hab])
    have hsymm : Std.Symm fun u v : Person => RowSecurity.users.clashes u v = false :=
      ⟨fun u v huv => (users_clashes_comm v u).trans huv⟩
    exact (users_apart_iff hclash.1).mp (h.intact.userRows.unique.forall ha hb hne) hclash
  · have hkeys : s.profiles.avatars.map Avatar.userId = s.db.userAvatars.map UserAvatar.userId := by
      simp [Site.profiles, toAvatar, Function.comp_def]
    rw [hkeys]
    exact h.intact.avatarRows.keys
  · intro a ha
    obtain ⟨b, hb, rfl⟩ := List.mem_map.mp ha
    obtain ⟨u, hu, hid⟩ := List.any_eq_true.mp (h.intact.avatarOwner hb)
    exact ⟨u.toUser, List.mem_map_of_mem hu, of_decide_eq_true hid⟩
  · intro a ha
    obtain ⟨b, hb, rfl⟩ := List.mem_map.mp ha
    have hfits := h.intact.avatarRows.fits b hb
    simp only [userAvatars, Bool.and_eq_true, decide_eq_true_eq] at hfits
    exact hfits.2
  · intro a ha
    obtain ⟨b, hb, rfl⟩ := List.mem_map.mp ha
    exact h.intact.jpegs b hb

end Profiles

/-- A request behind `current_user` is one without a session, or of a user and as its effect says. -/
theorem authorized_cases (hkeys : db.Keyed) (env : Env) (role : Role) (c : Accounts.Cookie) (call : Call) :
    (authorized env role db c call).2.1 = db ∨ ∃ me, c.userId = some me ∧
      Effect env db me call (authorized env role db c call).1 (authorized env role db c call).2.1 := by
  unfold authorized
  cases c.userId with
  | none => exact .inl rfl
  | some me => exact .inr ⟨me, rfl, serve_effect env role hkeys me call⟩

theorem Intact.ingested (h : Intact db) {cards : List Item} (hext : isExtension db cards = true) :
    Intact { db with items := cards } := by
  simp only [isExtension, Bool.and_eq_true, decide_eq_true_eq, List.isPrefixOf_iff_prefix,
    List.all_eq_true] at hext
  obtain ⟨⟨⟨hkept, hkeys⟩, hkinds⟩, hunique⟩ := hext
  have hitem : ∀ id, db.hasItem id = true → Db.hasItem { db with items := cards } id = true := by
    intro id hid
    obtain ⟨i, hi, hkey⟩ := List.any_eq_true.mp hid
    obtain ⟨j, hj, hsame⟩ := List.mem_map.mp (hkept.subset (List.mem_map_of_mem hi))
    exact List.any_eq_true.mpr ⟨j, hj, by rw [hsame]; exact hkey⟩
  exact
    { userRows := h.userRows.unwritten rfl rfl
      itemRows := ⟨hkeys, hkinds, hunique⟩
      friendRows := h.friendRows.unwritten rfl rfl
      onePerPair := h.onePerPair
      apart := h.apart
      shareRows := by
        refine h.shareRows.kept (List.Sublist.refl _) fun s _ hfits => ?_
        simp only [sharedEvents, Bool.and_eq_true] at hfits ⊢
        exact ⟨hfits.1, hitem _ hfits.2⟩
      sharesApart := h.sharesApart
      savedRows := by
        refine h.savedRows.kept (List.Sublist.refl _) fun s _ hfits => ?_
        simp only [savedItems, Bool.and_eq_true] at hfits ⊢
        exact ⟨hfits.1, hitem _ hfits.2⟩
      fileRows := by
        refine h.fileRows.kept (List.Sublist.refl _) fun f _ hfits => ?_
        simp only [userFiles, Bool.and_eq_true] at hfits ⊢
        exact ⟨⟨⟨hfits.1.1.1, hitem _ hfits.1.1.2⟩, hfits.1.2⟩, hfits.2⟩
      sizes := h.sizes
      avatarRows := h.avatarRows.unwritten rfl rfl
      jpegs := h.jpegs
      logRows := h.logRows.unwritten rfl rfl }

theorem sound_empty : Site.Sound {} := ⟨intact_empty, fun _ hu => absurd hu List.not_mem_nil⟩

theorem Site.Sound.step {s s' : Site} {move : Move} {answer : Answer} (h : s.Sound)
    (hstep : s.step move = some (s', answer)) : s'.Sound := by
  cases move with
  | profile d im ev =>
    obtain ⟨p, r, hserve, _, rfl⟩ := Site.step_profile hstep
    obtain ⟨hok, hunique, hpictures⟩ := h.profiles
    obtain ⟨hok', _⟩ := Accounts.serveProfile_ok hok hserve
    refine ⟨h.intact.withProfiles hok' (serveProfile_unique hunique hserve)
      (serveProfile_pictures hpictures hserve), fun u hu => ?_⟩
    obtain ⟨v, hv, rfl⟩ := List.mem_map.mp hu
    exact hok'.ids_lt v hv
  | social env role browser cookie call =>
    obtain ⟨_, _, rfl⟩ := Site.step_social hstep
    obtain hsame | ⟨me, _, heffect⟩ := authorized_cases h.intact.keyed env role cookie call
    · simp only [hsame]
      exact ⟨h.intact, h.ids_lt⟩
    · refine ⟨heffect.intact h.intact, fun u hu => ?_⟩
      obtain ⟨v, hv, hid⟩ := heffect.users_of hu
      rw [← hid]
      exact h.ids_lt v hv
  | search log =>
    obtain ⟨haccepts, _, rfl⟩ := Site.step_search hstep
    exact ⟨h.intact.logged haccepts, h.ids_lt⟩
  | ingest cards =>
    obtain ⟨hext, _, rfl⟩ := Site.step_ingest hstep
    exact ⟨h.intact.ingested hext, h.ids_lt⟩

theorem reached_sound {G : Guard} {past : History} {s : Site} (h : Reached G past s) : s.Sound := by
  refine h.invariant_of_init (fun _ s => s.Sound) ?_ sound_empty
  rintro past s ⟨move, answer⟩ s' hs ⟨_, hstep⟩
  exact hs.step hstep

/-- From empty tables, whatever is requested, by whom and under which role, and whatever is searched and
ingested in between: the tables are intact. -/
theorem reached_intact {G : Guard} {past : History} {s : Site} (h : Reached G past s) : Intact s.db :=
  (reached_sound h).intact

theorem reached_intact_meeting : Intact (played meeting).2.db := reached_intact meeting_reached

end WarsawEvents.Store
