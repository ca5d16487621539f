import WarsawEvents.Store.Integrity
import WarsawEvents.Store.Listings

/-! # Deleting an account

`DELETE /me` removes the account and the rows that name it, and no other row; what goes is what
`GET /me/export` showed. Ids are not handed out again, so an account that was deleted stays forgotten
in every later state, and a session that still names it is turned away.
-/

namespace WarsawEvents.Store
set_option autoImplicit false

open RowSecurity
open Coupling
open Accounts (Profiles ProfileEvent ProfileReply Cookie Deps Imaging)

variable {env : Env} {db db' : Db} {me userId id : ℕ} {role : Role} {call : Call} {r : Response}

/-! ## Ids of accounts -/

theorem Effect.hasUser_of (h : Effect env db me call r db') (hid : db'.hasUser id = true) :
    db.hasUser id = true := by
  obtain ⟨u, hu, hkey⟩ := List.any_eq_true.mp hid
  obtain ⟨v, hv, hsame⟩ := h.users_of hu
  exact List.any_eq_true.mpr ⟨v, hv, by rwa [hsame]⟩

section Profiles
variable {d : Deps} {im : Imaging} {p p' : Profiles} {ev : ProfileEvent} {reply : ProfileReply}

/-- An account endpoint makes at most one account, under the next id. -/
theorem serveProfile_ids (hstep : Accounts.serveProfile d im p ev = some (p', reply))
    {u : Accounts.User} (hu : u ∈ p'.world.db.users) :
    (∃ v ∈ p.world.db.users, v.id = u.id) ∨ u.id = p.world.db.nextId := by
  have hrelinked : ∀ c users', Accounts.Relinked p.world.db.users c users' → u ∈ users' →
      ∃ v ∈ p.world.db.users, v.id = u.id := by
    rintro c users' (rfl | ⟨v, link, _, _, rfl⟩) hmem
    · exact ⟨u, hmem, rfl⟩
    · exact mem_ids_storeRow.mp ⟨u, hmem, rfl⟩
  cases ev with
  | account e =>
    obtain ⟨⟨w, r⟩, hserve, hp⟩ := Option.map_eq_some_iff.mp hstep
    cases hp
    obtain ⟨o, hserved, _, hdb, _, _⟩ := Accounts.serve_some hserve
    simp only at hu
    rw [hdb] at hu
    obtain hold | ⟨v, out, hrow, hcommit, _⟩ | hnew := hserved.row_origin hu
    · exact .inl ⟨u, hold, rfl⟩
    · exact .inl ⟨v, hrow.mem, (hrow.commit_id hcommit).symm⟩
    · exact .inr hnew.id
  | upload browser c now raw =>
    rw [(Accounts.Profiles.answer_some hstep).1] at hu
    exact .inl (hrelinked c _ Accounts.uploadAvatar_relinked hu)
  | removeAvatar browser c =>
    rw [(Accounts.Profiles.answer_some hstep).1] at hu
    exact .inl (hrelinked c _ Accounts.deleteAvatar_relinked hu)

end Profiles

/-- An id that was handed out and names nobody. -/
structure Retired (s : Site) (id : ℕ) : Prop where
  issued : id < s.nextUser
  gone : s.db.hasUser id = false

theorem Retired.step {s s' : Site} {move : Move} {answer : Answer} (hsound : s.Sound)
    (h : Retired s id) (hstep : s.step move = some (s', answer)) : Retired s' id := by
  cases move with
  | profile d im ev =>
    obtain ⟨p, r, hserve, _, rfl⟩ := Site.step_profile hstep
    obtain ⟨hok, _, _⟩ := hsound.profiles
    refine ⟨Nat.lt_of_lt_of_le h.issued (Accounts.serveProfile_ok hok hserve).2, ?_⟩
    rw [hasUser_withProfiles, ← Bool.not_eq_true]
    intro hknows
    obtain ⟨u, hu, hid⟩ := List.any_eq_true.mp hknows
    rw [decide_eq_true_eq] at hid
    obtain ⟨v, hv, hvid⟩ | hnew := serveProfile_ids hserve hu
    · obtain ⟨w, hw, rfl⟩ := List.mem_map.mp hv
      have hhas : s.db.hasUser id = true :=
        List.any_eq_true.mpr ⟨w, hw, decide_eq_true (hvid.trans hid)⟩
      rw [h.gone] at hhas
      cases hhas
    · have hlt : id < s.nextUser := h.issued
      have hnext : u.id = s.nextUser := hnew
      omega
  | social env role browser cookie call =>
    obtain ⟨_, _, rfl⟩ := Site.step_social hstep
    refine ⟨h.issued, ?_⟩
    obtain hsame | ⟨me, _, heffect⟩ := authorized_cases hsound.intact.keyed env role cookie call
    · simp only [hsame]
      exact h.gone
    · rw [← Bool.not_eq_true]
      intro hhas
      have hthere := heffect.hasUser_of hhas
      rw [h.gone] at hthere
      cases hthere
  | search log =>
    obtain ⟨_, _, rfl⟩ := Site.step_search hstep
    exact ⟨h.issued, h.gone⟩
  | ingest cards =>
    obtain ⟨_, _, rfl⟩ := Site.step_ingest hstep
    exact ⟨h.issued, h.gone⟩

/-! ## A deletion -/

/-- The request deleted the account `me`. -/
inductive Erases (me : ℕ) : Move × Answer → Prop
  | social {env : Env} {role : Role} {browser : ℕ} {cookie : Cookie} {currentPassword : Option String} :
      cookie.userId = some me →
      Erases me (.social env role browser cookie (.deleteMe currentPassword), .social (.status "deleted"))
  | account {d : Deps} {im : Imaging} {ev : Accounts.Event} {currentPassword : Option String} :
      ev.cookie.userId = some me → ev.request = .deleteMe currentPassword →
      Erases me (.profile d im (.account ev), .profile (.account (.status "deleted")))

theorem Effect.deleted {currentPassword : Option String} {status : String}
    (h : Effect env db me (.deleteMe currentPassword) (.status status) db') :
    db' = withoutAccount db me := by
  cases h with
  | kept hkept => simp [writes, acknowledged] at hkept
  | accepted hcall _ _ _ => simp at hcall
  | accountDeleted => rfl

theorem hasUser_withoutAccount (db : Db) (me : ℕ) : (withoutAccount db me).hasUser me = false := by
  unfold Db.hasUser
  rw [List.any_eq_false]
  intro u hu
  simpa using (List.mem_filter.mp hu).2

theorem deleteRefusal_http {d : Deps} {currentPassword : Option String} {u : Accounts.User}
    {reply : Accounts.Reply} (h : Accounts.deleteRefusal d currentPassword u = some reply) :
    ∃ code detail, reply = .http code detail := by
  unfold Accounts.deleteRefusal at h
  split at h
  · cases h
  · split at h
    · cases h
      exact ⟨_, _, rfl⟩
    · split_ifs at h
      cases h
      exact ⟨_, _, rfl⟩

theorem serve_deleted {d : Deps} {w w' : Accounts.World} {ev : Accounts.Event}
    {currentPassword : Option String} (hc : ev.cookie.userId = some me)
    (hrequest : ev.request = .deleteMe currentPassword)
    (h : Accounts.serve d w ev = some (w', .status "deleted")) :
    (∃ u ∈ w.db.users, u.id = me) ∧ w'.db.users = Accounts.eraseRow w.db.users me := by
  unfold Accounts.serve at h
  split_ifs at h
  simp only [Option.some.injEq, Prod.mk.injEq] at h
  obtain ⟨rfl, hreply⟩ := h
  rw [hrequest] at hreply ⊢
  simp only [Accounts.handle, Accounts.withCurrentUser, hc] at hreply ⊢
  cases hfind : Accounts.findById w.db.users me with
  | none =>
    rw [hfind] at hreply
    cases hreply
  | some u =>
    obtain ⟨hu, rfl⟩ := Accounts.findById_some hfind
    rw [hfind] at hreply
    simp only at hreply ⊢
    cases hrefusal : Accounts.deleteRefusal d currentPassword u with
    | some refusal =>
      obtain ⟨code, detail, rfl⟩ := deleteRefusal_http hrefusal
      rw [hrefusal] at hreply
      cases hreply
    | none => exact ⟨⟨u, hu, rfl⟩, rfl⟩

theorem Erases.retired {s s' : Site} {move : Move} {answer : Answer} (hsound : s.Sound)
    (h : Erases me (move, answer)) (hstep : s.step move = some (s', answer)) : Retired s' me := by
  cases h with
  | @social env role browser cookie currentPassword hc =>
    obtain ⟨_, hanswer, rfl⟩ := Site.step_social hstep
    simp only [Answer.social.injEq] at hanswer
    have hhas : s.db.hasUser me = true := by
      by_contra hnone
      unfold authorized at hanswer
      rw [hc] at hanswer
      simp only [serve_signedOut (Bool.eq_false_of_not_eq_true hnone)] at hanswer
      cases hanswer
    obtain ⟨u, hu, hid⟩ := List.any_eq_true.mp hhas
    obtain rfl : u.id = me := of_decide_eq_true hid
    have heffect : Effect env s.db u.id (.deleteMe currentPassword) (.status "deleted")
        (authorized env role s.db cookie (.deleteMe currentPassword)).2.1 := by
      rw [hanswer]
      unfold authorized
      rw [hc]
      exact serve_effect env role hsound.intact.keyed u.id _
    refine ⟨hsound.ids_lt u hu, ?_⟩
    simp only [heffect.deleted]
    exact hasUser_withoutAccount s.db u.id
  | @account d im ev currentPassword hc hrequest =>
    obtain ⟨p, r, hserve, hanswer, rfl⟩ := Site.step_profile hstep
    simp only [Answer.profile.injEq] at hanswer
    subst hanswer
    obtain ⟨⟨w, reply⟩, haccount, hp⟩ := Option.map_eq_some_iff.mp hserve
    simp only [Prod.mk.injEq, ProfileReply.account.injEq] at hp
    obtain ⟨rfl, rfl⟩ := hp
    obtain ⟨⟨u, hu, hid⟩, husers⟩ := serve_deleted hc hrequest haccount
    obtain ⟨hok, _, _⟩ := hsound.profiles
    have hnext := (Accounts.serveProfile_ok hok hserve).2
    refine ⟨?_, ?_⟩
    · rw [← hid]
      exact Nat.lt_of_lt_of_le (hok.ids_lt u hu) hnext
    · rw [hasUser_withProfiles]
      unfold knows
      simp only [husers, List.any_eq_false]
      intro v hv hvid
      exact (Accounts.mem_eraseRow.mp hv).2 (of_decide_eq_true hvid)

/-! ## Nothing is left of it -/

/-- No row names the account. -/
structure Forgotten (db : Db) (me : ℕ) : Prop where
  users : ∀ u ∈ db.users, u.id ≠ me
  friendships : ∀ f ∈ db.friendships, f.requesterId ≠ me ∧ f.addresseeId ≠ me
  sharedEvents : ∀ s ∈ db.sharedEvents, s.fromUserId ≠ me ∧ s.toUserId ≠ me
  savedItems : ∀ s ∈ db.savedItems, s.userId ≠ me
  userFiles : ∀ f ∈ db.userFiles, f.userId ≠ me
  userAvatars : ∀ a ∈ db.userAvatars, a.userId ≠ me

theorem Forgotten.of_gone (hgone : db.hasUser me = false) (hintact : Intact db) : Forgotten db me := by
  have hne : ∀ id, db.hasUser id = true → id ≠ me := by
    rintro id hid rfl
    rw [hgone] at hid
    cases hid
  refine ⟨?_, ?_, ?_, ?_, ?_, ?_⟩
  · exact fun u hu => hne u.id (List.any_eq_true.mpr ⟨u, hu, decide_eq_true rfl⟩)
  · intro f hf
    have hfits := hintact.friendRows.fits f hf
    simp only [RowSecurity.friendships, Bool.and_eq_true] at hfits
    exact ⟨hne _ hfits.1, hne _ hfits.2⟩
  · intro s hs
    have hfits := hintact.shareRows.fits s hs
    simp only [RowSecurity.sharedEvents, Bool.and_eq_true] at hfits
    exact ⟨hne _ hfits.1.1, hne _ hfits.1.2⟩
  · intro s hs
    have hfits := hintact.savedRows.fits s hs
    simp only [RowSecurity.savedItems, Bool.and_eq_true] at hfits
    exact hne _ hfits.1
  · intro f hf
    have hfits := hintact.fileRows.fits f hf
    simp only [RowSecurity.userFiles, Bool.and_eq_true] at hfits
    exact hne _ hfits.1.1.1
  · exact fun a ha => hne a.userId (hintact.avatarOwner ha)

/-! ## A session of nobody -/

def browserOf : ProfileEvent → ℕ
  | .account ev => ev.browser
  | .upload browser _ _ _ => browser
  | .removeAvatar browser _ => browser

def cookieOf : ProfileEvent → Cookie
  | .account ev => ev.cookie
  | .upload _ cookie _ _ => cookie
  | .removeAvatar _ cookie => cookie

/-- What an account or avatar endpoint answers when the session names nobody: the 401 of `current_user`,
or what `me` and `logout` answer; the callback, `register` and the two steps of a login do not read it. -/
def replyToNobody : ProfileEvent → Option ProfileReply
  | .account ev =>
    match ev.request with
    | .verify _ | .resend | .updateMe _ | .deleteMe _ => some (.account (.http 401 "Not authenticated"))
    | .me => some (.account .nobody)
    | .logout => some (.account (.status "ok"))
    | .callback _ | .register _ | .login _ _ | .login2fa _ => none
  | .upload _ _ _ _ | .removeAvatar _ _ => some (.avatar (.http 401 "Not authenticated"))

theorem lastSeenOf_mem (h : Intact db) {u : Person} (hu : u ∈ db.users) :
    lastSeenOf db.users u.id = u.lastSeenAt := by
  have hfind : db.users.find? (fun v => v.id = u.id) = some u := by
    cases hfound : db.users.find? (fun v => v.id = u.id) with
    | none => exact absurd (decide_eq_true rfl) (List.find?_eq_none.mp hfound u hu)
    | some v =>
      have hid : v.id = u.id := by simpa using List.find?_some hfound
      rw [List.inj_on_of_nodup_map h.userRows.keys (List.mem_of_find?_eq_some hfound) hu hid]
  unfold lastSeenOf
  rw [hfind]
  rfl

/-- An endpoint that leaves the accounts and the pictures as they are leaves every table so. -/
theorem withProfiles_same (h : Intact db) {p : Profiles}
    (husers : p.world.db.users = db.users.map Person.toUser)
    (havatars : p.avatars = db.userAvatars.map toAvatar) : withProfiles db p = db := by
  have hknows : ∀ id, knows p id = db.hasUser id := by
    intro id
    unfold knows Db.hasUser
    rw [husers, List.any_map]
    rfl
  have hpeople : (p.world.db.users.map fun u => ({ toUser := u, lastSeenAt := lastSeenOf db.users u.id } :
      Person)) = db.users := by
    rw [husers, List.map_map]
    refine (List.map_congr_left fun u hu => ?_).trans (List.map_id _)
    simp only [Function.comp, lastSeenOf_mem h hu, id_eq]
  have hfriendships : db.friendships.filter (fun f => knows p f.requesterId && knows p f.addresseeId) =
      db.friendships := List.filter_eq_self.mpr fun f hf => by
    simpa only [friendships, hknows] using h.friendRows.fits f hf
  have hshares : db.sharedEvents.filter (fun s => knows p s.fromUserId && knows p s.toUserId) =
      db.sharedEvents := List.filter_eq_self.mpr fun s hs => by
    have hfits := h.shareRows.fits s hs
    simp only [sharedEvents, Bool.and_eq_true] at hfits
    simp only [hknows, hfits.1.1, hfits.1.2, Bool.and_self]
  have hsaved : db.savedItems.filter (fun s => knows p s.userId) = db.savedItems :=
    List.filter_eq_self.mpr fun s hs => by
    have hfits := h.savedRows.fits s hs
    simp only [savedItems, Bool.and_eq_true] at hfits
    simp only [hknows, hfits.1]
  have hfiles : db.userFiles.filter (fun f => knows p f.userId) = db.userFiles :=
    List.filter_eq_self.mpr fun f hf => by
    have hfits := h.fileRows.fits f hf
    simp only [userFiles, Bool.and_eq_true] at hfits
    simp only [hknows, hfits.1.1.1]
  have hpictures : p.avatars.map ofAvatar = db.userAvatars := by
    rw [havatars, List.map_map]
    exact (List.map_congr_left fun _ _ => rfl).trans (List.map_id _)
  unfold withProfiles
  rw [hpeople, hfriendships, hshares, hsaved, hfiles, hpictures]

theorem cascade_same (h : Accounts.Profiles) (hpictures : Pictures h.world.db.users h.avatars) :
    Accounts.cascade h.world.db.users h.avatars = h.avatars := by
  refine List.filter_eq_self.mpr fun a ha => ?_
  obtain ⟨u, hu, hid⟩ := hpictures.owners a ha
  exact List.find?_isSome.mpr ⟨u, hu, decide_eq_true hid⟩

section Nobody
variable {d : Deps} {im : Imaging} {ev : ProfileEvent} {reply : ProfileReply}

theorem handle_nobody {e : Accounts.Event} {w : Accounts.Db} (h : replyToNobody (.account e) = some reply)
    (hc : e.cookie.userId = some me) (hgone : Accounts.findById w.users me = none) :
    ∃ r, reply = .account r ∧
      Accounts.handle d e.ambient w e.cookie e.request = { db := w, cookie := {}, reply := r } := by
  cases hrequest : e.request <;> simp only [replyToNobody, hrequest, reduceCtorEq, Option.some.injEq] at h
  all_goals
    subst h
    refine ⟨_, rfl, ?_⟩
    simp only [Accounts.handle, Accounts.withCurrentUser, hc, hgone]

/-- A request whose session names nobody gets that answer; the session is cleared, and nothing else
changes. -/
theorem serveProfile_nobody {p p' : Profiles} {reply' : ProfileReply}
    (h : replyToNobody ev = some reply) (hpictures : Pictures p.world.db.users p.avatars)
    (hc : (cookieOf ev).userId = some me) (hgone : Accounts.findById p.world.db.users me = none)
    (hserve : Accounts.serveProfile d im p ev = some (p', reply')) :
    reply' = reply ∧ p' =
      { p with world := { p.world with issued := p.world.issued ++ [(browserOf ev, {})] } } := by
  cases ev with
  | account e =>
    obtain ⟨r, rfl, hhandle⟩ := handle_nobody (d := d) h hc hgone
    obtain ⟨⟨w, r'⟩, haccount, hp⟩ := Option.map_eq_some_iff.mp hserve
    unfold Accounts.serve at haccount
    split_ifs at haccount
    rw [hhandle] at haccount
    cases haccount
    cases hp
    rw [cascade_same p hpictures]
    exact ⟨rfl, rfl⟩
  | upload browser c now raw =>
    have hnobody : Accounts.currentUserOr401 p.world.db.users c = .error {} := by
      unfold Accounts.currentUserOr401
      rw [show c.userId = some me from hc]
      simp only [hgone]
    simp only [Accounts.serveProfile, Accounts.uploadAvatar, hnobody, Accounts.Profiles.answer] at hserve
    split_ifs at hserve
    cases hserve
    cases h
    exact ⟨rfl, rfl⟩
  | removeAvatar browser c =>
    have hnobody : Accounts.currentUserOr401 p.world.db.users c = .error {} := by
      unfold Accounts.currentUserOr401
      rw [show c.userId = some me from hc]
      simp only [hgone]
    simp only [Accounts.serveProfile, Accounts.deleteAvatar, hnobody, Accounts.Profiles.answer] at hserve
    split_ifs at hserve
    cases hserve
    cases h
    exact ⟨rfl, rfl⟩

theorem Site.Sound.nobody {s s' : Site} {answer : Answer} (hsound : s.Sound)
    (hgone : s.db.hasUser me = false) (h : replyToNobody ev = some reply)
    (hc : (cookieOf ev).userId = some me) (hstep : s.step (.profile d im ev) = some (s', answer)) :
    answer = .profile reply ∧ s' = { s with issued := s.issued ++ [(browserOf ev, {})] } := by
  obtain ⟨p, r, hserve, rfl, rfl⟩ := Site.step_profile hstep
  obtain ⟨_, _, hpictures⟩ := hsound.profiles
  have hnone : Accounts.findById s.profiles.world.db.users me = none := by
    refine List.find?_eq_none.mpr fun u hu hid => ?_
    obtain ⟨v, hv, rfl⟩ := List.mem_map.mp hu
    exact List.any_eq_false.mp hgone v hv hid
  obtain ⟨rfl, rfl⟩ := serveProfile_nobody h hpictures hc hnone hserve
  rw [withProfiles_same hsound.intact rfl rfl]
  exact ⟨rfl, rfl⟩

end Nobody

theorem deleted_gone {G : Guard} {past : History} {s : Site} {e : Move × Answer}
    (h : Reached G past s) (hmem : e ∈ past) (herases : Erases me e) : Retired s me := by
  have hretired : s.Sound ∧ ∀ e ∈ past, Erases me e → Retired s me := by
    refine h.invariant_of_init
      (fun past s => s.Sound ∧ ∀ e ∈ past, Erases me e → Retired s me) ?_
      ⟨sound_empty, fun e he => absurd he List.not_mem_nil⟩
    rintro past s ⟨move, answer⟩ s' ⟨hsound, hpast⟩ ⟨_, hstep⟩
    refine ⟨hsound.step hstep, fun e he hdeletes => ?_⟩
    obtain hold | hnew := List.mem_append.mp he
    · exact (hpast e hold hdeletes).step hsound hstep
    · rw [List.mem_singleton.mp hnew] at hdeletes
      exact hdeletes.retired hsound hstep
  exact hretired.2 e hmem herases

/-- Once an account was deleted, in every later state: no row names it, no list of users shows it, and
a session that still names it is turned away and cleared, by the social endpoints and by those of the
accounts and the avatars. -/
theorem deleted_account_is_forgotten {G : Guard} {past : History} {s : Site} {e : Move × Answer}
    (h : Reached G past s) (hmem : e ∈ past) (herases : Erases me e) :
    Forgotten s.db me ∧
      (∀ (env : Env) (role : Role) (uid : ℕ) (l : Friends.Listing),
        ∀ u ∈ Friends.shownUsers (serve env role s.db uid l.call).1, u.id ≠ me) ∧
      (∀ (env : Env) (role : Role) (c : Cookie) (call : Call), c.userId = some me →
        authorized env role s.db c call = (.http 401 "Not authenticated", s.db, {})) ∧
      ∀ (d : Deps) (im : Imaging) (ev : ProfileEvent) (reply : ProfileReply) (s' : Site) (answer : Answer),
        replyToNobody ev = some reply → (cookieOf ev).userId = some me →
        s.step (.profile d im ev) = some (s', answer) →
        answer = .profile reply ∧ s' = { s with issued := s.issued ++ [(browserOf ev, {})] } := by
  have hsound := reached_sound h
  have hgone := (deleted_gone h hmem herases).gone
  have hforgotten := Forgotten.of_gone hgone hsound.intact
  refine ⟨hforgotten, ?_, ?_, ?_⟩
  · rintro env role uid l u hu rfl
    obtain ⟨v, hv, relation, rfl⟩ := serve_listing_shows env role uid l u hu
    exact hforgotten.users v hv rfl
  · intro env role c call hc
    unfold authorized
    rw [hc]
    simp [serve_signedOut hgone, hgone]
  · intro d im ev reply s' answer hreply hc hstep
    exact hsound.nobody hgone hreply hc hstep

/-- The user 0 of the meeting leaves. -/
theorem deleted_account_is_forgotten_meeting :
    ∃ s' : Site, took meeting (requests 0 .runtime (.deleteMe none)) =
      some (s', .social (.status "deleted")) ∧ Forgotten s'.db 0 := by
  obtain ⟨s', htook⟩ := took_some meeting (requests 0 .runtime (.deleteMe none))
    (.social (.status "deleted")) (by decide)
  exact ⟨s', htook, (deleted_account_is_forgotten (took_reached meeting (by decide) htook)
    (List.mem_append_right _ List.mem_cons_self) (Erases.social rfl)).1⟩

/-! ## The export and the deletion -/

/-- The rows that a table has lost. -/
def lost {ρ : Type} [DecidableEq ρ] (rows rest : List ρ) : List ρ := rows.filter fun r => !rest.contains r

theorem lost_filter {ρ : Type} [DecidableEq ρ] (rows : List ρ) (p : ρ → Bool) :
    lost rows (rows.filter p) = rows.filter fun r => !p r := by
  refine List.filter_congr fun r hr => ?_
  have hiff : (rows.filter p).contains r = p r := by
    rw [Bool.eq_iff_iff, List.contains_iff_mem, List.mem_filter]
    exact and_iff_right hr
  rw [hiff]

/-- `GET /me/export`: the caller's rows of four tables. -/
theorem serve_exportMe (env : Env) (role : Role) (hkeys : db.Keyed) (hme : db.hasUser me = true) :
    ∃ u ∈ db.users, u.id = me ∧ serve env role db me .exportMe =
      (.export
        { user := Accounts.userPayload u.toUser
          savedItems := (db.savedItems.filter fun s => s.userId = me).map fun s => (s.itemId, s.createdAt)
          friendships := (db.friendships.filter (Friendship.involves me)).map fun f =>
            (f.requesterId, f.addresseeId, f.status, f.createdAt)
          sharedEvents := (db.sharedEvents.filter fun s => s.fromUserId = me || s.toUserId = me).map
            fun s => (s.fromUserId, s.toUserId, s.itemId, s.createdAt)
          files := (db.userFiles.filter fun f => f.userId = me).map fun f =>
            (f.itemId, f.filename, f.contentType, f.size, f.createdAt) }, db, []) := by
  rw [Friends.serve_either env me .exportMe hkeys role rfl]
  obtain ⟨u, hhead, rfl⟩ := head?_of_hasUser hme
  refine ⟨u, (List.mem_filter.mp (List.mem_of_mem_head? hhead)).1, rfl, ?_⟩
  unfold serve
  rw [exec_current_user, hhead]
  simp only [Call.handler, exportMe]
  rw [exec_bind_ok (exec_select_owner rfl), exec_bind_ok (exec_select_owner rfl),
    exec_bind_ok (exec_select_owner rfl), exec_bind_ok (exec_select_owner rfl)]
  rfl

/-- The export of an account shows its row and exactly the friendships, shares, saved items and files
that a deletion takes away; the deletion takes nothing else from these tables. -/
theorem export_shows_what_deletion_takes {G : Guard} {past : History} {s : Site}
    (h : Reached G past s) (env env' : Env) (role role' : Role) (currentPassword : Option String)
    (hdeleted : (serve env' role' s.db me (.deleteMe currentPassword)).1 = .status "deleted") :
    ∃ e, (serve env role s.db me .exportMe).1 = .export e ∧
      (∃ u ∈ s.db.users, u.id = me ∧ e.user = Accounts.userPayload u.toUser) ∧
      ∀ db', db' = (serve env' role' s.db me (.deleteMe currentPassword)).2.1 →
        e.savedItems = (lost s.db.savedItems db'.savedItems).map (fun s => (s.itemId, s.createdAt)) ∧
        e.friendships = (lost s.db.friendships db'.friendships).map
          (fun f => (f.requesterId, f.addresseeId, f.status, f.createdAt)) ∧
        e.sharedEvents = (lost s.db.sharedEvents db'.sharedEvents).map
          (fun s => (s.fromUserId, s.toUserId, s.itemId, s.createdAt)) ∧
        e.files = (lost s.db.userFiles db'.userFiles).map
          (fun f => (f.itemId, f.filename, f.contentType, f.size, f.createdAt)) ∧
        db'.users = s.db.users.filter (fun u => u.id ≠ me) ∧ db'.items = s.db.items := by
  have hintact := (reached_sound h).intact
  have hme : s.db.hasUser me = true := by
    by_contra hnone
    rw [serve_signedOut (Bool.eq_false_of_not_eq_true hnone)] at hdeleted
    cases hdeleted
  obtain ⟨u, hu, hid, hexport⟩ := serve_exportMe env role hintact.keyed hme
  refine ⟨_, by rw [hexport], ⟨u, hu, hid, rfl⟩, ?_⟩
  rintro db' rfl
  have heffect := serve_effect env' role' hintact.keyed me (.deleteMe currentPassword)
  rw [hdeleted] at heffect
  rw [heffect.deleted]
  refine ⟨?_, ?_, ?_, ?_, rfl, rfl⟩
  · simp only [withoutAccount, lost_filter, ne_eq, decide_not, Bool.not_not]
  · simp only [withoutAccount, lost_filter, ne_eq, decide_not, Bool.not_and, Bool.not_not]
    rfl
  · simp only [withoutAccount, lost_filter, ne_eq, decide_not, Bool.not_and, Bool.not_not]
  · simp only [withoutAccount, lost_filter, ne_eq, decide_not, Bool.not_not]

theorem export_shows_what_deletion_takes_meeting :
    ∃ e, (serve plainEnv .runtime (played meeting).2.db 0 .exportMe).1 = .export e ∧
      e.savedItems = (lost (played meeting).2.db.savedItems
        (serve plainEnv .owner (played meeting).2.db 0 (.deleteMe none)).2.1.savedItems).map
          fun s => (s.itemId, s.createdAt) := by
  obtain ⟨e, hexport, _, hlost⟩ := export_shows_what_deletion_takes meeting_reached plainEnv
    plainEnv .runtime .owner none
    (show (serve plainEnv .owner (played meeting).2.db 0 (.deleteMe none)).1 = .status "deleted" by decide)
  exact ⟨e, hexport, (hlost _ rfl).1⟩

end WarsawEvents.Store
