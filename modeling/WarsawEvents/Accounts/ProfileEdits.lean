import WarsawEvents.Accounts.Avatars

/-! # What a sign-in does to the profile

Of all that the endpoints do to the row of an account, three things reach the name and the link to the
picture: `PATCH /me`, the two avatar endpoints, and Google's claims at every sign-in with Google. The
last one is no edit of the owner, and it overwrites the others.
-/

namespace WarsawEvents.Accounts
set_option autoImplicit false

/-! ## The two columns -/

/-- What the owner can edit and Google claims. -/
inductive Edit where
  | name
  | avatar
  deriving DecidableEq

def column : Edit → User → Option String
  | .name => User.name
  | .avatar => User.avatarUrl

def Edit.claimed : Edit → UserInfo → Option Text
  | .name => fun info => truthy info.name
  | .avatar => fun info => truthy info.picture

/-- The account that a callback signs in to, with the claims it brings. -/
def signedInTo (users : List User) : Request → Option (ℕ × UserInfo)
  | .callback (some info) =>
    (truthy info.sub).bind fun sub =>
      (googleRow users sub (truthy info.email)).map fun u => (u.id, info)
  | _ => none

/-- The owner's changes of the column that were accepted. -/
def changes (id : ℕ) : Edit → ProfileEvent × ProfileReply → Bool
  | .name, (.account ev, .account (.user _)) =>
    match ev.request with
    | .updateMe req => ev.cookie.userId = some id && req.name.isSome
    | _ => false
  | .avatar, (.upload _ cookie _ _, .avatar (.avatarUrl _)) => cookie.userId = some id
  | .avatar, (.removeAvatar _ cookie, .avatar .removed) => cookie.userId = some id
  | _, _ => false

/-- A sign-in with Google to this account claims nothing for the column, or what it holds. -/
def repeats (k : Edit) (id : ℕ) (users : List User) : ProfileEvent → Bool
  | .account ev =>
    match signedInTo users ev.request with
    | some (row, info) =>
      match k.claimed info with
      | some claim => row ≠ id || users.all fun u => u.id ≠ id || column k u = some claim.val
      | none => true
    | none => true
  | _ => true

/-- The request stored a value in the column, and its answer says so. -/
def Stores (id : ℕ) : Edit → ProfileEvent × ProfileReply → Option String → Prop
  | .name, (ev, reply), value => ∃ e req payload, ev = .account e ∧ e.request = .updateMe req ∧
      req.name ≠ none ∧ e.cookie.userId = some id ∧ reply = .account (.user payload) ∧
      payload.name = value
  | .avatar, (ev, reply), value => ∃ browser cookie now raw url, ev = .upload browser cookie now raw ∧
      cookie.userId = some id ∧ reply = .avatar (.avatarUrl url) ∧ value = some url

section
variable (d : Deps) (im : Imaging) (k : Edit) (id : ℕ)

/-- The owner changes nothing in this step. -/
def Unedited : ProfileGuard :=
  fun _ p ev => (serveProfile d im p ev).all fun r => !changes id k (ev, r.2)

/-- Neither does Google. -/
def NotOverwritten : ProfileGuard :=
  fun past p ev => Unedited d im k id past p ev ∧ repeats k id p.world.db.users ev = true

instance : ∀ past p ev, Decidable (Unedited d im k id past p ev) :=
  fun _ _ _ => inferInstanceAs (Decidable (_ = _))

instance : ∀ past p ev, Decidable (NotOverwritten d im k id past p ev) := fun _ _ _ => instDecidableAnd

end

variable {d : Deps} {im : Imaging} {amb : Ambient} {db : Db} {c : Cookie} {req : Request}
  {out : RowOutcome} {u v : User} {taken : Text → Bool} {k : Edit} {id : ℕ} {value : Option String}
  {p p' : Profiles} {ev : ProfileEvent} {reply : ProfileReply} {past : List (ProfileEvent × ProfileReply)}

/-! ## What a request does to a column -/

theorem column_voidPassword (k : Edit) (u : User) : column k (voidPassword u) = column k u := by
  unfold voidPassword
  split
  · cases k <;> rfl
  · rfl

theorem column_assertGoogle (k : Edit) (sub : Text) (info : UserInfo) (u : User) :
    column k (assertGoogle sub info u) = ((k.claimed info).map Subtype.val).or (column k u) := by
  cases k <;> rfl

theorem column_editProfile {q : UpdateMeRequest} (h : k = .avatar ∨ q.name = none) :
    column k (editProfile q u) = column k u := by
  rcases h with rfl | hname
  · exact editProfile_avatarUrl q u
  · cases k with
    | name => exact editProfile_name q u hname
    | avatar => exact editProfile_avatarUrl q u

theorem refuse_silent (c : Cookie) (code : ℕ) (detail : String) :
    (refuse c code detail).commit = none ∧
      ∀ payload, (refuse c code detail).reply ≠ .user payload := by
  refine ⟨rfl, ?_⟩
  rintro payload h
  cases h

variable (d amb taken c u) in
/-- `PATCH /me` answers with the row that it commits, or commits nothing. -/
theorem updateMe_cases (q : UpdateMeRequest) :
    ((updateMe d amb taken c q u).commit = none ∧
      ∀ payload, (updateMe d amb taken c q u).reply ≠ .user payload) ∨
    ∃ w, (updateMe d amb taken c q u).commit = some w ∧
      (updateMe d amb taken c q u).reply = .user (userPayload w) := by
  unfold updateMe
  simp only
  split
  · exact Or.inl (refuse_silent _ _ _)
  · split
    · exact Or.inl (refuse_silent _ _ _)
    · split
      · exact Or.inl (refuse_silent _ _ _)
      · split
        · exact Or.inl (refuse_silent _ _ _)
        · split
          · exact Or.inl (refuse_silent _ _ _)
          · split
            · split
              · exact Or.inl (refuse_silent _ _ _)
              · exact Or.inr ⟨_, rfl, rfl⟩
            · exact Or.inr ⟨_, rfl, rfl⟩

/-- A committed row has the column it had, except after an edit of it or a claim of Google's. -/
theorem RowServed.keeps_column (h : RowServed d amb db c req u out) (hv : out.commit = some v)
    (k : Edit) :
    column k v = column k u ∨
    (∃ info, signedInTo db.users req = some (u.id, info) ∧
      column k v = ((k.claimed info).map Subtype.val).or (column k u)) ∨
    ∃ q payload, k = .name ∧ req = .updateMe q ∧ q.name ≠ none ∧ c.userId = some u.id ∧
      out.reply = .user payload := by
  cases h with
  | @callbackSub info sub _ hsub hfind =>
    simp only [googleOutcome, Option.some.injEq] at hv
    refine Or.inr (Or.inl ⟨info, ?_, ?_⟩)
    · simp [signedInTo, googleRow, hsub, hfind]
    · rw [← hv, column_assertGoogle]
  | @callbackEmail info sub e _ hsub hfind he hu =>
    simp only [googleOutcome, Option.some.injEq] at hv
    refine Or.inr (Or.inl ⟨info, ?_, ?_⟩)
    · simp [signedInTo, googleRow, hsub, hfind, he, hu]
    · rw [← hv, column_assertGoogle, column_voidPassword]
  | login _ =>
    obtain ⟨_, _, rfl⟩ := login_commit hv
    cases k <;> exact Or.inl rfl
  | login2fa _ _ =>
    obtain ⟨_, ⟨_, rfl⟩ | ⟨_, rfl⟩⟩ := login2fa_commit hv <;> cases k <;> exact Or.inl rfl
  | verify _ _ =>
    obtain ⟨_, rfl⟩ | ⟨_, ⟨_, _, _, rfl⟩ | ⟨_, _, _, rfl⟩ | ⟨_, _, rfl⟩⟩ := verifyEmail_commit hv <;>
      cases k <;> exact Or.inl rfl
  | resend _ _ =>
    obtain ⟨m, hm, _⟩ := resendVerification_commit hv
    obtain ⟨_, _, _, rfl⟩ := issueVerification_some hm
    cases k <;> exact Or.inl rfl
  | @updateMe q _ _ hc =>
    by_cases hedit : k = .name ∧ q.name ≠ none
    · obtain ⟨hnone, _⟩ | ⟨w, _, hreply⟩ := updateMe_cases d amb c u (emailTaken db.users u.id) q
      · rw [hnone] at hv
        cases hv
      · exact Or.inr (Or.inr ⟨q, _, hedit.1, rfl, hedit.2, hc, hreply⟩)
    · have hkeep : k = .avatar ∨ q.name = none := by
        cases k with
        | name => exact Or.inr (by simpa using hedit)
        | avatar => exact Or.inl rfl
      left
      obtain ⟨_, m, _, _, hm, _⟩ | ⟨_, _, rfl⟩ := updateMe_commit hv
      · obtain ⟨_, _, _, rfl⟩ := issueVerification_some hm
        refine Eq.trans ?_ (column_editProfile hkeep)
        cases k <;> rfl
      · refine Eq.trans ?_ (column_editProfile hkeep)
        split
        · cases k <;> rfl
        · rfl

/-! ## What a request stores -/

theorem updateMe_onConflict {q : UpdateMeRequest} :
    (updateMe d amb taken c q u).onConflict = .serverError := by
  unfold updateMe
  simp only
  repeat' split
  all_goals rfl

/-- `settle` answers with a row only when it stored the one committed. -/
theorem settle_reply {o : RowOutcome} {payload : UserPayload} (hconflict : o.onConflict = .serverError)
    (h : (settle db c o).reply = .user payload) : o.reply = .user payload ∧
      ∀ v, o.commit = some v → (settle db c o).db.users = storeRow db.users v := by
  unfold settle at h ⊢
  split at h
  · rename_i hnone
    refine ⟨h, fun v hv => ?_⟩
    rw [hnone] at hv
    cases hv
  · rename_i w hw
    split at h
    · rw [hconflict] at h
      cases h
    · rename_i hno
      refine ⟨h, fun v hv => ?_⟩
      rw [hv] at hw
      cases hw
      rw [if_neg hno]

/-- An accepted edit is of an account there is, which has the value afterwards. -/
theorem stored_value (hstep : serveProfile d im p ev = some (p', reply))
    (hstores : Stores id k (ev, reply) value) : (∃ u ∈ p.world.db.users, u.id = id) ∧
      ∀ v ∈ p'.world.db.users, v.id = id → column k v = value := by
  cases k with
  | name =>
    obtain ⟨e, q, payload, rfl, hq, _, hcookie, rfl, hname⟩ := hstores
    obtain ⟨⟨w, r⟩, hserve, hp⟩ := Option.map_eq_some_iff.mp hstep
    cases hp
    unfold serve at hserve
    split at hserve
    · simp only [hq, Option.some.injEq, Prod.mk.injEq] at hserve
      obtain ⟨rfl, hreply⟩ := hserve
      simp only [handle, withCurrentUser, hcookie] at hreply ⊢
      split at hreply
      · cases hreply
      · rename_i u hu
        obtain ⟨hmem, rfl⟩ := findById_some hu
        obtain ⟨hrow, hstored⟩ := settle_reply updateMe_onConflict hreply
        obtain ⟨_, hno⟩ | ⟨w, hcommit, hpayload⟩ := updateMe_cases d e.ambient
          e.cookie u (emailTaken p.world.db.users u.id) q
        · exact absurd hrow (hno payload)
        rw [hpayload] at hrow
        cases hrow
        refine ⟨⟨u, hmem, rfl⟩, fun v hv hid => ?_⟩
        rw [hstored w hcommit] at hv
        have hw : w.id = u.id := (RowServed.updateMe hmem hcookie).commit_id hcommit
        rcases mem_storeRow hv with rfl | ⟨_, hne⟩
        · exact hname
        · exact absurd (hid.trans hw.symm) hne
    · cases hserve
  | avatar =>
    obtain ⟨browser, c, now, raw, url, rfl, hcookie, rfl, rfl⟩ := hstores
    obtain ⟨hdb, _, hreply⟩ := Profiles.answer_some hstep
    obtain ⟨c', r, h, hno⟩ | ⟨u, data, hmem, hid, _, h⟩ :=
      uploadAvatar_cases im p.world.db.users p.avatars c now raw
    · rw [h] at hreply
      exact absurd (ProfileReply.avatar.inj hreply).symm (hno url)
    · rw [h] at hreply hdb
      cases ProfileReply.avatar.inj hreply
      rw [hcookie] at hid
      have hsame : id = u.id := Option.some.inj hid
      refine ⟨⟨u, hmem, hsame.symm⟩, fun v hv hvid => ?_⟩
      rw [hdb] at hv
      rcases mem_storeRow hv with rfl | ⟨_, hne⟩
      · rfl
      · exact absurd (hvid.trans hsame) hne

/-! ## What every request keeps -/

/-- The account exists or once did, and its column holds the value. -/
structure Holds (k : Edit) (id : ℕ) (value : Option String) (p : Profiles) : Prop where
  ok : p.world.db.Ok
  below : id < p.world.db.nextId
  value : ∀ u ∈ p.world.db.users, u.id = id → column k u = value

theorem value_of_relinked {users users' : List User} (hrelinked : Relinked users c users')
    (hother : k = .avatar → users' = users ∨ c.userId ≠ some id)
    (h : ∀ u ∈ users, u.id = id → column k u = value) :
    ∀ v ∈ users', v.id = id → column k v = value := by
  rcases hrelinked with rfl | ⟨u, link, hmem, hid, rfl⟩
  · exact h
  · intro v hv hvid
    rcases mem_storeRow hv with rfl | ⟨hold, _⟩
    · cases k with
      | name => exact h u hmem hvid
      | avatar =>
        have hsame : u.id = id := hvid
        rcases hother rfl with hrows | hcookie
        · rw [hrows] at hv
          exact h _ hv hvid
        · exact absurd (hsame ▸ hid) hcookie
    · exact h v hold hvid

/-- A request to the account endpoints that changes nothing, and overwrites nothing, keeps the value. -/
theorem Holds.account {e : Event} {w : World} {r : Reply} (h : Holds k id value p)
    (hserve : serve d p.world e = some (w, r))
    (hedit : changes id k (.account e, .account r) = false)
    (hrepeat : repeats k id p.world.db.users (.account e) = true) :
    ∀ v ∈ w.db.users, v.id = id → column k v = value := by
  obtain ⟨o, hs, _, hdb, _, rfl⟩ := serve_some hserve
  rw [hdb]
  intro v hv hid
  obtain hmem | ⟨u, out, hrow, hcommit, hout⟩ | hins := hs.row_origin hv
  · exact h.value v hmem hid
  · have hu : u.id = id := by rw [← hid, hrow.commit_id hcommit]
    have hvalue : column k u = value := h.value u hrow.mem hu
    obtain hsame | ⟨info, hsigned, hclaim⟩ |
        ⟨q, payload, rfl, hq, hname, hcookie, hreply⟩ := hrow.keeps_column hcommit k
    · rw [hsame, hvalue]
    · rw [hclaim]
      simp only [repeats, hsigned, hu] at hrepeat
      cases hclaimed : k.claimed info with
      | none => simpa using hvalue
      | some claim =>
        simp only [hclaimed, ne_eq, not_true_eq_false, decide_false, Bool.false_or,
          List.all_eq_true, Bool.or_eq_true, decide_eq_true_eq] at hrepeat
        rcases hrepeat u hrow.mem with hne | hcolumn
        · exact absurd hu hne
        · rw [← hvalue, hcolumn]
          rfl
    · rw [hout, hreply] at hedit
      simp only [changes, hq, hcookie, hu] at hedit
      cases hn : q.name with
      | none => exact absurd hn hname
      | some n => simp [hn] at hedit
  · have hlt := h.below
    rw [← hid, hins.id] at hlt
    omega

theorem Holds.step (h : Holds k id value p) (hstep : serveProfile d im p ev = some (p', reply))
    (hkeep : NotOverwritten d im k id past p ev) : Holds k id value p' := by
  obtain ⟨hedit, hrepeat⟩ := hkeep
  unfold Unedited at hedit
  rw [hstep, Option.all_some, Bool.not_eq_true'] at hedit
  obtain ⟨hok, hle⟩ := serveProfile_ok h.ok hstep
  refine ⟨hok, Nat.lt_of_lt_of_le h.below hle, ?_⟩
  cases ev with
  | account e =>
    obtain ⟨⟨w, r⟩, hserve, hp⟩ := Option.map_eq_some_iff.mp hstep
    cases hp
    exact h.account hserve hedit hrepeat
  | upload browser c now raw =>
    obtain ⟨hdb, _, rfl⟩ := Profiles.answer_some hstep
    rw [hdb]
    refine value_of_relinked uploadAvatar_relinked ?_ h.value
    rintro rfl
    obtain ⟨c', r, hrefused, _⟩ | ⟨u, data, _, hid, _, hstored⟩ :=
      uploadAvatar_cases im p.world.db.users p.avatars c now raw
    · left
      rw [hrefused]
      rfl
    · right
      intro hcookie
      rw [hstored] at hedit
      simp [changes, hcookie] at hedit
  | removeAvatar browser c =>
    obtain ⟨hdb, _, rfl⟩ := Profiles.answer_some hstep
    rw [hdb]
    refine value_of_relinked deleteAvatar_relinked ?_ h.value
    rintro rfl
    obtain ⟨c', r, hrefused⟩ | ⟨u, _, hid, hremoved⟩ :=
      deleteAvatar_cases p.world.db.users p.avatars c
    · left
      rw [hrefused]
      rfl
    · right
      intro hcookie
      rw [hremoved] at hedit
      simp [changes, hcookie] at hedit

/-- In a run without further edits, in which Google's claims repeat what the account has, the value
that an edit stored stays. -/
theorem profile_edits_survive {l : ProfileEvent × ProfileReply} {p₁ p₂ : Profiles}
    {post : List (ProfileEvent × ProfileReply)} (hpre : ProfileReached d im Runs.anyStep past p)
    (hstep : serveProfile d im p l.1 = some (p₁, l.2)) (hstores : Stores id k l value)
    (hpost : Runs.Run (Runs.guarded (NotOverwritten d im k id) (serveProfile d im)) (past ++ [l])
      p₁ post p₂) :
    ∀ u ∈ p₂.world.db.users, u.id = id → column k u = value := by
  obtain ⟨hok, hle⟩ := serveProfile_ok hpre.ok hstep
  obtain ⟨⟨u, hmem, rfl⟩, hvalue⟩ := stored_value hstep hstores
  have hstart : Holds k u.id value p₁ :=
    ⟨hok, Nat.lt_of_lt_of_le (hpre.ok.ids_lt u hmem) hle, hvalue⟩
  have hend : Holds k u.id value p₂ := by
    refine hpost.invariant (fun _ p => Holds k u.id value p) ?_ hstart
    rintro past p ⟨ev, reply⟩ p' h ⟨hkeep, hstep⟩
    exact h.step hstep hkeep
  exact hend.value

/-! ## A name that Google takes back -/

/-- A Pillow that takes every image as it is. -/
def plainImages : Imaging := { process := fun raw => .ok raw }

theorem nameB_length : ((some (some "B") : Option (Option String)).join.getD "").length ≤ 100 := by
  decide

theorem noPassword_length : ((none : Option String).getD "").length ≤ maxPasswordBytes := by decide

def nameB : UpdateMeRequest where
  name := some (some "B")
  nameLength := nameB_length
  passwordLength := noPassword_length

/-- The owner's sign-in with Google, which claims this name. -/
def signInAs (browser : ℕ) (name : Option String) : ProfileEvent :=
  .account (sends browser {} (.callback (some { userInfoA with name := name })))

def renameToB : ProfileEvent := .account (sends 1 firstCookie (.updateMe nameB))

/-- The run of these requests from the empty tables. -/
def profileRun (G : ProfileGuard) [∀ past p ev, Decidable (G past p ev)]
    (start : List (ProfileEvent × ProfileReply) × Profiles) (evs : List ProfileEvent) :
    List (ProfileEvent × ProfileReply) × Profiles :=
  (Runs.replay G (serveProfile transparent plainImages) start.1 start.2 evs).getD ([], {})

def withGoogle : List (ProfileEvent × ProfileReply) × Profiles :=
  profileRun Runs.anyStep ([], {}) [signInAs 1 (some "A")]

/-- The tables after the owner's `PATCH /me`, and its answer. -/
def renamed : Profiles × ProfileReply :=
  (serveProfile transparent plainImages withGoogle.2 renameToB).getD ({}, .avatar .removed)

def historyWithB : List (ProfileEvent × ProfileReply) := withGoogle.1 ++ [(renameToB, renamed.2)]

/-- A sign-in that claims no name. -/
def namelessSignIn : List (ProfileEvent × ProfileReply) × Profiles :=
  profileRun (NotOverwritten transparent plainImages .name 0) (historyWithB, renamed.1) [signInAs 2 none]

def signedInAgain : List (ProfileEvent × ProfileReply) × Profiles :=
  profileRun (Unedited transparent plainImages .name 0) (historyWithB, renamed.1) [signInAs 2 (some "A")]

theorem withGoogle_reached : ProfileReached transparent plainImages Runs.anyStep withGoogle.1 withGoogle.2 :=
  Runs.replay_getD_run _ _ _ _ _ _ (by decide +kernel)

theorem renamed_step : serveProfile transparent plainImages withGoogle.2 renameToB = some renamed := by
  obtain ⟨r, hr⟩ := Option.isSome_iff_exists.mp
    (show (serveProfile transparent plainImages withGoogle.2 renameToB).isSome = true by decide +kernel)
  unfold renamed
  rw [hr]
  rfl

theorem renamed_stores : Stores 0 .name (renameToB, renamed.2) (some "B") :=
  ⟨_, _, _, rfl, rfl, by decide, rfl, rfl, rfl⟩

theorem profile_edits_survive_nameless :
    namelessSignIn.2.world.db.users.length = 1 ∧
      ∀ u ∈ namelessSignIn.2.world.db.users, u.id = 0 → column .name u = some "B" := by
  refine ⟨by decide +kernel, ?_⟩
  exact profile_edits_survive (l := (renameToB, renamed.2)) withGoogle_reached renamed_step
    renamed_stores (Runs.replay_getD_run _ _ _ _ _ _ (by decide +kernel))

/-- Google's name replaces the one that the owner chose. -/
theorem google_name_returns :
    ¬ ∀ (d : Deps) (im : Imaging) (k : Edit) (id : ℕ) (value : Option String)
      (past post : List (ProfileEvent × ProfileReply)) (l : ProfileEvent × ProfileReply)
      (p p₁ p₂ : Profiles), ProfileReached d im Runs.anyStep past p →
      serveProfile d im p l.1 = some (p₁, l.2) → Stores id k l value →
      Runs.Run (Runs.guarded (Unedited d im k id) (serveProfile d im)) (past ++ [l]) p₁ post p₂ →
      ∀ u ∈ p₂.world.db.users, u.id = id → column k u = value := by
  intro h
  have hkept := h transparent plainImages .name 0 (some "B") withGoogle.1 _ (renameToB, renamed.2)
    withGoogle.2 renamed.1 signedInAgain.2 withGoogle_reached renamed_step renamed_stores
    (Runs.replay_getD_run _ _ _ _ _ _ (by decide +kernel))
  have hlost : ∃ u ∈ signedInAgain.2.world.db.users, u.id = 0 ∧ column .name u = some "A" := by
    decide +kernel
  obtain ⟨u, hu, hid, hname⟩ := hlost
  rw [hkept u hu hid] at hname
  exact absurd hname (by decide)

end WarsawEvents.Accounts
