import WarsawEvents.Accounts.Reachable

/-! # What survives a Google link

`auth_callback` voids the password of an account it links by its address: whoever registered that
address first must not be able to act as the account afterwards. The link ends the password, the
second factor and the parked cookie. It does not end a session cookie handed out before, and a later
callback for another subject at the same address gets in as well.

`LinksAlone` asks of a callback that links a row that neither is the case. Then only browsers that
completed a callback for the subject act as the account.
-/

namespace WarsawEvents.Accounts
set_option autoImplicit false

/-! ## Statement -/

/-- The account `current_user` resolves a cookie to. -/
def currentUser (db : Db) (c : Cookie) : Option User := c.userId.bind (findById db.users)

/-- The browser itself completed a callback for the subject. -/
def Completed (past : History) (browser : ℕ) (sub : Text) : Prop :=
  ∃ l ∈ past, l.1.browser = browser ∧ l.1.request.subject = some sub ∧ l.2 = .redirect ""

instance (past : History) (browser : ℕ) (sub : Text) : Decidable (Completed past browser sub) :=
  inferInstanceAs (Decidable (∃ l ∈ past, l.1.browser = browser ∧
    l.1.request.subject = some sub ∧ l.2 = .redirect ""))

/-- The account a sign-up made. -/
def registers : Event × Reply → Option ℕ
  | ({ request := .register _, .. }, .user p) => some p.id
  | _ => none

def Registered (past : History) (id : ℕ) : Prop := ∃ l ∈ past, registers l = some id

instance (past : History) (id : ℕ) : Decidable (Registered past id) :=
  inferInstanceAs (Decidable (∃ l ∈ past, registers l = some id))

/-- The row a callback is about to link is safe to link: if it came from a sign-up, no other subject
has it, and if it still has its password, nobody else holds a cookie for it. -/
def LinkAlone (past : History) (w : World) (browser : ℕ) (sub : Text) (u : User) : Prop :=
  (Registered past u.id → u.googleSub = none) ∧
    (u.passwordHash.isSome = true → ∀ held ∈ w.issued, held.2.userId = some u.id →
      held.1 = browser ∨ Completed past held.1 sub)

def LinksAlone : Guard := fun past w ev =>
  ∀ l ∈ linkedRow w.db.users ev.request, LinkAlone past w ev.browser l.1 l.2

instance : ∀ past w ev, Decidable (LinksAlone past w ev) := fun past w ev =>
  inferInstanceAs (Decidable (∀ l ∈ linkedRow w.db.users ev.request,
    (Registered past l.2.id → l.2.googleSub = none) ∧
      (l.2.passwordHash.isSome = true → ∀ held ∈ w.issued, held.2.userId = some l.2.id →
        held.1 = ev.browser ∨ Completed past held.1 l.1)))

theorem Completed.mono {past : History} {browser : ℕ} {sub : Text} (h : Completed past browser sub)
    (l : Event × Reply) : Completed (past ++ [l]) browser sub := by
  obtain ⟨l', hl', h'⟩ := h
  exact ⟨l', List.mem_append_left _ hl', h'⟩

theorem Registered.mono {past : History} {id : ℕ} (h : Registered past id) (l : Event × Reply) :
    Registered (past ++ [l]) id := by
  obtain ⟨l', hl', h'⟩ := h
  exact ⟨l', List.mem_append_left _ hl', h'⟩

variable {d : Deps} {amb : Ambient} {db : Db} {c : Cookie} {req : Request} {o : Outcome}
  {out : RowOutcome} {u v : User} {past : History} {ev : Event} {r : Reply}

/-! ## Passwords -/

/-- A row with a password was made by a sign-up and has no Google subject. -/
def PasswordRow (past : History) (v : User) : Prop :=
  v.passwordHash.isSome = true → v.googleSub = none ∧ Registered past v.id

theorem PasswordRow.mono (h : PasswordRow past v) (l : Event × Reply) :
    PasswordRow (past ++ [l]) v := by
  intro hpw
  obtain ⟨hsub, hreg⟩ := h hpw
  exact ⟨hsub, hreg.mono l⟩

theorem RowServed.passwordRow (h : RowServed d amb db c req u out) (hv : out.commit = some v)
    (hI : PasswordRow past u) : PasswordRow past v := by
  intro hpw
  have hid := h.commit_id hv
  obtain ⟨info, sub, _, _, ⟨hu, rfl⟩ | ⟨_, _, rfl⟩⟩ | ⟨_, hsub, hpass⟩ := h.callback_or hv
  · rw [assertGoogle_passwordHash] at hpw
    have hnone := (hI hpw).1
    rw [hu] at hnone
    cases hnone
  · simp at hpw
  · rw [hpass] at hpw
    rw [hsub, hid]
    exact hI hpw

theorem Served.passwordRow (h : Served d ev.ambient db ev.cookie ev.request o)
    (hI : ∀ u ∈ db.users, PasswordRow past u) (hv : v ∈ o.db.users) :
    PasswordRow (past ++ [(ev, o.reply)]) v := by
  obtain hmem | ⟨u, out, hrow, hc, _⟩ | hins := h.row_origin hv
  · exact (hI v hmem).mono _
  · exact (hrow.passwordRow hc (hI u hrow.mem)).mono _
  · intro hpw
    obtain ⟨info, sub, _, _, _, rfl⟩ | ⟨q, hash, m, hreq, hr, hissue⟩ := hins
    · cases hpw
    · obtain ⟨_, _, _, rfl⟩ := issueVerification_some hissue
      refine ⟨rfl, (ev, o.reply), by simp, ?_⟩
      rw [hr]
      cases ev with
      | mk browser cookie request ambient =>
        cases hreq
        rfl

theorem Reached.passwordRow {G : Guard} {w : World} (h : Reached d G past w) :
    ∀ v ∈ w.db.users, PasswordRow past v := by
  refine h.invariant_of_init (fun past w => ∀ v ∈ w.db.users, PasswordRow past v) ?_ (by simp)
  rintro past w ⟨ev, r⟩ w' hI ⟨_, hstep⟩ v hv
  obtain ⟨o, hs, _, hdb, _, rfl⟩ := serve_some hstep
  rw [hdb] at hv
  exact hs.passwordRow hI hv

/-! ## The linked account -/

/-- The second factor of a Google account stays as it is outside a callback. -/
theorem RowServed.twoFactor (h : RowServed d amb db c req u out) (hv : out.commit = some v)
    (hsub : u.googleSub ≠ none) (hreq : ∀ info, req ≠ .callback info) :
    v.twoFactorEnabled = u.twoFactorEnabled := by
  cases h with
  | callbackSub _ _ => exact absurd rfl (hreq _)
  | callbackEmail _ _ _ _ => exact absurd rfl (hreq _)
  | login _ =>
    obtain ⟨_, _, rfl⟩ := login_commit hv
    rfl
  | login2fa _ _ =>
    obtain ⟨_, ⟨_, rfl⟩ | ⟨_, rfl⟩⟩ := login2fa_commit hv <;> rfl
  | verify _ _ =>
    obtain ⟨_, rfl⟩ | ⟨_, ⟨_, _, _, rfl⟩ | ⟨_, _, _, rfl⟩ | ⟨_, _, rfl⟩⟩ := verifyEmail_commit hv <;>
      rfl
  | resend _ _ =>
    obtain ⟨m, hm, _⟩ := resendVerification_commit hv
    obtain ⟨_, _, _, rfl⟩ := issueVerification_some hm
    rfl
  | updateMe _ _ =>
    have htoggle := updateMe_toggle hsub hv
    obtain ⟨_, _, _, hnone, _⟩ | ⟨_, _, rfl⟩ := updateMe_commit hv
    · exact absurd hnone hsub
    · split
      · exact editProfile_twoFactorEnabled htoggle
      · exact editProfile_twoFactorEnabled htoggle

/-- The row is closed to everything but its subject. -/
structure ClosedRow (sub : Text) (v : User) : Prop where
  googleSub : v.googleSub = some sub
  passwordHash : v.passwordHash = none
  twoFactor : v.twoFactorEnabled = false

theorem RowServed.closedRow {sub : Text} (h : RowServed d amb db c req u out)
    (hv : out.commit = some v) (hg : ∀ s x, linkedRow db.users req = some (s, x) → x.id ≠ u.id)
    (hu : ClosedRow sub u) : ClosedRow sub v := by
  obtain ⟨info, sub', _, _, ⟨hsub, rfl⟩ | ⟨hlink, _, _⟩⟩ | ⟨hreq, hsub, hpass⟩ := h.callback_or hv
  · have heq : sub' = sub := by
      rw [hu.googleSub] at hsub
      exact (Option.some.inj hsub).symm
    exact ⟨by rw [assertGoogle_googleSub, heq], hu.passwordHash, hu.twoFactor⟩
  · exact absurd rfl (hg _ _ hlink)
  · have hne : u.googleSub ≠ none := by rw [hu.googleSub]; exact Option.some_ne_none _
    exact ⟨by rw [hsub, hu.googleSub], by rw [hpass, hu.passwordHash],
      by rw [h.twoFactor hv hne hreq, hu.twoFactor]⟩

theorem Admits.closedRow {sub : Text} (h : Admits db.users req r u) (hu : ClosedRow sub u)
    (hg : ∀ s x, linkedRow db.users req = some (s, x) → x.id ≠ u.id) :
    req.subject = some sub ∧ r = .redirect "" := by
  obtain hpw | h2 | ⟨sub', hreq, hr, hown | hlink⟩ := h
  · rw [hu.passwordHash] at hpw
    cases hpw
  · rw [hu.twoFactor] at h2
    cases h2
  · rw [hu.googleSub, Option.some.injEq] at hown
    exact ⟨by rw [hreq, hown], hr⟩
  · exact absurd rfl (hg _ _ hlink)

/-- What holds of a password account from its link to the subject on. -/
structure Linked (past : History) (w : World) (id : ℕ) (sub : Text) : Prop where
  ok : w.db.Ok
  id_lt : id < w.db.nextId
  registered : Registered past id
  row : ∀ v ∈ w.db.users, v.id = id → ClosedRow sub v
  cookies : ∀ held ∈ w.issued, held.2.userId = some id → Completed past held.1 sub

theorem Linked.not_linked {w : World} {id : ℕ} {sub : Text} (h : Linked past w id sub)
    (hg : LinksAlone past w ev) {s : Text} {x : User}
    (hx : linkedRow w.db.users ev.request = some (s, x)) (hmem : x ∈ w.db.users) : x.id ≠ id := by
  intro hid
  have hreg : Registered past x.id := hid ▸ h.registered
  have hnone : x.googleSub = none := (hg _ hx).1 hreg
  rw [(h.row x hmem hid).googleSub] at hnone
  cases hnone

theorem linkedRow_mem {users : List User} {s : Text} {x : User}
    (h : linkedRow users req = some (s, x)) : x ∈ users ∧ req.subject = some s := by
  unfold linkedRow at h
  split at h
  · split at h
    · rename_i sub u hsub hu
      obtain ⟨e, _, he⟩ := Option.bind_eq_some_iff.mp hu
      split at h
      · cases h
        exact ⟨(findByEmail_some he).1, hsub⟩
      · cases h
    · cases h
  · cases h

/-- The callback that turns a password account into the subject's. -/
theorem Linked.start {G : Guard} {w w' : World} {sub : Text} (hpre : Reached d G past w)
    (hg : LinksAlone past w ev) (hstep : serve d w ev = some (w', r)) (hu : u ∈ w.db.users)
    (hpw : u.passwordHash.isSome = true) (hv : v ∈ w'.db.users) (hid : v.id = u.id)
    (hsub : v.googleSub = some sub) : Linked (past ++ [(ev, r)]) w' u.id sub := by
  obtain ⟨o, hs, _, hdb, hissued, rfl⟩ := serve_some hstep
  obtain ⟨hnone, hreg⟩ := hpre.passwordRow u hu hpw
  have hok : w'.db.Ok := by
    rw [hdb]
    exact hs.ok hpre.ok
  have hlt : u.id < w'.db.nextId := by
    rw [hdb]
    exact Nat.lt_of_lt_of_le (hpre.ok.ids_lt u hu) hs.nextId_le
  obtain rfl | ⟨out, hrow, hc, hr⟩ := hs.tracks hpre.ok hu (hdb ▸ hv) hid
  · rw [hnone] at hsub
    cases hsub
  obtain ⟨info, sub', hreq, hs', ⟨hown, _⟩ | ⟨hlink, _, hrowv⟩⟩ | ⟨_, hsame, _⟩ := hrow.callback_or hc
  · rw [hnone] at hown
    cases hown
  · have heq : sub' = sub := by
      rw [hrowv, assertGoogle_googleSub] at hsub
      exact Option.some.inj hsub
    subst heq
    have hclosed : ClosedRow sub' v := by
      refine ⟨hsub, ?_, ?_⟩
      · rw [hrowv, assertGoogle_passwordHash, voidPassword_passwordHash]
      · rw [hrowv, assertGoogle_twoFactorEnabled, voidPassword_twoFactorEnabled hpw]
    have hdone : Completed (past ++ [(ev, o.reply)]) ev.browser sub' :=
      ⟨(ev, o.reply), by simp, rfl, by rw [hreq]; exact hs', by rw [hr, hrow.callback_reply hreq]⟩
    refine ⟨hok, hlt, hreg.mono _, ?_, ?_⟩
    · intro x hx hxid
      rw [hok.row_eq hv hx (by rw [hxid, hid])]
      exact hclosed
    · intro held hheld hcookie
      rw [hissued] at hheld
      obtain hold | hnew := List.mem_append.mp hheld
      · obtain hsame | hcompleted := (hg _ hlink).2 hpw held hold hcookie
        · rw [hsame]
          exact hdone
        · exact hcompleted.mono _
      · obtain rfl := List.mem_singleton.mp hnew
        exact hdone
  · rw [hsame, hnone] at hsub
    cases hsub

theorem Linked.step {w w' : World} {id : ℕ} {sub : Text} (h : Linked past w id sub)
    (hg : LinksAlone past w ev) (hstep : serve d w ev = some (w', r)) :
    Linked (past ++ [(ev, r)]) w' id sub := by
  obtain ⟨o, hs, hheld, hdb, hissued, rfl⟩ := serve_some hstep
  have hother : ∀ s x, linkedRow w.db.users ev.request = some (s, x) → x.id ≠ id :=
    fun s x hx => h.not_linked hg hx (linkedRow_mem hx).1
  refine ⟨?_, ?_, h.registered.mono _, ?_, ?_⟩
  · rw [hdb]
    exact hs.ok h.ok
  · rw [hdb]
    exact Nat.lt_of_lt_of_le h.id_lt hs.nextId_le
  · intro v hv hid
    rw [hdb] at hv
    obtain hmem | ⟨u, out, hrow, hc, _⟩ | hins := hs.row_origin hv
    · exact h.row v hmem hid
    · have huid : u.id = id := by rw [← hid, hrow.commit_id hc]
      exact hrow.closedRow hc (by rwa [huid]) (h.row u hrow.mem huid)
    · have hlt := h.id_lt
      rw [← hid, hins.id] at hlt
      exact absurd hlt (Nat.lt_irrefl _)
  · intro held hmem hid
    rw [hissued] at hmem
    obtain hold | hnew := List.mem_append.mp hmem
    · exact (h.cookies held hold hid).mono _
    · obtain rfl := List.mem_singleton.mp hnew
      obtain hsame | hfresh | ⟨u, hu, huid, hadm⟩ := hs.cookie_origin hid
      · obtain hempty | hissued := hheld
        · rw [hempty] at hsame
          cases hsame
        · exact (h.cookies _ hissued hsame).mono _
      · have hlt := h.id_lt
        omega
      · obtain ⟨hreq, hr⟩ := hadm.closedRow (h.row u hu huid) (by rwa [huid])
        exact ⟨(ev, o.reply), by simp, rfl, hreq, hr⟩

theorem Linked.run {w w' : World} {id : ℕ} {sub : Text} {post : History} (h : Linked past w id sub)
    (hpost : Runs.Run (Runs.guarded LinksAlone (serve d)) past w post w') :
    Linked (past ++ post) w' id sub := by
  refine hpost.invariant (fun past w => Linked past w id sub) ?_ h
  rintro past w ⟨ev, r⟩ w' hI ⟨hg, hstep⟩
  exact hI.step hg hstep

/-- **Pre-hijacking safety.** When every link meets `LinksAlone`, then after a password account is
linked to `sub`, a request that resolves to the account comes from a browser that completed a
callback for `sub`. -/
theorem only_the_subject_acts {pre post : History} {w w1 w2 : World} {sub : Text}
    (hpre : Reached d LinksAlone pre w) (hg : LinksAlone pre w ev)
    (hlink : serve d w ev = some (w1, r)) (hu : u ∈ w.db.users)
    (hpw : u.passwordHash.isSome = true) (hv : v ∈ w1.db.users) (hid : v.id = u.id)
    (hsub : v.googleSub = some sub)
    (hpost : Runs.Run (Runs.guarded LinksAlone (serve d)) (pre ++ [(ev, r)]) w1 post w2)
    {ev' : Event} (hserved : (serve d w2 ev').isSome = true) {x : User}
    (hx : currentUser w2.db ev'.cookie = some x) (hxid : x.id = u.id) :
    Completed (pre ++ [(ev, r)] ++ post) ev'.browser sub := by
  have hstart := Linked.start hpre hg hlink hu hpw hv hid hsub
  have hend := hstart.run hpost
  obtain ⟨id, hcookie, hfind⟩ := Option.bind_eq_some_iff.mp hx
  have hidu : id = u.id := by rw [← hxid, (findById_some hfind).2]
  obtain ⟨s, hs⟩ := Option.isSome_iff_exists.mp hserved
  obtain ⟨_, _, hheld, _⟩ := serve_some hs
  obtain hempty | hissued := hheld
  · rw [hempty] at hcookie
    cases hcookie
  · exact hend.cookies _ hissued (by rw [hcookie, hidu])

/-! ## Two runs -/

/-- An account is registered, and Google links it from browser 2. -/
def signUpBy (browser : ℕ) : List Event := [sends browser {} (.register signUp)]

def linkEvent : Event := sends 2 {} (.callback (some userInfoA))

/-- The same browser registers, links the account and signs in with Google again. -/
def ownSignUp : History × World := played transparent LinksAlone ([], {}) (signUpBy 2)

def ownLink : History × World := played transparent LinksAlone ownSignUp [linkEvent]

def linked : History × World := (ownSignUp.1 ++ [(linkEvent, .redirect "")], ownLink.2)

def ownReturn : History × World := played transparent LinksAlone linked [linkEvent]

theorem only_the_subject_acts_returning :
    ownSignUp.2.db.users.map User.id = [0] ∧ ownLink.2.db.users.map User.id = [0] ∧
      Completed (linked.1 ++ ownReturn.1) 2 subject := by
  refine ⟨rfl, rfl, ?_⟩
  have hpre : Reached transparent LinksAlone ownSignUp.1 ownSignUp.2 :=
    played_run ([], {}) (signUpBy 2) (by decide)
  have hlink : serve transparent ownSignUp.2 linkEvent = some (ownLink.2, .redirect "") := by rfl
  have hpost : Runs.Run (Runs.guarded LinksAlone (serve transparent)) linked.1 linked.2
      ownReturn.1 ownReturn.2 := played_run linked [linkEvent] (by decide)
  have hserved : (serve transparent ownReturn.2 (sends 2 firstCookie .me)).isSome = true := by decide
  obtain ⟨x, hx⟩ := Option.isSome_iff_exists.mp
    (show (currentUser ownReturn.2.db firstCookie).isSome = true by decide)
  exact only_the_subject_acts hpre (by decide) hlink (List.mem_singleton.mpr rfl) rfl
    (List.mem_singleton.mpr rfl) rfl rfl hpost hserved hx (findById_some hx).2

/-- Browser 1 registers the address; its owner links the account from browser 2. -/
def foreignSignUp : History × World := played transparent Runs.anyStep ([], {}) (signUpBy 1)

def foreignLink : History × World := played transparent Runs.anyStep foreignSignUp [linkEvent]

/-- Without the guard the cookie of the sign-up still opens the linked account. -/
theorem not_only_the_subject_acts :
    ¬ ∀ (d : Deps) (pre post : History) (w w1 w2 : World) (ev ev' : Event) (r : Reply) (sub : Text),
      Reached d Runs.anyStep pre w → serve d w ev = some (w1, r) →
      Runs.Run (Runs.guarded Runs.anyStep (serve d)) (pre ++ [(ev, r)]) w1 post w2 →
      (serve d w2 ev').isSome = true →
      ∀ u ∈ w.db.users, u.passwordHash.isSome = true →
      ∀ v ∈ w1.db.users, v.id = u.id → v.googleSub = some sub →
      ∀ x ∈ currentUser w2.db ev'.cookie, x.id = u.id →
        Completed (pre ++ [(ev, r)] ++ post) ev'.browser sub := by
  intro h
  have hpre : Reached transparent Runs.anyStep foreignSignUp.1 foreignSignUp.2 :=
    played_run ([], {}) (signUpBy 1) (by decide)
  have hlink : serve transparent foreignSignUp.2 linkEvent = some (foreignLink.2, .redirect "") := by
    rfl
  have hserved : (serve transparent foreignLink.2 (sends 1 firstCookie .me)).isSome = true := by
    decide
  exact absurd (h transparent _ _ _ _ _ _ _ _ subject hpre hlink Runs.Run.refl hserved) (by decide)

end WarsawEvents.Accounts
