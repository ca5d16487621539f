import WarsawEvents.Accounts.Reachable

/-! # Whose account a Google subject owns

A callback that finds no row with its subject links the row with its address, whatever that row
already carries. Two things can be on it that the link does not clear: another `google_sub`, which
it overwrites, and a `pending_email` with its live code, which `/auth/verify` still swaps in.

`LinksUnclaimed` asks of every callback that the row it links carries neither. Then a subject keeps
its row and every later address of the row is one Google asserted for the subject.
-/

namespace WarsawEvents.Accounts
set_option autoImplicit false

def Request.asserts (sub e : Text) : Request → Bool
  | .callback (some info) => truthy info.sub = some sub && truthy info.email = some e
  | _ => false

/-- Google asserted the address for the subject at a callback. -/
def Asserted (past : History) (sub e : Text) : Prop :=
  ∃ l ∈ past, l.1.request.asserts sub e = true

instance (past : History) (sub e : Text) : Decidable (Asserted past sub e) :=
  inferInstanceAs (Decidable (∃ l ∈ past, l.1.request.asserts sub e = true))

/-- The row is still the subject's, under an address Google asserted for it. -/
def StillOwned (past : History) (sub : Text) (v : User) : Prop :=
  v.googleSub = some sub ∧ ∀ e ∈ v.email, Asserted past sub e

instance (past : History) (sub : Text) (v : User) : Decidable (StillOwned past sub v) :=
  inferInstanceAs (Decidable (v.googleSub = some sub ∧ ∀ e ∈ v.email, Asserted past sub e))

/-- A callback that links a row by its address finds no subject and no pending address on it. -/
def LinksUnclaimed : Guard := fun _ w ev =>
  ∀ l ∈ linkedRow w.db.users ev.request, l.2.googleSub = none ∧ l.2.pendingEmail = none

instance : ∀ past w ev, Decidable (LinksUnclaimed past w ev) := fun _ w ev =>
  inferInstanceAs (Decidable (∀ l ∈ linkedRow w.db.users ev.request,
    l.2.googleSub = none ∧ l.2.pendingEmail = none))

theorem Asserted.mono {past : History} {sub e : Text} (h : Asserted past sub e)
    (l : Event × Reply) : Asserted (past ++ [l]) sub e := by
  obtain ⟨l', hl', h'⟩ := h
  exact ⟨l', List.mem_append_left _ hl', h'⟩

variable {d : Deps} {amb : Ambient} {db : Db} {c : Cookie} {req : Request} {out : RowOutcome}
  {u v : User}

/-! ## One request on one row -/

/-- On a row with a subject and nothing pending, only a callback moves the address, and nothing makes
one pending. -/
theorem RowServed.google_row (h : RowServed d amb db c req u out) (hv : out.commit = some v)
    {sub : Text} (hsub : u.googleSub = some sub) (hp : u.pendingEmail = none)
    (hreq : ∀ info, req ≠ .callback info) : v.pendingEmail = none ∧ v.email = u.email := by
  cases h with
  | callbackSub _ _ => exact absurd rfl (hreq _)
  | callbackEmail _ _ _ _ => exact absurd rfl (hreq _)
  | login _ =>
    obtain ⟨_, _, rfl⟩ := login_commit hv
    exact ⟨hp, rfl⟩
  | login2fa _ _ =>
    obtain ⟨_, ⟨_, rfl⟩ | ⟨_, rfl⟩⟩ := login2fa_commit hv <;> exact ⟨hp, rfl⟩
  | verify _ _ =>
    obtain ⟨_, rfl⟩ | ⟨_, ⟨p, hp', _⟩ | ⟨p, hp', _⟩ | ⟨_, _, rfl⟩⟩ := verifyEmail_commit hv
    · exact ⟨hp, rfl⟩
    · rw [hp] at hp'; cases hp'
    · rw [hp] at hp'; cases hp'
    · exact ⟨hp, rfl⟩
  | resend _ _ =>
    obtain ⟨m, hm, _⟩ := resendVerification_commit hv
    obtain ⟨_, _, _, rfl⟩ := issueVerification_some hm
    exact ⟨hp, rfl⟩
  | updateMe _ _ =>
    obtain ⟨_, m, _, hnone, _⟩ | ⟨_, _, rfl⟩ := updateMe_commit hv
    · rw [hsub] at hnone; cases hnone
    · split
      · exact ⟨rfl, by simp⟩
      · exact ⟨by simpa using hp, by simp⟩

/-- A row that no callback links by its address keeps its subject. -/
theorem RowServed.keeps_sub (h : RowServed d amb db c req u out) (hv : out.commit = some v)
    (hg : ∀ l ∈ linkedRow db.users req, l.2.googleSub = none) {sub : Text}
    (hsub : u.googleSub = some sub) : v.googleSub = some sub := by
  obtain ⟨info, sub', rfl, hs, ⟨hu, rfl⟩ | ⟨hlink, _, rfl⟩⟩ | ⟨_, hsame, _⟩ := h.callback_or hv
  · rw [assertGoogle_googleSub, ← hu, hsub]
  · have hnone : u.googleSub = none := hg _ hlink
    rw [hnone] at hsub
    cases hsub
  · rw [hsame, hsub]

/-! ## Runs -/

/-- What the guard keeps of every row: with a subject, nothing is pending and the address is
Google's. -/
def OwnedRow (past : History) (v : User) : Prop :=
  ∀ sub, v.googleSub = some sub →
    v.pendingEmail = none ∧ ∀ e, v.email = some e → Asserted past sub e

theorem OwnedRow.mono {past : History} (h : OwnedRow past v) (l : Event × Reply) :
    OwnedRow (past ++ [l]) v := by
  intro sub hsub
  obtain ⟨hp, he⟩ := h sub hsub
  exact ⟨hp, fun e hve => (he e hve).mono l⟩

theorem OwnedRow.assertGoogle {past : History} {l : Event × Reply} {info : UserInfo} {sub : Text}
    (hl : l.1.request = .callback (some info)) (hs : truthy info.sub = some sub)
    (hp : u.pendingEmail = none)
    (hold : ∀ e, truthy info.email = none → u.email = some e → Asserted past sub e) :
    OwnedRow (past ++ [l]) (assertGoogle sub info u) := by
  intro sub' hsub'
  rw [assertGoogle_googleSub, Option.some.injEq] at hsub'
  subst hsub'
  refine ⟨by simpa using hp, ?_⟩
  intro e he
  rw [assertGoogle_email] at he
  cases hem : truthy info.email with
  | some e' =>
    rw [hem, Option.some_or] at he
    exact ⟨l, by simp, by simp [hl, Request.asserts, hs, hem, he]⟩
  | none =>
    rw [hem, Option.none_or] at he
    exact (hold e hem he).mono l

/-- One served request keeps `OwnedRow` of every row, when the guard holds. -/
theorem Served.owned {past : History} {ev : Event} {r : Reply} {o : Outcome}
    (h : Served d ev.ambient db ev.cookie ev.request o)
    (hg : ∀ l ∈ linkedRow db.users ev.request, l.2.googleSub = none ∧ l.2.pendingEmail = none)
    (hI : ∀ u ∈ db.users, OwnedRow past u) (hv : v ∈ o.db.users) :
    OwnedRow (past ++ [(ev, r)]) v := by
  obtain hmem | ⟨u, out, hrow, hc, _⟩ | ⟨info, sub, hreq, hs, _, rfl⟩ | ⟨q, hash, m, _, _, hv⟩ :=
    h.row_origin hv
  · exact (hI v hmem).mono _
  · obtain ⟨info, sub, hreq, hs, ⟨hu, rfl⟩ | ⟨hlink, he, rfl⟩⟩ | ⟨hreq, hsame, _⟩ :=
      hrow.callback_or hc
    · obtain ⟨hp, hem⟩ := hI u hrow.mem sub hu
      exact OwnedRow.assertGoogle hreq hs hp fun e _ he => hem e he
    · have hp : u.pendingEmail = none := (hg _ hlink).2
      refine OwnedRow.assertGoogle hreq hs (by simpa using hp) ?_
      intro e' hnone
      exact absurd hnone he
    · intro sub hsub
      rw [hsame] at hsub
      obtain ⟨hp, hem⟩ := hI u hrow.mem sub hsub
      obtain ⟨hp', he'⟩ := hrow.google_row hc hsub hp hreq
      exact ⟨hp', fun e he => (hem e (he' ▸ he)).mono _⟩
  · exact OwnedRow.assertGoogle hreq hs rfl (by simp)
  · obtain ⟨_, _, _, rfl⟩ := issueVerification_some hv
    intro sub hsub
    cases hsub

theorem Reached.owned {past : History} {w : World} (h : Reached d LinksUnclaimed past w) :
    ∀ v ∈ w.db.users, OwnedRow past v := by
  refine h.invariant_of_init (fun past w => ∀ v ∈ w.db.users, OwnedRow past v) ?_ (by simp)
  rintro past w ⟨ev, r⟩ w' hI ⟨hg, hstep⟩ v hv
  obtain ⟨o, hs, _, hdb, _, _⟩ := serve_some hstep
  rw [hdb] at hv
  exact hs.owned hg hI hv

/-- From any reached state on, a row with a subject keeps it for as long as the row exists. -/
theorem keeps_sub_run {pre post : History} {w w' : World} {sub : Text}
    (hpre : Reached d LinksUnclaimed pre w)
    (hpost : Runs.Run (Runs.guarded LinksUnclaimed (serve d)) pre w post w')
    (hu : u ∈ w.db.users) (hsub : u.googleSub = some sub) :
    ∀ v ∈ w'.db.users, v.id = u.id → v.googleSub = some sub := by
  refine (hpost.invariant (fun _ w' => w'.db.Ok ∧ u.id < w'.db.nextId ∧
    ∀ v ∈ w'.db.users, v.id = u.id → v.googleSub = some sub) ?_ ?_).2.2
  · rintro past w ⟨ev, r⟩ w' ⟨hok, hlt, hI⟩ ⟨hg, hstep⟩
    obtain ⟨o, hs, _, hdb, _, _⟩ := serve_some hstep
    rw [hdb]
    refine ⟨hs.ok hok, Nat.lt_of_lt_of_le hlt hs.nextId_le, ?_⟩
    intro v hv hid
    obtain hmem | ⟨x, out, hrow, hc, _⟩ | hins := hs.row_origin hv
    · exact hI v hmem hid
    · exact hrow.keeps_sub hc (fun l hl => (hg l hl).1) (hI x hrow.mem (by rw [← hid, hrow.commit_id hc]))
    · rw [← hid, hins.id] at hlt
      exact absurd hlt (Nat.lt_irrefl _)
  · refine ⟨hpre.ok, hpre.ok.ids_lt u hu, ?_⟩
    intro v hv hid
    rw [hpre.ok.row_eq hu hv hid, hsub]

/-- **Google ownership is stable.** When every callback links only rows that carry no subject and no
pending address, a row that carries `sub` carries it until it is deleted, and each later address of
it is one Google asserted for `sub`. -/
theorem google_ownership_stable {pre post : History} {w w' : World} {sub : Text}
    (hpre : Reached d LinksUnclaimed pre w)
    (hpost : Runs.Run (Runs.guarded LinksUnclaimed (serve d)) pre w post w')
    (hu : u ∈ w.db.users) (hsub : u.googleSub = some sub)
    (hv : v ∈ w'.db.users) (hid : v.id = u.id) : StillOwned (pre ++ post) sub v := by
  have hsub' := keeps_sub_run hpre hpost hu hsub v hv hid
  have hall : Reached d LinksUnclaimed (pre ++ post) w' := hpre.trans (by simpa using hpost)
  exact ⟨hsub', (hall.owned v hv sub hsub').2⟩

/-! ## Two runs -/

def userInfoB : UserInfo := { sub := some subject, email := some addressB }

/-- Google makes an account, then reports another address for it. -/
def creation : List Event := [sends 1 {} (.callback (some userInfoA))]

def move : List Event := [sends 2 {} (.callback (some userInfoB))]

def afterCreation : History × World := played transparent LinksUnclaimed ([], {}) creation

def afterMove : History × World := played transparent LinksUnclaimed afterCreation move

def movedUser : User := assertGoogle subject userInfoB (googleUser 0 subject userInfoA)

theorem google_ownership_stable_moved :
    StillOwned (afterCreation.1 ++ afterMove.1) subject movedUser := by
  have hpre : Reached transparent LinksUnclaimed afterCreation.1 afterCreation.2 :=
    played_run ([], {}) creation (by decide)
  have hpost : Runs.Run (Runs.guarded LinksUnclaimed (serve transparent)) afterCreation.1
      afterCreation.2 afterMove.1 afterMove.2 := played_run afterCreation move (by decide)
  have hu : googleUser 0 subject userInfoA ∈ afterCreation.2.db.users := by decide
  exact google_ownership_stable hpre hpost hu rfl (by decide) rfl

/-- An account is registered, an address is left pending, and Google links the account. -/
def pendingThenLinked : List Event :=
  [sends 1 {} (.register signUp),
   sends 1 firstCookie (.updateMe changeToB),
   sends 2 {} (.callback (some userInfoA))]

/-- The code mailed to the pending address is submitted after the link. -/
def pendingVerified : List Event := [sends 1 firstCookie (.verify (generateCode (drawn 0)))]

def afterLink : History × World := played transparent Runs.anyStep ([], {}) pendingThenLinked

def afterVerify : History × World := played transparent Runs.anyStep afterLink pendingVerified

/-- Without the guard the pending address becomes the linked account's own. -/
theorem google_ownership_unstable :
    ¬ ∀ (d : Deps) (pre post : History) (w w' : World) (sub : Text), Reached d Runs.anyStep pre w →
      Runs.Run (Runs.guarded Runs.anyStep (serve d)) pre w post w' →
      ∀ u ∈ w.db.users, u.googleSub = some sub →
      ∀ v ∈ w'.db.users, v.id = u.id → StillOwned (pre ++ post) sub v := by
  intro h
  have hlink : Reached transparent Runs.anyStep afterLink.1 afterLink.2 :=
    played_run ([], {}) pendingThenLinked (by decide)
  have hverify : Runs.Run (Runs.guarded Runs.anyStep (serve transparent)) afterLink.1 afterLink.2
      afterVerify.1 afterVerify.2 := played_run afterLink pendingVerified (by decide)
  exact absurd (h transparent _ _ _ _ subject hlink hverify) (by decide)

end WarsawEvents.Accounts
