import WarsawEvents.Accounts.Transcript

/-! # The email-confirmation machine

The code columns of a row, with the target recomputed from `pending_email` and `email`, against a
one-time code bound to an address (`verificationCodes`). `ConfirmationTracked` is the relation every
request keeps; `verify_accepts_iff` reads the answer of `POST /auth/verify` off the history.
-/

namespace WarsawEvents.Accounts
set_option autoImplicit false

open OneTimeCode

/-! ## The verification codes of an account -/

/-- The gate of `verify_email` and of `resend_verification`. -/
def unsettled (u : User) : Bool := !(u.emailVerified && u.pendingEmail.isNone)

def mailedVerification (d : Deps) (id : ℕ) (l : Event × Seen) : Option Mailed :=
  match l.2.outcome.mails with
  | [.verification address code] =>
    if l.2.outcome.cookie.userId = some id then
      some ⟨some address, code, codeExpiry d l.1.ambient⟩
    else none
  | _ => none

/-- The account's code was accepted. -/
def confirmedBy (id : ℕ) (l : Event × Seen) : Bool :=
  match l.1.request, l.2.outcome.reply with
  | .verify _, .user _ => l.1.cookie.userId = some id && (findById l.2.before.users id).any unsettled
  | _, _ => false

/-- The account's pending change is gone: cancelled, or its address lost to another account. -/
def droppedChange (id : ℕ) (l : Event × Seen) : Bool :=
  match findById l.2.before.users id, findById l.2.outcome.db.users id with
  | some u, some v => u.pendingEmail.isSome && v.pendingEmail.isNone
  | _, _ => false

/-- A wrong code counts when the rate limit lets it pass and the code is live. -/
def verificationCodes (d : Deps) (id : ℕ) : Reading (Event × Seen) Mailed where
  issued := mailedVerification d id
  retires l := confirmedBy id l || droppedChange id l
  misses k l :=
    match l.1.request with
    | .verify code => l.1.cookie.userId = some id && l.1.ambient.rateOk &&
        wrongFor l.1.ambient code k
    | _ => false

/-- The submitted code is the outstanding one, was mailed to the address, is live and has attempts
left. -/
def RightCode (d : Deps) (past : Transcript) (id : ℕ) (t : Text) (amb : Ambient) (code : Code) : Prop :=
  ∃ k n, Outstanding (verificationCodes d id) past k n ∧ code = k.code ∧ k.address = some t ∧
    amb.now ≤ k.expiresAt ∧ n < d.settings.emailVerifyMaxAttempts

/-- No other account holds the address. -/
def AddressFree (db : Db) (id : ℕ) (t : Text) : Prop :=
  ∀ x ∈ db.users, x.email = some t → x.id = id

variable {d : Deps} {amb : Ambient} {db : Db} {c : Cookie} {req : Request} {o : Outcome}
  {out : RowOutcome} {u v : User} {past : Transcript} {w w' : World} {ev : Event} {s : Seen} {id : ℕ}
  {l : Event × Seen}

def Request.isVerify : Request → Bool
  | .verify _ => true
  | _ => false

theorem mailedVerification_none (h : ∀ a k, l.2.outcome.mails ≠ [.verification a k]) :
    mailedVerification d id l = none := by
  unfold mailedVerification
  split
  · rename_i a k hmails
    exact absurd hmails (h a k)
  · rfl

theorem mailedVerification_other (h : l.2.outcome.cookie.userId ≠ some id) :
    mailedVerification d id l = none := by
  unfold mailedVerification
  split
  · exact if_neg h
  · rfl

theorem droppedChange_false (h : ∀ x ∈ l.2.before.users, ∀ y ∈ l.2.outcome.db.users,
    x.id = id → y.id = id → y.pendingEmail = none → x.pendingEmail = none) :
    droppedChange id l = false := by
  unfold droppedChange
  split
  · rename_i x y hx hy
    obtain ⟨hx, hxid⟩ := findById_some hx
    obtain ⟨hy, hyid⟩ := findById_some hy
    by_contra hdropped
    simp only [Bool.not_eq_false, Bool.and_eq_true, Option.isNone_iff_eq_none] at hdropped
    rw [h x hx y hy hxid hyid hdropped.2] at hdropped
    cases hdropped.1
  · rfl

theorem not_dropped {x y : User} (hok : l.2.before.Ok) (hok' : l.2.outcome.db.Ok)
    (hx : x ∈ l.2.before.users) (hy : y ∈ l.2.outcome.db.users) (hid : y.id = x.id)
    (hsame : y.pendingEmail = x.pendingEmail) : droppedChange x.id l = false := by
  refine droppedChange_false ?_
  intro x' hx' y' hy' hxid hyid hnone
  rw [hok.row_eq hx hx' hxid, ← hsame]
  rwa [hok'.row_eq hy hy' (by rw [hyid, hid])] at hnone

theorem droppedChange_true {x y : User} (hok : l.2.before.Ok) (hok' : l.2.outcome.db.Ok)
    (hx : x ∈ l.2.before.users) (hy : y ∈ l.2.outcome.db.users) (hxid : x.id = id) (hyid : y.id = id)
    (hbefore : x.pendingEmail ≠ none) (hafter : y.pendingEmail = none) : droppedChange id l = true := by
  unfold droppedChange
  rw [hok.find hx hxid, hok'.find hy hyid]
  simp [hafter, Option.isSome_iff_ne_none, hbefore]

theorem verification_silent (hreq : l.1.request.isVerify = false)
    (hi : mailedVerification d id l = none) (hd : droppedChange id l = false) :
    (verificationCodes d id).Silent l := by
  refine ⟨hi, ?_, ?_⟩
  · have hc : confirmedBy id l = false := by
      unfold confirmedBy
      split
      · rename_i heq _
        rw [heq] at hreq
        cases hreq
      · rfl
    simp [verificationCodes, hc, hd]
  · intro k
    simp only [verificationCodes]
    split
    · rename_i heq
      rw [heq] at hreq
      cases hreq
    · rfl

/-! ## The relation -/

structure ConfirmationTracked (d : Deps) (past : Transcript) (v : User) : Prop where
  tracked : target v ≠ none → Tracked d (verificationCodes d v.id) past v.emailVerifyCodeHash
    v.emailVerifyCodeExpiresAt v.emailVerifyAttempts
  cleared : v.emailVerifyCodeHash = none →
    ∀ k n, ¬ Outstanding (verificationCodes d v.id) past k n
  addressed : ∀ k n t, Outstanding (verificationCodes d v.id) past k n → target v = some t →
    k.address = some t

/-- A label that issues nothing, on a row that keeps its code and its target. -/
theorem ConfirmationTracked.kept (h : ConfirmationTracked d past u) (hid : v.id = u.id)
    (hi : mailedVerification d u.id l = none) (hhash : v.emailVerifyCodeHash = u.emailVerifyCodeHash)
    (htarget : target v = target u ∨ target v = none)
    (htracked : target u ≠ none → Tracked d (verificationCodes d u.id) (past ++ [l])
      v.emailVerifyCodeHash v.emailVerifyCodeExpiresAt v.emailVerifyAttempts) :
    ConfirmationTracked d (past ++ [l]) v := by
  refine ⟨?_, ?_, ?_⟩
  · intro ht
    obtain hsame | hnone := htarget
    · rw [hid]
      exact htracked (hsame ▸ ht)
    · exact absurd hnone ht
  · intro hnone k n hout
    rw [hid] at hout
    obtain ⟨m, hm⟩ := hout.before hi
    exact h.cleared (by rw [← hhash, hnone]) k m hm
  · intro k n t hout ht
    rw [hid] at hout
    obtain ⟨m, hm⟩ := hout.before hi
    obtain hsame | hnone := htarget
    · exact h.addressed k m t hm (by rw [← hsame, ht])
    · rw [hnone] at ht
      cases ht

theorem ConfirmationTracked.silent (h : ConfirmationTracked d past u)
    (hl : (verificationCodes d u.id).Silent l) (hid : v.id = u.id)
    (hhash : v.emailVerifyCodeHash = u.emailVerifyCodeHash)
    (ht : v.emailVerifyCodeExpiresAt = u.emailVerifyCodeExpiresAt)
    (ha : v.emailVerifyAttempts = u.emailVerifyAttempts)
    (htarget : target v = target u ∨ target v = none) : ConfirmationTracked d (past ++ [l]) v := by
  refine h.kept hid hl.issued hhash htarget ?_
  intro hne
  rw [hhash, ht, ha]
  exact (h.tracked hne).silent hl

theorem ConfirmationTracked.issued {t : Text} {code : Code}
    (hi : mailedVerification d v.id l = some ⟨some t, code, codeExpiry d l.1.ambient⟩)
    (hhash : v.emailVerifyCodeHash = some (d.hashCode code))
    (ht : v.emailVerifyCodeExpiresAt = some (codeExpiry d l.1.ambient))
    (ha : v.emailVerifyAttempts = 0) (htarget : target v = some t) :
    ConfirmationTracked d (past ++ [l]) v := by
  have hread : (verificationCodes d v.id).issued l =
      some ⟨some t, code, codeExpiry d l.1.ambient⟩ := hi
  have hout : Outstanding (verificationCodes d v.id) (past ++ [l])
      ⟨some t, code, codeExpiry d l.1.ambient⟩ 0 := Outstanding.issue hread
  refine ⟨?_, ?_, ?_⟩
  · intro _
    rw [hhash, ht, ha]
    exact Tracked.issued hread
  · intro hnone
    rw [hhash] at hnone
    cases hnone
  · intro k n t' hk ht'
    obtain ⟨rfl, _⟩ := hout.unique hk
    rw [htarget] at ht'
    exact ht'

theorem ConfirmationTracked.retired (hi : mailedVerification d v.id l = none)
    (hr : (confirmedBy v.id l || droppedChange v.id l) = true) (hhash : v.emailVerifyCodeHash = none) :
    ConfirmationTracked d (past ++ [l]) v := by
  have hnot : ∀ k n, ¬ Outstanding (verificationCodes d v.id) (past ++ [l]) k n := fun k n =>
    not_outstanding_retired hi hr
  refine ⟨?_, fun _ => hnot, ?_⟩
  · intro _
    rw [hhash]
    exact Tracked.cleared
  · intro k n t hk
    exact absurd hk (hnot k n)

/-! ## What a request other than verify does to a row -/

/-- A request that issues, cancels, or does neither. -/
inductive CodeEffect (d : Deps) (amb : Ambient) (u : User) (out : RowOutcome) (v : User) : Prop
  | issued {t : Text} : out.mails = [.verification t (generateCode amb.draw)] →
      out.cookie.userId = some u.id →
      v.emailVerifyCodeHash = some (d.hashCode (generateCode amb.draw)) →
      v.emailVerifyCodeExpiresAt = some (codeExpiry d amb) → v.emailVerifyAttempts = 0 →
      target v = some t → CodeEffect d amb u out v
  | cancelled : out.mails = [] → u.pendingEmail ≠ none → v.pendingEmail = none →
      v.emailVerifyCodeHash = none → CodeEffect d amb u out v
  | kept : (∀ a k, out.mails ≠ [.verification a k]) →
      v.emailVerifyCodeHash = u.emailVerifyCodeHash →
      v.emailVerifyCodeExpiresAt = u.emailVerifyCodeExpiresAt →
      v.emailVerifyAttempts = u.emailVerifyAttempts → v.pendingEmail = u.pendingEmail →
      target v = target u ∨ target v = none → CodeEffect d amb u out v

theorem target_issued {m : Mail} (h : issueVerification d amb u = some (v, m)) :
    ∃ t, m = .verification t (generateCode amb.draw) ∧
      v.emailVerifyCodeHash = some (d.hashCode (generateCode amb.draw)) ∧
      v.emailVerifyCodeExpiresAt = some (codeExpiry d amb) ∧ v.emailVerifyAttempts = 0 ∧
      target v = some t := by
  obtain ⟨t, ht, rfl, rfl⟩ := issueVerification_some h
  exact ⟨t, rfl, rfl, rfl, rfl, ht⟩

/-- A callback never gives a row another target. -/
theorem target_assertGoogle (sub : Text) (info : UserInfo) (u : User) :
    target (assertGoogle sub info u) = target u ∨ target (assertGoogle sub info u) = none := by
  unfold target
  rw [assertGoogle_pendingEmail, assertGoogle_email, assertGoogle_emailVerified]
  cases u.pendingEmail with
  | some p => exact .inl rfl
  | none =>
    cases truthy info.email with
    | some e => exact .inr rfl
    | none => exact .inl rfl

theorem target_voidPassword (u : User) : target (voidPassword u) = target u := by
  unfold target
  rw [voidPassword_pendingEmail, voidPassword_email, voidPassword_emailVerified]

theorem voidPassword_verifyColumns (u : User) :
    (voidPassword u).emailVerifyCodeExpiresAt = u.emailVerifyCodeExpiresAt ∧
      (voidPassword u).emailVerifyAttempts = u.emailVerifyAttempts := by
  unfold voidPassword
  split
  · exact ⟨rfl, rfl⟩
  · exact ⟨rfl, rfl⟩

theorem editProfile_verifyColumns (q : UpdateMeRequest) (u : User) :
    (editProfile q u).emailVerifyCodeExpiresAt = u.emailVerifyCodeExpiresAt ∧
      (editProfile q u).emailVerifyAttempts = u.emailVerifyAttempts := by
  unfold editProfile
  cases q.name with
  | none =>
    cases q.toggling2fa u with
    | none => exact ⟨rfl, rfl⟩
    | some b => exact ⟨rfl, rfl⟩
  | some n =>
    cases q.toggling2fa u with
    | none => exact ⟨rfl, rfl⟩
    | some b => exact ⟨rfl, rfl⟩

theorem target_editProfile (q : UpdateMeRequest) (u : User) : target (editProfile q u) = target u := by
  unfold target
  rw [editProfile_pendingEmail, editProfile_email, editProfile_emailVerified]

theorem login_mails {password : String} (a : Text) (k : Code) :
    (login d amb c password u).mails ≠ [.verification a k] := by
  unfold login
  split
  · simp [refuse]
  · split
    · simp [refuse]
    · split
      · simp [issueLoginCode]
      · simp

theorem login2fa_mails {code : Code} : (login2fa d amb c code u).mails = [] := by
  unfold login2fa
  split
  · rfl
  · split
    · rfl
    · rfl
    · rfl

theorem RowServed.codeEffect (h : RowServed d amb db c req u out) (hv : out.commit = some v)
    (hreq : req.isVerify = false) : CodeEffect d amb u out v := by
  cases h with
  | callbackSub _ _ =>
    simp only [googleOutcome, Option.some.injEq] at hv
    rw [← hv]
    exact .kept (by simp [googleOutcome]) rfl rfl rfl rfl (target_assertGoogle _ _ u)
  | @callbackEmail info sub _ _ _ _ _ _ =>
    simp only [googleOutcome, Option.some.injEq] at hv
    rw [← hv]
    have htarget := target_assertGoogle sub info (voidPassword u)
    rw [target_voidPassword] at htarget
    exact .kept (by simp [googleOutcome]) (voidPassword_emailVerifyCodeHash u)
      (voidPassword_verifyColumns u).1 (voidPassword_verifyColumns u).2
      (voidPassword_pendingEmail u) htarget
  | login _ =>
    obtain ⟨_, _, rfl⟩ := login_commit hv
    exact .kept login_mails rfl rfl rfl rfl (.inl rfl)
  | login2fa _ _ =>
    obtain ⟨_, ⟨_, rfl⟩ | ⟨_, rfl⟩⟩ := login2fa_commit hv
    · exact .kept (by simp [login2fa_mails]) rfl rfl rfl rfl (.inl rfl)
    · exact .kept (by simp [login2fa_mails]) rfl rfl rfl rfl (.inl rfl)
  | verify _ _ => cases hreq
  | resend _ hc =>
    obtain ⟨m, hm, hmails⟩ := resendVerification_commit hv
    obtain ⟨t, rfl, hh, ht, ha, htarget⟩ := target_issued hm
    exact .issued hmails (by rw [resendVerification_cookie, hc]) hh ht ha htarget
  | @updateMe q _ _ hc =>
    obtain ⟨e, m, _, _, hm, hmails⟩ | ⟨_, hmails, rfl⟩ := updateMe_commit hv
    · obtain ⟨t, rfl, hh, ht, ha, htarget⟩ := target_issued hm
      exact .issued hmails (by rw [updateMe_cookie, hc]) hh ht ha htarget
    · split
      · rename_i hpending
        simp only [editProfile_pendingEmail, Bool.and_eq_true] at hpending
        exact .cancelled hmails (Option.isSome_iff_ne_none.mp hpending.2) rfl rfl
      · exact .kept (by simp [hmails]) (editProfile_emailVerifyCodeHash q u)
          (editProfile_verifyColumns q u).1 (editProfile_verifyColumns q u).2
          (editProfile_pendingEmail q u) (.inl (target_editProfile q u))

theorem resendVerification_uncommitted (h : (resendVerification d amb c u).commit = none) :
    (resendVerification d amb c u).mails = [] := by
  unfold resendVerification at h ⊢
  split
  · rfl
  · rename_i h1
    split
    · rfl
    · rename_i h2
      rw [if_neg h1, if_neg h2] at h
      split
      · rename_i hissue
        rw [hissue] at h
        cases h
      · rfl

theorem updateMe_uncommitted {taken : Text → Bool} {q : UpdateMeRequest}
    (h : (updateMe d amb taken c q u).commit = none) : (updateMe d amb taken c q u).mails = [] := by
  unfold updateMe at h ⊢
  simp only at h ⊢
  split
  · rfl
  · rename_i h1
    split
    · rfl
    · rename_i h2
      split
      · rfl
      · rename_i h3
        split
        · rfl
        · rename_i h4
          split
          · rfl
          · rename_i h5
            rw [if_neg h1, if_neg h2, if_neg h3, if_neg h4, if_neg h5] at h
            cases hch : q.changingEmail u with
            | none => rfl
            | some e =>
              rw [hch] at h
              simp only at h ⊢
              split
              · rfl
              · rename_i htaken
                rw [if_neg htaken] at h
                cases h

theorem RowServed.mails_uncommitted (h : RowServed d amb db c req u out) (hnone : out.commit = none)
    (a : Text) (k : Code) : out.mails ≠ [.verification a k] := by
  cases h with
  | callbackSub _ _ => cases hnone
  | callbackEmail _ _ _ _ => cases hnone
  | login _ => exact login_mails a k
  | login2fa _ _ => simp [login2fa_mails]
  | verify _ _ => simp [verifyEmail_mails]
  | resend _ _ => simp [resendVerification_uncommitted hnone]
  | updateMe _ _ => simp [updateMe_uncommitted hnone]

theorem RowServed.settled (h : RowServed d amb db c req u out) :
    ((settle db c out).db = db ∧ ∀ a k, (settle db c out).mails ≠ [.verification a k]) ∨
      ∃ v, out.commit = some v ∧
        settle db c out =
          { db := { db with users := storeRow db.users v }
            cookie := out.cookie, mails := out.mails, reply := out.reply } := by
  cases hcommit : out.commit with
  | none =>
    refine .inl ?_
    unfold settle
    rw [hcommit]
    exact ⟨rfl, h.mails_uncommitted hcommit⟩
  | some v =>
    cases hconf : conflicts db.users v with
    | true =>
      refine .inl ?_
      simp [settle, hcommit, hconf]
    | false =>
      refine .inr ⟨v, rfl, ?_⟩
      simp [settle, hcommit, hconf]

/-- A row that was there before the request and is unchanged keeps the relation when the request
issues nothing for it. -/
theorem ConfirmationTracked.unchanged (h : ConfirmationTracked d past v) (hok : l.2.before.Ok)
    (hok' : l.2.outcome.db.Ok) (hreq : l.1.request.isVerify = false)
    (hi : mailedVerification d v.id l = none) (hv : v ∈ l.2.before.users)
    (hv' : v ∈ l.2.outcome.db.users) : ConfirmationTracked d (past ++ [l]) v := by
  have hdropped := not_dropped hok hok' hv hv' rfl rfl
  exact h.silent (verification_silent hreq hi hdropped) rfl rfl rfl rfl (.inl rfl)

/-- No code is out for an account that is not there yet. -/
def NoneOut (d : Deps) (past : Transcript) (db : Db) : Prop :=
  ∀ id k n, db.nextId ≤ id → ¬ Outstanding (verificationCodes d id) past k n

theorem NoneOut.step {db' : Db} (h : NoneOut d past db) (hle : db.nextId ≤ db'.nextId)
    (hmail : ∀ id, db'.nextId ≤ id → mailedVerification d id l = none) :
    NoneOut d (past ++ [l]) db' := by
  intro id k n hid hout
  obtain ⟨m, hm⟩ := hout.before (hmail id hid)
  exact h id k m (Nat.le_trans hle hid) hm

/-- The relation on all rows. -/
structure AllTracked (d : Deps) (past : Transcript) (db : Db) : Prop where
  rows : ∀ v ∈ db.users, ConfirmationTracked d past v
  fresh : NoneOut d past db

/-- A request that mails no verification code and leaves every row alone, a new one without a code
apart. -/
theorem AllTracked.quiet (h : AllTracked d past l.2.before) (hok : l.2.before.Ok)
    (hok' : l.2.outcome.db.Ok) (hreq : l.1.request.isVerify = false)
    (hmail : ∀ id, mailedVerification d id l = none)
    (hle : l.2.before.nextId ≤ l.2.outcome.db.nextId)
    (hrows : ∀ v ∈ l.2.outcome.db.users, v ∈ l.2.before.users ∨
      (l.2.before.nextId ≤ v.id ∧ v.emailVerifyCodeHash = none)) :
    AllTracked d (past ++ [l]) l.2.outcome.db := by
  refine ⟨?_, h.fresh.step hle fun id _ => hmail id⟩
  intro v hv
  obtain hmem | ⟨hid, hnone⟩ := hrows v hv
  · exact (h.rows v hmem).unchanged hok hok' hreq (hmail v.id) hmem hv
  · have hnot : ∀ k n, ¬ Outstanding (verificationCodes d v.id) (past ++ [l]) k n := by
      intro k n hout
      obtain ⟨m, hm⟩ := hout.before (hmail v.id)
      exact h.fresh v.id k m hid hm
    refine ⟨?_, fun _ => hnot, ?_⟩
    · intro _
      rw [hnone]
      exact Tracked.cleared
    · intro k n t hout
      exact absurd hout (hnot k n)

/-- The row a request commits follows its effect. -/
theorem ConfirmationTracked.effect (h : ConfirmationTracked d past u) (hok : l.2.before.Ok)
    (hok' : l.2.outcome.db.Ok) (hreq : l.1.request.isVerify = false)
    (heffect : CodeEffect d l.1.ambient u out v) (hmails : l.2.outcome.mails = out.mails)
    (hcookie : l.2.outcome.cookie = out.cookie) (hid : v.id = u.id) (hu : u ∈ l.2.before.users)
    (hv : v ∈ l.2.outcome.db.users) : ConfirmationTracked d (past ++ [l]) v := by
  cases heffect with
  | issued hm hc hh ht ha htarget =>
    refine ConfirmationTracked.issued ?_ hh ht ha htarget
    unfold mailedVerification
    rw [hmails, hm, hcookie, hc, hid]
    exact if_pos rfl
  | cancelled hm hbefore hafter hh =>
    have hnone : mailedVerification d v.id l = none :=
      mailedVerification_none (by simp [hmails, hm])
    refine ConfirmationTracked.retired hnone ?_ hh
    rw [droppedChange_true hok hok' hu hv hid.symm rfl hbefore hafter, Bool.or_true]
  | kept hm hh ht ha hp htarget =>
    have hdropped := not_dropped hok hok' hu hv hid hp
    have hnone : mailedVerification d u.id l = none := mailedVerification_none (by rwa [hmails])
    exact h.silent (verification_silent hreq hnone hdropped) hid hh ht ha htarget

theorem AllTracked.committed (h : AllTracked d past l.2.before) (hok : l.2.before.Ok)
    (hok' : l.2.outcome.db.Ok) (hreq : l.1.request.isVerify = false)
    (hrow : RowServed d l.1.ambient l.2.before l.1.cookie l.1.request u out)
    (hcommit : out.commit = some v)
    (ho : l.2.outcome = { db := { l.2.before with users := storeRow l.2.before.users v },
                          cookie := out.cookie, mails := out.mails, reply := out.reply }) :
    AllTracked d (past ++ [l]) l.2.outcome.db := by
  have hid := hrow.commit_id hcommit
  have heffect := hrow.codeEffect hcommit hreq
  have husers : l.2.outcome.db.users = storeRow l.2.before.users v := by rw [ho]
  have hstored : v ∈ l.2.outcome.db.users := by
    rw [husers]
    refine List.mem_map.mpr ⟨u, hrow.mem, ?_⟩
    rw [if_pos hid.symm]
  -- A code is mailed to the account of the row only.
  have hmail : ∀ id, id ≠ u.id → mailedVerification d id l = none := by
    intro id hne
    cases heffect with
    | issued _ hc _ _ _ _ =>
      refine mailedVerification_other ?_
      rw [ho, hc]
      exact fun heq => hne (Option.some.inj heq).symm
    | cancelled hm _ _ _ => exact mailedVerification_none (by simp [ho, hm])
    | kept hm _ _ _ _ _ => exact mailedVerification_none (by rwa [ho])
  have hnext : l.2.outcome.db.nextId = l.2.before.nextId := by rw [ho]
  refine ⟨?_, h.fresh.step (Nat.le_of_eq hnext.symm) ?_⟩
  · intro x hx
    have hx' : x ∈ storeRow l.2.before.users v := by rwa [husers] at hx
    obtain rfl | ⟨hmem, hne⟩ := mem_storeRow hx'
    · exact (h.rows u hrow.mem).effect hok hok' hreq heffect (by rw [ho]) (by rw [ho]) hid hrow.mem
        hstored
    · rw [hid] at hne
      exact (h.rows x hmem).unchanged hok hok' hreq (hmail x.id hne) hmem hx
  · intro id hle
    have hlt := hok.ids_lt u hrow.mem
    exact hmail id (by omega)

theorem AllTracked.registered {q : RegisterRequest} {hash : Text} {m : Mail}
    (h : AllTracked d past l.2.before) (hok : l.2.before.Ok) (hok' : l.2.outcome.db.Ok)
    (hreq : l.1.request.isVerify = false)
    (hissue : issueVerification d l.1.ambient (registeredUser l.2.before.nextId q hash) = some (v, m))
    (ho : l.2.outcome = { db := insertRow l.2.before v,
                          cookie := { l.1.cookie with userId := some l.2.before.nextId },
                          mails := [m], reply := .user (userPayload v) }) :
    AllTracked d (past ++ [l]) l.2.outcome.db := by
  obtain ⟨_, _, _, hrow⟩ := issueVerification_some hissue
  obtain ⟨t, hm, hh, ht, ha, htarget⟩ := target_issued hissue
  have hid : v.id = l.2.before.nextId := by rw [hrow]; rfl
  have husers : l.2.outcome.db.users = l.2.before.users ++ [v] := by rw [ho]; rfl
  have hmail : ∀ id, id ≠ l.2.before.nextId → mailedVerification d id l = none := by
    intro id hne
    refine mailedVerification_other ?_
    rw [ho]
    exact fun heq => hne (Option.some.inj heq).symm
  have hnext : l.2.outcome.db.nextId = l.2.before.nextId + 1 := by rw [ho]; rfl
  refine ⟨?_, h.fresh.step (by omega) fun id hle => hmail id (by omega)⟩
  intro x hx
  have hx' : x ∈ l.2.before.users ++ [v] := by rwa [husers] at hx
  obtain hmem | hnew := List.mem_append.mp hx'
  · have hlt := hok.ids_lt x hmem
    exact (h.rows x hmem).unchanged hok hok' hreq (hmail x.id (by omega)) hmem hx
  · rw [List.mem_singleton] at hnew
    subst hnew
    refine ConfirmationTracked.issued ?_ hh ht ha htarget
    unfold mailedVerification
    rw [ho, hid, hm]
    exact if_pos rfl

theorem AllTracked.other (h : AllTracked d past l.2.before) (hok : l.2.before.Ok)
    (hs : Served d l.1.ambient l.2.before l.1.cookie l.1.request l.2.outcome)
    (hreq : l.1.request.isVerify = false) : AllTracked d (past ++ [l]) l.2.outcome.db := by
  have hok' := hs.ok hok
  have hle := hs.nextId_le
  obtain ⟨request, hr⟩ : ∃ request, l.1.request = request := ⟨_, rfl⟩
  obtain ⟨o, ho⟩ : ∃ o, l.2.outcome = o := ⟨_, rfl⟩
  rw [hr, ho] at hs
  cases hs with
  | idle _ =>
    refine h.quiet hok hok' hreq (fun id => mailedVerification_none (by simp [ho])) hle ?_
    intro v hv
    exact .inl (by rwa [ho] at hv)
  | row hrow =>
    obtain ⟨hdb, hmails⟩ | ⟨v, hcommit, hset⟩ := hrow.settled
    · refine h.quiet hok hok' hreq (fun id => mailedVerification_none (by rwa [ho])) hle ?_
      intro v hv
      exact .inl (by rwa [ho, hdb] at hv)
    · rw [← hr] at hrow
      exact h.committed hok hok' hreq hrow hcommit (by rw [ho, hset])
  | googleInsert _ _ _ =>
    refine h.quiet hok hok' hreq (fun id => mailedVerification_none (by simp [ho])) hle ?_
    intro v hv
    rw [ho] at hv
    obtain hmem | hnew := List.mem_append.mp hv
    · exact .inl hmem
    · rw [List.mem_singleton.mp hnew]
      exact .inr ⟨Nat.le_refl _, rfl⟩
  | registerInsert _ hissue =>
    exact h.registered hok hok' hreq hissue ho
  | erase _ _ _ =>
    refine h.quiet hok hok' hreq (fun id => mailedVerification_none (by simp [ho])) hle ?_
    intro v hv
    rw [ho] at hv
    exact .inl (mem_eraseRow.mp hv).1

/-! ## What verify does -/

def checkVerifyCode (d : Deps) (amb : Ambient) (code : Code) (u : User) : Except Reply Bool :=
  checkCode d amb code u.emailVerifyCodeHash u.emailVerifyCodeExpiresAt u.emailVerifyAttempts
    "Request a new one."

/-- The row once its target is confirmed. -/
def confirmed (u : User) : User :=
  clearCode { u with email := (target u).or u.email, pendingEmail := none, emailVerified := true }

inductive VerifyCase (d : Deps) (amb : Ambient) (db : Db) (c : Cookie) (code : Code) : Outcome → Prop
  | nobody {c' : Cookie} {n : ℕ} {detail : String} : (∀ u ∈ db.users, c.userId ≠ some u.id) →
      VerifyCase d amb db c code { db := db, cookie := c', reply := .http n detail }
  | limited {n : ℕ} {detail : String} : amb.rateOk = false →
      VerifyCase d amb db c code { db := db, cookie := c, reply := .http n detail }
  | settled {u : User} : u ∈ db.users → c.userId = some u.id → unsettled u = false →
      VerifyCase d amb db c code { db := db, cookie := c, reply := .user (userPayload u) }
  | refused {u : User} {n : ℕ} {detail : String} : u ∈ db.users → c.userId = some u.id →
      amb.rateOk = true → checkVerifyCode d amb code u = .error (.http n detail) →
      VerifyCase d amb db c code { db := db, cookie := c, reply := .http n detail }
  | missed {u v : User} : u ∈ db.users → c.userId = some u.id → amb.rateOk = true →
      checkVerifyCode d amb code u = .ok false →
      v = { u with emailVerifyAttempts := u.emailVerifyAttempts + 1 } →
      VerifyCase d amb db c code
        { db := { db with users := storeRow db.users v }
          cookie := c, reply := .http 400 "Invalid code." }
  | lost {u v : User} {p : Text} : u ∈ db.users → c.userId = some u.id →
      u.pendingEmail = some p → emailTaken db.users u.id p = true →
      v = clearCode { u with pendingEmail := none } →
      VerifyCase d amb db c code
        { db := { db with users := storeRow db.users v }
          cookie := c, reply := .http 409 "Email already registered" }
  | accepted {u : User} : u ∈ db.users → c.userId = some u.id → amb.rateOk = true →
      unsettled u = true → checkVerifyCode d amb code u = .ok true →
      (∀ p, u.pendingEmail = some p → emailTaken db.users u.id p = false) →
      VerifyCase d amb db c code
        { db := { db with users := storeRow db.users (confirmed u) }
          cookie := c, reply := .user (userPayload (confirmed u)) }

theorem emailTaken_eq_false_iff {t : Text} :
    emailTaken db.users id t = false ↔ AddressFree db id t := by
  unfold emailTaken AddressFree
  rw [List.any_eq_false]
  simp only [Bool.and_eq_true, decide_eq_true_eq, not_and, not_not]

theorem confirmed_pending {p : Text} (hp : u.pendingEmail = some p) :
    confirmed u = clearCode { u with email := some p, pendingEmail := none, emailVerified := true } := by
  simp [confirmed, target, hp]

theorem confirmed_own (hp : u.pendingEmail = none) (hv : u.emailVerified = false) :
    confirmed u = clearCode { u with emailVerified := true } := by
  simp [confirmed, target, hp, hv]

theorem confirmed_email {t : Text} (ht : target u = some t) : (confirmed u).email = some t := by
  simp [confirmed, ht]

/-- Nothing stops the commit of a confirmed address that no other account holds. -/
theorem confirmed_no_conflict (hI : db.Unique) (hu : u ∈ db.users)
    (hfree : ∀ t, target u = some t → AddressFree db u.id t) :
    conflicts db.users (confirmed u) = false := by
  rw [conflicts_eq_false_iff]
  intro x hx hclash
  obtain ⟨hid, ⟨e, he, hxe⟩ | ⟨sub, hsub, hxs⟩⟩ := hclash
  · cases ht : target u with
    | some t =>
      rw [confirmed_email ht, Option.some.injEq] at he
      exact hid (hfree t ht x hx (by rw [hxe, he]))
    | none =>
      have hown : u.email = some e := by simpa [confirmed, ht] using he
      exact hI u hu x hx ⟨hid, .inl ⟨e, hown, hxe⟩⟩
  · exact hI u hu x hx ⟨hid, .inr ⟨sub, hsub, hxs⟩⟩

/-- `verify_email` on the current row, committed. -/
theorem settle_verify (hI : db.Unique) (code : Code) (hu : u ∈ db.users) (hc : c.userId = some u.id) :
    VerifyCase d amb db c code
      (settle db c (verifyEmail d amb (emailTaken db.users u.id) c code u)) := by
  unfold verifyEmail
  split
  · rename_i hrate
    exact VerifyCase.limited (by simpa using hrate)
  · rename_i hrate
    have hpass : amb.rateOk = true := by simpa using hrate
    split
    · rename_i hgate
      exact VerifyCase.settled hu hc (by simp [unsettled, hgate])
    · rename_i hgate
      have hopen : unsettled u = true := by
        unfold unsettled
        rw [Bool.eq_false_iff.mpr hgate]
        rfl
      split
      · rename_i r hcheck
        obtain ⟨n, detail, rfl⟩ := checkCode_error hcheck
        exact VerifyCase.refused hu hc hpass hcheck
      · rename_i hcheck
        have hno := hI.no_conflict (v := { u with emailVerifyAttempts := u.emailVerifyAttempts + 1 }) hu
          rfl rfl rfl
        simp only [settle, hno, Bool.false_eq_true, if_false]
        exact VerifyCase.missed hu hc hpass hcheck rfl
      · rename_i hcheck
        split
        · rename_i p hp
          split
          · rename_i htaken
            have hno := hI.no_conflict (v := clearCode { u with pendingEmail := none }) hu rfl rfl rfl
            simp only [settle, hno, Bool.false_eq_true, if_false]
            exact VerifyCase.lost hu hc hp htaken rfl
          · rename_i htaken
            have hfree : emailTaken db.users u.id p = false := by simpa using htaken
            have hno : conflicts db.users (confirmed u) = false := by
              refine confirmed_no_conflict hI hu ?_
              intro t ht
              have hpt : p = t := by simpa [target, hp] using ht
              rw [← hpt]
              exact emailTaken_eq_false_iff.mp hfree
            rw [← confirmed_pending hp]
            simp only [settle, hno, Bool.false_eq_true, if_false]
            refine VerifyCase.accepted hu hc hpass hopen hcheck ?_
            intro p' hp'
            rw [hp, Option.some.injEq] at hp'
            rw [← hp', hfree]
        · rename_i hp
          have hunverified : u.emailVerified = false := by simpa [unsettled, hp] using hopen
          have hno : conflicts db.users (confirmed u) = false := by
            refine confirmed_no_conflict hI hu ?_
            intro t ht x hx hxt
            have hown : u.email = some t := by simpa [target, hp, hunverified] using ht
            by_contra hid
            exact hI u hu x hx ⟨hid, .inl ⟨t, hown, hxt⟩⟩
          rw [← confirmed_own hp hunverified]
          simp only [settle, hno, Bool.false_eq_true, if_false]
          refine VerifyCase.accepted hu hc hpass hopen hcheck ?_
          intro p hp'
          rw [hp] at hp'
          cases hp'

theorem handle_verify (hI : db.Unique) (code : Code) :
    VerifyCase d amb db c code (handle d amb db c (.verify code)) := by
  simp only [handle]
  unfold withCurrentUser
  split
  · rename_i hc
    refine VerifyCase.nobody ?_
    intro u _ hcu
    rw [hc] at hcu
    cases hcu
  · rename_i i hc
    split
    · rename_i hfind
      refine VerifyCase.nobody ?_
      intro u hu hcu
      rw [hc, Option.some.injEq] at hcu
      have hnone := List.find?_eq_none.mp hfind u hu
      simp [hcu] at hnone
    · rename_i u hfind
      obtain ⟨hu, rfl⟩ := findById_some hfind
      exact settle_verify hI code hu hc

theorem VerifyCase.mails {code : Code} (h : VerifyCase d amb db c code o) : o.mails = [] := by
  cases h with
  | nobody _ => rfl
  | limited _ => rfl
  | settled _ _ _ => rfl
  | refused _ _ _ _ => rfl
  | missed _ _ _ _ _ => rfl
  | lost _ _ _ _ _ => rfl
  | accepted _ _ _ _ _ _ => rfl

theorem not_confirmed {n : ℕ} {detail : String} (h : l.2.outcome.reply = .http n detail) :
    confirmedBy id l = false := by
  unfold confirmedBy
  split
  · rename_i hreply
    rw [h] at hreply
    cases hreply
  · rfl

/-- A row other than the current one. -/
theorem ConfirmationTracked.notCurrent {code : Code} (h : ConfirmationTracked d past v)
    (hok : l.2.before.Ok) (hok' : l.2.outcome.db.Ok) (hreq : l.1.request = .verify code)
    (hi : mailedVerification d v.id l = none) (hne : l.1.cookie.userId ≠ some v.id)
    (hv : v ∈ l.2.before.users) (hv' : v ∈ l.2.outcome.db.users) :
    ConfirmationTracked d (past ++ [l]) v := by
  have hconfirmed : confirmedBy v.id l = false := by
    unfold confirmedBy
    split
    · simp [hne]
    · rfl
  have hdropped := not_dropped hok hok' hv hv' rfl rfl
  refine h.silent ⟨hi, ?_, ?_⟩ rfl rfl rfl rfl (.inl rfl)
  · simp [verificationCodes, hconfirmed, hdropped]
  · intro k
    simp [verificationCodes, hreq, hne]

theorem VerifyCase.nextId {code : Code} (h : VerifyCase d amb db c code o) :
    o.db.nextId = db.nextId := by
  cases h with
  | nobody _ => rfl
  | limited _ => rfl
  | settled _ _ _ => rfl
  | refused _ _ _ _ => rfl
  | missed _ _ _ _ _ => rfl
  | lost _ _ _ _ _ => rfl
  | accepted _ _ _ _ _ _ => rfl

/-- Verify leaves every row but the current one alone. -/
theorem VerifyCase.row_or {code : Code} (h : VerifyCase d amb db c code o) (hv : v ∈ o.db.users) :
    v ∈ db.users ∨ c.userId = some v.id := by
  have hstored : ∀ {x : User}, v ∈ storeRow db.users x → c.userId = some x.id →
      v ∈ db.users ∨ c.userId = some v.id := by
    intro x hmem hc
    obtain rfl | ⟨hold, _⟩ := mem_storeRow hmem
    · exact .inr hc
    · exact .inl hold
  cases h with
  | nobody _ => exact .inl hv
  | limited _ => exact .inl hv
  | settled _ _ _ => exact .inl hv
  | refused _ _ _ _ => exact .inl hv
  | missed _ hc _ _ hx => exact hstored hv (by rw [hc, hx])
  | lost _ hc _ _ hx => exact hstored hv (by rw [hc, hx]; rfl)
  | accepted _ hc _ _ _ _ => exact hstored hv hc

theorem VerifyCase.current {code : Code} (hcase : VerifyCase d l.1.ambient l.2.before l.1.cookie code
    l.2.outcome) (h : ∀ u ∈ l.2.before.users, ConfirmationTracked d past u) (hok : l.2.before.Ok)
    (hok' : l.2.outcome.db.Ok) (hreq : l.1.request = .verify code)
    (hmail : ∀ id, mailedVerification d id l = none) (hv : v ∈ l.2.outcome.db.users)
    (hc : l.1.cookie.userId = some v.id) : ConfirmationTracked d (past ++ [l]) v := by
  have hmisses : l.1.ambient.rateOk = true → ∀ k,
      (verificationCodes d v.id).misses k l = wrongFor l.1.ambient code k := by
    intro hrate k
    simp [verificationCodes, hreq, hc, hrate]
  -- An answer other than the payload accepts nothing, and drops nothing when the change is kept.
  have hretires : ∀ {u : User} {n : ℕ} {detail : String}, l.2.outcome.reply = .http n detail →
      u ∈ l.2.before.users → v.id = u.id → v.pendingEmail = u.pendingEmail →
      (verificationCodes d v.id).retires l = false := by
    intro u n detail hreply hu hid hp
    have hdropped := not_dropped hok hok' hu hv hid hp
    rw [← hid] at hdropped
    simp [verificationCodes, not_confirmed hreply, hdropped]
  have hcurrent : ∀ {u : User}, l.1.cookie.userId = some u.id → v.id = u.id := by
    intro u hcu
    rw [hc, Option.some.injEq] at hcu
    exact hcu
  obtain ⟨o, ho⟩ : ∃ o, l.2.outcome = o := ⟨_, rfl⟩
  rw [ho] at hcase
  cases hcase with
  | nobody hnobody =>
    have hold : v ∈ l.2.before.users := by rwa [ho] at hv
    exact absurd hc (hnobody v hold)
  | limited hlimited =>
    have hold : v ∈ l.2.before.users := by rwa [ho] at hv
    refine (h v hold).silent ⟨hmail v.id, hretires (by rw [ho]) hold rfl rfl, ?_⟩ rfl rfl rfl rfl
      (.inl rfl)
    intro k
    simp [verificationCodes, hreq, hlimited]
  | settled hu hcu hclosed =>
    have hold : v ∈ l.2.before.users := by rwa [ho] at hv
    obtain rfl := hok.row_eq hold hu (hcurrent hcu).symm
    refine (h _ hold).kept rfl (hmail _) rfl (.inl rfl) ?_
    intro hne
    simp only [unsettled, Bool.not_eq_false', Bool.and_eq_true, Option.isNone_iff_eq_none] at hclosed
    simp [target, hclosed] at hne
  | refused hu hcu hrate hcheck =>
    have hold : v ∈ l.2.before.users := by rwa [ho] at hv
    obtain rfl := hok.row_eq hold hu (hcurrent hcu).symm
    refine (h _ hold).kept rfl (hmail _) rfl (.inl rfl) ?_
    intro hne
    exact ((h _ hold).tracked hne).refused hcheck (hmail _) (hretires (by rw [ho]) hold rfl rfl)
      (hmisses hrate)
  | @missed u x hu hcu hrate hcheck hx =>
    have hstored : v ∈ storeRow l.2.before.users x := by rwa [ho] at hv
    obtain hvx | ⟨_, hne⟩ := mem_storeRow hstored
    · rw [hx] at hvx
      have hid : v.id = u.id := hcurrent hcu
      have hretained := hretires (by rw [ho]) hu hid (by rw [hvx])
      rw [hid] at hretained hmisses
      refine (h u hu).kept hid (hmail u.id) (by rw [hvx]) (.inl (by rw [hvx]; rfl)) ?_
      intro hne
      rw [hvx]
      exact ((h u hu).tracked hne).missed hcheck (hmail u.id) hretained (hmisses hrate)
    · rw [hx] at hne
      exact absurd (hcurrent hcu) hne
  | @lost u x p hu hcu hp _ hx =>
    have hstored : v ∈ storeRow l.2.before.users x := by rwa [ho] at hv
    obtain hvx | ⟨_, hne⟩ := mem_storeRow hstored
    · rw [hx] at hvx
      refine ConfirmationTracked.retired (hmail v.id) ?_ (by rw [hvx]; rfl)
      have hdropped := droppedChange_true hok hok' hu hv (hcurrent hcu).symm rfl (by simp [hp])
        (by rw [hvx]; rfl)
      rw [hdropped, Bool.or_true]
    · rw [hx] at hne
      exact absurd (hcurrent hcu) hne
  | @accepted u hu hcu _ hopen _ _ =>
    have hstored : v ∈ storeRow l.2.before.users (confirmed u) := by rwa [ho] at hv
    obtain hvx | ⟨_, hne⟩ := mem_storeRow hstored
    · refine ConfirmationTracked.retired (hmail v.id) ?_ (by rw [hvx]; rfl)
      have hconfirmed : confirmedBy v.id l = true := by
        simp [confirmedBy, hreq, ho, hc, hok.find hu (hcurrent hcu).symm, hopen]
      rw [hconfirmed, Bool.true_or]
    · exact absurd (hcurrent hcu) hne

theorem AllTracked.verify {code : Code} (h : AllTracked d past l.2.before) (hok : l.2.before.Ok)
    (hok' : l.2.outcome.db.Ok) (hreq : l.1.request = .verify code)
    (hcase : VerifyCase d l.1.ambient l.2.before l.1.cookie code l.2.outcome) :
    AllTracked d (past ++ [l]) l.2.outcome.db := by
  have hmail : ∀ id, mailedVerification d id l = none := fun id =>
    mailedVerification_none (by simp [hcase.mails])
  refine ⟨?_, h.fresh.step (Nat.le_of_eq hcase.nextId.symm) fun id _ => hmail id⟩
  intro v hv
  by_cases hc : l.1.cookie.userId = some v.id
  · exact hcase.current h.rows hok hok' hreq hmail hv hc
  · obtain hold | hcv := hcase.row_or hv
    · exact (h.rows v hold).notCurrent hok hok' hreq (hmail v.id) hc hold hv
    · exact absurd hcv hc

/-! ## Every run -/

theorem Observed.confirmations (h : Observed d past w) : AllTracked d past w.db := by
  have hall : Observed d past w ∧ AllTracked d past w.db := by
    induction h with
    | refl =>
      refine ⟨Runs.Run.refl, ⟨?_, ?_⟩⟩
      · intro v hv
        cases hv
      · intro id k n _
        exact not_outstanding_nil
    | @snoc es t t' l hrun hstep ih =>
      refine ⟨hrun.snoc hstep, ?_⟩
      obtain ⟨_, hbefore, hout, hdb, _⟩ := observe_some hstep.2
      have hok : l.2.before.Ok := by
        rw [hbefore]
        exact Observed.ok ih.1
      have hunique : l.2.before.Unique := by
        rw [hbefore]
        exact Observed.unique ih.1
      have hI : AllTracked d es l.2.before := by
        rw [hbefore]
        exact ih.2
      rw [← hbefore] at hout
      rw [hdb]
      have hs : Served d l.1.ambient l.2.before l.1.cookie l.1.request l.2.outcome := by
        rw [hout]
        exact handle_served l.1.request
      cases hreq : l.1.request with
      | verify code =>
        have hcase : VerifyCase d l.1.ambient l.2.before l.1.cookie code l.2.outcome := by
          rw [hout, hreq]
          exact handle_verify hunique code
        exact hI.verify hok (hs.ok hok) hreq hcase
      | _ => exact hI.other hok hs (by rw [hreq]; rfl)
  exact hall.2

/-- The code check passes exactly on the outstanding code. -/
theorem ConfirmationTracked.passes_iff (h : ConfirmationTracked d past u)
    (hinj : Function.Injective d.hashCode) {code : Code} {t : Text} (ht : target u = some t) :
    checkVerifyCode d amb code u = .ok true ↔ RightCode d past u.id t amb code := by
  have htarget : target u ≠ none := by simp [ht]
  constructor
  · intro hcheck
    obtain ⟨k, n, hk, hcode, hnow, hn⟩ := (h.tracked htarget).accepted hinj hcheck
    exact ⟨k, n, hk, hcode, h.addressed k n t hk ht, hnow, hn⟩
  · intro hright
    obtain ⟨k, n, hk, hcode, _, hnow, hn⟩ := hright
    have hset : u.emailVerifyCodeHash ≠ none := fun hnone => h.cleared hnone k n hk
    exact (h.tracked htarget).accepts hset hk hcode hnow hn

/-- An address that is the account's own already is free for it, as addresses are unique. -/
theorem addressFree_of_unsettled (hunique : db.Unique) (hu : u ∈ db.users) {t : Text}
    (ht : target u = some t) (hopen : unsettled u = true)
    (hfree : ∀ p, u.pendingEmail = some p → emailTaken db.users u.id p = false) :
    AddressFree db u.id t := by
  cases hp : u.pendingEmail with
  | some p =>
    have hpt : p = t := by simpa [target, hp] using ht
    rw [← hpt]
    exact emailTaken_eq_false_iff.mp (hfree p hp)
  | none =>
    have hunverified : u.emailVerified = false := by simpa [unsettled, hp] using hopen
    have hemail : u.email = some t := by simpa [target, hp, hunverified] using ht
    intro x hx hxt
    by_contra hid
    exact hunique u hu x hx ⟨hid, .inl ⟨t, hemail, hxt⟩⟩

theorem verify_accepts_iff (hinj : Function.Injective d.hashCode) (h : Observed d past w)
    (hstep : observe d w ev = some (w', s)) {code : Code} (hreq : ev.request = .verify code)
    (hu : u ∈ w.db.users) (hc : ev.cookie.userId = some u.id) {t : Text} (ht : target u = some t) :
    ((∃ p, s.outcome.reply = .user p) ↔
        ev.ambient.rateOk = true ∧ RightCode d past u.id t ev.ambient code ∧
          AddressFree w.db u.id t) ∧
      ((∃ p, s.outcome.reply = .user p) → ∃ v ∈ w'.db.users, v.id = u.id ∧ v.email = some t ∧
        v.emailVerified = true ∧ v.pendingEmail = none) := by
  obtain ⟨_, _, hout, hdb, _⟩ := observe_some hstep
  have hok := h.ok
  have hunique := h.unique
  have hI := h.confirmations.rows u hu
  have hsame : ∀ {v : User}, v ∈ w.db.users → ev.cookie.userId = some v.id → v = u := by
    intro v hv hcv
    rw [hc, Option.some.injEq] at hcv
    exact hok.row_eq hu hv hcv.symm
  have hcheck_iff : checkVerifyCode d ev.ambient code u = .ok true ↔
      RightCode d past u.id t ev.ambient code := hI.passes_iff hinj ht
  have hcase : VerifyCase d ev.ambient w.db ev.cookie code s.outcome := by
    rw [hout, hreq]
    exact handle_verify hunique code
  obtain ⟨o, ho⟩ : ∃ o, s.outcome = o := ⟨_, rfl⟩
  rw [hdb]
  rw [ho] at hcase ⊢
  cases hcase with
  | nobody hnobody => exact absurd hc (hnobody u hu)
  | limited hlimited => simp [hlimited]
  | settled hv hcv hclosed =>
    obtain rfl := hsame hv hcv
    simp only [unsettled, Bool.not_eq_false', Bool.and_eq_true, Option.isNone_iff_eq_none] at hclosed
    simp [target, hclosed] at ht
  | @refused v _ _ hv hcv _ hcheck =>
    obtain rfl := hsame hv hcv
    have hwrong : ¬ RightCode d past v.id t ev.ambient code := by
      rw [← hcheck_iff, hcheck]
      exact nofun
    simp [hwrong]
  | @missed v _ hv hcv _ hcheck _ =>
    obtain rfl := hsame hv hcv
    have hwrong : ¬ RightCode d past v.id t ev.ambient code := by
      rw [← hcheck_iff, hcheck]
      exact nofun
    simp [hwrong]
  | @lost v _ p hv hcv hp htaken _ =>
    obtain rfl := hsame hv hcv
    have hpt : p = t := by simpa [target, hp] using ht
    have hheld : ¬ AddressFree w.db v.id t := by
      rw [← emailTaken_eq_false_iff, ← hpt, htaken]
      exact nofun
    simp [hheld]
  | @accepted v hv hcv hrate hopen hcheck hfree =>
    obtain rfl := hsame hv hcv
    have hown : AddressFree w.db v.id t := addressFree_of_unsettled hunique hv ht hopen hfree
    refine ⟨?_, ?_⟩
    · exact ⟨fun _ => ⟨hrate, hcheck_iff.mp hcheck, hown⟩, fun _ => ⟨_, rfl⟩⟩
    · intro _
      refine ⟨confirmed v, ?_, rfl, confirmed_email ht, rfl, rfl⟩
      exact List.mem_map.mpr ⟨v, hv, if_pos rfl⟩

/-! ## A change of address to confirm -/

def afterRequest : Transcript × World :=
  watched transparent [sends 1 {} (.register signUp), sends 1 firstCookie (.updateMe changeToB)]

def changedUser : User := (findById afterRequest.2.db.users 0).getD { id := 0 }

def mailedToB : Mailed := ⟨some addressB, generateCode (drawn 0), codeExpiry transparent atStart⟩

def confirmation (rateOk : Bool) : Event where
  browser := 1
  cookie := firstCookie
  request := .verify (generateCode (drawn 0))
  ambient := { now := 0, rateOk := rateOk }

def answered (ev : Event) : World × Seen :=
  (observe transparent afterRequest.2 ev).getD ({}, ⟨{}, ⟨{}, {}, [], .nobody⟩⟩)

theorem rightCode_mailedToB (rateOk : Bool) : RightCode transparent afterRequest.1 changedUser.id addressB
    (confirmation rateOk).ambient (generateCode (drawn 0)) :=
  ⟨mailedToB, 0, by decide, rfl, rfl, Nat.zero_le _, by decide⟩

theorem verify_accepts_iff_changed :
    (confirmation true).ambient.rateOk = true ∧ RightCode transparent afterRequest.1 changedUser.id
        addressB (confirmation true).ambient (generateCode (drawn 0)) ∧
      AddressFree afterRequest.2.db changedUser.id addressB := by
  have hrun : Observed transparent afterRequest.1 afterRequest.2 := watched_run _ (by decide)
  have hstep : observe transparent afterRequest.2 (confirmation true) =
      some ((answered (confirmation true)).1, (answered (confirmation true)).2) := by rfl
  have hiff := verify_accepts_iff transparent_hashCode_injective hrun hstep (u := changedUser)
    (t := addressB) rfl (by decide) (by decide) (by decide)
  exact hiff.1.mp ⟨userPayload (confirmed changedUser), by rfl⟩

/-- The right code, refused by the rate limit. -/
theorem right_code_refused :
    ¬ ∀ (d : Deps) (past : Transcript) (w w' : World) (ev : Event) (s : Seen) (code : Code) (u : User)
      (t : Text), Function.Injective d.hashCode → Observed d past w →
        observe d w ev = some (w', s) → ev.request = .verify code → u ∈ w.db.users →
        ev.cookie.userId = some u.id → target u = some t →
        ((∃ p, s.outcome.reply = .user p) ↔
          RightCode d past u.id t ev.ambient code ∧ AddressFree w.db u.id t) := by
  intro h
  have hrun : Observed transparent afterRequest.1 afterRequest.2 := watched_run _ (by decide)
  have hstep : observe transparent afterRequest.2 (confirmation false) =
      some ((answered (confirmation false)).1, (answered (confirmation false)).2) := by rfl
  have hiff := h transparent afterRequest.1 afterRequest.2 _ (confirmation false) _
    (generateCode (drawn 0)) changedUser addressB transparent_hashCode_injective hrun hstep rfl
    (by decide) (by decide) (by decide)
  have hfree : AddressFree afterRequest.2.db changedUser.id addressB := by
    unfold AddressFree
    decide
  obtain ⟨p, hp⟩ := hiff.mpr ⟨rightCode_mailedToB false, hfree⟩
  have hrefused : (answered (confirmation false)).2.outcome.reply =
      .http 429 "Too many attempts. Try again in a minute." := by rfl
  rw [hrefused] at hp
  cases hp

end WarsawEvents.Accounts
