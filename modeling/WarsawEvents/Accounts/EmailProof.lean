import WarsawEvents.Accounts.Interleaved

/-! # What proves an address when requests interleave

The address a code was mailed to is not stored with the code: `verify_email` recomputes it from
`pending_email` and `email`. A request that mails a code for the address it loaded may commit after
another one moved the pending address, and then the code confirms an address it never went to.

`Undisturbed` asks of each commit that issues a code, or cancels a pending address, that the row still
has the address its copy had. Then a verified address was asserted by Google or proven by a code
mailed to it.
-/

namespace WarsawEvents.Accounts
set_option autoImplicit false

open WriteBack

/-! ## Statement -/

def Move.asserts : Move → Option Text
  | .googleInsert _ info => truthy info.email
  | .start (.callback _ info _) => truthy info.email
  | _ => none

def Move.submits : Move → Option Code
  | .start (.verify code) => some code
  | _ => none

def MailedTo (past : Log) (e : Text) (code : Code) : Prop :=
  ∃ l ∈ past, Mail.verification e code ∈ l.2

/-- Google asserted the address, or a code that had been mailed to it was submitted. -/
def Proven (past : Log) (e : Text) : Prop :=
  (∃ l ∈ past, l.1.asserts = some e) ∨
    ∃ n < past.length, ∃ code ∈ past[n]?.bind fun l => l.1.submits, MailedTo (past.take n) e code

instance (past : Log) (e : Text) (code : Code) : Decidable (MailedTo past e code) :=
  inferInstanceAs (Decidable (∃ l ∈ past, Mail.verification e code ∈ l.2))

instance (past : Log) (e : Text) : Decidable (Proven past e) :=
  inferInstanceAs (Decidable ((∃ l ∈ past, l.1.asserts = some e) ∨
    ∃ n < past.length, ∃ code ∈ past[n]?.bind fun l => l.1.submits, MailedTo (past.take n) e code))

variable {d : Deps} {amb : Ambient} {past : Log} {a a' : Account} {m : Move} {mails : List Mail}
  {base new cur u v : User} {task : Task} {e t : Text} {code : Code} {j : Job}

/-- The hash of the code the request draws. -/
def freshHash (d : Deps) (amb : Ambient) : Text := d.hashCode (generateCode amb.draw)

/-- A code mailed to the target of `base` and stored on `cur` is a code for the target of `cur`,
unless the copy already had that hash, which is then not written. -/
def SameTarget (d : Deps) (amb : Ambient) (base cur : User) : Prop :=
  base.emailVerifyCodeHash = some (freshHash d amb) ∨ target cur = none ∨ target cur = target base

instance : Decidable (SameTarget d amb base cur) :=
  inferInstanceAs (Decidable (_ ∨ target cur = none ∨ target cur = target base))

/-- For PATCH /me, with the address it changes to or whether it cancels the pending one. -/
def EditUndisturbed (d : Deps) (amb : Ambient) (base cur : User) (cancels : Bool) :
    Option Text → Prop
  | some e =>
    if base.pendingEmail = some e then SameTarget d amb base cur
    else base.emailVerifyCodeHash = some (freshHash d amb) →
      cur.emailVerifyCodeHash = some (freshHash d amb) ∨ cur.emailVerifyCodeHash = none
  | none =>
    cancels = true → base.emailVerifyCodeHash = none →
      cur.emailVerifyCodeHash = none ∨ cur.emailVerified = true

instance {cancels : Bool} : ∀ ch, Decidable (EditUndisturbed d amb base cur cancels ch)
  | some e => inferInstanceAs (Decidable (if base.pendingEmail = some e then _ else _))
  | none => inferInstanceAs (Decidable (cancels = true → _ → _ ∨ _))

/-- What the row must not have become since the task loaded `base`. -/
def Task.undisturbed (d : Deps) (amb : Ambient) (base cur : User) : Task → Prop
  | .registered => SameTarget d amb base cur
  | .resend => SameTarget d amb base cur
  | .updateMe req =>
    EditUndisturbed d amb base cur (req.email.isSome && base.pendingEmail.isSome)
      (req.changingEmail base)
  | .verify _ => True
  | .callback _ _ _ => True

instance : ∀ task : Task, Decidable (task.undisturbed d amb base cur)
  | .registered => inferInstanceAs (Decidable (SameTarget d amb base cur))
  | .resend => inferInstanceAs (Decidable (SameTarget d amb base cur))
  | .updateMe req => inferInstanceAs (Decidable (EditUndisturbed d amb base cur
      (req.email.isSome && base.pendingEmail.isSome) (req.changingEmail base)))
  | .verify _ => inferInstanceAs (Decidable True)
  | .callback _ _ _ => inferInstanceAs (Decidable True)

/-- Every commit finds the row undisturbed. -/
def Undisturbed (d : Deps) : Log → Account → Move → Prop
  | _, a, .commit i amb _ =>
    ∀ u ∈ a.row, ∀ j ∈ a.jobs[i]?, j.task.undisturbed d amb j.base u
  | _, _, _ => True

instance : ∀ past a m, Decidable (Undisturbed d past a m)
  | _, a, .commit i amb _ =>
    inferInstanceAs (Decidable (∀ u ∈ a.row, ∀ j ∈ a.jobs[i]?, j.task.undisturbed d amb j.base u))
  | _, _, .signUp _ _ => inferInstanceAs (Decidable True)
  | _, _, .googleInsert _ _ => inferInstanceAs (Decidable True)
  | _, _, .start _ => inferInstanceAs (Decidable True)
  | _, _, .drop _ => inferInstanceAs (Decidable True)

/-! ## The history only grows -/

theorem MailedTo.mono (h : MailedTo past e code) (l : Move × List Mail) :
    MailedTo (past ++ [l]) e code := by
  obtain ⟨l', hl', h'⟩ := h
  exact ⟨l', List.mem_append_left _ hl', h'⟩

theorem Proven.mono (h : Proven past e) (l : Move × List Mail) : Proven (past ++ [l]) e := by
  obtain ⟨l', hl', h'⟩ | ⟨n, hn, code, hcode, hmail⟩ := h
  · exact Or.inl ⟨l', List.mem_append_left _ hl', h'⟩
  · refine Or.inr ⟨n, ?_, code, ?_, ?_⟩
    · rw [List.length_append]
      omega
    · rwa [List.getElem?_append_left hn]
    · rwa [List.take_append_of_le_length (Nat.le_of_lt hn)]

theorem Proven.asserted (h : m.asserts = some e) : Proven (past ++ [(m, mails)]) e :=
  Or.inl ⟨(m, mails), by simp, h⟩

theorem Proven.submitted (h : MailedTo past e code) (hm : m.submits = some code) :
    Proven (past ++ [(m, mails)]) e := by
  refine Or.inr ⟨past.length, by simp, code, ?_, ?_⟩
  · simp [hm]
  · simpa using h

/-! ## What a commit does to the four columns -/

/-- The address, its proof, the pending address and the code: what a task makes of its copy. -/
inductive Proofs (d : Deps) (amb : Ambient) (base new : User) : Task → List Mail → Prop
  | keep {task : Task} {mails : List Mail} :
      new.email = base.email → new.emailVerified = base.emailVerified →
      new.pendingEmail = base.pendingEmail →
      new.emailVerifyCodeHash = base.emailVerifyCodeHash → Proofs d amb base new task mails
  | issue {task : Task} {t : Text} :
      task = .registered ∨ task = .resend → target base = some t →
      new.email = base.email → new.emailVerified = base.emailVerified →
      new.pendingEmail = base.pendingEmail →
      new.emailVerifyCodeHash = some (freshHash d amb) →
      Proofs d amb base new task [.verification t (generateCode amb.draw)]
  | change {req : UpdateMeRequest} {e : Text} : req.changingEmail base = some e →
      new.email = base.email → new.emailVerified = base.emailVerified →
      new.pendingEmail = some e → new.emailVerifyCodeHash = some (freshHash d amb) →
      Proofs d amb base new (.updateMe req) [.verification e (generateCode amb.draw)]
  | cancel {req : UpdateMeRequest} {mails : List Mail} : req.changingEmail base = none →
      (req.email.isSome && base.pendingEmail.isSome) = true →
      new.email = base.email → new.emailVerified = base.emailVerified →
      new.pendingEmail = none → new.emailVerifyCodeHash = none →
      Proofs d amb base new (.updateMe req) mails
  | taken {code : Code} {mails : List Mail} : base.emailVerifyCodeHash ≠ none →
      new.email = base.email → new.emailVerified = base.emailVerified →
      new.emailVerifyCodeHash = none → Proofs d amb base new (.verify code) mails
  | swap {code : Code} {p : Text} {mails : List Mail} :
      base.emailVerifyCodeHash = some (d.hashCode code) → base.pendingEmail = some p →
      new.email = some p → new.emailVerified = true → new.emailVerifyCodeHash = none →
      Proofs d amb base new (.verify code) mails
  | confirm {code : Code} {mails : List Mail} :
      base.emailVerifyCodeHash = some (d.hashCode code) → base.pendingEmail = none →
      base.emailVerified = false → new.email = base.email → new.emailVerified = true →
      new.emailVerifyCodeHash = none → Proofs d amb base new (.verify code) mails
  | google {sub : Text} {info : UserInfo} {linked : Bool} {mails : List Mail} :
      new.email = (truthy info.email).or base.email →
      new.emailVerified = ((truthy info.email).isSome || base.emailVerified) →
      new.pendingEmail = base.pendingEmail →
      new.emailVerifyCodeHash = base.emailVerifyCodeHash →
      Proofs d amb base new (.callback sub info linked) mails

theorem checkCode_hash {expires : Option ℕ} {attempts : ℕ} {renew : String} {hash : Option Text}
    (h : checkCode d amb code hash expires attempts renew = .ok true) :
    hash = some (d.hashCode code) := by
  obtain ⟨stored, _, rfl, _, _, _, hv⟩ := checkCode_ok h
  have heq : d.hashCode code = stored := by simpa [verifyCode] using hv.symm
  rw [heq]

theorem verify_proofs {taken : Text → Bool} {c : Cookie}
    (h : (verifyEmail d amb taken c code base).commit = some new) :
    Proofs d amb base new (.verify code) mails := by
  obtain ⟨_, rfl⟩ | ⟨hc, ⟨p, _, _, rfl⟩ | ⟨p, hp, _, rfl⟩ | ⟨hp, hun, rfl⟩⟩ := verifyEmail_commit h
  · exact Proofs.keep rfl rfl rfl rfl
  · exact Proofs.taken (by rw [checkCode_hash hc]; exact Option.some_ne_none _) rfl rfl rfl
  · exact Proofs.swap (checkCode_hash hc) hp rfl rfl rfl
  · exact Proofs.confirm (checkCode_hash hc) hp hun rfl rfl rfl

theorem updateMe_proofs {taken : Text → Bool} {c : Cookie} {req : UpdateMeRequest}
    (h : (updateMe d amb taken c req base).commit = some new) :
    Proofs d amb base new (.updateMe req) (updateMe d amb taken c req base).mails := by
  obtain ⟨e, mail, hch, _, hissue, hmails⟩ | ⟨hch, _, rfl⟩ := updateMe_commit h
  · obtain ⟨t, ht, rfl, rfl⟩ := issueVerification_some hissue
    rw [hmails]
    obtain rfl : e = t := by simpa [target] using ht
    exact Proofs.change hch (by simp) (by simp) rfl rfl
  · split
    · rename_i hcancel
      exact Proofs.cancel hch (by simpa using hcancel) (by simp) (by simp) rfl rfl
    · exact Proofs.keep (by simp) (by simp) (by simp) (by simp)

/-- Every task, by the endpoint's own inversion. -/
theorem outcome_proofs {taken : Bool} (h : (task.outcome d amb taken base).commit = some new) :
    Proofs d amb base new task (task.outcome d amb taken base).mails := by
  cases task with
  | registered =>
    simp only [Task.outcome] at h ⊢
    split at h
    · rename_i w mail hissue
      obtain ⟨t, ht, rfl, rfl⟩ := issueVerification_some hissue
      cases h
      exact Proofs.issue (Or.inl rfl) ht rfl rfl rfl rfl
    · cases h
  | verify code => exact verify_proofs h
  | resend =>
    obtain ⟨mail, hissue, hmails⟩ := resendVerification_commit h
    obtain ⟨t, ht, rfl, rfl⟩ := issueVerification_some hissue
    simp only [Task.outcome, hmails]
    exact Proofs.issue (Or.inr rfl) ht rfl rfl rfl rfl
  | updateMe req => exact updateMe_proofs h
  | callback sub info linked =>
    simp only [Task.outcome, googleOutcome, Option.some.injEq] at h
    subst h
    cases linked with
    | true => exact Proofs.google (by simp) (by simp) (by simp) (by simp)
    | false => exact Proofs.google (by simp) (by simp) (by simp) (by simp)

/-! ## The invariant of the row and of the requests under way -/

/-- A verified address is proven, and a live code went to the address it would confirm. -/
structure RowProof (d : Deps) (past : Log) (u : User) : Prop where
  proven : u.emailVerified = true → ∀ e ∈ u.email, Proven past e
  mailed : ∀ t ∈ target u, ∀ h ∈ u.emailVerifyCodeHash,
    ∃ code, d.hashCode code = h ∧ MailedTo past t code

/-- A request's copy: how far the row may have moved on, and what the request itself showed. -/
structure JobProof (d : Deps) (past : Log) (u : User) (j : Job) : Prop where
  email : j.base.email = u.email ∨ u.emailVerified = true
  verified : j.base.emailVerified = true → u.emailVerified = true
  submitted : ∀ code, j.task = .verify code →
    j.base.emailVerifyCodeHash = some (d.hashCode code) → ∀ t ∈ target j.base, Proven past t
  asserted : ∀ sub info linked, j.task = .callback sub info linked →
    ∀ e ∈ truthy info.email, Proven past e

theorem RowProof.mono (h : RowProof d past u) (l : Move × List Mail) :
    RowProof d (past ++ [l]) u := by
  refine ⟨fun hv e he => (h.proven hv e he).mono l, ?_⟩
  intro t ht hash hhash
  obtain ⟨code, hcode, hmail⟩ := h.mailed t ht hash hhash
  exact ⟨code, hcode, hmail.mono l⟩

theorem RowProof.congr (h : RowProof d past u) (hemail : v.email = u.email)
    (hverified : v.emailVerified = u.emailVerified) (hpending : v.pendingEmail = u.pendingEmail)
    (hhash : v.emailVerifyCodeHash = u.emailVerifyCodeHash) : RowProof d past v := by
  have htarget : target v = target u := by
    unfold target
    rw [hpending, hverified, hemail]
  refine ⟨?_, ?_⟩
  · rw [hverified, hemail]
    exact h.proven
  · rw [htarget, hhash]
    exact h.mailed

theorem RowProof.of_no_code (hhash : v.emailVerifyCodeHash = none)
    (hproven : v.emailVerified = true → ∀ e ∈ v.email, Proven past e) : RowProof d past v := by
  refine ⟨hproven, ?_⟩
  intro t _ hash hsome
  rw [hhash] at hsome
  cases hsome

theorem JobProof.mono (h : JobProof d past u j) (l : Move × List Mail) :
    JobProof d (past ++ [l]) u j :=
  ⟨h.email, h.verified, fun code hj hh t ht => (h.submitted code hj hh t ht).mono l,
    fun sub info linked hj e he => (h.asserted sub info linked hj e he).mono l⟩

/-- A copy stays good when the row's address moves only to a verified one. -/
theorem JobProof.follow (h : JobProof d past u j)
    (hemail : v.email = u.email ∨ v.emailVerified = true)
    (hverified : u.emailVerified = true → v.emailVerified = true) : JobProof d past v j := by
  refine ⟨?_, fun hv => hverified (h.verified hv), h.submitted, h.asserted⟩
  obtain hsame | hv := hemail
  · rw [hsame]
    exact h.email.imp_right hverified
  · exact Or.inr hv

/-! ## One commit -/

theorem target_of_verified (hv : u.emailVerified = true) : target u = u.pendingEmail := by
  unfold target
  rw [hv]
  cases u.pendingEmail <;> rfl

theorem commit_verified (h : base.emailVerified = true → cur.emailVerified = true)
    (hnew : new.emailVerified = true) : (commitRow base new cur).emailVerified = true := by
  rw [commitRow_emailVerified, hnew]
  obtain ⟨heq, hcur⟩ | ⟨_, hset⟩ := writeBack_cases base.emailVerified true cur.emailVerified
  · rw [hcur]
    exact h heq.symm
  · exact hset

/-- The row's address changes only together with its proof. -/
theorem Proofs.email_or_verified (h : Proofs d amb base new task mails)
    (hbase : base.emailVerified = true → cur.emailVerified = true) :
    (commitRow base new cur).email = cur.email ∨ (commitRow base new cur).emailVerified = true := by
  cases h with
  | keep he _ _ _ => exact Or.inl (by simp [he])
  | issue _ _ he _ _ _ => exact Or.inl (by simp [he])
  | change _ he _ _ _ => exact Or.inl (by simp [he])
  | cancel _ _ he _ _ _ => exact Or.inl (by simp [he])
  | taken _ he _ _ => exact Or.inl (by simp [he])
  | swap _ _ _ hv _ => exact Or.inr (commit_verified hbase hv)
  | confirm _ _ _ he _ _ => exact Or.inl (by simp [he])
  | @google _ info _ _ he hv _ _ =>
    cases hemail : truthy info.email with
    | none => exact Or.inl (by simp [he, hemail])
    | some e => exact Or.inr (commit_verified hbase (by simp [hv, hemail]))

theorem Proofs.verified_mono (h : Proofs d amb base new task mails)
    (hbase : base.emailVerified = true → cur.emailVerified = true)
    (hcur : cur.emailVerified = true) : (commitRow base new cur).emailVerified = true := by
  have hnew : new.emailVerified = base.emailVerified ∨ new.emailVerified = true := by
    cases h with
    | keep _ hv _ _ => exact Or.inl hv
    | issue _ _ _ hv _ _ => exact Or.inl hv
    | change _ _ hv _ _ => exact Or.inl hv
    | cancel _ _ _ hv _ _ => exact Or.inl hv
    | taken _ _ hv _ => exact Or.inl hv
    | swap _ _ _ hv _ => exact Or.inr hv
    | confirm _ _ _ _ hv _ => exact Or.inr hv
    | @google _ info _ _ _ hv _ _ =>
      cases hemail : truthy info.email with
      | none => exact Or.inl (by simp [hv, hemail])
      | some e => exact Or.inr (by simp [hv, hemail])
  obtain hsame | htrue := hnew
  · rw [commitRow_emailVerified, hsame, writeBack_unchanged, hcur]
  · exact commit_verified hbase htrue

/-- A code for the target of the copy, stored where the pending address was not written. -/
theorem RowProof.issued (hrow : RowProof d past cur) (ht : target base = some t)
    (hsame : SameTarget d amb base cur) (hemail : new.email = base.email)
    (hverified : new.emailVerified = base.emailVerified)
    (hpending : new.pendingEmail = base.pendingEmail)
    (hhash : new.emailVerifyCodeHash = some (freshHash d amb)) :
    RowProof d (past ++ [(m, [.verification t (generateCode amb.draw)])])
      (commitRow base new cur) := by
  have he : (commitRow base new cur).email = cur.email := by simp [hemail]
  have hv : (commitRow base new cur).emailVerified = cur.emailVerified := by simp [hverified]
  have hp : (commitRow base new cur).pendingEmail = cur.pendingEmail := by simp [hpending]
  have htarget : target (commitRow base new cur) = target cur := by
    unfold target
    rw [he, hv, hp]
  refine ⟨?_, ?_⟩
  · rw [hv, he]
    exact fun h e hmem => (hrow.proven h e hmem).mono _
  · rw [htarget, commitRow_emailVerifyCodeHash, hhash]
    intro t' ht' hash hmem
    obtain ⟨heq, hcur⟩ | ⟨hne, hset⟩ := writeBack_cases base.emailVerifyCodeHash
      (some (freshHash d amb)) cur.emailVerifyCodeHash
    · rw [hcur] at hmem
      obtain ⟨code, hcode, hmail⟩ := hrow.mailed t' ht' hash hmem
      exact ⟨code, hcode, hmail.mono _⟩
    · rw [hset, Option.mem_some] at hmem
      obtain hsent | hnone | hsame := hsame
      · exact absurd hsent.symm hne
      · rw [hnone] at ht'
        cases ht'
      · rw [hsame, ht, Option.mem_some] at ht'
        exact ⟨generateCode amb.draw, hmem, _, List.mem_append_right _ (List.mem_singleton.mpr rfl),
          by simp [ht']⟩

/-- A code for an address that the same commit makes pending. -/
theorem RowProof.changed (hrow : RowProof d past cur) (hpend : base.pendingEmail ≠ some e)
    (hund : base.emailVerifyCodeHash = some (freshHash d amb) →
      cur.emailVerifyCodeHash = some (freshHash d amb) ∨ cur.emailVerifyCodeHash = none)
    (hemail : new.email = base.email) (hverified : new.emailVerified = base.emailVerified)
    (hpending : new.pendingEmail = some e)
    (hhash : new.emailVerifyCodeHash = some (freshHash d amb)) :
    RowProof d (past ++ [(m, [.verification e (generateCode amb.draw)])])
      (commitRow base new cur) := by
  have he : (commitRow base new cur).email = cur.email := by simp [hemail]
  have hv : (commitRow base new cur).emailVerified = cur.emailVerified := by simp [hverified]
  have hp : (commitRow base new cur).pendingEmail = some e := by
    rw [commitRow_pendingEmail, hpending]
    exact writeBack_changed hpend.symm
  have htarget : target (commitRow base new cur) = some e := by
    unfold target
    rw [hp]
  refine ⟨?_, ?_⟩
  · rw [hv, he]
    exact fun h e hmem => (hrow.proven h e hmem).mono _
  · rw [htarget, commitRow_emailVerifyCodeHash, hhash]
    intro t ht hash hmem
    have hfresh : hash = freshHash d amb := by
      obtain ⟨heq, hcur⟩ | ⟨_, hset⟩ := writeBack_cases base.emailVerifyCodeHash
        (some (freshHash d amb)) cur.emailVerifyCodeHash
      · rw [hcur] at hmem
        obtain hsome | hnone := hund heq.symm
        · rw [hsome, Option.mem_some] at hmem
          exact hmem.symm
        · rw [hnone] at hmem
          cases hmem
      · rw [hset, Option.mem_some] at hmem
        exact hmem.symm
    rw [Option.mem_some] at ht
    exact ⟨generateCode amb.draw, hfresh.symm, _,
      List.mem_append_right _ (List.mem_singleton.mpr rfl), by simp [ht]⟩

/-- After a commit that wrote the proven address `p`, or left an address the copy had proven. -/
theorem RowProof.confirmed (hrow : RowProof d past cur) (hjob : JobProof d past cur ⟨task, base⟩)
    (hhash : (commitRow base new cur).emailVerifyCodeHash = none)
    (hnew : ∀ e ∈ new.email, Proven past e) : RowProof d past (commitRow base new cur) := by
  refine RowProof.of_no_code hhash ?_
  intro _ e he
  rw [commitRow_email] at he
  obtain ⟨heq, hcur⟩ | ⟨_, hset⟩ := writeBack_cases base.email new.email cur.email
  · rw [hcur] at he
    obtain hsame | hv := hjob.email
    · exact hnew e (by rwa [heq, hsame])
    · exact hrow.proven hv e he
  · rw [hset] at he
    exact hnew e he

theorem commit_hash_none (hbase : base.emailVerifyCodeHash ≠ none)
    (hnew : new.emailVerifyCodeHash = none) :
    (commitRow base new cur).emailVerifyCodeHash = none := by
  rw [commitRow_emailVerifyCodeHash, hnew]
  exact writeBack_changed hbase.symm

/-- A Google callback writes its address with its proof, and leaves the pending one and its code. -/
theorem RowProof.google {info : UserInfo} (hrow : RowProof d past cur)
    (hjob : JobProof d past cur ⟨task, base⟩) (hgoogle : ∀ e ∈ truthy info.email, Proven past e)
    (hemail : new.email = (truthy info.email).or base.email)
    (hverified : new.emailVerified = ((truthy info.email).isSome || base.emailVerified))
    (hpending : new.pendingEmail = base.pendingEmail)
    (hhash : new.emailVerifyCodeHash = base.emailVerifyCodeHash) :
    RowProof d past (commitRow base new cur) := by
  cases hinfo : truthy info.email with
  | none =>
    rw [hinfo, Option.none_or] at hemail
    rw [hinfo, Option.isSome_none, Bool.false_or] at hverified
    exact hrow.congr (by simp [hemail]) (by simp [hverified]) (by simp [hpending]) (by simp [hhash])
  | some e =>
    rw [hinfo, Option.some_or] at hemail
    have hv : (commitRow base new cur).emailVerified = true :=
      commit_verified hjob.verified (by rw [hverified, hinfo, Option.isSome_some, Bool.true_or])
    have hp : (commitRow base new cur).pendingEmail = cur.pendingEmail := by simp [hpending]
    refine ⟨?_, ?_⟩
    · intro _ e' he'
      rw [commitRow_email, hemail] at he'
      obtain ⟨heq, hcur⟩ | ⟨_, hset⟩ := writeBack_cases base.email (some e) cur.email
      · rw [hcur] at he'
        obtain hsame | hv := hjob.email
        · exact hgoogle e' (by rwa [hinfo, heq, hsame])
        · exact hrow.proven hv e' he'
      · rw [hset] at he'
        exact hgoogle e' (by rwa [hinfo])
    · rw [target_of_verified hv, hp, commitRow_emailVerifyCodeHash, hhash, writeBack_unchanged]
      intro t ht
      have htarget : target cur = some t := by
        unfold target
        rw [Option.mem_def.mp ht]
      exact hrow.mailed t htarget

/-- **One commit keeps the row's proof**, when it finds the row undisturbed. -/
theorem Proofs.rowProof (h : Proofs d amb base new task mails) (hrow : RowProof d past cur)
    (hjob : JobProof d past cur ⟨task, base⟩) (hund : task.undisturbed d amb base cur) :
    RowProof d (past ++ [(m, mails)]) (commitRow base new cur) := by
  cases h with
  | keep he hv hp hh =>
    exact (hrow.congr (by simp [he]) (by simp [hv]) (by simp [hp]) (by simp [hh])).mono _
  | issue htask ht he hv hp hh =>
    have hsame : SameTarget d amb base cur := by
      obtain rfl | rfl := htask
      · exact hund
      · exact hund
    exact hrow.issued ht hsame he hv hp hh
  | @change req e hch he hv hp hh =>
    have hund : EditUndisturbed d amb base cur _ (req.changingEmail base) := hund
    rw [hch] at hund
    by_cases hpend : base.pendingEmail = some e
    · have htarget : target base = some e := by
        unfold target
        rw [hpend]
      exact hrow.issued htarget (by simpa [EditUndisturbed, hpend] using hund) he hv
        (by rw [hp, hpend]) hh
    · exact hrow.changed hpend (by simpa [EditUndisturbed, hpend] using hund) he hv hp hh
  | @cancel req _ hch hcancels he hv hp hh =>
    have hund : EditUndisturbed d amb base cur _ (req.changingEmail base) := hund
    rw [hch] at hund
    have hemail : (commitRow base new cur).email = cur.email := by simp [he]
    have hverified : (commitRow base new cur).emailVerified = cur.emailVerified := by simp [hv]
    have hproven : (commitRow base new cur).emailVerified = true →
        ∀ e ∈ (commitRow base new cur).email, Proven past e := by
      rw [hemail, hverified]
      exact hrow.proven
    refine RowProof.mono ?_ _
    by_cases hbase : base.emailVerifyCodeHash = none
    · have hsame : (commitRow base new cur).emailVerifyCodeHash = cur.emailVerifyCodeHash := by
        simp [hh, hbase]
      obtain hnone | hcur := hund hcancels hbase
      · exact RowProof.of_no_code (by rw [hsame, hnone]) hproven
      · -- the row is verified and nothing is pending any more, so no code confirms anything
        have hpend : (commitRow base new cur).pendingEmail = none := by
          rw [commitRow_pendingEmail, hp]
          refine writeBack_changed ?_
          intro heq
          rw [← heq] at hcancels
          simp at hcancels
        refine ⟨hproven, ?_⟩
        rw [target_of_verified (by rw [hverified, hcur]), hpend]
        intro t ht
        cases ht
    · exact RowProof.of_no_code (commit_hash_none hbase hh) hproven
  | taken hbase he hv hh =>
    refine RowProof.mono (RowProof.of_no_code (commit_hash_none hbase hh) ?_) _
    have hemail : (commitRow base new cur).email = cur.email := by simp [he]
    have hverified : (commitRow base new cur).emailVerified = cur.emailVerified := by simp [hv]
    rw [hemail, hverified]
    exact hrow.proven
  | @swap code p _ hcode hpend he _ hh =>
    have hbase : base.emailVerifyCodeHash ≠ none := by rw [hcode]; exact Option.some_ne_none _
    refine RowProof.mono (hrow.confirmed hjob (commit_hash_none hbase hh) ?_) _
    intro e hmem
    have htarget : target base = some p := by
      unfold target
      rw [hpend]
    rw [he] at hmem
    exact hjob.submitted code rfl hcode e (by rw [htarget, Option.mem_some.mp hmem]; rfl)
  | @confirm code _ hcode hpend hun he _ hh =>
    have hbase : base.emailVerifyCodeHash ≠ none := by rw [hcode]; exact Option.some_ne_none _
    refine RowProof.mono (hrow.confirmed hjob (commit_hash_none hbase hh) ?_) _
    intro e hmem
    have htarget : target base = base.email := by
      unfold target
      rw [hpend, hun]
      rfl
    rw [he] at hmem
    exact hjob.submitted code rfl hcode e (by rw [htarget]; exact hmem)
  | @google sub info linked _ he hv hp hh =>
    exact (hrow.google hjob (hjob.asserted sub info linked rfl) he hv hp hh).mono _

/-! ## Runs -/

/-- What holds of the account between moves. -/
structure Account.Sound (d : Deps) (past : Log) (a : Account) : Prop where
  rowless : a.row = none → a.jobs = []
  row : ∀ u ∈ a.row, RowProof d past u
  jobs : ∀ u ∈ a.row, ∀ j ∈ a.jobs, JobProof d past u j

theorem Account.Sound.init : Account.Sound d [] {} := ⟨fun _ => rfl, by simp, by simp⟩

/-- The row was just made: nothing is verified but what Google asserted, and no code is live. -/
theorem Account.Sound.insert (h : a.Sound d past) (hrow : a.row = none) {owed : Bool}
    (hhash : v.emailVerifyCodeHash = none)
    (hproven : v.emailVerified = true → ∀ e ∈ v.email, Proven (past ++ [(m, mails)]) e) :
    Account.Sound d (past ++ [(m, mails)]) { a with row := some v, owed := owed } := by
  refine ⟨by simp, ?_, ?_⟩
  · intro u hu
    obtain rfl := Option.some.inj hu
    exact RowProof.of_no_code hhash hproven
  · intro u _ j hj
    simp [h.rowless hrow] at hj

/-- A request that starts now: its copy is the row, and its code or address is in the history. -/
theorem JobProof.start (hinj : Function.Injective d.hashCode) (hrow : RowProof d past u)
    (task : Task) : JobProof d (past ++ [(.start task, mails)]) u ⟨task, u⟩ := by
  refine ⟨Or.inl rfl, id, ?_, ?_⟩
  · rintro code rfl hhash t ht
    obtain ⟨sent, hsent, hmail⟩ := hrow.mailed t ht _ hhash
    rw [hinj hsent] at hmail
    exact Proven.submitted hmail rfl
  · rintro sub info linked rfl e he
    exact Proven.asserted he

theorem Account.Sound.advance (hinj : Function.Injective d.hashCode) (h : a.Sound d past)
    (hund : Undisturbed d past a m) (hstep : Advanced d a m a' mails) :
    a'.Sound d (past ++ [(m, mails)]) := by
  cases hstep with
  | signUp hrow => exact h.insert hrow rfl (by simp [registeredUser])
  | @googleInsert sub info hrow =>
    refine h.insert hrow rfl ?_
    intro _ e he
    have he' : truthy info.email = some e := by simpa [googleUser] using he
    exact Proven.asserted he'
  | @start task u hrow _ =>
    refine ⟨by simp [hrow], fun u hu => (h.row u hu).mono _, ?_⟩
    intro x hx j hj
    have hxu : x = u := by
      rw [hrow] at hx
      exact (Option.some.inj hx).symm
    obtain hold | hnew := List.mem_append.mp hj
    · exact (h.jobs x hx j hold).mono _
    · obtain rfl := List.mem_singleton.mp hnew
      subst hxu
      exact JobProof.start hinj (h.row x hx) task
  | @commit i amb taken u v j hrow hj hv =>
    have hproofs := outcome_proofs hv
    have hjob : JobProof d past u j := h.jobs u hrow j (List.mem_of_getElem? hj)
    have hsame := hproofs.email_or_verified hjob.verified
    refine ⟨by simp, ?_, ?_⟩
    · intro w hw
      obtain rfl := Option.some.inj hw
      exact hproofs.rowProof (h.row u hrow) hjob (hund u hrow j hj)
    · intro w hw k hk
      obtain rfl := Option.some.inj hw
      have hkept := h.jobs u hrow k (List.mem_of_mem_eraseIdx hk)
      exact (hkept.follow hsame (hproofs.verified_mono hjob.verified)).mono _
  | drop =>
    refine ⟨?_, fun u hu => (h.row u hu).mono _, ?_⟩
    · intro hrow
      simp [h.rowless hrow]
    · intro u hu j hj
      exact (h.jobs u hu j (List.mem_of_mem_eraseIdx hj)).mono _

/-- **Email proof under concurrency.** When every commit finds the row undisturbed, a verified
address was asserted by Google or proven by a code that had been mailed to it. -/
theorem verified_email_is_proven (hinj : Function.Injective d.hashCode)
    (hrun : Runs.Run (Runs.guarded (Undisturbed d) (advance d)) [] {} past a)
    (hrow : a.row = some u) (hverified : u.emailVerified = true) (hemail : u.email = some e) :
    Proven past e := by
  have hsound : a.Sound d past := by
    refine hrun.invariant_of_init (fun past a => a.Sound d past) ?_ Account.Sound.init
    rintro past a ⟨m, mails⟩ a' hI ⟨hund, hstep⟩
    exact hI.advance hinj hund (advance_advanced hstep)
  exact (hsound.row u hrow).proven hverified e hemail

theorem transparent_injective : Function.Injective transparent.hashCode := by
  intro code code' h
  have hval : (transparent.hashCode code).val = (transparent.hashCode code').val :=
    congrArg Subtype.val h
  exact Subtype.ext hval

/-! ## Two runs -/

def commits (i n : ℕ) : Move := .commit i { now := 0, draw := drawn n } false

def signedUp : Move := .signUp signUp signUpHash

/-- A change of address that starts before the first code is out, and its confirmation. -/
def confirmedChange : List Move :=
  [signedUp, .start .registered, .start (.updateMe changeToB), commits 0 0, commits 0 1,
   .start (.verify (generateCode (drawn 1))), commits 0 0]

def afterChange : Log × Account :=
  (Runs.replay (Undisturbed transparent) (advance transparent) [] {} confirmedChange).getD ([], {})

theorem verified_email_is_proven_changed :
    ∃ u, afterChange.2.row = some u ∧ u.email = some addressB ∧ Proven afterChange.1 addressB := by
  have hrun : Runs.Run (Runs.guarded (Undisturbed transparent) (advance transparent)) [] {}
      afterChange.1 afterChange.2 := Runs.replay_getD_run _ _ _ _ confirmedChange _ (by decide)
  obtain ⟨u, hu, hrow⟩ : ∃ u ∈ afterChange.2.row, u.email = some addressB ∧ u.emailVerified = true := by
    decide
  exact ⟨u, hu, hrow.1, verified_email_is_proven transparent_injective hrun hu hrow.2 hrow.1⟩

/-- A resend loads the row before the change of address and commits after it: its code goes to the
old address and confirms the new one. -/
def staleResend : List Move :=
  [signedUp, .start .resend, .start (.updateMe changeToB), commits 1 1, commits 0 2,
   .start (.verify (generateCode (drawn 2))), commits 0 0]

def afterResend : Log × Account :=
  (Runs.replay Runs.anyStep (advance transparent) [] {} staleResend).getD ([], {})

/-- Without the guard a code mailed to one address confirms another. -/
theorem verified_email_not_proven :
    ¬ ∀ (d : Deps) (past : Log) (a : Account), Function.Injective d.hashCode →
      Runs.Run (Runs.guarded Runs.anyStep (advance d)) [] {} past a →
      ∀ u ∈ a.row, u.emailVerified = true → ∀ e ∈ u.email, Proven past e := by
  intro h
  have hrun : Runs.Run (Runs.guarded Runs.anyStep (advance transparent)) [] {}
      afterResend.1 afterResend.2 := Runs.replay_getD_run _ _ _ _ staleResend _ (by decide)
  exact absurd (h transparent _ _ transparent_injective hrun) (by decide)

end WarsawEvents.Accounts
