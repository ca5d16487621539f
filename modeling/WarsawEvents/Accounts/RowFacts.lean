import WarsawEvents.Accounts.System

/-! # What each endpoint commits

One inversion lemma per row function: the rows it can commit, with the checks that were passed. The
field lemmas below say which columns an update leaves alone. -/

namespace WarsawEvents.Accounts
set_option autoImplicit false

variable {d : Deps} {amb : Ambient} {c : Cookie} {u v : User} {taken : Text → Bool}

/-! ## Columns an update leaves alone -/

@[simp] theorem clearCode_id (u : User) : (clearCode u).id = u.id := rfl
@[simp] theorem clearCode_googleSub (u : User) : (clearCode u).googleSub = u.googleSub := rfl
@[simp] theorem clearCode_passwordHash (u : User) :
    (clearCode u).passwordHash = u.passwordHash := rfl
@[simp] theorem clearCode_email (u : User) : (clearCode u).email = u.email := rfl
@[simp] theorem clearCode_emailVerified (u : User) :
    (clearCode u).emailVerified = u.emailVerified := rfl
@[simp] theorem clearCode_pendingEmail (u : User) :
    (clearCode u).pendingEmail = u.pendingEmail := rfl
@[simp] theorem clearCode_twoFactorEnabled (u : User) :
    (clearCode u).twoFactorEnabled = u.twoFactorEnabled := rfl

@[simp] theorem clearLoginCode_id (u : User) : (clearLoginCode u).id = u.id := rfl
@[simp] theorem clearLoginCode_googleSub (u : User) :
    (clearLoginCode u).googleSub = u.googleSub := rfl
@[simp] theorem clearLoginCode_passwordHash (u : User) :
    (clearLoginCode u).passwordHash = u.passwordHash := rfl
@[simp] theorem clearLoginCode_email (u : User) : (clearLoginCode u).email = u.email := rfl
@[simp] theorem clearLoginCode_emailVerified (u : User) :
    (clearLoginCode u).emailVerified = u.emailVerified := rfl
@[simp] theorem clearLoginCode_pendingEmail (u : User) :
    (clearLoginCode u).pendingEmail = u.pendingEmail := rfl
@[simp] theorem clearLoginCode_twoFactorEnabled (u : User) :
    (clearLoginCode u).twoFactorEnabled = u.twoFactorEnabled := rfl

section Profile
variable (req : UpdateMeRequest) (u : User)

@[simp] theorem editProfile_id : (editProfile req u).id = u.id := by
  unfold editProfile; cases req.name <;> cases req.toggling2fa u <;> rfl
@[simp] theorem editProfile_googleSub : (editProfile req u).googleSub = u.googleSub := by
  unfold editProfile; cases req.name <;> cases req.toggling2fa u <;> rfl
@[simp] theorem editProfile_passwordHash :
    (editProfile req u).passwordHash = u.passwordHash := by
  unfold editProfile; cases req.name <;> cases req.toggling2fa u <;> rfl
@[simp] theorem editProfile_email : (editProfile req u).email = u.email := by
  unfold editProfile; cases req.name <;> cases req.toggling2fa u <;> rfl
@[simp] theorem editProfile_emailVerified :
    (editProfile req u).emailVerified = u.emailVerified := by
  unfold editProfile; cases req.name <;> cases req.toggling2fa u <;> rfl
@[simp] theorem editProfile_pendingEmail :
    (editProfile req u).pendingEmail = u.pendingEmail := by
  unfold editProfile; cases req.name <;> cases req.toggling2fa u <;> rfl
@[simp] theorem editProfile_emailVerifyCodeHash :
    (editProfile req u).emailVerifyCodeHash = u.emailVerifyCodeHash := by
  unfold editProfile; cases req.name <;> cases req.toggling2fa u <;> rfl
@[simp] theorem editProfile_avatarUrl : (editProfile req u).avatarUrl = u.avatarUrl := by
  unfold editProfile; cases req.name <;> cases req.toggling2fa u <;> rfl

theorem editProfile_name (h : req.name = none) : (editProfile req u).name = u.name := by
  unfold editProfile
  rw [h]
  cases req.toggling2fa u <;> rfl

end Profile

section Google
variable (sub : Text) (info : UserInfo) (u : User)

@[simp] theorem assertGoogle_id : (assertGoogle sub info u).id = u.id := rfl
@[simp] theorem assertGoogle_googleSub : (assertGoogle sub info u).googleSub = some sub := rfl
@[simp] theorem assertGoogle_passwordHash :
    (assertGoogle sub info u).passwordHash = u.passwordHash := rfl
@[simp] theorem assertGoogle_email :
    (assertGoogle sub info u).email = (truthy info.email).or u.email := rfl
@[simp] theorem assertGoogle_emailVerified :
    (assertGoogle sub info u).emailVerified =
      ((truthy info.email).isSome || u.emailVerified) := rfl
@[simp] theorem assertGoogle_pendingEmail :
    (assertGoogle sub info u).pendingEmail = u.pendingEmail := rfl
@[simp] theorem assertGoogle_twoFactorEnabled :
    (assertGoogle sub info u).twoFactorEnabled = u.twoFactorEnabled := rfl
@[simp] theorem assertGoogle_emailVerifyCodeHash :
    (assertGoogle sub info u).emailVerifyCodeHash = u.emailVerifyCodeHash := rfl

end Google

@[simp] theorem voidPassword_id (u : User) : (voidPassword u).id = u.id := by
  unfold voidPassword; split <;> rfl
@[simp] theorem voidPassword_googleSub (u : User) : (voidPassword u).googleSub = u.googleSub := by
  unfold voidPassword; split <;> rfl
@[simp] theorem voidPassword_email (u : User) : (voidPassword u).email = u.email := by
  unfold voidPassword; split <;> rfl
@[simp] theorem voidPassword_emailVerified (u : User) :
    (voidPassword u).emailVerified = u.emailVerified := by
  unfold voidPassword; split <;> rfl
@[simp] theorem voidPassword_pendingEmail (u : User) :
    (voidPassword u).pendingEmail = u.pendingEmail := by
  unfold voidPassword; split <;> rfl
@[simp] theorem voidPassword_emailVerifyCodeHash (u : User) :
    (voidPassword u).emailVerifyCodeHash = u.emailVerifyCodeHash := by
  unfold voidPassword; split <;> rfl

@[simp] theorem voidPassword_passwordHash (u : User) : (voidPassword u).passwordHash = none := by
  unfold voidPassword
  split
  · rfl
  · rename_i h
    simpa using h

theorem voidPassword_twoFactorEnabled (h : u.passwordHash.isSome = true) :
    (voidPassword u).twoFactorEnabled = false := by
  unfold voidPassword
  rw [if_pos h, clearLoginCode_twoFactorEnabled]

/-! ## Codes -/

theorem issueVerification_some {m : Mail} (h : issueVerification d amb u = some (v, m)) :
    ∃ t, target u = some t ∧ m = .verification t (generateCode amb.draw) ∧
      v = { u with
        emailVerifyCodeHash := some (d.hashCode (generateCode amb.draw))
        emailVerifyCodeExpiresAt := some (codeExpiry d amb)
        emailVerifyAttempts := 0 } := by
  obtain ⟨t, ht, hv⟩ := Option.map_eq_some_iff.mp h
  cases hv
  exact ⟨t, ht, rfl, rfl⟩

theorem checkCode_ok {code : Code} {codeHash : Option Text} {expiresAt : Option ℕ} {attempts : ℕ}
    {renew : String} {b : Bool} (h : checkCode d amb code codeHash expiresAt attempts renew = .ok b) :
    ∃ hash t, codeHash = some hash ∧ expiresAt = some t ∧ amb.now ≤ t ∧
      attempts < d.settings.emailVerifyMaxAttempts ∧ b = verifyCode d code hash := by
  unfold checkCode at h
  split at h
  · rename_i hash t
    split at h
    · cases h
    · rename_i ht
      split at h
      · cases h
      · rename_i ha
        cases h
        exact ⟨hash, t, rfl, rfl, Nat.le_of_not_lt ht, Nat.lt_of_not_le ha, rfl⟩
  · cases h

/-! ## Commits -/

theorem verifyEmail_commit {code : Code}
    (h : (verifyEmail d amb taken c code u).commit = some v) :
    (checkCode d amb code u.emailVerifyCodeHash u.emailVerifyCodeExpiresAt u.emailVerifyAttempts
        "Request a new one." = .ok false ∧
      v = { u with emailVerifyAttempts := u.emailVerifyAttempts + 1 }) ∨
    (checkCode d amb code u.emailVerifyCodeHash u.emailVerifyCodeExpiresAt u.emailVerifyAttempts
        "Request a new one." = .ok true ∧
      ((∃ p, u.pendingEmail = some p ∧ taken p = true ∧
          v = clearCode { u with pendingEmail := none }) ∨
       (∃ p, u.pendingEmail = some p ∧ taken p = false ∧
          v = clearCode { u with email := some p, pendingEmail := none, emailVerified := true }) ∨
       (u.pendingEmail = none ∧ u.emailVerified = false ∧
          v = clearCode { u with emailVerified := true }))) := by
  unfold verifyEmail at h
  split at h
  · simp [tooMany, refuse] at h
  · split at h
    · simp at h
    · rename_i hopen
      split at h
      · simp at h
      · rename_i hc
        simp only [Option.some.injEq] at h
        exact Or.inl ⟨hc, h.symm⟩
      · rename_i hc
        refine Or.inr ⟨hc, ?_⟩
        split at h
        · rename_i p hp
          split at h
          · rename_i ht
            simp only [Option.some.injEq] at h
            exact Or.inl ⟨p, hp, ht, h.symm⟩
          · rename_i ht
            simp only [Option.some.injEq] at h
            exact Or.inr (Or.inl ⟨p, hp, by simpa using ht, h.symm⟩)
        · rename_i hp
          simp only [Option.some.injEq] at h
          refine Or.inr (Or.inr ⟨hp, ?_, h.symm⟩)
          simpa [hp] using hopen

theorem resendVerification_commit (h : (resendVerification d amb c u).commit = some v) :
    ∃ m, issueVerification d amb u = some (v, m) ∧
      (resendVerification d amb c u).mails = [m] := by
  unfold resendVerification at h ⊢
  split at h
  · simp [tooMany, refuse] at h
  · split at h
    · simp at h
    · rename_i h1 h2
      simp only [h1, h2] at h ⊢
      split at h
      · rename_i w m hm
        simp only [Option.some.injEq] at h
        subst h
        exact ⟨m, hm, by simp⟩
      · simp at h

theorem updateMe_commit {req : UpdateMeRequest}
    (h : (updateMe d amb taken c req u).commit = some v) :
    (∃ e m, req.changingEmail u = some e ∧ u.googleSub = none ∧
        issueVerification d amb { editProfile req u with pendingEmail := some e } = some (v, m) ∧
        (updateMe d amb taken c req u).mails = [m]) ∨
    (req.changingEmail u = none ∧ (updateMe d amb taken c req u).mails = [] ∧
      v = if req.email.isSome && (editProfile req u).pendingEmail.isSome
        then clearCode { editProfile req u with pendingEmail := none } else editProfile req u) := by
  unfold updateMe at h ⊢
  simp only at h ⊢
  split at h
  · simp [refuse] at h
  · rename_i h1
    split at h
    · simp [refuse] at h
    · rename_i h2
      split at h
      · simp [refuse] at h
      · rename_i h3
        split at h
        · simp [tooMany, refuse] at h
        · rename_i h4
          split at h
          · simp [refuse] at h
          · rename_i h5
            simp only [h1, h2, h3, h4, h5] at h ⊢
            cases hch : req.changingEmail u with
            | some e =>
              simp only [hch] at h ⊢
              have hsub : u.googleSub = none := by simpa [hch] using h1
              split at h
              · simp [refuse] at h
              · rename_i ht
                simp only [ht]
                obtain ⟨w, m, hm⟩ : ∃ w m, issueVerification d amb
                    { editProfile req u with pendingEmail := some e } = some (w, m) := ⟨_, _, rfl⟩
                simp only [hm, Option.some.injEq] at h ⊢
                subst h
                exact Or.inl ⟨e, m, rfl, hsub, hm, by simp⟩
            | none =>
              simp only [hch, Option.some.injEq] at h ⊢
              exact Or.inr ⟨trivial, by simp, h.symm⟩

theorem login_commit {password : String} (h : (login d amb c password u).commit = some v) :
    passwordOk d u password = true ∧ u.twoFactorEnabled = true ∧
      v = (issueLoginCode d amb u).1 := by
  unfold login at h
  split at h
  · simp [refuse] at h
  · rename_i hp
    split at h
    · simp [refuse] at h
    · split at h
      · rename_i h2
        simp only [Option.some.injEq] at h
        exact ⟨by simpa using hp, h2, h.symm⟩
      · simp at h

theorem login2fa_commit {code : Code} (h : (login2fa d amb c code u).commit = some v) :
    u.twoFactorEnabled = true ∧
      ((checkCode d amb code u.loginCodeHash u.loginCodeExpiresAt u.loginCodeAttempts
          "Sign in again to get a new code." = .ok false ∧
        v = { u with loginCodeAttempts := u.loginCodeAttempts + 1 }) ∨
      (checkCode d amb code u.loginCodeHash u.loginCodeExpiresAt u.loginCodeAttempts
          "Sign in again to get a new code." = .ok true ∧ v = clearLoginCode u)) := by
  unfold login2fa at h
  split at h
  · simp [refuse] at h
  · rename_i h2
    refine ⟨by simpa using h2, ?_⟩
    split at h
    · simp at h
    · rename_i hc
      simp only [Option.some.injEq] at h
      exact Or.inl ⟨hc, h.symm⟩
    · rename_i hc
      simp only [Option.some.injEq] at h
      exact Or.inr ⟨hc, h.symm⟩

/-! ## The two-factor flag and the cookie -/

theorem editProfile_twoFactorEnabled {req : UpdateMeRequest} (h : req.toggling2fa u = none) :
    (editProfile req u).twoFactorEnabled = u.twoFactorEnabled := by
  unfold editProfile
  rw [h]
  cases req.name <;> rfl

theorem updateMe_toggle {req : UpdateMeRequest} (hsub : u.googleSub ≠ none)
    (h : (updateMe d amb taken c req u).commit = some v) : req.toggling2fa u = none := by
  by_contra htoggle
  have hisSome : (req.toggling2fa u).isSome = true := Option.isSome_iff_ne_none.mpr htoggle
  have hsubSome : u.googleSub.isSome = true := Option.isSome_iff_ne_none.mpr hsub
  unfold updateMe at h
  simp only [hisSome, hsubSome, Bool.and_true, Bool.true_or, if_true] at h
  split at h <;> simp [refuse] at h

theorem passwordOk_isSome {password : String} (h : passwordOk d u password = true) :
    u.passwordHash.isSome = true := by
  unfold passwordOk at h
  split at h
  · rename_i hash hhash
    rw [hhash, Option.isSome_some]
  · cases h

theorem login_cookie {password : String} {id : ℕ}
    (h : (login d amb c password u).cookie.userId = some id) :
    c.userId = some id ∨ (u.id = id ∧ u.passwordHash.isSome = true) := by
  unfold login at h
  split at h
  · exact Or.inl h
  · rename_i hp
    split at h
    · exact Or.inl h
    · split at h
      · cases h
      · have hp' : passwordOk d u password = true := by simpa using hp
        exact Or.inr ⟨by simpa using h, passwordOk_isSome hp'⟩

theorem login2fa_cookie {code : Code} {id : ℕ}
    (h : (login2fa d amb c code u).cookie.userId = some id) :
    c.userId = some id ∨ (u.id = id ∧ u.twoFactorEnabled = true) := by
  unfold login2fa at h
  split at h
  · exact Or.inl h
  · rename_i h2
    split at h
    · exact Or.inl h
    · exact Or.inl h
    · exact Or.inr ⟨by simpa using h, by simpa using h2⟩

theorem verifyEmail_cookie {code : Code} : (verifyEmail d amb taken c code u).cookie = c := by
  unfold verifyEmail
  split
  · rfl
  · split
    · rfl
    · split
      · rfl
      · rfl
      · split
        · split <;> rfl
        · rfl

theorem verifyEmail_mails {taken : Text → Bool} {code : Code} :
    (verifyEmail d amb taken c code u).mails = [] := by
  unfold verifyEmail
  split
  · rfl
  · split
    · rfl
    · split
      · rfl
      · rfl
      · split
        · split
          · rfl
          · rfl
        · rfl

theorem resendVerification_cookie : (resendVerification d amb c u).cookie = c := by
  unfold resendVerification
  split
  · rfl
  · split
    · rfl
    · split <;> rfl

theorem updateMe_cookie {req : UpdateMeRequest} :
    (updateMe d amb taken c req u).cookie = c := by
  unfold updateMe
  simp only
  split
  · rfl
  · split
    · rfl
    · split
      · rfl
      · split
        · rfl
        · split
          · rfl
          · split
            · split
              · rfl
              · split <;> rfl
            · rfl

end WarsawEvents.Accounts
