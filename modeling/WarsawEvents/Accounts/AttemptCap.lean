import WarsawEvents.Accounts.Interleaved

/-! # The cap on wrong guesses when requests interleave

`_check_code` refuses once the counter it read has reached the cap, compares otherwise, and the
handler commits the counter it read plus one. The read, the comparison and the commit are three
moves here: requests that all read the counter before any of them commits are all let through.

`Counted` asks of a wrong comparison that the row still holds the code and the counter the request
read, and that no other wrong guess waits to be counted. Then no issued code is compared with more
wrong guesses than the cap.
-/

namespace WarsawEvents.Accounts
set_option autoImplicit false

open WriteBack

/-! ## The two doors a code opens -/

structure CodeSlot where
  hash : Option Text
  expiresAt : Option ℕ
  attempts : ℕ
  deriving DecidableEq

/-- `POST /auth/verify` and `POST /auth/login/2fa`. -/
inductive Door where
  | verify
  | login2fa
  deriving DecidableEq

def Door.slot (u : User) : Door → CodeSlot
  | .verify => ⟨u.emailVerifyCodeHash, u.emailVerifyCodeExpiresAt, u.emailVerifyAttempts⟩
  | .login2fa => ⟨u.loginCodeHash, u.loginCodeExpiresAt, u.loginCodeAttempts⟩

def Door.outcome (d : Deps) (amb : Ambient) (taken : Bool) (base : User) (code : Code) :
    Door → RowOutcome
  | .verify => verifyEmail d amb (fun _ => taken) {} code base
  | .login2fa => if !amb.rateOk then tooMany {} else Accounts.login2fa d amb {} code base

/-- What the handler's `_check_code` compares, when the request gets that far. -/
def Door.compares (d : Deps) (amb : Ambient) (base : User) (code : Code) : Door → Option Bool
  | .verify =>
    if !amb.rateOk || (base.emailVerified && base.pendingEmail.isNone) then none
    else (checkCode d amb code base.emailVerifyCodeHash base.emailVerifyCodeExpiresAt
      base.emailVerifyAttempts "Request a new one.").toOption
  | .login2fa =>
    if !amb.rateOk || !base.twoFactorEnabled then none
    else (checkCode d amb code base.loginCodeHash base.loginCodeExpiresAt base.loginCodeAttempts
      "Sign in again to get a new code.").toOption

/-- The row with a fresh code: `_issue_verification` or `_issue_login_code`. -/
def Door.issue (d : Deps) (amb : Ambient) (u : User) : Door → Option User
  | .verify => (issueVerification d amb u).map Prod.fst
  | .login2fa => some (issueLoginCode d amb u).1

variable {d : Deps} {amb : Ambient} {taken : Bool} {base new cur u v : User} {code : Code}
  {door : Door}

theorem checkCode_toOption {hash : Option Text} {expires : Option ℕ} {attempts : ℕ} {renew : String}
    {b : Bool} (h : (checkCode d amb code hash expires attempts renew).toOption = some b) :
    checkCode d amb code hash expires attempts renew = .ok b := by
  cases hc : checkCode d amb code hash expires attempts renew with
  | error r => rw [hc] at h; cases h
  | ok b' => rw [hc] at h; cases h; rfl

/-- A comparison happens only with a live code and a counter below the cap. -/
theorem Door.compares_below {b : Bool} (h : door.compares d amb base code = some b) :
    (door.slot base).hash ≠ none ∧
      (door.slot base).attempts < d.settings.emailVerifyMaxAttempts := by
  cases door with
  | verify =>
    simp only [Door.compares] at h
    split at h
    · cases h
    · obtain ⟨hash, _, hhash, _, _, hlt, _⟩ := checkCode_ok (checkCode_toOption h)
      refine ⟨?_, hlt⟩
      show base.emailVerifyCodeHash ≠ none
      rw [hhash]
      exact Option.some_ne_none _
  | login2fa =>
    simp only [Door.compares] at h
    split at h
    · cases h
    · obtain ⟨hash, _, hhash, _, _, hlt, _⟩ := checkCode_ok (checkCode_toOption h)
      refine ⟨?_, hlt⟩
      show base.loginCodeHash ≠ none
      rw [hhash]
      exact Option.some_ne_none _

/-- What a commit does to the slot: a wrong guess counts one up, the right one clears it. -/
theorem Door.outcome_slot (h : (door.outcome d amb taken base code).commit = some v) :
    (door.compares d amb base code = some false ∧
      door.slot v = { door.slot base with attempts := (door.slot base).attempts + 1 }) ∨
    (door.compares d amb base code = some true ∧ door.slot v = ⟨none, none, 0⟩) := by
  cases door with
  | verify =>
    simp only [Door.outcome] at h
    have hopen : (!amb.rateOk || (base.emailVerified && base.pendingEmail.isNone)) = false := by
      by_contra hclosed
      rw [Bool.not_eq_false, Bool.or_eq_true] at hclosed
      unfold verifyEmail at h
      split at h
      · simp [tooMany, refuse] at h
      · rename_i hrate
        rw [if_pos (hclosed.resolve_left hrate)] at h
        cases h
    simp only [Door.compares, hopen]
    obtain ⟨hc, rfl⟩ | ⟨hc, ⟨_, _, _, rfl⟩ | ⟨_, _, _, rfl⟩ | ⟨_, _, rfl⟩⟩ := verifyEmail_commit h
    · exact Or.inl ⟨by rw [hc]; rfl, rfl⟩
    · exact Or.inr ⟨by rw [hc]; rfl, rfl⟩
    · exact Or.inr ⟨by rw [hc]; rfl, rfl⟩
    · exact Or.inr ⟨by rw [hc]; rfl, rfl⟩
  | login2fa =>
    simp only [Door.outcome] at h
    split at h
    · simp [tooMany, refuse] at h
    · rename_i hrate
      obtain ⟨h2, ⟨hc, rfl⟩ | ⟨hc, rfl⟩⟩ := login2fa_commit h
      · refine Or.inl ⟨?_, rfl⟩
        simp only [Door.compares, hrate, h2, hc]
        rfl
      · refine Or.inr ⟨?_, rfl⟩
        simp only [Door.compares, hrate, h2, hc]
        rfl

theorem Door.commit_hash : (door.slot (commitRow base new cur)).hash =
    writeBack (door.slot base).hash (door.slot new).hash (door.slot cur).hash := by
  cases door <;> rfl

theorem Door.commit_attempts : (door.slot (commitRow base new cur)).attempts =
    writeBack (door.slot base).attempts (door.slot new).attempts (door.slot cur).attempts := by
  cases door <;> rfl

/-! ## Requests guessing at one door -/

/-- A request under way: its copy, the issue of the code it read, and, once it has run `_check_code`,
the clock and the answer of `_email_taken` it ran with. -/
structure Attempt where
  code : Code
  base : User
  generation : ℕ
  checked : Option (Ambient × Bool) := none
  deriving DecidableEq

def Attempt.outcome (d : Deps) (door : Door) (j : Attempt) : Option RowOutcome :=
  j.checked.map fun r => door.outcome d r.1 r.2 j.base j.code

/-- The request compared a wrong guess and has not committed its counter yet. -/
def Attempt.wrong (d : Deps) (door : Door) (j : Attempt) : Prop :=
  ∃ r ∈ j.checked, door.compares d r.1 j.base j.code = some false

instance (j : Attempt) : Decidable (j.wrong d door) :=
  inferInstanceAs (Decidable (∃ r ∈ j.checked, door.compares d r.1 j.base j.code = some false))

/-- The row, the number of codes issued so far, and the requests under way. -/
structure Guessing where
  row : User
  generation : ℕ := 0
  attempts : List Attempt := []
  deriving DecidableEq

inductive GuessMove where
  | issue (amb : Ambient)
  | start (code : Code)
  | check (i : ℕ) (amb : Ambient) (taken : Bool)
  | commit (i : ℕ)
  | drop (i : ℕ)
  deriving DecidableEq

/-- One move. Its output is the issued code a wrong guess was compared with. A request that counted a
wrong guess always commits; any other may end without. -/
def guess (d : Deps) (door : Door) (a : Guessing) : GuessMove → Option (Guessing × Option ℕ)
  | .issue amb =>
    match door.issue d amb a.row with
    | some u => some ({ a with row := u, generation := a.generation + 1 }, none)
    | none => none
  | .start code =>
    some ({ a with attempts := a.attempts ++ [⟨code, a.row, a.generation, none⟩] }, none)
  | .check i amb taken =>
    match a.attempts[i]? with
    | some j =>
      if j.checked.isNone then
        some ({ a with attempts := a.attempts.set i { j with checked := some (amb, taken) } },
          if door.compares d amb j.base j.code = some false then some j.generation else none)
      else none
    | none => none
  | .commit i =>
    match a.attempts[i]? with
    | some j =>
      match (j.outcome d door).bind RowOutcome.commit with
      | some v => some ({ a with row := commitRow j.base v a.row, attempts := a.attempts.eraseIdx i }, none)
      | none => none
    | none => none
  | .drop i =>
    match a.attempts[i]? with
    | some j =>
      if j.wrong d door then none else some ({ a with attempts := a.attempts.eraseIdx i }, none)
    | none => none

abbrev GuessLog := List (GuessMove × Option ℕ)

/-- The wrong guesses compared with the code of that issue. -/
def wrongAgainst (past : GuessLog) (g : ℕ) : ℕ := past.countP fun l => l.2 = some g

/-- A wrong comparison finds the code and the counter it read, and no other wrong guess waiting. -/
def Counted (d : Deps) (door : Door) : GuessLog → Guessing → GuessMove → Prop
  | _, a, .check i amb _ =>
    ∀ j ∈ a.attempts[i]?, door.compares d amb j.base j.code = some false →
      j.generation = a.generation ∧ door.slot j.base = door.slot a.row ∧
        ∀ k ∈ a.attempts, ¬ k.wrong d door
  | _, _, _ => True

instance : ∀ past a m, Decidable (Counted d door past a m)
  | _, a, .check i amb _ =>
    inferInstanceAs (Decidable (∀ j ∈ a.attempts[i]?,
      door.compares d amb j.base j.code = some false →
        j.generation = a.generation ∧ door.slot j.base = door.slot a.row ∧
          ∀ k ∈ a.attempts, ¬ k.wrong d door))
  | _, _, .issue _ => inferInstanceAs (Decidable True)
  | _, _, .start _ => inferInstanceAs (Decidable True)
  | _, _, .commit _ => inferInstanceAs (Decidable True)
  | _, _, .drop _ => inferInstanceAs (Decidable True)

/-! ## The invariant -/

variable {past : GuessLog} {a a' : Guessing} {m : GuessMove} {out : Option ℕ} {g : ℕ}

theorem wrongAgainst_none : wrongAgainst (past ++ [(m, none)]) g = wrongAgainst past g := by
  simp [wrongAgainst]

theorem wrongAgainst_self : wrongAgainst (past ++ [(m, some g)]) g = wrongAgainst past g + 1 := by
  simp [wrongAgainst]

theorem wrongAgainst_other {g' : ℕ} (h : g' ≠ g) :
    wrongAgainst (past ++ [(m, some g')]) g = wrongAgainst past g := by
  simp [wrongAgainst, h]

/-- The counter of the live code, with the one wrong guess that may wait to be counted, has kept up
with the wrong guesses compared. -/
structure KeptUp (d : Deps) (door : Door) (past : GuessLog) (a : Guessing) : Prop where
  cap : ∀ g, wrongAgainst past g ≤ d.settings.emailVerifyMaxAttempts
  later : ∀ g, a.generation < g → wrongAgainst past g = 0
  settled : (door.slot a.row).hash ≠ none → (∀ j ∈ a.attempts, ¬ j.wrong d door) →
    wrongAgainst past a.generation ≤ (door.slot a.row).attempts
  waiting : (door.slot a.row).hash ≠ none → ∀ j ∈ a.attempts, j.wrong d door →
    wrongAgainst past a.generation ≤ (door.slot j.base).attempts + 1

theorem KeptUp.init (u : User) : KeptUp d door [] { row := u } := by
  refine ⟨?_, ?_, ?_, ?_⟩ <;> simp [wrongAgainst]

theorem KeptUp.issue (h : KeptUp d door past a) :
    KeptUp d door (past ++ [(m, none)]) { a with row := u, generation := a.generation + 1 } := by
  have hnew : wrongAgainst past (a.generation + 1) = 0 := h.later _ (Nat.lt_succ_self _)
  refine ⟨?_, ?_, ?_, ?_⟩
  · intro g
    rw [wrongAgainst_none]
    exact h.cap g
  · intro g hg
    rw [wrongAgainst_none]
    exact h.later g (Nat.lt_of_succ_lt hg)
  · intro _ _
    rw [wrongAgainst_none, hnew]
    exact Nat.zero_le _
  · intro _ j _ _
    rw [wrongAgainst_none, hnew]
    exact Nat.zero_le _

/-- Moves that leave the row alone and change no waiting guess. -/
theorem KeptUp.quiet (h : KeptUp d door past a) {js : List Attempt}
    (hjs : ∀ j, j.wrong d door → (j ∈ js ↔ j ∈ a.attempts)) :
    KeptUp d door (past ++ [(m, none)]) { a with attempts := js } := by
  refine ⟨?_, ?_, ?_, ?_⟩
  · intro g
    rw [wrongAgainst_none]
    exact h.cap g
  · intro g hg
    rw [wrongAgainst_none]
    exact h.later g hg
  · intro hhash hnone
    rw [wrongAgainst_none]
    refine h.settled hhash ?_
    intro j hj hw
    exact hnone j ((hjs j hw).mpr hj) hw
  · intro hhash j hj hw
    rw [wrongAgainst_none]
    exact h.waiting hhash j ((hjs j hw).mp hj) hw

/-- The wrong comparison: its guess is the only one waiting, and the counter it read was right. -/
theorem KeptUp.check (h : KeptUp d door past a) {i : ℕ} {j : Attempt} (hj : a.attempts[i]? = some j)
    (hcmp : door.compares d amb j.base j.code = some false) (hgen : j.generation = a.generation)
    (hslot : door.slot j.base = door.slot a.row) (halone : ∀ k ∈ a.attempts, ¬ k.wrong d door) :
    KeptUp d door (past ++ [(m, some j.generation)])
      { a with attempts := a.attempts.set i { j with checked := some (amb, taken) } } := by
  obtain ⟨hhash, hlt⟩ := Door.compares_below hcmp
  have hn : wrongAgainst past a.generation ≤ (door.slot j.base).attempts := by
    rw [hslot] at hhash ⊢
    exact h.settled hhash halone
  rw [congrArg some hgen]
  refine ⟨?_, ?_, ?_, ?_⟩
  · intro g
    by_cases hg : a.generation = g
    · rw [← hg, wrongAgainst_self]
      omega
    · rw [wrongAgainst_other hg]
      exact h.cap g
  · intro g hg
    rw [wrongAgainst_other (Nat.ne_of_lt hg)]
    exact h.later g hg
  · intro _ hnone
    have hmem := List.mem_set (List.getElem?_eq_some_iff.mp hj).1
      ({ j with checked := some (amb, taken) } : Attempt)
    have hwrong : Attempt.wrong d door { j with checked := some (amb, taken) } :=
      ⟨(amb, taken), rfl, hcmp⟩
    exact absurd hwrong (hnone _ hmem)
  · intro _ k hk hw
    rw [wrongAgainst_self]
    obtain hold | hnew := List.mem_or_eq_of_mem_set hk
    · exact absurd hw (halone k hold)
    · rw [hnew]
      exact Nat.succ_le_succ hn

/-- A commit counts its wrong guess up from what it read, or clears the code. -/
theorem KeptUp.commit (h : KeptUp d door past a) {i : ℕ} {j : Attempt}
    (hj : a.attempts[i]? = some j) (hv : (j.outcome d door).bind RowOutcome.commit = some v) :
    KeptUp d door (past ++ [(m, none)])
      { a with row := commitRow j.base v a.row, attempts := a.attempts.eraseIdx i } := by
  obtain ⟨o, ho, hcommit⟩ := Option.bind_eq_some_iff.mp hv
  obtain ⟨r, hr, rfl⟩ := Option.map_eq_some_iff.mp ho
  refine ⟨?_, ?_, ?_, ?_⟩
  · intro g
    rw [wrongAgainst_none]
    exact h.cap g
  · intro g hg
    rw [wrongAgainst_none]
    exact h.later g hg
  · rw [Door.commit_hash, Door.commit_attempts, wrongAgainst_none]
    obtain ⟨hcmp, hslot⟩ | ⟨hcmp, hslot⟩ := Door.outcome_slot hcommit
    · rw [hslot]
      intro hhash _
      rw [writeBack_unchanged] at hhash
      rw [writeBack_changed (Nat.succ_ne_self _)]
      exact h.waiting hhash j (List.mem_of_getElem? hj) ⟨r, hr, hcmp⟩
    · rw [hslot, writeBack_changed (Door.compares_below hcmp).1.symm]
      intro hhash
      exact absurd rfl hhash
  · rw [Door.commit_hash, wrongAgainst_none]
    obtain ⟨hcmp, hslot⟩ | ⟨hcmp, hslot⟩ := Door.outcome_slot hcommit
    · rw [hslot, writeBack_unchanged]
      intro hhash k hk hw
      exact h.waiting hhash k (List.mem_of_mem_eraseIdx hk) hw
    · rw [hslot, writeBack_changed (Door.compares_below hcmp).1.symm]
      intro hhash
      exact absurd rfl hhash

section Members
variable {l : List Attempt} {i : ℕ} {j k x : Attempt}

/-- Replacing one attempt leaves the others where they are. -/
theorem mem_set_iff (hj : l[i]? = some j) (hold : k ≠ j) (hnew : k ≠ x) : k ∈ l.set i x ↔ k ∈ l := by
  constructor
  · intro hk
    exact (List.mem_or_eq_of_mem_set hk).resolve_right hnew
  · intro hk
    obtain ⟨n, hn⟩ := List.mem_iff_getElem?.mp hk
    have hni : i ≠ n := by
      rintro rfl
      rw [hj] at hn
      exact hold (Option.some.inj hn).symm
    rw [← List.getElem?_set_ne hni] at hn
    exact List.mem_of_getElem? hn

theorem mem_eraseIdx_iff (hj : l[i]? = some j) (hold : k ≠ j) : k ∈ l.eraseIdx i ↔ k ∈ l := by
  refine ⟨List.mem_of_mem_eraseIdx, ?_⟩
  intro hk
  obtain ⟨n, hn⟩ := List.mem_iff_getElem?.mp hk
  refine List.mem_eraseIdx_iff_getElem?.mpr ⟨n, ?_, hn⟩
  rintro rfl
  rw [hj] at hn
  exact hold (Option.some.inj hn).symm

end Members

/-- An attempt that has compared nothing is not a wrong one. -/
theorem ne_of_unchecked {j k : Attempt} (hj : j.checked = none) (hw : k.wrong d door) : k ≠ j := by
  rintro rfl
  obtain ⟨r, hr, _⟩ := hw
  rw [hj] at hr
  cases hr

theorem KeptUp.step (h : KeptUp d door past a) (hg : Counted d door past a m)
    (hstep : guess d door a m = some (a', out)) : KeptUp d door (past ++ [(m, out)]) a' := by
  cases m with
  | issue amb =>
    simp only [guess] at hstep
    split at hstep
    · cases hstep
      exact h.issue
    · cases hstep
  | start code =>
    simp only [guess] at hstep
    cases hstep
    refine h.quiet ?_
    intro k hw
    rw [List.mem_append, List.mem_singleton]
    exact or_iff_left (ne_of_unchecked rfl hw)
  | check i amb taken =>
    simp only [guess] at hstep
    split at hstep
    · rename_i j hj
      split at hstep
      · rename_i hfresh
        cases hstep
        have hfresh' : j.checked = none := Option.isNone_iff_eq_none.mp hfresh
        split
        · rename_i hcmp
          obtain ⟨hgen, hslot, halone⟩ := hg j hj hcmp
          exact h.check hj hcmp hgen hslot halone
        · rename_i hcmp
          refine h.quiet ?_
          intro k hw
          refine mem_set_iff hj (ne_of_unchecked hfresh' hw) ?_
          rintro rfl
          obtain ⟨r, hr, hw⟩ := hw
          cases hr
          exact absurd hw hcmp
      · cases hstep
    · cases hstep
  | commit i =>
    simp only [guess] at hstep
    split at hstep
    · rename_i j hj
      split at hstep
      · rename_i v hv
        cases hstep
        exact h.commit hj hv
      · cases hstep
    · cases hstep
  | drop i =>
    simp only [guess] at hstep
    split at hstep
    · rename_i j hj
      split at hstep
      · cases hstep
      · rename_i hright
        cases hstep
        refine h.quiet ?_
        intro k hw
        refine mem_eraseIdx_iff hj ?_
        rintro rfl
        exact hright hw
    · cases hstep

/-- **The cap holds** of every issued code when every wrong comparison is counted. -/
theorem wrong_guesses_capped {u : User}
    (hrun : Runs.Run (Runs.guarded (Counted d door) (guess d door)) [] { row := u } past a) (g : ℕ) :
    wrongAgainst past g ≤ d.settings.emailVerifyMaxAttempts := by
  have hkept : KeptUp d door past a := by
    refine hrun.invariant_of_init (fun past a => KeptUp d door past a) ?_ (KeptUp.init u)
    rintro past a ⟨m, out⟩ a' hI ⟨hg, hstep⟩
    exact hI.step hg hstep
  exact hkept.cap g

/-! ## Two runs -/

def unverifiedUser : User := registeredUser 0 signUp signUpHash

/-- The code `000000` is issued; the rest guesses `999999`. -/
def issueMove : GuessMove := .issue atStart

def startGuess : GuessMove := .start ⟨"999999", by decide⟩

def checkGuess (i : ℕ) : GuessMove := .check i atStart false

/-- Two wrong guesses, one after the other. -/
def inTurn : List GuessMove :=
  [issueMove, startGuess, checkGuess 0, .commit 0, startGuess, checkGuess 0, .commit 0]

def afterTurns : GuessLog × Guessing :=
  (Runs.replay (Counted transparent .verify) (guess transparent .verify) [] { row := unverifiedUser }
    inTurn).getD ([], { row := unverifiedUser })

theorem wrong_guesses_capped_inTurn :
    wrongAgainst afterTurns.1 1 = 2 ∧ wrongAgainst afterTurns.1 1 ≤ 5 := by
  refine ⟨by decide, ?_⟩
  have hrun : Runs.Run (Runs.guarded (Counted transparent .verify) (guess transparent .verify)) []
      { row := unverifiedUser } afterTurns.1 afterTurns.2 :=
    Runs.replay_getD_run _ _ _ _ inTurn _ (by decide)
  exact wrong_guesses_capped hrun 1

/-- Six requests read the row before any of them commits. -/
def atOnce : List GuessMove :=
  issueMove :: List.replicate 6 startGuess ++ (List.range 6).map checkGuess

def afterBurst : GuessLog × Guessing :=
  (Runs.replay Runs.anyStep (guess transparent .verify) [] { row := unverifiedUser } atOnce).getD
    ([], { row := unverifiedUser })

/-- Without the guard six wrong guesses are compared with one code under a cap of five. -/
theorem wrong_guesses_not_capped :
    ¬ ∀ (d : Deps) (door : Door) (u : User) (past : GuessLog) (a : Guessing) (g : ℕ),
      Runs.Run (Runs.guarded Runs.anyStep (guess d door)) [] { row := u } past a →
      wrongAgainst past g ≤ d.settings.emailVerifyMaxAttempts := by
  intro h
  have hrun : Runs.Run (Runs.guarded Runs.anyStep (guess transparent .verify)) []
      { row := unverifiedUser } afterBurst.1 afterBurst.2 :=
    Runs.replay_getD_run _ _ _ _ atOnce _ (by decide)
  exact absurd (h transparent .verify _ _ _ 1 hrun) (by decide)

end WarsawEvents.Accounts
