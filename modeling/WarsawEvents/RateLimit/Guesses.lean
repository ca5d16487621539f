import WarsawEvents.Accounts.System
import WarsawEvents.RateLimit.AuthRate

/-! # Guesses at passwords and codes

Which requests come to `_rate_limit_auth`, which come to `verify_password` or `verify_code`, and how many
of the latter one address gets in a minute.

* `handle_guess_blind`: a request that makes no comparison answers every guess alike, so `compares` misses
  none.
* `guesses_throttled`: the cap holds in every run in which no `DELETE /me` reaches its password check.
* `deletions_unthrottled`: that check is not counted.
-/

namespace WarsawEvents.RateLimit
set_option autoImplicit false

open Accounts ExpiringCounter Runs

/-! ## Guards and comparisons -/

section
variable (d : Deps) (amb : Ambient) (db : Db) (c : Cookie)

/-- The row of `current_user`. -/
def currentRow : Option User := c.userId.bind (findById db.users)

/-- `update_me` after its three refusals: it is about to ask for the password. -/
def asksPassword (req : UpdateMeRequest) (u : User) : Bool :=
  let changing := req.changingEmail u
  let toggling := req.toggling2fa u
  !(changing.isSome && u.googleSub.isSome) &&
    !(toggling.isSome && (u.googleSub.isSome || u.passwordHash.isNone)) &&
    !(toggling = some true && !u.emailVerified) &&
    (changing.isSome || toggling = some false)

/-- Whether the handler comes to `_rate_limit_auth`. -/
def throttled : Request → Bool
  | .register _ => true
  | .login _ _ => true
  | .login2fa _ => true
  | .verify _ => (currentRow db c).isSome
  | .resend => (currentRow db c).isSome
  | .updateMe req => (currentRow db c).any (asksPassword req)
  | .callback _ => false
  | .deleteMe _ => false
  | .logout => false
  | .me => false

/-- `_check_code` gets past the expiry and the attempt cap. -/
def codeOpen (codeHash : Option Text) (expiresAt : Option ℕ) (attempts : ℕ) : Bool :=
  match codeHash, expiresAt with
  | some _, some t => !(t < amb.now) && !(d.settings.emailVerifyMaxAttempts ≤ attempts)
  | _, _ => false

/-- Whether `delete_me` comes to `verify_password`. -/
def deleteChecks : Request → Bool
  | .deleteMe currentPassword =>
    (currentRow db c).any fun u =>
      u.passwordHash.isSome && (currentPassword.bind fun p => truthy (some p)).isSome
  | _ => false

/-- Whether the handler comes to `verify_password` or `verify_code`. -/
def compares (req : Request) : Bool :=
  match req with
  | .login email _ => amb.rateOk && (findByEmail db.users email).any fun u => u.passwordHash.isSome
  | .login2fa _ =>
    amb.rateOk && (c.pending2fa.bind (findById db.users)).any fun u =>
      u.twoFactorEnabled && codeOpen d amb u.loginCodeHash u.loginCodeExpiresAt u.loginCodeAttempts
  | .verify _ =>
    amb.rateOk && (currentRow db c).any fun u =>
      !(u.emailVerified && u.pendingEmail.isNone) &&
        codeOpen d amb u.emailVerifyCodeHash u.emailVerifyCodeExpiresAt u.emailVerifyAttempts
  | .updateMe req =>
    amb.rateOk && (currentRow db c).any fun u => asksPassword req u && u.passwordHash.isSome
  | .deleteMe _ => deleteChecks db c req
  | _ => false

/-- Two requests that differ at most in the password or code they submit. -/
inductive SameButGuess : Request → Request → Prop
  | login (email : Text) (p p' : String) : SameButGuess (.login email p) (.login email p')
  | login2fa (k k' : Code) : SameButGuess (.login2fa k) (.login2fa k')
  | verify (k k' : Code) : SameButGuess (.verify k) (.verify k')
  | updateMe (req req' : UpdateMeRequest) : req.name = req'.name → req.email = req'.email →
      req.twoFactorEnabled = req'.twoFactorEnabled → SameButGuess (.updateMe req) (.updateMe req')
  | deleteMe (p p' : Option String) : SameButGuess (.deleteMe p) (.deleteMe p')

end

section
variable {d : Deps} {amb : Ambient} {db : Db} {c : Cookie}

theorem withCurrentUser_congr {k k' : User → Outcome}
    (h : ∀ u, currentRow db c = some u → k u = k' u) :
    withCurrentUser db c k = withCurrentUser db c k' := by
  unfold withCurrentUser
  cases hid : c.userId with
  | none => rfl
  | some id =>
    cases hfind : findById db.users id with
    | none => simp only [hfind]
    | some u =>
      simp only [hfind]
      apply h
      unfold currentRow
      rw [hid]
      exact hfind

theorem withCurrentUser_of_row {u : User} (h : currentRow db c = some u) (k : User → Outcome) :
    withCurrentUser db c k = k u := by
  unfold currentRow at h
  obtain ⟨id, hid, hfind⟩ := Option.bind_eq_some_iff.mp h
  simp [withCurrentUser, hid, hfind]

/-- Without an open code the answer is the same for every code submitted. -/
theorem checkCode_closed {codeHash : Option Text} {expiresAt : Option ℕ} {attempts : ℕ}
    (h : codeOpen d amb codeHash expiresAt attempts = false) (k k' : Code) (renew : String) :
    checkCode d amb k codeHash expiresAt attempts renew
      = checkCode d amb k' codeHash expiresAt attempts renew := by
  unfold codeOpen at h
  unfold checkCode
  cases codeHash with
  | none => rfl
  | some hash =>
    cases expiresAt with
    | none => rfl
    | some t =>
      simp only [Bool.and_eq_false_iff, Bool.not_eq_false', decide_eq_true_eq] at h
      simp only
      by_cases hexpired : t < amb.now
      · rw [if_pos hexpired, if_pos hexpired]
      · have hcap : d.settings.emailVerifyMaxAttempts ≤ attempts := h.resolve_left hexpired
        rw [if_neg hexpired, if_neg hexpired, if_pos hcap, if_pos hcap]

theorem passwordOk_none {u : User} (h : u.passwordHash = none) (password : String) :
    passwordOk d u password = false := by
  unfold passwordOk
  rw [h]

/-- Where `update_me` does not ask for the password, or has no hash to compare it with, it does not
matter. -/
theorem updateMe_guess_blind {req req' : UpdateMeRequest} {u : User} (taken : Text → Bool)
    (hname : req.name = req'.name) (hemail : req.email = req'.email)
    (htwo : req.twoFactorEnabled = req'.twoFactorEnabled)
    (h : (amb.rateOk && (asksPassword req u && u.passwordHash.isSome)) = false) :
    updateMe d amb taken c req u = updateMe d amb taken c req' u := by
  have hchanging : req'.changingEmail u = req.changingEmail u := by
    unfold UpdateMeRequest.changingEmail
    rw [hemail]
  have htoggling : req'.toggling2fa u = req.toggling2fa u := by
    unfold UpdateMeRequest.toggling2fa
    rw [htwo]
  have hedit : editProfile req' u = editProfile req u := by
    unfold editProfile
    rw [htoggling, hname]
  unfold asksPassword at h
  unfold updateMe
  simp only [hchanging, htoggling, hedit, ← hemail]
  by_cases h1 : (req.changingEmail u).isSome && u.googleSub.isSome
  · rw [if_pos h1, if_pos h1]
  by_cases h2 : (req.toggling2fa u).isSome && (u.googleSub.isSome || u.passwordHash.isNone)
  · rw [if_neg h1, if_neg h1, if_pos h2, if_pos h2]
  by_cases h3 : decide (req.toggling2fa u = some true) && !u.emailVerified
  · rw [if_neg h1, if_neg h1, if_neg h2, if_neg h2, if_pos h3, if_pos h3]
  by_cases h4 : (req.changingEmail u).isSome || decide (req.toggling2fa u = some false)
  · cases hrate : amb.rateOk with
    | false => simp [h1, h2, h3, h4]
    | true =>
      have hhash : u.passwordHash = none := by
        simp only [Bool.not_eq_true] at h1 h2 h3
        simp only [h1, h2, h3, h4, hrate, Bool.not_false, Bool.true_and] at h
        simpa using h
      simp only [passwordOk_none hhash]
  · simp only [h4, Bool.false_and]

/-- A request that makes no comparison is answered alike whatever its guess. -/
theorem handle_guess_blind {req req' : Request} (h : SameButGuess req req')
    (hreq : compares d amb db c req = false) (hreq' : compares d amb db c req' = false) :
    handle d amb db c req = handle d amb db c req' := by
  cases h with
  | login email p p' =>
    simp only [compares, Bool.and_eq_false_iff] at hreq
    simp only [handle]
    obtain hrate | hrow := hreq
    · simp [hrate]
    · cases hfind : findByEmail db.users email with
      | none => rfl
      | some u =>
        simp only [hfind, Option.any_some] at hrow
        have hhash : u.passwordHash = none := by simpa using hrow
        simp only [login, passwordOk_none hhash]
  | login2fa k k' =>
    simp only [compares, Bool.and_eq_false_iff] at hreq
    simp only [handle]
    obtain hrate | hrow := hreq
    · simp [hrate]
    · cases hfind : c.pending2fa.bind (findById db.users) with
      | none => rfl
      | some u =>
        simp only [hfind, Option.any_some, Bool.and_eq_false_iff] at hrow
        simp only [login2fa]
        obtain htwo | hclosed := hrow
        · simp [htwo]
        · rw [checkCode_closed hclosed k k']
  | verify k k' =>
    simp only [compares, Bool.and_eq_false_iff] at hreq
    simp only [handle]
    apply withCurrentUser_congr
    intro u hu
    congr 1
    unfold verifyEmail
    obtain hrate | hrow := hreq
    · simp [hrate]
    · simp only [hu, Option.any_some, Bool.and_eq_false_iff, Bool.not_eq_false'] at hrow
      obtain hdone | hclosed := hrow
      · simp [hdone]
      · rw [checkCode_closed hclosed k k']
  | updateMe req req' hname hemail htwo =>
    simp only [compares] at hreq
    simp only [handle]
    apply withCurrentUser_congr
    intro u hu
    rw [hu, Option.any_some] at hreq
    rw [updateMe_guess_blind _ hname hemail htwo hreq]
  | deleteMe p p' =>
    simp only [compares, deleteChecks] at hreq hreq'
    simp only [handle]
    apply withCurrentUser_congr
    intro u hu
    have hsame : deleteRefusal d p u = deleteRefusal d p' u := by
      unfold deleteRefusal
      cases hhash : u.passwordHash with
      | none => rfl
      | some hash =>
        simp only [hu, Option.any_some, hhash, Option.isSome_some, Bool.true_and,
          Option.isSome_eq_false_iff, Option.isNone_iff_eq_none] at hreq hreq'
        rw [hreq, hreq']
    rw [hsame]

/-- A handler that does not come to the guard does not depend on it. -/
theorem handle_unthrottled {req : Request} (h : throttled db c req = false) (x y : Bool) :
    handle d { amb with rateOk := x } db c req = handle d { amb with rateOk := y } db c req := by
  cases req with
  | register req => simp [throttled] at h
  | login email p => simp [throttled] at h
  | login2fa k => simp [throttled] at h
  | verify k =>
    apply withCurrentUser_congr
    intro u hu
    simp [throttled, hu] at h
  | resend =>
    apply withCurrentUser_congr
    intro u hu
    simp [throttled, hu] at h
  | updateMe req =>
    apply withCurrentUser_congr
    intro u hu
    simp only [throttled, hu, Option.any_some, asksPassword] at h
    congr 1
    unfold updateMe
    by_cases h1 : (req.changingEmail u).isSome && u.googleSub.isSome
    · simp only [h1, if_true]
    by_cases h2 : (req.toggling2fa u).isSome && (u.googleSub.isSome || u.passwordHash.isNone)
    · simp only [h1, h2, if_true]
    by_cases h3 : decide (req.toggling2fa u = some true) && !u.emailVerified
    · simp only [h1, h2, h3, if_true]
    simp only [Bool.not_eq_true] at h1 h2 h3
    have h4 : ((req.changingEmail u).isSome || decide (req.toggling2fa u = some false)) = false := by
      simpa [h1, h2, h3] using h
    simp only [h4, Bool.false_and]
    rfl
  | callback info => rfl
  | deleteMe p => rfl
  | logout => rfl
  | me => rfl

/-- Past the cap the guard refuses, and nothing is compared or changed. -/
theorem handle_refused {req : Request} (h : throttled db c req = true) (hrate : amb.rateOk = false) :
    handle d amb db c req = { db := db, cookie := c, reply := (tooMany c).reply } := by
  cases req with
  | register req => simp [handle, register, hrate]
  | login email p => simp [handle, hrate, settle, tooMany, refuse]
  | login2fa k => simp [handle, hrate, settle, tooMany, refuse]
  | verify k =>
    obtain ⟨u, hu⟩ := Option.isSome_iff_exists.mp h
    simp [handle, withCurrentUser_of_row hu, verifyEmail, hrate, settle, tooMany, refuse]
  | resend =>
    obtain ⟨u, hu⟩ := Option.isSome_iff_exists.mp h
    simp [handle, withCurrentUser_of_row hu, resendVerification, hrate, settle, tooMany, refuse]
  | updateMe req =>
    obtain ⟨u, hu, hasks⟩ := (Option.any_eq_true _ _).mp h
    simp only [asksPassword, Bool.and_eq_true, Bool.not_eq_true'] at hasks
    obtain ⟨⟨⟨h1, h2⟩, h3⟩, h4⟩ := hasks
    have hrefused : updateMe d amb (emailTaken db.users u.id) c req u = tooMany c := by
      unfold updateMe
      simp [h1, h2, h3, h4, hrate]
    simp only [handle]
    rw [withCurrentUser_of_row hu, hrefused]
    rfl
  | callback info => simp [throttled] at h
  | deleteMe p => simp [throttled] at h
  | logout => simp [throttled] at h
  | me => simp [throttled] at h

/-- Every comparison but that of `delete_me` stands behind the guard. -/
theorem compares_throttled {req : Request} (h : compares d amb db c req = true)
    (hdelete : deleteChecks db c req = false) :
    throttled db c req = true ∧ amb.rateOk = true := by
  cases req with
  | login email p =>
    simp only [compares, Bool.and_eq_true] at h
    exact ⟨rfl, h.1⟩
  | login2fa k =>
    simp only [compares, Bool.and_eq_true] at h
    exact ⟨rfl, h.1⟩
  | verify k =>
    simp only [compares, Bool.and_eq_true] at h
    obtain ⟨hrate, hrow⟩ := h
    obtain ⟨u, hu, _⟩ := (Option.any_eq_true _ _).mp hrow
    exact ⟨by rw [throttled, hu]; rfl, hrate⟩
  | updateMe req =>
    simp only [compares, Bool.and_eq_true] at h
    obtain ⟨hrate, hrow⟩ := h
    obtain ⟨u, hu, hasks⟩ := (Option.any_eq_true _ _).mp hrow
    rw [Bool.and_eq_true] at hasks
    exact ⟨by rw [throttled, hu]; exact hasks.1, hrate⟩
  | deleteMe p =>
    rw [compares, hdelete] at h
    simp at h
  | register req => simp [compares] at h
  | resend => simp [compares] at h
  | callback info => simp [compares] at h
  | logout => simp [compares] at h
  | me => simp [compares] at h

end

/-! ## Visits -/

/-- A request to an account endpoint, or one to any other: these neither come to the guard nor compare
anything, whatever they do to the table. -/
inductive Visit where
  | account (ev : Event)
  | elsewhere (db : Db)

/-- The accounts with their cookies, and the counters in Redis. -/
structure Gate where
  accounts : Accounts.World := {}
  store : Store AuthKey := fun _ => none

/-- What one visit did: came to the guard, came to a comparison. -/
structure Seen where
  throttled : Bool := false
  compared : Bool := false
  deriving DecidableEq

def visit (d : Deps) (z : Zone) (limit : ℕ) (g : Gate) :
    String × Visit → Option (Gate × Seen)
  | (_, .elsewhere db) => some ({ g with accounts := { g.accounts with db := db } }, {})
  | (clientIp, .account ev) =>
    let reached := throttled g.accounts.db ev.cookie ev.request
    let checked := checkAuthRate z limit g.store ev.ambient.now clientIp
    let amb := { ev.ambient with rateOk := !reached || checked.1 }
    (serve d g.accounts { ev with ambient := amb }).map fun r =>
      ({ accounts := r.1, store := if reached then checked.2 else g.store },
        { throttled := reached
          compared := compares d amb g.accounts.db ev.cookie ev.request })

abbrev VisitLog := List ((String × Visit) × Seen)

/-- The account requests of the bucket's address come in the bucket's minute. -/
def inBucket (z : Zone) (b : Bucket) (_past : VisitLog) (_g : Gate) (v : String × Visit) : Prop :=
  match v.2 with
  | .account ev => v.1 = b.clientIp → b.Holds z ev.ambient.now
  | .elsewhere _ => True

instance (z : Zone) (b : Bucket) (past : VisitLog) (g : Gate) (v : String × Visit) :
    Decidable (inBucket z b past g v) := by
  unfold inBucket
  split <;> infer_instance

/-- In the bucket, and no `DELETE /me` of its address comes to `verify_password`. -/
def inBucketUndeleted (z : Zone) (b : Bucket) (past : VisitLog) (g : Gate) (v : String × Visit) :
    Prop :=
  inBucket z b past g v ∧
    match v.2 with
    | .account ev =>
      v.1 = b.clientIp → deleteChecks g.accounts.db ev.cookie ev.request = false
    | .elsewhere _ => True

instance (z : Zone) (b : Bucket) (past : VisitLog) (g : Gate) (v : String × Visit) :
    Decidable (inBucketUndeleted z b past g v) := by
  unfold inBucketUndeleted
  split <;> infer_instance

/-- How many visits of an address have come to a comparison. -/
def guesses (clientIp : String) (log : VisitLog) : ℕ :=
  log.countP fun l => decide (l.1.1 = clientIp) && l.2.compared

section
variable {d : Deps} {z : Zone} {limit : ℕ} {b : Bucket} {past log : VisitLog} {g g' : Gate}

theorem guesses_snoc (clientIp : String) (past : VisitLog) (l : (String × Visit) × Seen) :
    guesses clientIp (past ++ [l])
      = guesses clientIp past + if l.1.1 = clientIp ∧ l.2.compared = true then 1 else 0 := by
  unfold guesses
  rw [List.countP_append, List.countP_singleton]
  simp

/-- The guesses are among the attempts that the bucket has let through. -/
def Throttled (b : Bucket) (limit : ℕ) (past : VisitLog) (g : Gate) : Prop :=
  ∃ n, b.Counts g.store n ∧ guesses b.clientIp past ≤ min n limit

theorem Throttled.step {l : (String × Visit) × Seen} (h : Throttled b limit past g)
    (hguard : inBucketUndeleted z b past g l.1) (hvisit : visit d z limit g l.1 = some (g', l.2)) :
    Throttled b limit (past ++ [l]) g' := by
  obtain ⟨n, hcounts, hle⟩ := h
  obtain ⟨⟨ip, v⟩, seen⟩ := l
  unfold Throttled
  rw [guesses_snoc]
  cases v with
  | elsewhere db =>
    simp only [visit, Option.some.injEq, Prod.mk.injEq] at hvisit
    obtain ⟨rfl, rfl⟩ := hvisit
    exact ⟨n, hcounts, by simpa using hle⟩
  | account ev =>
    simp only [visit, Option.map_eq_some_iff] at hvisit
    obtain ⟨r, _, hr⟩ := hvisit
    simp only [Prod.mk.injEq] at hr
    obtain ⟨rfl, rfl⟩ := hr
    obtain ⟨hin, hundeleted⟩ := hguard
    simp only [inBucket] at hin hundeleted
    simp only
    by_cases hip : ip = b.clientIp
    · subst hip
      have hnow := hin rfl
      obtain ⟨hok, hcounts'⟩ := hcounts.hit limit hnow
      cases hreached : throttled g.accounts.db ev.cookie ev.request with
      | true =>
        refine ⟨n + 1, by simpa using hcounts', ?_⟩
        split
        next hcompared =>
          obtain ⟨_, hrate⟩ := compares_throttled hcompared.2 (hundeleted rfl)
          have hlimit : n + 1 ≤ limit := by
            simpa [hok] using hrate
          omega
        next => omega
      | false =>
        refine ⟨n, by simpa using hcounts, ?_⟩
        split
        next hcompared =>
          obtain ⟨hthrottled, _⟩ := compares_throttled hcompared.2 (hundeleted rfl)
          rw [hreached] at hthrottled
          simp at hthrottled
        next => omega
    · have hkey : authKey z ev.ambient.now ip ≠ b.key := by
        intro h
        exact hip (congrArg AuthKey.clientIp h)
      refine ⟨n, ?_, ?_⟩
      · split
        next => exact hcounts.other hkey
        next => exact hcounts
      · simp only [hip, false_and, if_false]
        omega

/-- In every run within one minute, with any visits of other addresses between, one address gets at most
`limit` comparisons of a password or a code, as long as no `DELETE /me` of its comes to
`verify_password`. -/
theorem guesses_throttled (hstart : b.Unused g.store)
    (h : Run (guarded (inBucketUndeleted z b) (visit d z limit)) [] g log g') :
    guesses b.clientIp log ≤ limit := by
  have hinv : Throttled b limit log g' := by
    apply h.invariant_of_init (Throttled b limit)
    · intro past s l t hs hst
      exact hs.step hst.1 hst.2
    · exact ⟨0, hstart, by simp [guesses]⟩
  obtain ⟨n, _, hle⟩ := hinv
  omega

end

/-! ## Deletions -/

def visitorMinute : Bucket := ⟨"203.0.113.5", 0, 0⟩

/-- A request of the visitor at the start of the minute. -/
def fromVisitor (cookie : Cookie) (request : Request) : String × Visit :=
  ("203.0.113.5", .account (sends 1 cookie request))

/-- A sign-up and a wrong password at the login. -/
def wrongLogin : List (String × Visit) :=
  [fromVisitor {} (.register signUp), fromVisitor {} (.login addressA "hunter23")]

theorem guesses_throttled_wrongLogin :
    guesses visitorMinute.clientIp ((replay (inBucketUndeleted utc visitorMinute)
      (visit transparent utc 10) [] {} wrongLogin).getD ([], {})).1 ≤ 10 := by
  have hrun := replay_getD_run (inBucketUndeleted utc visitorMinute) (visit transparent utc 10) [] {}
    wrongLogin ([], {}) (by decide +kernel)
  have hunused : visitorMinute.Unused ({} : Gate).store := fun _ _ => rfl
  exact guesses_throttled hunused hrun

/-- A sign-up and eleven wrong passwords at `DELETE /me`. -/
def elevenDeletions : List (String × Visit) :=
  fromVisitor {} (.register signUp) ::
    List.replicate 11 (fromVisitor firstCookie (.deleteMe (some "hunter23")))

/-- `delete_me` compares the password without the guard: all eleven guesses of one minute are tried. -/
theorem deletions_unthrottled :
    visitorMinute.Unused ({} : Gate).store ∧
      ∃ log g, Run (guarded (inBucket utc visitorMinute) (visit transparent utc 10)) [] {} log g ∧
        guesses visitorMinute.clientIp log = 11 := by
  have hrun := replay_getD_run (inBucket utc visitorMinute) (visit transparent utc 10) [] {}
    elevenDeletions ([], {}) (by decide +kernel)
  refine ⟨fun _ _ => rfl, _, _, hrun, ?_⟩
  decide +kernel

end WarsawEvents.RateLimit
