import WarsawEvents.Accounts.RowInvariant
import WarsawEvents.Foundations.OneTimeCode

/-! # Runs with everything a request did

`observe` is `serve` with the table before the request and the whole outcome as the answer, so that a
history tells which codes were mailed. `Observed.reached` takes such a run to the run it observes.

`Tracked` ties the three columns of an emailed code to the history: a stored hash is the one of the
outstanding code, and the counter its misses, up to the cap.
-/

namespace WarsawEvents.Accounts
set_option autoImplicit false

open OneTimeCode

/-! ## Observed runs -/

structure Seen where
  before : Db
  outcome : Outcome
  deriving DecidableEq

abbrev Transcript := List (Event × Seen)

def observe (d : Deps) (w : World) (ev : Event) : Option (World × Seen) :=
  (serve d w ev).map fun r => (r.1, ⟨w.db, handle d ev.ambient w.db ev.cookie ev.request⟩)

/-- Runs of `observe` from the empty table. -/
abbrev Observed (d : Deps) (past : Transcript) (w : World) : Prop :=
  Runs.Run (Runs.guarded Runs.anyStep (observe d)) [] {} past w

def watched (d : Deps) (evs : List Event) : Transcript × World :=
  (Runs.replay Runs.anyStep (observe d) [] {} evs).getD ([], {})

theorem watched_run {d : Deps} (evs : List Event)
    (h : (Runs.replay Runs.anyStep (observe d) [] {} evs).isSome = true) :
    Observed d (watched d evs).1 (watched d evs).2 :=
  Runs.replay_getD_run Runs.anyStep (observe d) [] {} evs _ h

variable {d : Deps} {past : Transcript} {w w' : World} {ev : Event} {s : Seen}

theorem observe_some (h : observe d w ev = some (w', s)) :
    (ev.cookie = {} ∨ (ev.browser, ev.cookie) ∈ w.issued) ∧ s.before = w.db ∧
      s.outcome = handle d ev.ambient w.db ev.cookie ev.request ∧
      w'.db = s.outcome.db ∧ w'.issued = w.issued ++ [(ev.browser, s.outcome.cookie)] := by
  unfold observe serve at h
  split at h
  · rename_i hheld
    cases h
    exact ⟨hheld, rfl, rfl, rfl, rfl⟩
  · cases h

theorem serve_of_observe (h : observe d w ev = some (w', s)) :
    serve d w ev = some (w', s.outcome.reply) := by
  unfold observe serve at h
  unfold serve
  split at h
  · rename_i hheld
    cases h
    rw [if_pos hheld]
  · cases h

theorem Observed.reached (h : Observed d past w) :
    Reached d Runs.anyStep (past.map fun l => (l.1, l.2.outcome.reply)) w := by
  induction h with
  | refl => exact Runs.Run.refl
  | snoc _ hstep ih =>
    rw [List.map_append]
    exact Runs.Run.snoc ih ⟨trivial, serve_of_observe hstep.2⟩

theorem Observed.sound (h : Observed d past w) : ∀ v ∈ w.db.users, v.Sound d :=
  Reached.sound h.reached

theorem Observed.ok (h : Observed d past w) : w.db.Ok := Reached.ok h.reached

/-! ## Addresses and subjects are unique -/

variable {amb : Ambient} {db : Db} {c : Cookie} {req : Request} {o : Outcome} {out : RowOutcome}
  {u v x : User} {users : List User}

/-- Two rows with one address or one subject. -/
def Clash (u v : User) : Prop :=
  v.id ≠ u.id ∧ ((∃ e, u.email = some e ∧ v.email = some e) ∨
    ∃ sub, u.googleSub = some sub ∧ v.googleSub = some sub)

theorem Clash.symm (h : Clash u v) : Clash v u := by
  obtain ⟨hid, ⟨e, hu, hv⟩ | ⟨sub, hu, hv⟩⟩ := h
  · exact ⟨Ne.symm hid, .inl ⟨e, hv, hu⟩⟩
  · exact ⟨Ne.symm hid, .inr ⟨sub, hv, hu⟩⟩

theorem isSome_and_eq_iff {a b : Option Text} :
    (a.isSome = true ∧ b = a) ↔ ∃ t, a = some t ∧ b = some t := by
  cases a with
  | none => simp
  | some t => simp

theorem conflicts_eq_false_iff : conflicts users u = false ↔ ∀ v ∈ users, ¬ Clash u v := by
  unfold conflicts Clash
  rw [List.any_eq_false]
  simp only [Bool.and_eq_true, Bool.or_eq_true, decide_eq_true_eq, isSome_and_eq_iff]

def Db.Unique (db : Db) : Prop := ∀ u ∈ db.users, ∀ v ∈ db.users, ¬ Clash u v

/-- Committing a row under its old address and subject breaks no unique constraint. -/
theorem Db.Unique.no_conflict (h : db.Unique) (hu : u ∈ db.users) (hid : v.id = u.id)
    (hemail : v.email = u.email) (hsub : v.googleSub = u.googleSub) :
    conflicts db.users v = false := by
  rw [conflicts_eq_false_iff]
  intro x hx hclash
  apply h u hu x hx
  unfold Clash at hclash ⊢
  rwa [hid, hemail, hsub] at hclash

theorem Db.Unique.store (h : db.Unique) (hv : conflicts db.users v = false) :
    Db.Unique { db with users := storeRow db.users v } := by
  rw [conflicts_eq_false_iff] at hv
  intro x hx y hy hclash
  obtain hxv | ⟨hxold, _⟩ := mem_storeRow hx
  · obtain hyv | ⟨hyold, _⟩ := mem_storeRow hy
    · rw [hxv, hyv] at hclash
      exact hclash.1 rfl
    · rw [hxv] at hclash
      exact hv y hyold hclash
  · obtain hyv | ⟨hyold, _⟩ := mem_storeRow hy
    · rw [hyv] at hclash
      exact hv x hxold hclash.symm
    · exact h x hxold y hyold hclash

theorem Db.Unique.insert (h : db.Unique) (hv : ∀ x ∈ db.users, ¬ Clash x v) :
    (insertRow db v).Unique := by
  intro x hx y hy hclash
  obtain hx | hx := List.mem_append.mp hx
  · obtain hy | hy := List.mem_append.mp hy
    · exact h x hx y hy hclash
    · rw [List.mem_singleton.mp hy] at hclash
      exact hv x hx hclash
  · rw [List.mem_singleton.mp hx] at hclash
    obtain hy | hy := List.mem_append.mp hy
    · exact hv y hy hclash.symm
    · rw [List.mem_singleton.mp hy] at hclash
      exact hclash.1 rfl

theorem findByEmail_none {e : Text} (h : findByEmail users e = none) (hx : x ∈ users) :
    x.email ≠ some e := by
  have hnone := List.find?_eq_none.mp h x hx
  simpa using hnone

theorem findBySub_none {sub : Text} (h : findBySub users sub = none) (hx : x ∈ users) :
    x.googleSub ≠ some sub := by
  have hnone := List.find?_eq_none.mp h x hx
  simpa using hnone

theorem Served.unique (h : Served d amb db c req o) (hI : db.Unique) : o.db.Unique := by
  cases h with
  | idle _ => exact hI
  | @row _ u out hrow =>
    obtain hdb | ⟨v, _, hno, hset⟩ := settle_cases db c out
    · rw [hdb]
      exact hI
    · rw [hset]
      exact hI.store hno
  | @googleInsert info _ _ hsub hemail =>
    refine hI.insert ?_
    intro x hx hclash
    obtain ⟨_, ⟨e, hxe, hve⟩ | ⟨s', hxs, hvs⟩⟩ := hclash
    · have htruthy : truthy info.email = some e := by simpa [googleUser] using hve
      exact findByEmail_none (hemail e htruthy) hx hxe
    · rw [googleUser, assertGoogle_googleSub, Option.some.injEq] at hvs
      subst hvs
      exact findBySub_none hsub hx hxs
  | registerInsert hnew hissue =>
    obtain ⟨_, _, _, rfl⟩ := issueVerification_some hissue
    refine hI.insert ?_
    intro x hx hclash
    obtain ⟨_, ⟨e, hxe, hve⟩ | ⟨s', _, hvs⟩⟩ := hclash
    · cases hve
      exact findByEmail_none hnew hx hxe
    · cases hvs
  | erase _ _ _ =>
    intro x hx y hy
    exact hI x (mem_eraseRow.mp hx).1 y (mem_eraseRow.mp hy).1

theorem Observed.unique (h : Observed d past w) : w.db.Unique := by
  refine h.invariant_of_init (fun _ w => w.db.Unique) ?_ (by simp [Db.Unique])
  intro past w l w' hI hstep
  obtain ⟨_, _, hout, hdb, _⟩ := observe_some hstep.2
  rw [hdb, hout]
  exact (handle_served l.1.request).unique hI

/-! ## The columns of a code -/

structure Mailed where
  address : Option Text
  code : Code
  expiresAt : ℕ
  deriving DecidableEq

/-- A wrong code submitted while `k` is live. -/
def wrongFor (amb : Ambient) (code : Code) (k : Mailed) : Bool :=
  code ≠ k.code && amb.now ≤ k.expiresAt

def Tracked {ε : Type} (d : Deps) (R : Reading ε Mailed) (past : List ε) (codeHash : Option Text)
    (expiresAt : Option ℕ) (attempts : ℕ) : Prop :=
  ∀ h, codeHash = some h → ∃ k n, Outstanding R past k n ∧ h = d.hashCode k.code ∧
    expiresAt = some k.expiresAt ∧ attempts = min n d.settings.emailVerifyMaxAttempts

section Columns
variable {ε : Type} {R : Reading ε Mailed} {past : List ε} {l : ε} {k : Mailed} {n : ℕ}
  {codeHash : Option Text} {expiresAt : Option ℕ} {attempts : ℕ} {code : Code} {renew : String}

theorem checkCode_error {r : Reply}
    (h : checkCode d amb code codeHash expiresAt attempts renew = .error r) :
    ∃ n detail, r = .http n detail := by
  unfold checkCode at h
  split at h
  · split at h
    · cases h
      exact ⟨_, _, rfl⟩
    · split at h
      · cases h
        exact ⟨_, _, rfl⟩
      · cases h
  · cases h
    exact ⟨_, _, rfl⟩

theorem Tracked.cleared : Tracked d R past none expiresAt attempts := by
  intro h hnone
  cases hnone

theorem Tracked.issued (hk : R.issued l = some k) :
    Tracked d R (past ++ [l]) (some (d.hashCode k.code)) (some k.expiresAt) 0 := by
  intro h hsome
  cases hsome
  exact ⟨k, 0, Outstanding.issue hk, rfl, rfl, (Nat.zero_min _).symm⟩

theorem Tracked.silent (h : Tracked d R past codeHash expiresAt attempts) (hl : R.Silent l) :
    Tracked d R (past ++ [l]) codeHash expiresAt attempts := by
  intro hash hhash
  obtain ⟨k, n, hout, hrest⟩ := h hash hhash
  exact ⟨k, n, hout.silent hl, hrest⟩

/-- A code that was compared and did not match is a miss, and it is counted. -/
theorem Tracked.missed (h : Tracked d R past codeHash expiresAt attempts)
    (hcheck : checkCode d amb code codeHash expiresAt attempts renew = .ok false)
    (hi : R.issued l = none) (hr : R.retires l = false)
    (hm : ∀ k, R.misses k l = wrongFor amb code k) :
    Tracked d R (past ++ [l]) codeHash expiresAt (attempts + 1) := by
  obtain ⟨hash, t, rfl, rfl, hnow, hlt, hmatch⟩ := checkCode_ok hcheck
  intro hash' hhash
  cases hhash
  obtain ⟨k, n, hout, rfl, ht, hn⟩ := h hash rfl
  cases ht
  have hcode : code ≠ k.code := by
    intro heq
    simp [verifyCode, heq] at hmatch
  have hmiss : R.misses k l = true := by
    rw [hm k]
    simp [wrongFor, hcode, hnow]
  have hkept := hout.keep hi hr
  rw [hmiss, if_pos rfl] at hkept
  exact ⟨k, n + 1, hkept, rfl, rfl, by omega⟩

/-- A code that is refused uncompared has expired or used up its attempts. -/
theorem Tracked.refused {r : Reply} (h : Tracked d R past codeHash expiresAt attempts)
    (hcheck : checkCode d amb code codeHash expiresAt attempts renew = .error r)
    (hi : R.issued l = none) (hr : R.retires l = false)
    (hm : ∀ k, R.misses k l = wrongFor amb code k) :
    Tracked d R (past ++ [l]) codeHash expiresAt attempts := by
  intro hash hhash
  obtain ⟨k, n, hout, rfl, rfl, hn⟩ := h hash hhash
  subst hhash
  refine ⟨k, _, hout.keep hi hr, rfl, rfl, ?_⟩
  rw [hm k]
  unfold checkCode at hcheck
  simp only at hcheck
  split at hcheck
  · rename_i hexpired
    have hlive : wrongFor amb code k = false := by
      simp [wrongFor, hexpired]
    rw [hlive]
    simpa using hn
  · split at hcheck
    · rename_i hcap
      split
      · omega
      · omega
    · cases hcheck

theorem Tracked.accepted (h : Tracked d R past codeHash expiresAt attempts)
    (hinj : Function.Injective d.hashCode)
    (hcheck : checkCode d amb code codeHash expiresAt attempts renew = .ok true) :
    ∃ k n, Outstanding R past k n ∧ code = k.code ∧ amb.now ≤ k.expiresAt ∧
      n < d.settings.emailVerifyMaxAttempts := by
  obtain ⟨hash, t, rfl, rfl, hnow, hlt, hmatch⟩ := checkCode_ok hcheck
  obtain ⟨k, n, hout, rfl, ht, hn⟩ := h hash rfl
  cases ht
  have hcode : code = k.code := by
    apply hinj
    simpa [verifyCode] using hmatch.symm
  exact ⟨k, n, hout, hcode, hnow, by omega⟩

theorem Tracked.accepts (h : Tracked d R past codeHash expiresAt attempts)
    (hset : codeHash ≠ none) (hout : Outstanding R past k n) (hcode : code = k.code)
    (hnow : amb.now ≤ k.expiresAt) (hn : n < d.settings.emailVerifyMaxAttempts) :
    checkCode d amb code codeHash expiresAt attempts renew = .ok true := by
  obtain ⟨hash, rfl⟩ := Option.ne_none_iff_exists'.mp hset
  obtain ⟨k', n', hout', rfl, rfl, rfl⟩ := h hash rfl
  obtain ⟨rfl, rfl⟩ := hout.unique hout'
  have hlt : ¬ d.settings.emailVerifyMaxAttempts ≤ min n' d.settings.emailVerifyMaxAttempts := by omega
  simp [checkCode, Nat.not_lt_of_le hnow, hlt, verifyCode, hcode]

end Columns

theorem transparent_hashCode_injective : Function.Injective transparent.hashCode := by
  intro a b h
  have hval : (transparent.hashCode a).val = (transparent.hashCode b).val := by rw [h]
  exact Subtype.ext hval

end WarsawEvents.Accounts
