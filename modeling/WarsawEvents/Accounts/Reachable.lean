import WarsawEvents.Accounts.RowFacts
import Mathlib.Data.List.Nodup

/-! # Rows across a request, and the state every run keeps

* `Served.row_origin`: where a row of the table after a request comes from.
* `Served.tracks`: a row that was there and still is was left alone or committed by the request.
* `Db.Ok` holds in every reachable state, so an id names one row for good.
-/

namespace WarsawEvents.Accounts
set_option autoImplicit false

variable {d : Deps} {amb : Ambient} {db : Db} {c : Cookie} {req : Request} {o : Outcome}
  {out : RowOutcome} {u v : User}

theorem RowServed.mem (h : RowServed d amb db c req u out) : u ∈ db.users := by
  cases h with
  | callbackSub _ hu => exact (findBySub_some hu).1
  | callbackEmail _ _ _ hu => exact (findByEmail_some hu).1
  | login hu => exact (findByEmail_some hu).1
  | login2fa hu _ => exact hu
  | verify hu _ => exact hu
  | resend hu _ => exact hu
  | updateMe hu _ => exact hu

theorem RowServed.callback_reply (h : RowServed d amb db c req u out) {info : Option UserInfo}
    (hreq : req = .callback info) : out.reply = .redirect "" := by
  cases h with
  | callbackSub _ _ => rfl
  | callbackEmail _ _ _ _ => rfl
  | login _ => cases hreq
  | login2fa _ _ => cases hreq
  | verify _ _ => cases hreq
  | resend _ _ => cases hreq
  | updateMe _ _ => cases hreq

theorem RowServed.commit_id (h : RowServed d amb db c req u out) (hv : out.commit = some v) :
    v.id = u.id := by
  cases h with
  | callbackSub _ _ =>
    simp only [googleOutcome, Option.some.injEq] at hv
    rw [← hv, assertGoogle_id]
  | callbackEmail _ _ _ _ =>
    simp only [googleOutcome, Option.some.injEq] at hv
    rw [← hv, assertGoogle_id, voidPassword_id]
  | login _ =>
    obtain ⟨_, _, rfl⟩ := login_commit hv
    rfl
  | login2fa _ _ =>
    obtain ⟨_, ⟨_, rfl⟩ | ⟨_, rfl⟩⟩ := login2fa_commit hv <;> rfl
  | verify _ _ =>
    obtain ⟨_, rfl⟩ | ⟨_, ⟨_, _, _, rfl⟩ | ⟨_, _, _, rfl⟩ | ⟨_, _, rfl⟩⟩ := verifyEmail_commit hv <;>
      rfl
  | resend _ _ =>
    obtain ⟨m, hm, _⟩ := resendVerification_commit hv
    obtain ⟨_, _, _, rfl⟩ := issueVerification_some hm
    rfl
  | updateMe _ _ =>
    obtain ⟨_, m, _, _, hm, _⟩ | ⟨_, _, rfl⟩ := updateMe_commit hv
    · obtain ⟨_, _, _, rfl⟩ := issueVerification_some hm
      exact editProfile_id _ _
    · split
      · exact editProfile_id _ _
      · exact editProfile_id _ _

theorem linkedRow_callback {info : UserInfo} {sub e : Text} (hsub : truthy info.sub = some sub)
    (hfind : findBySub db.users sub = none) (he : truthy info.email = some e)
    (hu : findByEmail db.users e = some u) :
    linkedRow db.users (.callback (some info)) = some (sub, u) := by
  simp [linkedRow, hsub, he, hu, hfind]

/-- A callback finds its row by subject or links it by address; every other endpoint leaves
`google_sub` and the password alone. -/
theorem RowServed.callback_or (h : RowServed d amb db c req u out) (hv : out.commit = some v) :
    (∃ info sub, req = .callback (some info) ∧ truthy info.sub = some sub ∧
      ((u.googleSub = some sub ∧ v = assertGoogle sub info u) ∨
        (linkedRow db.users req = some (sub, u) ∧ truthy info.email ≠ none ∧
          v = assertGoogle sub info (voidPassword u)))) ∨
      ((∀ info, req ≠ .callback info) ∧ v.googleSub = u.googleSub ∧
        v.passwordHash = u.passwordHash) := by
  cases h with
  | callbackSub hsub hfind =>
    simp only [googleOutcome, Option.some.injEq] at hv
    exact Or.inl ⟨_, _, rfl, hsub, Or.inl ⟨(findBySub_some hfind).2, hv.symm⟩⟩
  | callbackEmail hsub hfind he hu =>
    simp only [googleOutcome, Option.some.injEq] at hv
    refine Or.inl ⟨_, _, rfl, hsub, Or.inr ⟨linkedRow_callback hsub hfind he hu, ?_, hv.symm⟩⟩
    rw [he]
    exact Option.some_ne_none _
  | login _ =>
    obtain ⟨_, _, rfl⟩ := login_commit hv
    exact Or.inr ⟨by simp, rfl, rfl⟩
  | login2fa _ _ =>
    obtain ⟨_, ⟨_, rfl⟩ | ⟨_, rfl⟩⟩ := login2fa_commit hv <;> exact Or.inr ⟨by simp, rfl, rfl⟩
  | verify _ _ =>
    obtain ⟨_, rfl⟩ | ⟨_, ⟨_, _, _, rfl⟩ | ⟨_, _, _, rfl⟩ | ⟨_, _, rfl⟩⟩ := verifyEmail_commit hv <;>
      exact Or.inr ⟨by simp, rfl, rfl⟩
  | resend _ _ =>
    obtain ⟨m, hm, _⟩ := resendVerification_commit hv
    obtain ⟨_, _, _, rfl⟩ := issueVerification_some hm
    exact Or.inr ⟨by simp, rfl, rfl⟩
  | updateMe _ _ =>
    obtain ⟨_, m, _, _, hm, _⟩ | ⟨_, _, rfl⟩ := updateMe_commit hv
    · obtain ⟨_, _, _, rfl⟩ := issueVerification_some hm
      exact Or.inr ⟨by simp, by simp, by simp⟩
    · split <;> exact Or.inr ⟨by simp, by simp, by simp⟩

theorem settle_cases (db : Db) (c : Cookie) (out : RowOutcome) :
    (settle db c out).db = db ∨
      ∃ v, out.commit = some v ∧ conflicts db.users v = false ∧
        settle db c out =
          { db := { db with users := storeRow db.users v }
            cookie := out.cookie, mails := out.mails, reply := out.reply } := by
  unfold settle
  split
  · exact Or.inl rfl
  · rename_i v hv
    split
    · exact Or.inl rfl
    · rename_i hno
      exact Or.inr ⟨v, hv, by simpa using hno, rfl⟩

/-- The rows a request can insert. -/
def Inserted (d : Deps) (amb : Ambient) (db : Db) (req : Request) (r : Reply) (v : User) : Prop :=
  (∃ info sub, req = .callback (some info) ∧ truthy info.sub = some sub ∧
      findBySub db.users sub = none ∧ v = googleUser db.nextId sub info) ∨
  (∃ q h m, req = .register q ∧ r = .user (userPayload v) ∧
      issueVerification d amb (registeredUser db.nextId q h) = some (v, m))

theorem Inserted.id {r : Reply} (h : Inserted d amb db req r v) : v.id = db.nextId := by
  obtain ⟨_, _, _, _, _, rfl⟩ | ⟨_, _, _, _, _, hv⟩ := h
  · rfl
  · obtain ⟨_, _, _, rfl⟩ := issueVerification_some hv
    rfl

theorem Served.row_origin (h : Served d amb db c req o) (hv : v ∈ o.db.users) :
    v ∈ db.users ∨
      (∃ u out, RowServed d amb db c req u out ∧ out.commit = some v ∧ o.reply = out.reply) ∨
      Inserted d amb db req o.reply v := by
  cases h with
  | idle _ => exact Or.inl hv
  | @row _ u out hrow =>
    obtain hdb | ⟨w, hw, _, hset⟩ := settle_cases db c out
    · rw [hdb] at hv
      exact Or.inl hv
    · rw [hset] at hv
      obtain rfl | ⟨hmem, _⟩ := mem_storeRow hv
      · exact Or.inr (Or.inl ⟨u, out, hrow, hw, by rw [hset]⟩)
      · exact Or.inl hmem
  | googleInsert hsub hfind _ =>
    obtain hmem | hnew := List.mem_append.mp hv
    · exact Or.inl hmem
    · exact Or.inr (Or.inr (Or.inl ⟨_, _, rfl, hsub, hfind, List.mem_singleton.mp hnew⟩))
  | registerInsert _ hissue =>
    obtain hmem | hnew := List.mem_append.mp hv
    · exact Or.inl hmem
    · obtain rfl := List.mem_singleton.mp hnew
      exact Or.inr (Or.inr (Or.inr ⟨_, _, _, rfl, rfl, hissue⟩))
  | erase _ _ _ => exact Or.inl (mem_eraseRow.mp hv).1

/-! ## Where a signed-in cookie comes from -/

/-- The request proved itself to the row: by its password, by its second factor, or by a callback
that found the row or linked it. -/
def Admits (users : List User) (req : Request) (reply : Reply) (u : User) : Prop :=
  u.passwordHash.isSome = true ∨ u.twoFactorEnabled = true ∨
    ∃ sub, req.subject = some sub ∧ reply = .redirect "" ∧
      (u.googleSub = some sub ∨ linkedRow users req = some (sub, u))

theorem settle_cookie (db : Db) (c : Cookie) (out : RowOutcome) :
    (settle db c out).cookie = c ∨
      ((settle db c out).cookie = out.cookie ∧ (settle db c out).reply = out.reply) := by
  unfold settle
  split
  · exact Or.inr ⟨rfl, rfl⟩
  · split
    · exact Or.inl rfl
    · exact Or.inr ⟨rfl, rfl⟩

theorem RowServed.cookie_origin (h : RowServed d amb db c req u out) {id : ℕ}
    (hid : out.cookie.userId = some id) :
    c.userId = some id ∨ (u.id = id ∧ Admits db.users req out.reply u) := by
  cases h with
  | callbackSub hsub hfind =>
    have hown := (findBySub_some hfind).2
    exact Or.inr ⟨by simpa [googleOutcome] using hid,
      Or.inr (Or.inr ⟨_, hsub, rfl, Or.inl hown⟩)⟩
  | callbackEmail hsub hfind he hu =>
    have hlink := linkedRow_callback hsub hfind he hu
    exact Or.inr ⟨by simpa [googleOutcome] using hid,
      Or.inr (Or.inr ⟨_, hsub, rfl, Or.inr hlink⟩)⟩
  | login _ => exact (login_cookie hid).imp_right fun ⟨h1, h2⟩ => ⟨h1, Or.inl h2⟩
  | login2fa _ _ => exact (login2fa_cookie hid).imp_right fun ⟨h1, h2⟩ => ⟨h1, Or.inr (Or.inl h2)⟩
  | verify _ _ => exact Or.inl (by rwa [verifyEmail_cookie] at hid)
  | resend _ _ => exact Or.inl (by rwa [resendVerification_cookie] at hid)
  | updateMe _ _ => exact Or.inl (by rwa [updateMe_cookie] at hid)

/-- A signed-in cookie names the account of the cookie presented, a new account, or one the request
proved itself to. -/
theorem Served.cookie_origin (h : Served d amb db c req o) {id : ℕ}
    (hid : o.cookie.userId = some id) :
    c.userId = some id ∨ id = db.nextId ∨
      ∃ u ∈ db.users, u.id = id ∧ Admits db.users req o.reply u := by
  cases h with
  | idle hc =>
    obtain hnone | hsame := hc
    · rw [hnone] at hid
      cases hid
    · exact Or.inl (hsame ▸ hid)
  | @row _ u out hrow =>
    obtain hc | ⟨hc, hr⟩ := settle_cookie db c out
    · exact Or.inl (hc ▸ hid)
    · rw [hc] at hid
      rw [hr]
      obtain hold | ⟨hu, hadm⟩ := hrow.cookie_origin hid
      · exact Or.inl hold
      · exact Or.inr (Or.inr ⟨u, hrow.mem, hu, hadm⟩)
  | googleInsert _ _ _ => exact Or.inr (Or.inl (by simpa using hid.symm))
  | registerInsert _ _ => exact Or.inr (Or.inl (by simpa using hid.symm))
  | erase _ _ _ => cases hid

/-! ## Ids -/

/-- Ids are distinct and below the supply. -/
structure Db.Ok (db : Db) : Prop where
  ids_lt : ∀ u ∈ db.users, u.id < db.nextId
  ids_nodup : (db.users.map User.id).Nodup

theorem Db.Ok.init : Db.Ok {} := ⟨by simp, by simp⟩

theorem Db.Ok.row_eq (h : db.Ok) (hu : u ∈ db.users) (hv : v ∈ db.users) (hid : v.id = u.id) :
    v = u :=
  List.inj_on_of_nodup_map h.ids_nodup hv hu hid

theorem Db.Ok.find {id : ℕ} (h : db.Ok) (hu : u ∈ db.users) (hid : u.id = id) :
    findById db.users id = some u := by
  cases hfind : findById db.users id with
  | none =>
    have hnone := List.find?_eq_none.mp hfind u hu
    simp [hid] at hnone
  | some v =>
    obtain ⟨hv, hvid⟩ := findById_some hfind
    rw [h.row_eq hu hv (by rw [hvid, hid])]

theorem Db.Ok.store (h : db.Ok) (hu : u ∈ db.users) (hid : v.id = u.id) :
    Db.Ok { db with users := storeRow db.users v } := by
  refine ⟨?_, ?_⟩
  · intro w hw
    obtain rfl | ⟨hmem, _⟩ := mem_storeRow hw
    · rw [hid]
      exact h.ids_lt u hu
    · exact h.ids_lt w hmem
  · rw [storeRow_ids]
    exact h.ids_nodup

theorem Db.Ok.insert (h : db.Ok) (hid : v.id = db.nextId) : (insertRow db v).Ok := by
  refine ⟨?_, ?_⟩
  · intro w hw
    obtain hmem | hnew := List.mem_append.mp hw
    · exact Nat.lt_succ_of_lt (h.ids_lt w hmem)
    · rw [List.mem_singleton.mp hnew, hid]
      exact Nat.lt_succ_self _
  · rw [insertRow, List.map_append, List.nodup_append]
    refine ⟨h.ids_nodup, by simp, ?_⟩
    intro i hi j hj
    obtain ⟨w, hw, rfl⟩ := List.mem_map.mp hi
    simp only [List.map_cons, List.map_nil, List.mem_singleton] at hj
    have hlt := h.ids_lt w hw
    omega

theorem Db.Ok.erase (h : db.Ok) (id : ℕ) : Db.Ok { db with users := eraseRow db.users id } := by
  refine ⟨fun w hw => h.ids_lt w (mem_eraseRow.mp hw).1, ?_⟩
  exact h.ids_nodup.sublist (List.filter_sublist.map _)

theorem Served.ok (h : Served d amb db c req o) (hok : db.Ok) : o.db.Ok := by
  cases h with
  | idle _ => exact hok
  | @row _ u out hrow =>
    obtain hdb | ⟨w, hw, _, hset⟩ := settle_cases db c out
    · rw [hdb]
      exact hok
    · rw [hset]
      exact hok.store hrow.mem (hrow.commit_id hw)
  | googleInsert _ _ _ => exact hok.insert rfl
  | registerInsert _ hissue => exact hok.insert (Inserted.id (Or.inr ⟨_, _, _, rfl, rfl, hissue⟩))
  | erase _ _ _ => exact hok.erase _

theorem Served.nextId_le (h : Served d amb db c req o) : db.nextId ≤ o.db.nextId := by
  cases h with
  | idle _ => exact Nat.le_refl _
  | @row _ u out _ =>
    obtain hdb | ⟨w, _, _, hset⟩ := settle_cases db c out
    · exact Nat.le_of_eq (by rw [hdb])
    · exact Nat.le_of_eq (by rw [hset])
  | googleInsert _ _ _ => exact Nat.le_succ _
  | registerInsert _ _ => exact Nat.le_succ _
  | erase _ _ _ => exact Nat.le_refl _

/-- A row that was there and still is: left alone, or committed by this request. -/
theorem Served.tracks (h : Served d amb db c req o) (hok : db.Ok) (hu : u ∈ db.users)
    (hv : v ∈ o.db.users) (hid : v.id = u.id) :
    v = u ∨ ∃ out, RowServed d amb db c req u out ∧ out.commit = some v ∧ o.reply = out.reply := by
  obtain hmem | ⟨u', out, hrow, hc, hr⟩ | hins := h.row_origin hv
  · exact Or.inl (hok.row_eq hu hmem hid)
  · have heq : u' = u := hok.row_eq hu hrow.mem (by rw [← hid, hrow.commit_id hc])
    exact Or.inr ⟨out, heq ▸ hrow, hc, hr⟩
  · have hlt := hok.ids_lt u hu
    rw [← hid, hins.id] at hlt
    omega

/-! ## Runs -/

/-- Conditions a run's steps are asked to meet, from the history, the state and the request. -/
abbrev Guard := History → World → Event → Prop

/-- Runs of `serve` from the empty table whose steps all meet the guard. -/
abbrev Reached (d : Deps) (G : Guard) (past : History) (w : World) : Prop :=
  Runs.Run (Runs.guarded G (serve d)) [] {} past w

/-- Serves the events in order after `start`: the answers with the last state. -/
def playFrom (d : Deps) (G : Guard) [∀ past w ev, Decidable (G past w ev)] (start : History × World)
    (evs : List Event) : Option (History × World) :=
  Runs.replay G (serve d) start.1 start.2 evs

def played (d : Deps) (G : Guard) [∀ past w ev, Decidable (G past w ev)] (start : History × World)
    (evs : List Event) : History × World :=
  (playFrom d G start evs).getD ([], {})

theorem played_run {G : Guard} [∀ past w ev, Decidable (G past w ev)] (start : History × World)
    (evs : List Event) (h : (playFrom d G start evs).isSome = true) :
    Runs.Run (Runs.guarded G (serve d)) start.1 start.2 (played d G start evs).1
      (played d G start evs).2 :=
  Runs.replay_getD_run G (serve d) start.1 start.2 evs _ h

theorem serve_some {w w' : World} {ev : Event} {r : Reply} (h : serve d w ev = some (w', r)) :
    ∃ o, Served d ev.ambient w.db ev.cookie ev.request o ∧
      (ev.cookie = {} ∨ (ev.browser, ev.cookie) ∈ w.issued) ∧
      w'.db = o.db ∧ w'.issued = w.issued ++ [(ev.browser, o.cookie)] ∧ r = o.reply := by
  unfold serve at h
  split at h
  · rename_i hheld
    cases h
    exact ⟨_, handle_served ev.request, hheld, rfl, rfl, rfl⟩
  · cases h

theorem Reached.ok {G : Guard} {past : History} {w : World} (h : Reached d G past w) : w.db.Ok := by
  refine h.invariant_of_init (fun _ w => w.db.Ok) ?_ Db.Ok.init
  rintro past w ⟨ev, r⟩ w' hok ⟨_, hstep⟩
  obtain ⟨o, hs, _, hdb, _, _⟩ := serve_some hstep
  rw [hdb]
  exact hs.ok hok

end WarsawEvents.Accounts
