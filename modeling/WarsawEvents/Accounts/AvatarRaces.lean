import WarsawEvents.Accounts.Avatars
import WarsawEvents.Foundations.RowLocks
import WarsawEvents.Foundations.WriteBack

/-! # Uploads and deletions of one picture at once

Any number of requests of one user to the two avatar endpoints, statement by statement. Each loads the
row of the user when it starts. Its statement on `user_avatars` locks the picture's row until the end, if
there is a row to lock; the link is written at the commit, and only if it differs from the one that was
loaded. A deletion that has loaded no link writes none, whatever an upload has stored meanwhile.
-/

namespace WarsawEvents.Accounts
set_option autoImplicit false

open RowLocks

/-! ## Links to a picture -/

/-- `/avatars/{id}?v=`. -/
def linkStart (id : ℕ) : List Char :=
  "/avatars/".toList ++ (Nat.toDigits 10 id ++ "?v=".toList)

/-- `avatar_url` is a link to the picture of this user. -/
def linksTo (id : ℕ) (url : Option String) : Bool := url.any fun s => (linkStart id).isPrefixOf s.toList

theorem avatarPath_toList (id version : ℕ) :
    (avatarPath id version).toList = linkStart id ++ Nat.toDigits 10 version := by
  unfold avatarPath linkStart
  simp [String.toList_append, List.append_assoc]

theorem digits_inj {m n : ℕ} (h : Nat.toDigits 10 m = Nat.toDigits 10 n) : m = n := by
  rw [← Nat.ofDigitChars_ten_toDigits (n := m), h, Nat.ofDigitChars_ten_toDigits]

/-- What stands before the question mark. -/
theorem takeWhile_digits (n : ℕ) (rest : List Char) :
    (Nat.toDigits 10 n ++ '?' :: rest).takeWhile (fun c => c ≠ '?') = Nat.toDigits 10 n := by
  have hdigits : ∀ c ∈ Nat.toDigits 10 n, decide (c ≠ '?') = true := by
    intro c hc
    have hdigit := Nat.isDigit_of_mem_toDigits (by decide) (by decide) hc
    rw [decide_eq_true_eq]
    rintro rfl
    exact absurd hdigit (by decide)
  rw [List.takeWhile_append_of_pos hdigits]
  simp

theorem linksTo_avatarPath (id me version : ℕ) :
    linksTo id (some (avatarPath me version)) = decide (id = me) := by
  have hlink : linksTo id (some (avatarPath me version)) =
      (linkStart id).isPrefixOf (linkStart me ++ Nat.toDigits 10 version) := by
    rw [← avatarPath_toList]
    rfl
  rw [hlink, Bool.eq_iff_iff, List.isPrefixOf_iff_prefix, decide_eq_true_eq]
  constructor
  · rintro ⟨rest, hrest⟩
    unfold linkStart at hrest
    have hmark : "?v=".toList = ['?', 'v', '='] := by decide
    simp only [List.append_assoc, List.append_cancel_left_eq, hmark, List.cons_append] at hrest
    have hdigits := congrArg (List.takeWhile fun c => decide (c ≠ '?')) hrest
    rw [takeWhile_digits, takeWhile_digits] at hdigits
    exact digits_inj hdigits
  · rintro rfl
    exact List.prefix_append _ _

/-! ## Requests under way -/

/-- Where a request is, with the row it loaded. `upserted` and `deleted` have run their statement and
are to commit; `linked` has committed and reads the row again for its answer. -/
inductive AvatarTx where
  | uploading (user : User) (data : Bytes)
  | upserted (user : User) (data : Bytes)
  | linked (id : ℕ)
  | deleting (user : User)
  | deleted (user : User) (removed : Bool)
  | ended
  deriving DecidableEq

/-- The row of `user_avatars` that is locked. -/
def AvatarTx.holds : AvatarTx → Option ℕ
  | .upserted u _ => some u.id
  | .deleted u true => some u.id
  | _ => none

structure AvatarWorld where
  users : List User
  avatars : List Avatar
  txs : List AvatarTx := []
  deriving DecidableEq

inductive AvatarNews where
  | quiet
  | answered (r : AvatarReply)
  | link (url : Option String)
  deriving DecidableEq

inductive AvatarMove where
  | upload (raw : Bytes)
  | remove
  | next (i now : ℕ)
  | abort (i : ℕ)
  deriving DecidableEq

/-- The `UPDATE` of the flush: `avatar_url`, if it is not what was loaded. -/
def writeLink (users : List User) (loaded : User) (url : Option String) : List User :=
  users.map fun v =>
    if v.id = loaded.id then { v with avatarUrl := WriteBack.writeBack loaded.avatarUrl url v.avatarUrl }
    else v

section
variable (im : Imaging) (me : ℕ)

/-- The checks of an upload that need no database. -/
def checkAvatar (raw : Bytes) : Except AvatarReply Bytes :=
  let raw := raw.take (im.maxUploadBytes + 1)
  if im.maxUploadBytes < raw.length then
    .error (.http 413 ("Image too large (max " ++ toString (im.maxUploadBytes / (1024 * 1024)) ++ " MB)"))
  else if raw.isEmpty then .error (.http 400 "Empty upload")
  else
    match im.process raw with
    | .error detail => .error (.http 400 detail)
    | .ok data => .ok data

/-- The next statement of a request; `none` when it waits for a lock, or has ended. -/
def advanceAvatar (w : AvatarWorld) (now : ℕ) :
    AvatarTx → Option (List User × List Avatar × AvatarTx × AvatarNews)
  -- INSERT ... ON CONFLICT DO UPDATE
  | .uploading u data =>
    if maxStoredBytes < data.length then some (w.users, w.avatars, .ended, .answered .serverError)
    else if free AvatarTx.holds w.txs u.id then some (w.users, w.avatars, .upserted u data, .quiet)
    else none
  -- UPDATE users; COMMIT
  | .upserted u data => some (writeLink w.users u (some (avatarPath u.id (now / second))),
      upsertAvatar w.avatars (jpeg u.id data), .linked u.id, .quiet)
  | .linked id =>
    some (w.users, w.avatars, .ended, .link ((findById w.users id).bind User.avatarUrl))
  -- DELETE, which waits only for a row that is there
  | .deleting u =>
    if (avatarOf w.avatars u.id).isSome then
      if free AvatarTx.holds w.txs u.id then some (w.users, w.avatars, .deleted u true, .quiet) else none
    else some (w.users, w.avatars, .deleted u false, .quiet)
  -- UPDATE users; COMMIT
  | .deleted u removed => some (writeLink w.users u none,
      if removed then w.avatars.filter fun a => a.userId ≠ u.id else w.avatars, .ended,
      .answered .removed)
  | .ended => none

/-- A request of the user arrives and loads the row, a request moves on, or one breaks off. -/
def stepAvatar (w : AvatarWorld) : AvatarMove → Option (AvatarWorld × AvatarNews)
  | .upload raw =>
    match findById w.users me with
    | none => some (w, .answered (.http 401 "Not authenticated"))
    | some u =>
      match checkAvatar im raw with
      | .error r => some (w, .answered r)
      | .ok data => some ({ w with txs := w.txs ++ [.uploading u data] }, .quiet)
  | .remove =>
    match findById w.users me with
    | none => some (w, .answered (.http 401 "Not authenticated"))
    | some u => some ({ w with txs := w.txs ++ [.deleting u] }, .quiet)
  | .next i now =>
    match w.txs[i]? with
    | none => none
    | some tx => (advanceAvatar w now tx).map fun r =>
        ({ users := r.1, avatars := r.2.1, txs := w.txs.set i r.2.2.1 }, r.2.2.2)
  | .abort i =>
    match w.txs[i]? with
    | none => none
    | some .ended => none
    | some _ => some ({ w with txs := w.txs.set i .ended }, .quiet)

end

abbrev AvatarGuard := List (AvatarMove × AvatarNews) → AvatarWorld → AvatarMove → Prop

/-- The deletion has removed the picture and writes no link, and the account has a link to it. -/
def leavesLink (w : AvatarWorld) : AvatarMove → Bool
  | .next i _ =>
    match w.txs[i]? with
    | some (.deleted u true) =>
      u.avatarUrl = none && w.users.any fun v => v.id = u.id && linksTo u.id v.avatarUrl
    | _ => false
  | _ => false

def LeavesNoLink : AvatarGuard := fun _ w move => leavesLink w move = false

instance : ∀ past w move, Decidable (LeavesNoLink past w move) :=
  fun _ _ _ => inferInstanceAs (Decidable (_ = _))

/-- A link of the user's to an uploaded picture is to one that there is. -/
def Pictured (me : ℕ) (w : AvatarWorld) : Prop :=
  ∀ u ∈ w.users, u.id = me → ∀ id, linksTo id u.avatarUrl = true →
    (avatarOf w.avatars id).isSome = true

variable {im : Imaging} {me now : ℕ} {w w' : AvatarWorld} {tx tx' : AvatarTx} {move : AvatarMove}
  {news : AvatarNews} {users users' : List User} {avatars avatars' : List Avatar} {u v : User}

/-! ## What one move does -/

/-- The row that a request has loaded. -/
def AvatarTx.loaded : AvatarTx → Option User
  | .uploading u _ => some u
  | .upserted u _ => some u
  | .deleting u => some u
  | .deleted u _ => some u
  | _ => none

/-- What is committed changes at the two commits. No statement loads another row. -/
theorem advanceAvatar_cases (h : advanceAvatar w now tx = some (users', avatars', tx', news)) :
    (users' = w.users ∧ avatars' = w.avatars ∧ (∀ u data, tx ≠ .upserted u data) ∧
      (∀ u removed, tx ≠ .deleted u removed) ∧ (tx'.loaded = none ∨ tx'.loaded = tx.loaded)) ∨
    (∃ u data, tx = .upserted u data ∧
      users' = writeLink w.users u (some (avatarPath u.id (now / second))) ∧
      avatars' = upsertAvatar w.avatars (jpeg u.id data) ∧ tx' = .linked u.id) ∨
    ∃ u removed, tx = .deleted u removed ∧ users' = writeLink w.users u none ∧
      avatars' = (if removed then w.avatars.filter fun a => a.userId ≠ u.id else w.avatars) ∧
      tx' = .ended := by
  cases tx with
  | uploading u data =>
    simp only [advanceAvatar] at h
    split at h
    · cases h
      exact Or.inl ⟨rfl, rfl, by simp, by simp, Or.inl rfl⟩
    · split at h
      · cases h
        exact Or.inl ⟨rfl, rfl, by simp, by simp, Or.inr rfl⟩
      · cases h
  | upserted u data =>
    simp only [advanceAvatar, Option.some.injEq, Prod.mk.injEq] at h
    obtain ⟨rfl, rfl, rfl, _⟩ := h
    exact Or.inr (Or.inl ⟨u, data, rfl, rfl, rfl, rfl⟩)
  | linked id =>
    simp only [advanceAvatar, Option.some.injEq, Prod.mk.injEq] at h
    obtain ⟨rfl, rfl, rfl, _⟩ := h
    exact Or.inl ⟨rfl, rfl, by simp, by simp, Or.inl rfl⟩
  | deleting u =>
    simp only [advanceAvatar] at h
    split at h
    · split at h
      · cases h
        exact Or.inl ⟨rfl, rfl, by simp, by simp, Or.inr rfl⟩
      · cases h
    · cases h
      exact Or.inl ⟨rfl, rfl, by simp, by simp, Or.inr rfl⟩
  | deleted u removed =>
    simp only [advanceAvatar, Option.some.injEq, Prod.mk.injEq] at h
    obtain ⟨rfl, rfl, rfl, _⟩ := h
    exact Or.inr (Or.inr ⟨u, removed, rfl, rfl, rfl, rfl⟩)
  | ended => cases h

theorem advanceAvatar_loaded (h : advanceAvatar w now tx = some (users', avatars', tx', news))
    (hu : tx'.loaded = some u) : tx.loaded = some u := by
  obtain ⟨_, _, _, _, hnone | hsame⟩ | ⟨v, data, _, _, _, rfl⟩ | ⟨v, removed, _, _, _, rfl⟩ :=
    advanceAvatar_cases h
  · rw [hnone] at hu
    cases hu
  · rw [← hsame]
    exact hu
  · cases hu
  · cases hu

/-- Everything a move can do. -/
theorem stepAvatar_cases (h : stepAvatar im me w move = some (w', news)) :
    (w' = w ∧ leavesLink w move = false) ∨
    (∃ tx u, tx.loaded = some u ∧ u.id = me ∧ w' = { w with txs := w.txs ++ [tx] } ∧
      leavesLink w move = false) ∨
    (∃ i now tx users' avatars' tx', move = .next i now ∧ w.txs[i]? = some tx ∧
      advanceAvatar w now tx = some (users', avatars', tx', news) ∧
      w' = { users := users', avatars := avatars', txs := w.txs.set i tx' }) ∨
    ∃ i, w' = { w with txs := w.txs.set i .ended } ∧ leavesLink w move = false := by
  cases move with
  | upload raw =>
    simp only [stepAvatar] at h
    split at h
    · cases h
      exact Or.inl ⟨rfl, rfl⟩
    · rename_i u hu
      split at h
      · cases h
        exact Or.inl ⟨rfl, rfl⟩
      · rename_i data _
        cases h
        exact Or.inr (Or.inl ⟨.uploading u data, u, rfl, (findById_some hu).2, rfl, rfl⟩)
  | remove =>
    simp only [stepAvatar] at h
    split at h
    · cases h
      exact Or.inl ⟨rfl, rfl⟩
    · rename_i u hu
      cases h
      exact Or.inr (Or.inl ⟨.deleting u, u, rfl, (findById_some hu).2, rfl, rfl⟩)
  | next i now =>
    simp only [stepAvatar] at h
    split at h
    · cases h
    · rename_i tx htx
      obtain ⟨⟨users', avatars', tx', news'⟩, hadvance, hw⟩ := Option.map_eq_some_iff.mp h
      cases hw
      exact Or.inr (Or.inr (Or.inl ⟨i, now, tx, users', avatars', tx', rfl, htx, hadvance, rfl⟩))
  | abort i =>
    simp only [stepAvatar] at h
    split at h
    · cases h
    · cases h
    · cases h
      exact Or.inr (Or.inr (Or.inr ⟨i, rfl, rfl⟩))

/-! ## Rows and links -/

theorem avatarOf_upsert_self (avatars : List Avatar) (a : Avatar) :
    (avatarOf (upsertAvatar avatars a) a.userId).isSome = true := by
  unfold upsertAvatar avatarOf
  rw [List.find?_isSome]
  split
  · rename_i hthere
    obtain ⟨b, hb, hid⟩ := List.find?_isSome.mp hthere
    refine ⟨a, List.mem_map.mpr ⟨b, hb, ?_⟩, by simp⟩
    rw [if_pos (of_decide_eq_true hid)]
  · exact ⟨a, List.mem_append_right _ (List.mem_singleton.mpr rfl), by simp⟩

theorem avatarOf_upsert {a : Avatar} {id : ℕ} (h : (avatarOf avatars id).isSome = true) :
    (avatarOf (upsertAvatar avatars a) id).isSome = true := by
  unfold upsertAvatar
  unfold avatarOf at h ⊢
  rw [List.find?_isSome] at h ⊢
  obtain ⟨b, hb, hid⟩ := h
  split
  · by_cases hsame : b.userId = a.userId
    · refine ⟨a, List.mem_map.mpr ⟨b, hb, if_pos hsame⟩, ?_⟩
      rwa [← hsame]
    · exact ⟨b, List.mem_map.mpr ⟨b, hb, if_neg hsame⟩, hid⟩
  · exact ⟨b, List.mem_append_left _ hb, hid⟩

theorem avatarOf_removed (avatars : List Avatar) (id : ℕ) :
    avatarOf (avatars.filter fun a => a.userId ≠ id) id = none := by
  unfold avatarOf
  rw [List.find?_eq_none]
  intro a ha hid
  have hkept := (List.mem_filter.mp ha).2
  simp only [ne_eq, decide_not, Bool.not_eq_true', decide_eq_false_iff_not] at hkept
  exact hkept (of_decide_eq_true hid)

theorem avatarOf_kept {id other : ℕ} (hne : other ≠ id) (h : (avatarOf avatars other).isSome = true) :
    (avatarOf (avatars.filter fun a => a.userId ≠ id) other).isSome = true := by
  unfold avatarOf at h ⊢
  rw [List.find?_isSome] at h ⊢
  obtain ⟨a, ha, hid⟩ := h
  have hother : a.userId = other := of_decide_eq_true hid
  refine ⟨a, List.mem_filter.mpr ⟨ha, ?_⟩, hid⟩
  rw [hother]
  exact decide_eq_true hne

/-- A row after a flush: as it was, if it is another's or the loaded link is the new one, or with the
new link. -/
theorem mem_writeLink {url : Option String} (h : v ∈ writeLink users u url) : ∃ v₀ ∈ users,
    v.id = v₀.id ∧ ((v.avatarUrl = v₀.avatarUrl ∧ (v₀.id = u.id → url = u.avatarUrl)) ∨
      v.avatarUrl = url) := by
  obtain ⟨v₀, hv₀, rfl⟩ := List.mem_map.mp h
  refine ⟨v₀, hv₀, ?_⟩
  split
  · refine ⟨rfl, ?_⟩
    obtain ⟨hsame, hkept⟩ | ⟨_, hwritten⟩ := WriteBack.writeBack_cases u.avatarUrl url v₀.avatarUrl
    · exact Or.inl ⟨hkept, fun _ => hsame⟩
    · exact Or.inr hwritten
  · rename_i hother
    exact ⟨rfl, Or.inl ⟨rfl, fun hid => absurd hid hother⟩⟩

/-- A link that the flush does not write stays. -/
theorem writeLink_none (hloaded : u.avatarUrl = none) (users : List User) :
    writeLink users u none = users := by
  unfold writeLink
  rw [hloaded]
  refine (List.map_congr_left fun v _ => ?_).trans (List.map_id users)
  split
  · rw [WriteBack.writeBack_unchanged]
    rfl
  · rfl

/-! ## One request alone -/

section Alone
variable {c : Cookie} {o : AvatarOutcome} {raw : Bytes} {es : List (AvatarMove × AvatarNews)}

/-- What the client gets. -/
def AvatarNews.reply : AvatarNews → Option AvatarReply
  | .answered r => some r
  | .link url => url.map .avatarUrl
  | .quiet => none

/-- A run from the rows alone that answers once, as the outcome says, and leaves its rows. -/
def PlaysOut (im : Imaging) (me : ℕ) (users : List User) (avatars : List Avatar) (o : AvatarOutcome) :
    Prop :=
  ∃ es w, Runs.Run (Runs.guarded Runs.anyStep (stepAvatar im me)) [] ⟨users, avatars, []⟩ es w ∧
    (es.filterMap fun l => l.2.reply) = [o.reply] ∧ w.users = o.users ∧ w.avatars = o.avatars

theorem plays_at_once (move : AvatarMove) (hstep : stepAvatar im me ⟨users, avatars, []⟩ move =
    some (⟨users, avatars, []⟩, .answered o.reply)) (husers : o.users = users)
    (havatars : o.avatars = avatars) : PlaysOut im me users avatars o :=
  ⟨[(move, .answered o.reply)], ⟨users, avatars, []⟩, Runs.Run.single ⟨trivial, hstep⟩, rfl,
    husers.symm, havatars.symm⟩

theorem run_next {s : AvatarWorld}
    (h : Runs.Run (Runs.guarded Runs.anyStep (stepAvatar im me)) [] s es ⟨users, avatars, [tx]⟩) (now : ℕ)
    (hadvance : advanceAvatar ⟨users, avatars, [tx]⟩ now tx = some (users', avatars', tx', news)) :
    Runs.Run (Runs.guarded Runs.anyStep (stepAvatar im me)) [] s (es ++ [(.next 0 now, news)])
      ⟨users', avatars', [tx']⟩ := by
  refine Runs.Run.snoc h ⟨trivial, ?_⟩
  simp only [stepAvatar, List.getElem?_cons_zero, hadvance, Option.map_some, List.set_cons_zero]

/-- With no other request between, the flush stores the row. -/
theorem writeLink_alone (hnodup : (users.map User.id).Nodup) (hu : u ∈ users) (url : Option String) :
    writeLink users u url = storeRow users { u with avatarUrl := url } := by
  unfold writeLink storeRow
  apply List.map_congr_left
  intro v hv
  split
  · rename_i hid
    obtain rfl : v = u := List.inj_on_of_nodup_map hnodup hv hu hid
    rw [WriteBack.writeBack_alone]
  · rfl

theorem findById_storeRow (hthere : ∃ v ∈ users, v.id = u.id) :
    findById (storeRow users u) u.id = some u := by
  obtain ⟨v₀, hv₀, hid₀⟩ := hthere
  have hstored : u ∈ storeRow users u := List.mem_map.mpr ⟨v₀, hv₀, if_pos hid₀⟩
  have hfound : (findById (storeRow users u) u.id).isSome = true :=
    List.find?_isSome.mpr ⟨u, hstored, decide_eq_true rfl⟩
  obtain ⟨v, hv⟩ := Option.isSome_iff_exists.mp hfound
  obtain ⟨hmem, hid⟩ := findById_some hv
  obtain rfl | ⟨_, hother⟩ := mem_storeRow hmem
  · exact hv
  · exact absurd hid hother

theorem uploadAvatar_signedIn (hc : c.userId = some me) (hu : findById users me = some u) :
    uploadAvatar im users avatars c now raw =
      match checkAvatar im raw with
      | .error r => .refused users avatars c r
      | .ok data =>
        if maxStoredBytes < data.length then .refused users avatars c .serverError
        else
          { users := storeRow users { u with avatarUrl := some (avatarPath u.id (now / second)) }
            avatars := upsertAvatar avatars (jpeg u.id data)
            cookie := c, reply := .avatarUrl (avatarPath u.id (now / second)) } := by
  have hcurrent : currentUserOr401 users c = .ok u := by
    unfold currentUserOr401
    simp only [hc, hu]
  unfold uploadAvatar checkAvatar
  simp only [hcurrent]
  split
  · rfl
  · split
    · rfl
    · cases im.process (raw.take (im.maxUploadBytes + 1)) with
      | error detail => rfl
      | ok data => rfl

theorem uploadAvatar_alone (hnodup : (users.map User.id).Nodup) (hc : c.userId = some me) :
    PlaysOut im me users avatars (uploadAvatar im users avatars c now raw) := by
  cases hu : findById users me with
  | none =>
    have hrefused : uploadAvatar im users avatars c now raw =
        .refused users avatars {} (.http 401 "Not authenticated") := by
      simp only [uploadAvatar, currentUserOr401, hc, hu]
    rw [hrefused]
    exact plays_at_once (.upload raw) (by simp only [stepAvatar, hu]; rfl) rfl rfl
  | some u =>
    rw [uploadAvatar_signedIn hc hu]
    cases hcheck : checkAvatar im raw with
    | error r => exact plays_at_once (.upload raw) (by simp only [stepAvatar, hu, hcheck]; rfl) rfl rfl
    | ok data =>
      have hstart : Runs.Run (Runs.guarded Runs.anyStep (stepAvatar im me)) [] ⟨users, avatars, []⟩
          [(.upload raw, .quiet)] ⟨users, avatars, [.uploading u data]⟩ := by
        refine Runs.Run.single ⟨trivial, ?_⟩
        simp only [stepAvatar, hu, hcheck, List.nil_append]
      simp only
      split
      · rename_i hlarge
        have hfailed := run_next hstart now (if_pos hlarge)
        exact ⟨_, _, hfailed, rfl, rfl, rfl⟩
      · rename_i hfits
        have hfree : free AvatarTx.holds [.uploading u data] u.id = true := by
          simp [free, AvatarTx.holds]
        have hupserted := run_next hstart now ((if_neg hfits).trans (if_pos hfree))
        have hlinked := run_next hupserted now rfl
        have hanswered := run_next hlinked now rfl
        obtain ⟨hmem, _⟩ := findById_some hu
        have hwritten := writeLink_alone hnodup hmem (some (avatarPath u.id (now / second)))
        refine ⟨_, _, hanswered, ?_, hwritten, rfl⟩
        have hback := @findById_storeRow users { u with avatarUrl := some (avatarPath u.id (now / second)) }
          ⟨u, hmem, rfl⟩
        simp only [hwritten, hback]
        rfl

theorem deleteAvatar_alone (hnodup : (users.map User.id).Nodup) (hc : c.userId = some me) :
    PlaysOut im me users avatars (deleteAvatar users avatars c) := by
  cases hu : findById users me with
  | none =>
    have hrefused : deleteAvatar users avatars c =
        .refused users avatars {} (.http 401 "Not authenticated") := by
      simp only [deleteAvatar, currentUserOr401, hc, hu]
    rw [hrefused]
    exact plays_at_once .remove (by simp only [stepAvatar, hu]; rfl) rfl rfl
  | some u =>
    have hdelete : deleteAvatar users avatars c =
        { users := storeRow users { u with avatarUrl := none }
          avatars := avatars.filter fun a => a.userId ≠ u.id
          cookie := c, reply := .removed } := by
      simp only [deleteAvatar, currentUserOr401, hc, hu]
    have hwritten := writeLink_alone hnodup (findById_some hu).1 none
    have hstart : Runs.Run (Runs.guarded Runs.anyStep (stepAvatar im me)) [] ⟨users, avatars, []⟩
        [(.remove, .quiet)] ⟨users, avatars, [.deleting u]⟩ := by
      refine Runs.Run.single ⟨trivial, ?_⟩
      simp only [stepAvatar, hu, List.nil_append]
    rw [hdelete]
    by_cases hthere : (avatarOf avatars u.id).isSome = true
    · have hfree : free AvatarTx.holds [.deleting u] u.id = true := by
        simp [free, AvatarTx.holds]
      have hdeleted := run_next hstart 0 ((if_pos hthere).trans (if_pos hfree))
      exact ⟨_, _, run_next hdeleted 0 rfl, rfl, hwritten, rfl⟩
    · have hdeleted := run_next hstart 0 (if_neg hthere)
      refine ⟨_, _, run_next hdeleted 0 rfl, rfl, hwritten, ?_⟩
      refine (List.filter_eq_self.mpr fun a ha => decide_eq_true ?_).symm
      rintro hid
      exact hthere (List.find?_isSome.mpr ⟨a, ha, decide_eq_true hid⟩)

end Alone

/-! ## Every interleaving -/

theorem Pictured.upserted {data : Bytes} {version : ℕ} (h : Pictured me w)
    (txs : List AvatarTx) : Pictured me
      { users := writeLink w.users u (some (avatarPath u.id version))
        avatars := upsertAvatar w.avatars (jpeg u.id data), txs := txs } := by
  intro v hv hid other hlink
  obtain ⟨v₀, hv₀, hid₀, ⟨hkept, _⟩ | hwritten⟩ := mem_writeLink hv
  · rw [hkept] at hlink
    exact avatarOf_upsert (h v₀ hv₀ (hid₀.symm.trans hid) other hlink)
  · rw [hwritten, linksTo_avatarPath, decide_eq_true_eq] at hlink
    rw [hlink]
    exact avatarOf_upsert_self w.avatars (jpeg u.id data)

/-- A deletion keeps the account linked, unless it leaves the link behind. -/
theorem pictured_deleted {removed : Bool} (h : Pictured me w) (hu : u.id = me) (txs : List AvatarTx) :
    Pictured me
      { users := writeLink w.users u none
        avatars := if removed then w.avatars.filter fun a => a.userId ≠ u.id else w.avatars
        txs := txs } ↔
      ¬ (removed = true ∧ u.avatarUrl = none ∧
        ∃ v ∈ w.users, v.id = u.id ∧ linksTo u.id v.avatarUrl = true) := by
  constructor
  · rintro hafter ⟨rfl, hloaded, v, hv, hid, hlink⟩
    have hv' : v ∈ writeLink w.users u none := by
      rw [writeLink_none hloaded]
      exact hv
    have hthere := hafter v hv' (hid.trans hu) u.id hlink
    rw [if_pos rfl, avatarOf_removed] at hthere
    cases hthere
  · intro hsafe v hv hid other hlink
    obtain ⟨v₀, hv₀, hid₀, ⟨hkept, hloaded⟩ | hwritten⟩ := mem_writeLink hv
    · rw [hkept] at hlink
      have hthere := h v₀ hv₀ (hid₀.symm.trans hid) other hlink
      cases removed with
      | false => exact hthere
      | true =>
        rw [if_pos rfl]
        apply avatarOf_kept ?_ hthere
        rintro rfl
        have hmine : v₀.id = u.id := hid₀.symm.trans (hid.trans hu.symm)
        exact hsafe ⟨rfl, (hloaded hmine).symm, v₀, hv₀, hmine, hlink⟩
    · rw [hwritten] at hlink
      cases hlink

theorem leavesLink_next {i : ℕ} (htx : w.txs[i]? = some tx) :
    leavesLink w (.next i now) = true ↔ ∃ u, tx = .deleted u true ∧ u.avatarUrl = none ∧
      ∃ v ∈ w.users, v.id = u.id ∧ linksTo u.id v.avatarUrl = true := by
  unfold leavesLink
  simp only [htx]
  split
  · rename_i u hu
    cases hu
    simp
  · rename_i hno
    simp only [Bool.false_eq_true, false_iff]
    rintro ⟨u, rfl, _⟩
    exact hno u rfl

/-- What every run keeps: requests are the user's own. -/
def Mine (me : ℕ) (w : AvatarWorld) : Prop := ∀ tx ∈ w.txs, ∀ u, tx.loaded = some u → u.id = me

theorem Mine.set {i : ℕ} (h : Mine me w) (hnew : ∀ u, tx'.loaded = some u → u.id = me) :
    ∀ tx ∈ w.txs.set i tx', ∀ u, tx.loaded = some u → u.id = me := by
  intro tx htx
  rcases List.mem_or_eq_of_mem_set htx with hold | rfl
  · exact h tx hold
  · exact hnew

theorem Mine.step (h : Mine me w) (hstep : stepAvatar im me w move = some (w', news)) : Mine me w' := by
  obtain ⟨rfl, _⟩ | ⟨tx, u, hloaded, hu, rfl, _⟩ |
    ⟨i, now, tx, users', avatars', tx', _, htx, hadvance, rfl⟩ | ⟨i, rfl, _⟩ := stepAvatar_cases hstep
  · exact h
  · intro tx' htx' v hv
    obtain hold | hnew := List.mem_append.mp htx'
    · exact h tx' hold v hv
    · rw [List.mem_singleton.mp hnew, hloaded] at hv
      cases hv
      exact hu
  · exact h.set fun u hu => h tx (List.mem_of_getElem? htx) u (advanceAvatar_loaded hadvance hu)
  · apply h.set
    intro u hu
    cases hu

/-- From a state in which the link is right, exactly the moves that leave a link behind spoil it. -/
theorem pictured_step_iff (h : Pictured me w) (hmine : Mine me w)
    (hstep : stepAvatar im me w move = some (w', news)) :
    Pictured me w' ↔ leavesLink w move = false := by
  obtain ⟨rfl, hno⟩ | ⟨tx, u, _, _, rfl, hno⟩ |
    ⟨i, now, tx, users', avatars', tx', rfl, htx, hadvance, rfl⟩ | ⟨i, rfl, hno⟩ :=
      stepAvatar_cases hstep
  · exact iff_of_true h hno
  · exact iff_of_true h hno
  · rw [← Bool.not_eq_true, leavesLink_next htx]
    obtain ⟨rfl, rfl, _, hnot, _⟩ | ⟨u, data, rfl, rfl, rfl, rfl⟩ | ⟨u, removed, rfl, rfl, rfl, rfl⟩ :=
      advanceAvatar_cases hadvance
    · refine iff_of_true h ?_
      rintro ⟨u, rfl, _⟩
      exact hnot u true rfl
    · refine iff_of_true (h.upserted _) ?_
      rintro ⟨v, hv, _⟩
      cases hv
    · rw [pictured_deleted h (hmine _ (List.mem_of_getElem? htx) u rfl)]
      apply not_congr
      constructor
      · rintro ⟨rfl, hrest⟩
        exact ⟨u, rfl, hrest⟩
      · rintro ⟨v, hv, hrest⟩
        cases hv
        exact ⟨rfl, hrest⟩
  · exact iff_of_true h hno

/-- In a run in which no deletion leaves a link behind, the link is right in every state, and the next
move keeps it so exactly if it does not either. -/
theorem avatar_link_holds {es : List (AvatarMove × AvatarNews)} (h₀ : Pictured me ⟨users, avatars, []⟩)
    (hrun : Runs.Run (Runs.guarded LeavesNoLink (stepAvatar im me)) [] ⟨users, avatars, []⟩ es w) :
    Pictured me w ∧ ∀ move w' news, stepAvatar im me w move = some (w', news) →
      (Pictured me w' ↔ leavesLink w move = false) := by
  have hinit : Mine me ⟨users, avatars, []⟩ := by
    intro tx htx
    cases htx
  have hend : Pictured me w ∧ Mine me w := by
    refine hrun.invariant_of_init (fun _ w => Pictured me w ∧ Mine me w) ?_ ⟨h₀, hinit⟩
    rintro past w ⟨move, news⟩ w' ⟨hlinked, hmine⟩ ⟨hsafe, hstep⟩
    exact ⟨(pictured_step_iff hlinked hmine hstep).mpr hsafe, hmine.step hstep⟩
  refine ⟨hend.1, ?_⟩
  intro move w' news hstep
  exact pictured_step_iff hend.1 hend.2 hstep

/-! ## A deletion that has loaded no link -/

/-- Takes an image of one byte as it is. -/
def smallImages : Imaging where
  maxUploadBytes := 8
  process raw := .ok raw

def nobodyYet : AvatarWorld := { users := [{ id := 0 }], avatars := [] }

def raceOf (G : AvatarGuard) [∀ past w move, Decidable (G past w move)] (moves : List AvatarMove) :
    List (AvatarMove × AvatarNews) × AvatarWorld :=
  (Runs.replay G (stepAvatar smallImages 0) [] nobodyYet moves).getD ([], nobodyYet)

theorem nobodyYet_pictured : Pictured 0 nobodyYet := by
  intro u hu _ id hlink
  obtain rfl := List.mem_singleton.mp hu
  cases hlink

/-- The deletion finds no row, and both commit. -/
def deletedBefore : List AvatarMove :=
  [.upload [1], .remove, .next 0 0, .next 1 0, .next 0 second, .next 0 second, .next 1 second]

theorem avatar_link_holds_both :
    (raceOf LeavesNoLink deletedBefore).2.users = [{ id := 0, avatarUrl := some "/avatars/0?v=1" }] ∧
      (raceOf LeavesNoLink deletedBefore).2.avatars = [jpeg 0 [1]] ∧
      Pictured 0 (raceOf LeavesNoLink deletedBefore).2 := by
  refine ⟨by decide +kernel, by decide +kernel, ?_⟩
  exact (avatar_link_holds nobodyYet_pictured
    (Runs.replay_getD_run _ _ _ _ deletedBefore _ (by decide +kernel))).1

/-- The deletion loads the account, the upload goes through, and the deletion goes on: it removes the
row and, as no link is what it has loaded, writes none. -/
def deletedAfter : List AvatarMove :=
  [.remove, .upload [1], .next 1 0, .next 1 second, .next 1 second, .next 0 second, .next 0 second]

theorem avatar_link_dangles : ¬ ∀ (im : Imaging) (me : ℕ) (users : List User) (avatars : List Avatar)
    (es : List (AvatarMove × AvatarNews)) (w : AvatarWorld), Pictured me ⟨users, avatars, []⟩ →
    Runs.Run (Runs.guarded Runs.anyStep (stepAvatar im me)) [] ⟨users, avatars, []⟩ es w →
    (∀ tx ∈ w.txs, tx = .ended) → Pictured me w := by
  intro h
  have hrun := Runs.replay_getD_run Runs.anyStep (stepAvatar smallImages 0) [] nobodyYet deletedAfter
    ([], nobodyYet) (by decide +kernel)
  have hended : ∀ tx ∈ (raceOf Runs.anyStep deletedAfter).2.txs, tx = .ended := by decide +kernel
  have hlinked := h smallImages 0 _ _ _ _ nobodyYet_pictured hrun hended
  have hthere := hlinked { id := 0, avatarUrl := some "/avatars/0?v=1" } (by decide +kernel) rfl 0
    (by decide +kernel)
  exact absurd hthere (by decide +kernel)

end WarsawEvents.Accounts
