import WarsawEvents.Friends.OnePerPair

/-! # A friendship has the consent of both

The history of a row, carried through every run: the request that created it, no removal by either end
since, and, once it is accepted, an answer of the other end. `RequestFor` is what makes an acceptance
an answer: whoever is about to accept a row is its addressee, whatever has happened since it read.
-/

namespace WarsawEvents.Friends
set_option autoImplicit false

open RowSecurity (Friendship Response Db Env Role ShareRequest)
open Coupling Runs

abbrev Log := List (Move × Option Done)

/-- No friendship yet, and no request under way. -/
def noFriends (users : List ℕ) : World where
  table := { users := users }

/-! ## What the history says about a row -/

/-- The requester asked the addressee. -/
def Asked (f : Friendship) (l : Move × Option Done) : Prop :=
  l.2 = some ⟨f.requesterId, f.addresseeId, .request, .status "request_sent"⟩

/-- The addressee answered, by accepting or by asking in turn. -/
def Answered (f : Friendship) (l : Move × Option Done) : Prop :=
  ∃ action, (action = .accept ∨ action = .request) ∧
    l.2 = some ⟨f.addresseeId, f.requesterId, action, .status "friends"⟩

/-- One of the two removed the other. -/
def Parted (f : Friendship) (l : Move × Option Done) : Prop :=
  ∃ me userId, between me userId f = true ∧ l.2 = some ⟨me, userId, .remove, .status "removed"⟩

/-- After `pre` the row was not there, and `l` put it in the table. -/
def CreatedBy (users : List ℕ) (pre : Log) (l : Move × Option Done) (id : ℕ) : Prop :=
  ∃ w w', Run (guarded Runs.anyStep step) [] (noFriends users) pre w ∧ step w l.1 = some (w', l.2) ∧
    (∀ f ∈ w.table.rows, f.id ≠ id) ∧ ∃ f ∈ w'.table.rows, f.id = id

/-- Since the row was created, its requester asked, its addressee answered, and neither removed it. -/
def Consented (users : List ℕ) (past : Log) (f : Friendship) : Prop :=
  ∃ pre asked post, past = pre ++ asked :: post ∧ CreatedBy users pre asked f.id ∧ Asked f asked ∧
    (∃ l ∈ post, Answered f l) ∧ ∀ l ∈ post, ¬ Parted f l

/-! ## What a commit does to the rows -/

/-- A row after a commit: the inserted one, or a row that was there, with what happened to it. -/
theorem write_origin {t t' : Table} {now me userId : ℕ} {p : Plan} {answer : Response} {g : Friendship}
    (hwrite : p.write t now me userId = .ok (answer, t')) (hg : g ∈ t'.rows) :
    (p = .insert ∧ answer = .status "request_sent" ∧ g = newRow now me userId t.nextId) ∨
      ∃ f ∈ t.rows, g.id = f.id ∧ g.requesterId = f.requesterId ∧ g.addresseeId = f.addresseeId ∧
        (g.status = f.status ∨ (p = .accept f.id ∧ answer = .status "friends")) ∧
        (p = .remove → between me userId f = false) := by
  cases p with
  | insert =>
    simp only [Plan.write] at hwrite
    split at hwrite
    · cases hwrite
    · cases hwrite
      obtain hold | hnew := List.mem_append.mp hg
      · exact .inr ⟨g, hold, rfl, rfl, rfl, .inl rfl, by simp⟩
      · exact .inl ⟨rfl, rfl, List.mem_singleton.mp hnew⟩
  | accept id =>
    simp only [Plan.write] at hwrite
    split at hwrite
    · cases hwrite
      obtain ⟨f, hf, rfl⟩ := List.mem_map.mp hg
      refine .inr ⟨f, hf, ?_⟩
      split
      · rename_i hid
        exact ⟨rfl, rfl, rfl, .inr ⟨by rw [hid], rfl⟩, by simp⟩
      · exact ⟨rfl, rfl, rfl, .inl rfl, by simp⟩
    · cases hwrite
  | decline =>
    cases hwrite
    exact .inr ⟨g, (List.mem_filter.mp hg).1, rfl, rfl, rfl, .inl rfl, by simp⟩
  | remove =>
    cases hwrite
    obtain ⟨hold, hkept⟩ := List.mem_filter.mp hg
    exact .inr ⟨g, hold, rfl, rfl, rfl, .inl rfl, fun _ => by simpa using hkept⟩

theorem write_nextId {t t' : Table} {now me userId : ℕ} {p : Plan} {answer : Response}
    (hwrite : p.write t now me userId = .ok (answer, t')) :
    t.nextId ≤ t'.nextId ∧ (p = .insert → t'.nextId = t.nextId + 1) := by
  cases p with
  | insert =>
    simp only [Plan.write] at hwrite
    split at hwrite
    · cases hwrite
    · cases hwrite
      exact ⟨Nat.le_succ _, fun _ => rfl⟩
  | accept id =>
    simp only [Plan.write] at hwrite
    split at hwrite
    · cases hwrite
      exact ⟨Nat.le_refl _, by simp⟩
    · cases hwrite
  | decline =>
    cases hwrite
    exact ⟨Nat.le_refl _, by simp⟩
  | remove =>
    cases hwrite
    exact ⟨Nat.le_refl _, by simp⟩

theorem write_removed {t t' : Table} {now me userId : ℕ} {p : Plan} {answer : Response}
    (hwrite : p.write t now me userId = .ok (answer, t')) (hremoved : answer = .status "removed") :
    p = .remove := by
  subst hremoved
  cases p with
  | insert =>
    simp only [Plan.write] at hwrite
    split at hwrite
    · cases hwrite
    · simp at hwrite
  | accept id =>
    simp only [Plan.write] at hwrite
    split at hwrite
    · simp at hwrite
    · cases hwrite
  | decline => simp [Plan.write] at hwrite
  | remove => rfl

/-! ## What a plan was made from -/

/-- The rows with the id are requests of `userId` to `me`. -/
def RequestFor (t : Table) (me userId id : ℕ) : Prop :=
  id < t.nextId ∧ ∀ f ∈ t.rows, f.id = id → f.requesterId = userId ∧ f.addresseeId = me

/-- What the plan of a request says about its action and about the row it is for. -/
def Job.Sound (t : Table) (j : Job) : Prop :=
  match j.plan with
  | .insert => j.action = .request
  | .accept id => (j.action = .accept ∨ j.action = .request) ∧ RequestFor t j.me j.userId id
  | .decline => j.action = .decline
  | .remove => j.action = .remove

/-- Ids are distinct and below the supply. -/
structure Table.Keyed (t : Table) : Prop where
  ids_lt : ∀ f ∈ t.rows, f.id < t.nextId
  ids_nodup : (t.rows.map Friendship.id).Nodup

theorem requestFor_of_mem {t : Table} (h : t.Keyed) {f : Friendship} (hf : f ∈ t.rows) {me userId : ℕ}
    (hends : f.requesterId = userId ∧ f.addresseeId = me) : RequestFor t me userId f.id := by
  refine ⟨h.ids_lt f hf, ?_⟩
  intro g hg hid
  rw [List.inj_on_of_nodup_map h.ids_nodup hg hf hid]
  exact hends

theorem plan_sound {t : Table} (h : t.Keyed) {me userId : ℕ} {action : Action} {p : Plan}
    (hp : plan t me userId action = .ok p) : Job.Sound t ⟨me, userId, action, p⟩ := by
  cases action with
  | request =>
    simp only [plan, planRequest] at hp
    split at hp
    · cases hp
    · split at hp
      · cases hp
      · split at hp
        · cases hp
        · cases hp
          exact rfl
        · rename_i existing hpair
          have hmem := List.mem_filter.mp (scalarOneOrNone_mem hpair)
          split at hp
          · cases hp
          · split at hp
            · cases hp
            · rename_i hother
              cases hp
              refine ⟨.inr rfl, requestFor_of_mem h hmem.1 ?_⟩
              have hends := hmem.2
              simp only [between, Bool.or_eq_true, Bool.and_eq_true, decide_eq_true_eq] at hends
              obtain hmine | htheirs := hends
              · exact absurd hmine.1 hother
              · exact htheirs
  | accept =>
    simp only [plan, planAccept] at hp
    split at hp
    · cases hp
    · cases hp
    · rename_i row hrow
      cases hp
      have hmem := List.mem_filter.mp (scalarOneOrNone_mem hrow)
      have hends := hmem.2
      simp only [Friendship.requestFrom, Bool.and_eq_true, decide_eq_true_eq] at hends
      exact ⟨.inl rfl, requestFor_of_mem h hmem.1 hends.1⟩
  | decline =>
    cases hp
    exact rfl
  | remove =>
    cases hp
    exact rfl

theorem Job.Sound.write {t t' : Table} {now me userId : ℕ} {p : Plan} {answer : Response} {j : Job}
    (h : j.Sound t) (hwrite : p.write t now me userId = .ok (answer, t')) : j.Sound t' := by
  unfold Job.Sound at h ⊢
  split at h
  · exact h
  · rename_i id _
    obtain ⟨haction, hlt, hends⟩ := h
    refine ⟨haction, Nat.lt_of_lt_of_le hlt (write_nextId hwrite).1, ?_⟩
    intro g hg hid
    obtain ⟨_, _, rfl⟩ | ⟨f, hf, hgf, hreq, haddr, _, _⟩ := write_origin hwrite hg
    · have hnew : t.nextId = id := hid
      omega
    · rw [hreq, haddr]
      exact hends f hf (by rw [← hgf, hid])
  · exact h
  · exact h

theorem acceptRow_ids (rows : List Friendship) (id : ℕ) :
    (acceptRow rows id).map Friendship.id = rows.map Friendship.id := by
  unfold acceptRow
  rw [List.map_map]
  apply List.map_congr_left
  intro f _
  simp only [Function.comp_apply]
  split
  · rfl
  · rfl

theorem write_ids_nodup {t t' : Table} {now me userId : ℕ} {p : Plan} {answer : Response}
    (h : (t.rows.map Friendship.id).Nodup) (hwrite : p.write t now me userId = .ok (answer, t')) :
    (t'.rows.map Friendship.id).Nodup := by
  cases p with
  | insert =>
    simp only [Plan.write] at hwrite
    split at hwrite
    · cases hwrite
    · rename_i hfree
      cases hwrite
      rw [Bool.not_eq_true, any_or, Bool.or_eq_false_iff, List.any_eq_false] at hfree
      rw [List.map_append, List.nodup_append]
      refine ⟨h, List.nodup_singleton _, ?_⟩
      intro i hi k hk
      obtain ⟨f, hf, rfl⟩ := List.mem_map.mp hi
      rw [List.mem_singleton.mp hk]
      exact fun hid => hfree.1 f hf (decide_eq_true hid)
  | accept id =>
    simp only [Plan.write] at hwrite
    split at hwrite
    · cases hwrite
      show ((acceptRow t.rows id).map Friendship.id).Nodup
      rw [acceptRow_ids]
      exact h
    · cases hwrite
  | decline =>
    cases hwrite
    exact h.sublist (List.filter_sublist.map _)
  | remove =>
    cases hwrite
    exact h.sublist (List.filter_sublist.map _)

theorem Table.Keyed.write {t t' : Table} {now me userId : ℕ} {p : Plan} {answer : Response}
    (h : t.Keyed) (hwrite : p.write t now me userId = .ok (answer, t')) : t'.Keyed := by
  refine ⟨?_, write_ids_nodup h.ids_nodup hwrite⟩
  intro g hg
  obtain ⟨hp, _, rfl⟩ | ⟨f, hf, hgf, _⟩ := write_origin hwrite hg
  · have hnext := (write_nextId hwrite).2 hp
    show t.nextId < t'.nextId
    omega
  · rw [hgf]
    exact Nat.lt_of_lt_of_le (h.ids_lt f hf) (write_nextId hwrite).1

/-! ## The history of every row -/

/-- What the history says about a row, accepted or not. -/
def RowHistory (users : List ℕ) (past : Log) (f : Friendship) : Prop :=
  ∃ pre asked post, past = pre ++ asked :: post ∧ CreatedBy users pre asked f.id ∧ Asked f asked ∧
    (f.status = .accepted → ∃ l ∈ post, Answered f l) ∧ ∀ l ∈ post, ¬ Parted f l

structure Tracked (users : List ℕ) (past : Log) (w : World) : Prop where
  run : Run (guarded Runs.anyStep step) [] (noFriends users) past w
  keyed : w.table.Keyed
  jobs : ∀ j ∈ w.jobs, j.Sound w.table
  rows : ∀ f ∈ w.table.rows, RowHistory users past f

theorem tracked_noFriends (users : List ℕ) : Tracked users [] (noFriends users) := by
  refine ⟨Run.refl, ⟨?_, List.nodup_nil⟩, ?_, ?_⟩
  · intro f hf
    cases hf
  · intro j hj
    cases hj
  · intro f hf
    cases hf

/-- One more label, on a row that keeps its ends. -/
theorem RowHistory.snoc {users : List ℕ} {past : Log} {l : Move × Option Done} {f g : Friendship}
    (h : RowHistory users past f) (hid : g.id = f.id) (hreq : g.requesterId = f.requesterId)
    (haddr : g.addresseeId = f.addresseeId)
    (hstatus : g.status = f.status ∨ Answered g l) (hkept : ¬ Parted g l) :
    RowHistory users (past ++ [l]) g := by
  obtain ⟨pre, asked, post, rfl, hcreated, hasked, hanswered, hnever⟩ := h
  have hanswer : ∀ l', Answered f l' → Answered g l' := by
    intro l' h'
    unfold Answered at h' ⊢
    rwa [hreq, haddr]
  have hparted : ∀ l', Parted g l' → Parted f l' := by
    intro l' h'
    unfold Parted between at h' ⊢
    rwa [← hreq, ← haddr]
  refine ⟨pre, asked, post ++ [l], by simp, by rw [hid]; exact hcreated, ?_, ?_, ?_⟩
  · unfold Asked at hasked ⊢
    rw [hreq, haddr]
    exact hasked
  · intro haccepted
    obtain hsame | hnow := hstatus
    · rw [hsame] at haccepted
      obtain ⟨l', hl', h'⟩ := hanswered haccepted
      exact ⟨l', List.mem_append_left _ hl', hanswer l' h'⟩
    · exact ⟨l, by simp, hnow⟩
  · intro l' hl' h'
    obtain hold | hnew := List.mem_append.mp hl'
    · exact hnever l' hold (hparted l' h')
    · rw [List.mem_singleton.mp hnew] at h'
      exact hkept h'

/-- A label that is no removal, over an unchanged table. -/
theorem Tracked.quiet {users : List ℕ} {past : Log} {w w' : World} {l : Move × Option Done}
    (h : Tracked users past w) (hstep : step w l.1 = some (w', l.2)) (htable : w'.table = w.table)
    (hjobs : ∀ j ∈ w'.jobs, j.Sound w.table)
    (hkept : ∀ me userId, l.2 ≠ some ⟨me, userId, .remove, .status "removed"⟩) :
    Tracked users (past ++ [l]) w' := by
  refine ⟨h.run.snoc ⟨trivial, hstep⟩, by rw [htable]; exact h.keyed, by rw [htable]; exact hjobs, ?_⟩
  intro f hf
  rw [htable] at hf
  refine (h.rows f hf).snoc rfl rfl rfl (.inl rfl) ?_
  intro hparted
  obtain ⟨me, userId, _, hremoved⟩ := hparted
  exact hkept me userId hremoved

/-- A commit: what was inserted, accepted or removed is in its label. -/
theorem Tracked.committed {users : List ℕ} {past : Log} {w w' : World} {l : Move × Option Done}
    {j : Job} {now : ℕ} {answer : Response} (h : Tracked users past w)
    (hstep : step w l.1 = some (w', l.2)) (hj : j ∈ w.jobs) (hjobs : ∀ j ∈ w'.jobs, j ∈ w.jobs)
    (hwrite : j.plan.write w.table now j.me j.userId = .ok (answer, w'.table))
    (hl : l.2 = some ⟨j.me, j.userId, j.action, answer⟩) : Tracked users (past ++ [l]) w' := by
  have hsound := h.jobs j hj
  unfold Job.Sound at hsound
  refine ⟨h.run.snoc ⟨trivial, hstep⟩, h.keyed.write hwrite,
    fun j' hj' => (h.jobs j' (hjobs j' hj')).write hwrite, ?_⟩
  intro g hg
  obtain ⟨hp, rfl, hnew⟩ | ⟨f, hf, hid, hreq, haddr, hstatus, hkept⟩ := write_origin hwrite hg
  · rw [hp] at hsound
    refine ⟨past, l, [], rfl, ⟨w, w', h.run, hstep, ?_, g, hg, rfl⟩, ?_, ?_, by simp⟩
    · intro f hf hid
      have hlt := h.keyed.ids_lt f hf
      rw [hid, hnew] at hlt
      exact absurd hlt (Nat.lt_irrefl _)
    · unfold Asked
      rw [hl, hsound, hnew]
      rfl
    · intro haccepted
      rw [hnew] at haccepted
      cases haccepted
  · refine (h.rows f hf).snoc hid hreq haddr ?_ ?_
    · obtain hsame | ⟨hp, rfl⟩ := hstatus
      · exact .inl hsame
      · refine .inr ?_
        rw [hp] at hsound
        obtain ⟨haction, _, hends⟩ := hsound
        obtain ⟨hreq', haddr'⟩ := hends f hf rfl
        refine ⟨j.action, haction, ?_⟩
        rw [hl, hreq, haddr, hreq', haddr']
    · intro hparted
      obtain ⟨me, userId, hbetween, hremoved⟩ := hparted
      rw [hl, Option.some.injEq, Done.mk.injEq] at hremoved
      obtain ⟨rfl, rfl, _, hanswer⟩ := hremoved
      have hnot := hkept (write_removed hwrite hanswer)
      unfold between at hbetween hnot
      rw [hreq, haddr, hnot] at hbetween
      cases hbetween

theorem Tracked.step {users : List ℕ} {past : Log} {w w' : World} {l : Move × Option Done}
    (h : Tracked users past w) (hstep : step w l.1 = some (w', l.2)) :
    Tracked users (past ++ [l]) w' := by
  obtain ⟨move, done⟩ := l
  have hrun := hstep
  cases move with
  | start me userId action =>
    simp only [Friends.step] at hstep
    split at hstep
    · split at hstep
      · rename_i r hplan
        cases hstep
        refine h.quiet hrun rfl h.jobs ?_
        intro me' userId' hremoved
        cases hremoved
        cases hplan
      · rename_i p hplan
        cases hstep
        refine h.quiet hrun rfl ?_ ?_
        · intro j hj
          obtain hold | hnew := List.mem_append.mp hj
          · exact h.jobs j hold
          · rw [List.mem_singleton.mp hnew]
            exact plan_sound h.keyed hplan
        · intro me' userId' hremoved
          cases hremoved
    · cases hstep
  | commit i now =>
    simp only [Friends.step] at hstep
    split at hstep
    · cases hstep
    · rename_i j hj
      have hmem : j ∈ w.jobs := List.mem_of_getElem? hj
      split at hstep
      · rename_i r hwrite
        cases hstep
        refine h.quiet hrun rfl (fun j' hj' => h.jobs j' (List.mem_of_mem_eraseIdx hj')) ?_
        intro me' userId' hremoved
        rw [Option.some.injEq, Done.mk.injEq] at hremoved
        have hsound := h.jobs j hmem
        unfold Job.Sound at hsound
        rw [hremoved.2.2.1] at hsound
        split at hsound
        · cases hsound
        · obtain ⟨hbad | hbad, _⟩ := hsound
          · cases hbad
          · cases hbad
        · cases hsound
        · rename_i hp
          rw [hp] at hwrite
          cases hwrite
      · rename_i answer t hwrite
        cases hstep
        exact h.committed hrun hmem (fun j' hj' => List.mem_of_mem_eraseIdx hj') hwrite rfl

theorem tracked_of_run {users : List ℕ} {past : Log} {w : World}
    (h : Run (guarded Runs.anyStep step) [] (noFriends users) past w) : Tracked users past w := by
  refine h.invariant_of_init (Tracked users) ?_ (tracked_noFriends users)
  intro past w l w' hI hstep
  exact hI.step hstep.2

theorem Tracked.consented {users : List ℕ} {past : Log} {w : World} (h : Tracked users past w)
    {f : Friendship} (hf : f ∈ w.table.rows) (haccepted : f.status = .accepted) :
    Consented users past f := by
  obtain ⟨pre, asked, post, hpast, hcreated, hasked, hanswered, hnever⟩ := h.rows f hf
  exact ⟨pre, asked, post, hpast, hcreated, hasked, hanswered haccepted, hnever⟩

/-! ## What friendship opens -/

theorem scalarOneOrNone_error {ρ : Type} {rows : List ρ} {r : Response}
    (h : scalarOneOrNone rows = .error r) : r = .serverError := by
  match rows with
  | [] => cases h
  | [_] => cases h
  | _ :: _ :: _ =>
    cases h
    rfl

/-- `_are_friends` is true only over an accepted row, for either role. -/
theorem exec_areFriends (s : RowSecurity.Sess) (a b : ℕ) :
    ∃ found, exec (RowSecurity.areFriends a b) s = (found, s) ∧
      (∀ r, found = .error r → r = .serverError) ∧
      (found = .ok true → ∃ f ∈ s.view.friendships, between a b f = true ∧ f.status = .accepted) := by
  have hread : exec (RowSecurity.friendship a b) s = (scalarOneOrNone
      ((RowSecurity.friendships.rows s.view).filter fun f => between a b f &&
        s.admits (RowSecurity.friendships.forSelect s.view s.pinned f)), s) := by
    unfold RowSecurity.friendship
    rw [exec_bind_ok (RowSecurity.exec_select s)]
    exact exec_oneOrNone _
  unfold RowSecurity.areFriends
  cases hone : scalarOneOrNone ((RowSecurity.friendships.rows s.view).filter fun f => between a b f &&
      s.admits (RowSecurity.friendships.forSelect s.view s.pinned f)) with
  | error r =>
    rw [hone] at hread
    refine ⟨.error r, exec_bind_error hread, ?_, nofun⟩
    intro r' hr'
    cases hr'
    exact scalarOneOrNone_error hone
  | ok row =>
    rw [hone] at hread
    refine ⟨_, exec_bind_ok hread, nofun, ?_⟩
    intro htrue
    have hany : (row.any fun f => f.status = .accepted) = true := Except.ok.inj htrue
    cases row with
    | none => cases hany
    | some f =>
      have hmem := List.mem_filter.mp (scalarOneOrNone_mem hone)
      have hbetween := (Bool.and_eq_true_iff.mp hmem.2).1
      exact ⟨f, hmem.1, hbetween, by simpa using hany⟩

section Gated
variable {env : Env} {role : Role} {db : Db} {me userId : ℕ}

theorem serve_nobody {call : RowSecurity.Call} (h : db.hasUser me = false) :
    (RowSecurity.serve env role db me call).1 = .http 401 "Not authenticated" := by
  rw [RowSecurity.serve_signedOut h]

/-- What a request answers is what its handler returns or raises. -/
theorem serve_answer {call : RowSecurity.Call} {r : Response}
    (h : (RowSecurity.serve env role db me call).1 = r) (hr : ∀ n detail, r ≠ .http n detail) :
    ∃ u : RowSecurity.Person, u.id = me ∧
      ((exec (call.handler env u) (RowSecurity.pinnedSess role db me)).1 = .ok r ∨
        (exec (call.handler env u) (RowSecurity.pinnedSess role db me)).1 = .error r) := by
  cases huser : db.hasUser me with
  | false =>
    rw [serve_nobody huser] at h
    exact absurd h.symm (hr _ _)
  | true =>
    obtain ⟨u, hid, hexec⟩ := RowSecurity.exec_authenticated env role call huser
    refine ⟨u, hid, ?_⟩
    unfold RowSecurity.serve at h
    rw [hexec] at h
    generalize exec (call.handler env u) (RowSecurity.pinnedSess role db me) = answer at h ⊢
    obtain ⟨result, s⟩ := answer
    cases result with
    | ok r' => exact .inl (congrArg Except.ok h)
    | error r' => exact .inr (congrArg Except.error h)

/-- A handler that goes on only between friends answers otherwise with an error. -/
theorem opened_by_friendship {k : RowSecurity.Handler Response} {n : ℕ} {detail : String}
    {s : RowSecurity.Sess} {r : Response} (hr : ∀ n detail, r ≠ .http n detail)
    (hr' : r ≠ .serverError)
    (h : (exec (RowSecurity.areFriends me userId >>= fun ok => if ok then k else
        throw (.http n detail)) s).1 = .ok r ∨
      (exec (RowSecurity.areFriends me userId >>= fun ok => if ok then k else
        throw (.http n detail)) s).1 = .error r) :
    ∃ f ∈ s.view.friendships, between me userId f = true ∧ f.status = .accepted := by
  obtain ⟨found, hfound, herror, htrue⟩ := exec_areFriends s me userId
  cases found with
  | error r₀ =>
    rw [exec_bind_error hfound] at h
    obtain hok | herr := h
    · cases hok
    · exact absurd ((Except.error.inj herr).symm.trans (herror r₀ rfl)) hr'
  | ok b =>
    rw [exec_bind_ok hfound] at h
    cases b with
    | true => exact htrue rfl
    | false =>
      obtain hok | herr := h
      · cases hok
      · exact absurd (Except.error.inj herr).symm (hr _ _)

theorem shared_only_with_friends {req : ShareRequest}
    (h : (RowSecurity.serve env role db me (.shareEvent req)).1 = .status "shared") :
    ∃ f ∈ db.friendships, between me req.toUserId f = true ∧ f.status = .accepted := by
  obtain ⟨u, rfl, hrun⟩ := serve_answer h (by simp)
  exact opened_by_friendship (by simp) (by simp) hrun

theorem saved_only_of_friends {limit : ℕ} {found : List RowSecurity.ItemOut} (hother : userId ≠ me)
    (h : (RowSecurity.serve env role db me (.getUserSaved userId limit)).1 = .items found) :
    ∃ f ∈ db.friendships, between me userId f = true ∧ f.status = .accepted := by
  obtain ⟨u, rfl, hrun⟩ := serve_answer h (by simp)
  have hhandler : (RowSecurity.Call.getUserSaved userId limit).handler env u =
      (RowSecurity.areFriends u.id userId >>= fun ok =>
        if ok then RowSecurity.savedItemsOf userId limit >>= fun found => pure (.items found)
        else throw (.http 403 "Only friends can see saved items")) := if_neg hother
  rw [hhandler] at hrun
  exact opened_by_friendship (by simp) (by simp) hrun

end Gated

/-- An accepted row has the consent of both ends, and only such a row lets one of them share with the
other or read the other's saved items. -/
theorem friendship_needs_consent {users : List ℕ} {past : Log} {w : World}
    (h : Run (guarded Runs.anyStep step) [] (noFriends users) past w) :
    (∀ f ∈ w.table.rows, f.status = .accepted → Consented users past f) ∧
      ∀ (env : Env) (role : Role) (db : Db) (me : ℕ), db.friendships = w.table.rows →
        (∀ req : ShareRequest,
          (RowSecurity.serve env role db me (.shareEvent req)).1 = .status "shared" →
            ∃ f ∈ w.table.rows, between me req.toUserId f = true ∧ Consented users past f) ∧
        ∀ userId limit found, userId ≠ me →
          (RowSecurity.serve env role db me (.getUserSaved userId limit)).1 = .items found →
            ∃ f ∈ w.table.rows, between me userId f = true ∧ Consented users past f := by
  have hI := tracked_of_run h
  refine ⟨fun f hf haccepted => hI.consented hf haccepted, ?_⟩
  intro env role db me hdb
  refine ⟨?_, ?_⟩
  · intro req hshared
    obtain ⟨f, hf, hbetween, haccepted⟩ := shared_only_with_friends hshared
    rw [hdb] at hf
    exact ⟨f, hf, hbetween, hI.consented hf haccepted⟩
  · intro userId limit found hother hitems
    obtain ⟨f, hf, hbetween, haccepted⟩ := saved_only_of_friends hother hitems
    rw [hdb] at hf
    exact ⟨f, hf, hbetween, hI.consented hf haccepted⟩

def befriended : Log × World :=
  (replay Runs.anyStep step [] (noFriends [1, 2]) answeredInTurn).getD ([], noFriends [1, 2])

/-- User 2 answers user 1 with a request of their own: the row is accepted, and it has their consent. -/
theorem friendship_needs_consent_answered :
    (∃ f ∈ befriended.2.table.rows, f.status = .accepted) ∧
      ∀ f ∈ befriended.2.table.rows, f.status = .accepted → Consented [1, 2] befriended.1 f := by
  have hrun : Run (guarded Runs.anyStep step) [] (noFriends [1, 2]) befriended.1 befriended.2 :=
    replay_getD_run _ _ _ _ answeredInTurn _ (by decide)
  exact ⟨by decide, (friendship_needs_consent hrun).1⟩

end WarsawEvents.Friends
