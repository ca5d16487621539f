import WarsawEvents.Foundations.Runs
import WarsawEvents.Friends.Requests

/-! # One friendship row for each pair of users

Any number of requests under way at once. Each reads in its own transaction and writes later, at its
commit, whatever the table has become. `uq_friendship_pair` covers one direction only, so an `INSERT`
that commits over a row of the other direction leaves two rows for one pair.
-/

namespace WarsawEvents.Friends
set_option autoImplicit false

open RowSecurity (Friendship Response)
open Runs

/-! ## Requests under way -/

structure Job where
  me : ℕ
  userId : ℕ
  action : Action
  plan : Plan
  deriving DecidableEq

/-- A request that has ended, with its response. -/
structure Done where
  me : ℕ
  userId : ℕ
  action : Action
  response : Response
  deriving DecidableEq

structure World where
  table : Table
  jobs : List Job := []
  deriving DecidableEq

inductive Move where
  | start (me userId : ℕ) (action : Action)
  | commit (i now : ℕ)
  deriving DecidableEq

/-- One transaction reads, or writes and commits. -/
def step (w : World) : Move → Option (World × Option Done)
  | .start me userId action =>
    if w.table.users.contains me then
      match plan w.table me userId action with
      | .error r => some (w, some ⟨me, userId, action, r⟩)
      | .ok p => some ({ w with jobs := w.jobs ++ [⟨me, userId, action, p⟩] }, none)
    else none
  | .commit i now =>
    match w.jobs[i]? with
    | none => none
    | some j =>
      match j.plan.write w.table now j.me j.userId with
      | .error r => some ({ w with jobs := w.jobs.eraseIdx i }, some ⟨j.me, j.userId, j.action, r⟩)
      | .ok (r, t) =>
        some ({ table := t, jobs := w.jobs.eraseIdx i }, some ⟨j.me, j.userId, j.action, r⟩)

/-- Everything one move can do to the table. -/
theorem step_table {w w' : World} {move : Move} {done : Option Done}
    (h : step w move = some (w', done)) :
    w'.table = w.table ∨ ∃ i now j answer, move = .commit i now ∧ w.jobs[i]? = some j ∧
      j.plan.write w.table now j.me j.userId = .ok (answer, w'.table) ∧
        done = some ⟨j.me, j.userId, j.action, answer⟩ := by
  cases move with
  | start me userId action =>
    refine .inl ?_
    simp only [step] at h
    split at h
    · split at h
      · cases h
        rfl
      · cases h
        rfl
    · cases h
  | commit i now =>
    simp only [step] at h
    split at h
    · cases h
    · rename_i j hj
      split at h
      · cases h
        exact .inl rfl
      · rename_i answer t hwrite
        cases h
        exact .inr ⟨i, now, j, answer, rfl, hj, hwrite, rfl⟩

/-- A request whose commit follows its reads is the endpoint served alone. -/
theorem step_alone {t : Table} {me userId : ℕ} {action : Action} {p : Plan}
    (hme : t.users.contains me = true) (hp : plan t me userId action = .ok p) (now : ℕ) :
    (step ⟨t, []⟩ (.start me userId action)).bind (fun w => step w.1 (.commit 0 now)) =
      some (⟨(attempt t now me userId action).2, []⟩,
        some ⟨me, userId, action, (attempt t now me userId action).1⟩) := by
  have hstart : step ⟨t, []⟩ (.start me userId action) =
      some (⟨t, [⟨me, userId, action, p⟩]⟩, none) := by
    simp only [step, hme, if_true, hp, List.nil_append]
  have hattempt : readWrite t now me userId action = p.write t now me userId := by
    simp only [readWrite, hp, Except.bind]
  rw [hstart, Option.bind_some]
  simp only [step, List.getElem?_cons_zero, attempt, hattempt]
  cases p.write t now me userId with
  | error r => rfl
  | ok done => rfl

/-! ## The rows of a pair -/

/-- At most one row for each pair, in whichever direction. -/
def OnePerPair (rows : List Friendship) : Prop :=
  ∀ a b, (rows.filter (between a b)).length ≤ 1

/-- The reads of one pair never raise. -/
theorem friendshipOf_ok {rows : List Friendship} (h : OnePerPair rows) (a b : ℕ) :
    ∃ row, friendshipOf rows a b = .ok row := by
  have hone := h a b
  unfold friendshipOf
  match hrows : rows.filter (between a b) with
  | [] => exact ⟨none, rfl⟩
  | [f] => exact ⟨some f, rfl⟩
  | f :: g :: rest =>
    rw [hrows] at hone
    simp at hone

theorem between_of_same {a b : ℕ} {f g : Friendship} (hf : between a b f = true)
    (hg : between a b g = true) : between f.requesterId f.addresseeId g = true := by
  simp only [between, Bool.or_eq_true, Bool.and_eq_true, decide_eq_true_eq] at *
  omega

theorem filter_acceptRow (rows : List Friendship) (id a b : ℕ) :
    ((acceptRow rows id).filter (between a b)).length = (rows.filter (between a b)).length := by
  have hsame : between a b ∘ (fun f : Friendship =>
      if f.id = id then { f with status := .accepted } else f) = between a b := by
    funext f
    simp only [Function.comp]
    split
    · rfl
    · rfl
  unfold acceptRow
  rw [List.filter_map, List.length_map, hsame]

theorem onePerPair_filter {rows : List Friendship} (h : OnePerPair rows)
    (p : Friendship → Bool) : OnePerPair (rows.filter p) := by
  intro a b
  have hsub : ((rows.filter p).filter (between a b)).Sublist (rows.filter (between a b)) :=
    List.filter_sublist.filter _
  exact hsub.length_le.trans (h a b)

/-- Whether a row of the other direction is there. -/
def opposed (t : Table) (me userId : ℕ) : Bool :=
  t.rows.any fun f => f.requesterId = userId && f.addresseeId = me

/-- The row an `INSERT` adds keeps one row for each pair exactly when it finds none of the other
direction. -/
theorem onePerPair_insert {t : Table} {me userId now : ℕ} (h : OnePerPair t.rows)
    (hdirect : (t.rows.any fun f => f.requesterId = me && f.addresseeId = userId) = false) :
    OnePerPair (t.rows ++ [newRow now me userId t.nextId]) ↔ opposed t me userId = false := by
  have hnew : between me userId (newRow now me userId t.nextId) = true := by
    simp [between, newRow]
  constructor
  · intro hone
    by_contra hopp
    rw [Bool.not_eq_false] at hopp
    obtain ⟨f, hf, hends⟩ := List.any_eq_true.mp hopp
    have hbetween : between me userId f = true := by
      simp only [between, Bool.or_eq_true]
      exact .inr hends
    have hmem : f ∈ t.rows.filter (between me userId) := List.mem_filter.mpr ⟨hf, hbetween⟩
    have hpos : 0 < (t.rows.filter (between me userId)).length := List.length_pos_of_mem hmem
    have htwo := hone me userId
    rw [List.filter_append, List.length_append, List.filter_singleton, hnew] at htwo
    rw [cond_true, List.length_singleton] at htwo
    omega
  · intro hopp a b
    rw [List.filter_append, List.length_append, List.filter_singleton]
    by_cases hab : between a b (newRow now me userId t.nextId) = true
    · have hnone : t.rows.filter (between a b) = [] := by
        rw [List.filter_eq_nil_iff]
        intro f hf hfab
        have hends : between me userId f = true := between_of_same hab hfab
        simp only [between, Bool.or_eq_true] at hends
        obtain hsame | hother := hends
        · exact absurd hsame (List.any_eq_false.mp hdirect f hf)
        · exact absurd hother (List.any_eq_false.mp hopp f hf)
      rw [hnone, hab]
      simp
    · rw [Bool.not_eq_true] at hab
      rw [hab]
      simpa using h a b

/-! ## Every run -/

/-- The one write that can go wrong: an `INSERT` committed over a row of the other direction. -/
def unopposed (w : World) : Move → Bool
  | .start _ _ _ => true
  | .commit i _ =>
    match w.jobs[i]? with
    | none => true
    | some j => j.plan ≠ .insert || !opposed w.table j.me j.userId

theorem write_onePerPair {t t' : Table} {now me userId : ℕ} {p : Plan} {r : Response}
    (h : OnePerPair t.rows) (hwrite : p.write t now me userId = .ok (r, t')) :
    OnePerPair t'.rows ↔ (p ≠ .insert ∨ opposed t me userId = false) := by
  cases p with
  | insert =>
    simp only [Plan.write] at hwrite
    split at hwrite
    · cases hwrite
    · rename_i hfree
      cases hwrite
      rw [Bool.not_eq_true, any_or, Bool.or_eq_false_iff] at hfree
      simp [onePerPair_insert h hfree.2]
  | accept id =>
    simp only [Plan.write] at hwrite
    split at hwrite
    · cases hwrite
      have hkept : OnePerPair (acceptRow t.rows id) := fun a b =>
        (filter_acceptRow t.rows id a b).le.trans (h a b)
      simp [hkept]
    · cases hwrite
  | decline =>
    cases hwrite
    simp [onePerPair_filter h]
  | remove =>
    cases hwrite
    simp [onePerPair_filter h]

theorem step_onePerPair {w w' : World} {move : Move} {done : Option Done}
    (h : OnePerPair w.table.rows) (hstep : step w move = some (w', done))
    (hfree : unopposed w move = true) : OnePerPair w'.table.rows := by
  obtain hsame | ⟨i, now, j, answer, rfl, hj, hwrite, _⟩ := step_table hstep
  · rw [hsame]
    exact h
  · apply (write_onePerPair h hwrite).mpr
    simpa [unopposed, hj] using hfree

theorem friendships_one_per_pair {w₀ w : World} {es : List (Move × Option Done)}
    (h₀ : OnePerPair w₀.table.rows)
    (hrun : Run (guarded (fun _ w move => unopposed w move = true) step) [] w₀ es w) :
    OnePerPair w.table.rows ∧ ∀ a b, ∃ row, friendshipOf w.table.rows a b = .ok row := by
  have hone : OnePerPair w.table.rows := by
    refine hrun.invariant_of_init (fun _ w => OnePerPair w.table.rows) ?_ h₀
    intro past w e w' hw hstep
    exact step_onePerPair hw hstep.2 hstep.1
  exact ⟨hone, friendshipOf_ok hone⟩

/-! ## Two users ask each other -/

def twoUsers : World where
  table := { users := [1, 2] }

def answeredInTurn : List Move :=
  [.start 1 2 .request, .commit 0 10, .start 2 1 .request, .commit 0 20]

def askedAtOnce : List Move :=
  [.start 1 2 .request, .start 2 1 .request, .commit 0 10, .commit 0 20]

def afterAnswer : List (Move × Option Done) × World :=
  (replay (fun _ w move => unopposed w move = true) step [] twoUsers answeredInTurn).getD ([], twoUsers)

def afterBoth : List (Move × Option Done) × World :=
  (replay Runs.anyStep step [] twoUsers askedAtOnce).getD ([], twoUsers)

theorem friendships_one_per_pair_answered :
    afterAnswer.2.table.rows.length = 1 ∧ OnePerPair afterAnswer.2.table.rows ∧
      ∀ a b, ∃ row, friendshipOf afterAnswer.2.table.rows a b = .ok row := by
  have hempty : OnePerPair twoUsers.table.rows := fun _ _ => Nat.zero_le 1
  have hrun : Run (guarded (fun _ w move => unopposed w move = true) step) [] twoUsers afterAnswer.1
      afterAnswer.2 := replay_getD_run _ _ _ _ answeredInTurn _ (by decide)
  exact ⟨by decide, friendships_one_per_pair hempty hrun⟩

/-- Both read before either writes, and each inserts its own direction. -/
theorem two_rows_for_one_pair : ∃ es w, Run (guarded Runs.anyStep step) [] twoUsers es w ∧
    ¬ OnePerPair w.table.rows ∧ friendshipOf w.table.rows 1 2 = .error .serverError := by
  have hrun : Run (guarded Runs.anyStep step) [] twoUsers afterBoth.1 afterBoth.2 :=
    replay_getD_run _ _ _ _ askedAtOnce _ (by decide)
  refine ⟨afterBoth.1, afterBoth.2, hrun, ?_, by decide⟩
  intro hone
  have htwo : (afterBoth.2.table.rows.filter (between 1 2)).length = 2 := by decide
  have hle := hone 1 2
  omega

end WarsawEvents.Friends
