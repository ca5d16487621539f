import WarsawEvents.RowSecurity.Endpoints

/-! # Statements that the table owner and the runtime role run alike

Two sessions that differ in their role only. A statement whose condition implies the policy of its
table, under the pinned identity, returns the same rows and leaves the same database in both; the
lemmas below say so for each statement, in the form the endpoints' proofs chain.
-/

namespace WarsawEvents.RowSecurity
set_option autoImplicit false

open Coupling

/-! ## Two sessions that differ in their role -/

def Split (s t : Sess) : Prop := s.role = .owner ∧ t = { s with role := .runtime }

/-- Before the first write: both have the identity `me` pinned and see `db`. -/
def Mirror (me : Option ℕ) (db : Db) (s t : Sess) : Prop := Split s t ∧ s.pinned = me ∧ s.view = db

variable {me : Option ℕ} {db : Db} {ρ α β : Type} {T : Table ρ} {p : ρ → Bool} {crash : Response}
  {f g : α → Handler β} {post : β → Sess → Sess → Prop}

@[simp] theorem owner_admits {s : Sess} {b : Bool} (h : s.role = .owner) : s.admits b = true := by
  simp [Sess.admits, h]

@[simp] theorem runtime_admits {s : Sess} {b : Bool} (h : s.role = .runtime) : s.admits b = b := by
  simp [Sess.admits, h]

theorem Mirror.split {s t : Sess} (h : Mirror me db s t) : Split s t := h.1

/-! ## Statements both roles run alike -/

theorem exec_select (s : Sess) : exec (select T p : Handler (List ρ)) s =
    (.ok ((T.rows s.view).filter fun r => p r && s.admits (T.forSelect s.view s.pinned r)), s) := rfl

theorem exec_select_owner {s : Sess} (hrole : s.role = .owner) :
    exec (select T p : Handler (List ρ)) s = (.ok ((T.rows s.view).filter p), s) := by
  rw [exec_select]
  have hall : ((T.rows s.view).filter fun r => p r && s.admits (T.forSelect s.view s.pinned r)) =
      (T.rows s.view).filter p := List.filter_congr fun r _ => by simp [hrole]
  rw [hall]

/-- A query whose condition implies the policy: both get the rows that meet it. -/
theorem select_mirror (hp : ∀ r ∈ T.rows db, p r = true → T.forSelect db me r = true) :
    Couples (Mirror me db) (select T p : Handler (List ρ)) (select T p)
      (fun rows s t => rows = (T.rows db).filter p ∧ Mirror me db s t) Split := by
  rintro s t hst
  obtain ⟨⟨hrole, rfl⟩, hpin, hview⟩ := id hst
  rw [exec_select, exec_select]
  have howner : ((T.rows s.view).filter fun r =>
      p r && s.admits (T.forSelect s.view s.pinned r)) = (T.rows db).filter p := by
    rw [hview]
    exact List.filter_congr fun r _ => by simp [hrole]
  have hruntime : ((T.rows s.view).filter fun r =>
      p r && Sess.admits { s with role := .runtime } (T.forSelect s.view s.pinned r)) =
      (T.rows db).filter p := by
    rw [hview, hpin]
    refine List.filter_congr fun r hr => ?_
    cases hpr : p r with
    | true => simp [hp r hr hpr]
    | false => rfl
  simp only [howner, hruntime]
  exact Alike.ok ⟨rfl, hst⟩

theorem select_then {f g : List ρ → Handler β}
    (hp : ∀ r ∈ T.rows db, p r = true → T.forSelect db me r = true)
    (hk : Couples (Mirror me db) (f ((T.rows db).filter p)) (g ((T.rows db).filter p)) post Split) :
    Couples (Mirror me db) (select T p >>= f) (select T p >>= g) post Split := by
  refine Couples.bind (select_mirror hp) fun rows => Couples.assume (fun _ _ h => h.1) ?_
  rintro rfl
  exact hk.conseq (fun _ _ h => h.2) fun _ _ _ h => h

/-- Lookups by key in a table without policies. -/
theorem getById_then {f g : Option ρ → Handler β} {id : ℕ} (hopen : T.forSelect = fun _ _ _ => true)
    (hk : Couples (Mirror me db) (f ((T.rows db).filter fun r => T.key r = id).head?)
      (g ((T.rows db).filter fun r => T.key r = id).head?) post Split) :
    Couples (Mirror me db) (getById T id >>= f) (getById T id >>= g) post Split := by
  unfold getById
  rw [bind_assoc, bind_assoc]
  refine select_then (fun _ _ _ => by rw [hopen]) ?_
  simpa using hk

/-- What an `INSERT` refuses. -/
def insertRefused (T : Table ρ) (s : Sess) (r : ρ) : Bool :=
  !insertAllowed T s r || !T.accepts s.view r || (T.rows s.view).any (T.clashes r)

/-- The session with a row added. -/
def Sess.added (s : Sess) (T : Table ρ) (r : ρ) : Sess :=
  { s with view := T.put s.view (T.rows s.view ++ [r]) }

theorem exec_insert (s : Sess) (r : ρ) : exec (insert T crash r) s =
    if insertRefused T s r = true then (.error crash, s) else (.ok r, s.added T r) := by
  by_cases h : insertRefused T s r = true
  · rw [if_pos h]
    show exec (if insertRefused T s r = true then throw crash else _) s = _
    rw [if_pos h]
    rfl
  · rw [if_neg h]
    show exec (if insertRefused T s r = true then throw crash else _) s = _
    rw [if_neg h]
    rfl

theorem insertAllowed_mirror {s t : Sess} (hst : Mirror me db s t) {r : ρ}
    (hins : T.forInsert me r = true) (hsel : T.forSelect db me r = true) :
    insertAllowed T s r = true ∧ insertAllowed T t r = true := by
  obtain ⟨⟨hrole, rfl⟩, hpin, hview⟩ := hst
  unfold insertAllowed
  refine ⟨by simp [hrole], ?_⟩
  simp [hpin, hview, hins, hsel]

theorem insert_mirror {r : ρ} (hins : T.forInsert me r = true) (hsel : T.forSelect db me r = true) :
    Couples (Mirror me db) (insert T crash r) (insert T crash r) (fun _ => Split) Split := by
  rintro s t hst
  obtain ⟨hs, ht⟩ := insertAllowed_mirror hst hins hsel
  obtain ⟨⟨hrole, rfl⟩, _, _⟩ := hst
  have hsame : insertRefused T { s with role := Role.runtime } r = insertRefused T s r := by
    unfold insertRefused
    rw [hs, ht]
  rw [exec_insert, exec_insert]
  simp only [hsame]
  split
  · exact Alike.error ⟨hrole, rfl⟩
  · exact Alike.ok ⟨hrole, rfl⟩

/-- A row that the table cannot take is refused to both. -/
theorem insert_mirror_refused {r : ρ} (hbad : T.accepts db r = false) :
    Couples (Mirror me db) (insert T crash r) (insert T crash r) (fun _ _ _ => False) Split := by
  rintro s t ⟨⟨hrole, rfl⟩, _, hview⟩
  have hrefused : ∀ s' : Sess, s'.view = db → insertRefused T s' r = true := by
    intro s' hs'
    simp [insertRefused, hs', hbad]
  simp only [exec_insert, hrefused s hview, hrefused { s with role := Role.runtime } hview, if_true]
  exact Alike.error ⟨hrole, rfl⟩

theorem exec_insertIgnore (s : Sess) (r : ρ) : exec (insertIgnore T crash r) s =
    if insertAllowed T s r = false then (.error crash, s)
    else if (T.rows s.view).any (T.clashes r) = true then (.ok (), s)
    else if T.accepts s.view r = false then (.error crash, s)
    else (.ok (), s.added T r) := by
  have hrun : exec (insertIgnore T crash r) s = exec
      (if (!insertAllowed T s r) = true then throw crash
      else if (T.rows s.view).any (T.clashes r) = true then pure ()
      else if (!T.accepts s.view r) = true then throw crash
      else set (s.added T r)) s := rfl
  rw [hrun]
  simp only [Bool.not_eq_true']
  split
  · rfl
  · split
    · rfl
    · split <;> rfl

/-- Refused, ignored, or a new row that the schema accepts. -/
theorem exec_insertIgnore_cases (s : Sess) (r : ρ) :
    exec (insertIgnore T crash r) s = (.error crash, s) ∨
    exec (insertIgnore T crash r) s = (.ok (), s) ∨
    (T.accepts s.view r = true ∧ exec (insertIgnore T crash r) s = (.ok (), s.added T r)) := by
  rw [exec_insertIgnore]
  split
  · exact .inl rfl
  · split
    · exact .inr (.inl rfl)
    · split
      · exact .inl rfl
      · rename_i hfits
        exact .inr (.inr ⟨Bool.eq_true_of_not_eq_false hfits, rfl⟩)

theorem insertIgnore_mirror {r : ρ} (hins : T.forInsert me r = true)
    (hsel : T.forSelect db me r = true) :
    Couples (Mirror me db) (insertIgnore T crash r) (insertIgnore T crash r)
      (fun _ => Split) Split := by
  rintro s t hst
  obtain ⟨hs, ht⟩ := insertAllowed_mirror hst hins hsel
  obtain ⟨⟨hrole, rfl⟩, _, _⟩ := hst
  rw [exec_insertIgnore, exec_insertIgnore]
  simp only [hs, ht, Bool.true_eq_false, if_false]
  split
  · exact Alike.ok ⟨hrole, rfl⟩
  · split
    · exact Alike.error ⟨hrole, rfl⟩
    · exact Alike.ok ⟨hrole, rfl⟩

/-- The rows an `UPDATE` or a `DELETE` reaches. -/
def hits (s : Sess) (T : Table ρ) (policy : Option ℕ → ρ → Bool) (p : ρ → Bool) (r : ρ) : Bool :=
  p r && s.admits (T.forSelect s.view s.pinned r) && s.admits (policy s.pinned r)

theorem hits_mirror {policy : Option ℕ → ρ → Bool} {s t : Sess} (hst : Mirror me db s t)
    (hp : ∀ r ∈ T.rows db, p r = true →
      T.forSelect db me r = true ∧ policy me r = true) :
    ∀ r ∈ T.rows db, hits s T policy p r = p r ∧ hits t T policy p r = p r := by
  obtain ⟨⟨hrole, rfl⟩, hpin, hview⟩ := hst
  intro r hr
  unfold hits
  refine ⟨by simp [hrole], ?_⟩
  rw [hview, hpin]
  cases hpr : p r with
  | true => simp [hp r hr hpr]
  | false => rfl

/-- What an `UPDATE` refuses: a new row the policy does not admit. -/
def updateRefused (T : Table ρ) (s : Sess) (p : ρ → Bool) (h : ρ → ρ) : Bool :=
  (T.rows s.view).any fun r => hits s T T.forUpdate p r && !s.admits (T.forUpdate s.pinned (h r))

def Sess.updated (s : Sess) (T : Table ρ) (p : ρ → Bool) (h : ρ → ρ) : Sess :=
  let rows := (T.rows s.view).map fun r => if hits s T T.forUpdate p r then h r else r
  { s with view := T.put s.view rows }

theorem exec_update (s : Sess) (h : ρ → ρ) : exec (update T crash p h) s =
    if updateRefused T s p h = true then (.error crash, s) else (.ok (), s.updated T p h) := by
  have hrun : exec (update T crash p h) s = exec
      (if updateRefused T s p h = true then throw crash else set (s.updated T p h)) s := rfl
  rw [hrun]
  split <;> rfl

theorem updated_eq {s : Sess} {h : ρ → ρ} (hview : s.view = db)
    (hhits : ∀ r ∈ T.rows db, hits s T T.forUpdate p r = p r) : s.updated T p h =
      { s with view := T.put db ((T.rows db).map fun r => if p r then h r else r) } := by
  have hrows : ((T.rows db).map fun r => if hits s T T.forUpdate p r then h r else r) =
      (T.rows db).map fun r => if p r then h r else r :=
    List.map_congr_left fun r hmem => by rw [hhits r hmem]
  unfold Sess.updated
  rw [hview, hrows]

theorem updateRefused_eq {s : Sess} {h : ρ → ρ} (hview : s.view = db) (hpin : s.pinned = me)
    (hhits : ∀ r ∈ T.rows db, hits s T T.forUpdate p r = p r)
    (hp : ∀ r ∈ T.rows db, p r = true → T.forUpdate me (h r) = true) :
    updateRefused T s p h = false := by
  unfold updateRefused
  rw [hview, hpin, List.any_eq_false]
  intro r hmem
  rw [hhits r hmem]
  cases hpr : p r with
  | true => simp [Sess.admits, hp r hmem hpr]
  | false => simp

theorem update_mirror {h : ρ → ρ} (hp : ∀ r ∈ T.rows db, p r = true →
      T.forSelect db me r = true ∧ T.forUpdate me r = true ∧
        T.forUpdate me (h r) = true) :
    Couples (Mirror me db) (update T crash p h) (update T crash p h)
      (fun _ => Split) Split := by
  rintro s t hst
  have hhits := hits_mirror hst fun r hr hpr => ⟨(hp r hr hpr).1, (hp r hr hpr).2.1⟩
  have hnew : ∀ r ∈ T.rows db, p r = true → T.forUpdate me (h r) = true :=
    fun r hr hpr => (hp r hr hpr).2.2
  obtain ⟨⟨hrole, rfl⟩, hpin, hview⟩ := hst
  have hs := fun r hr => (hhits r hr).1
  have ht := fun r hr => (hhits r hr).2
  rw [exec_update, exec_update, updateRefused_eq hview hpin hs hnew, updated_eq hview hs,
    updateRefused_eq (s := { s with role := Role.runtime }) hview hpin ht hnew,
    updated_eq (s := { s with role := Role.runtime }) hview ht]
  exact Alike.ok ⟨hrole, rfl⟩

def Sess.deleted (s : Sess) (T : Table ρ) (p : ρ → Bool) : Sess :=
  let rows := (T.rows s.view).filter fun r => !hits s T T.forDelete p r
  { s with view := T.put s.view rows }

theorem exec_delete (s : Sess) : exec (delete T p : Handler Unit) s = (.ok (), s.deleted T p) := rfl

theorem deleted_eq {s : Sess} (hview : s.view = db)
    (hhits : ∀ r ∈ T.rows db, hits s T T.forDelete p r = p r) : s.deleted T p =
      { s with view := T.put db ((T.rows db).filter fun r => !p r) } := by
  have hrows : ((T.rows db).filter fun r => !hits s T T.forDelete p r) =
      (T.rows db).filter fun r => !p r :=
    List.filter_congr fun r hmem => by rw [hhits r hmem]
  unfold Sess.deleted
  rw [hview, hrows]

theorem exec_delete_owner {s : Sess} (hrole : s.role = .owner) :
    exec (delete T p : Handler Unit) s =
      (.ok (), { s with view := T.put s.view ((T.rows s.view).filter fun r => !p r) }) := by
  have hhits : ∀ r ∈ T.rows s.view, hits s T T.forDelete p r = p r := by
    intro r _
    simp [hits, hrole]
  rw [exec_delete, deleted_eq rfl hhits]

theorem delete_mirror (hp : ∀ r ∈ T.rows db, p r = true →
      T.forSelect db me r = true ∧ T.forDelete me r = true) :
    Couples (Mirror me db) (delete T p : Handler Unit) (delete T p) (fun _ => Split) Split := by
  rintro s t hst
  have hhits := hits_mirror hst hp
  obtain ⟨⟨hrole, rfl⟩, _, hview⟩ := hst
  rw [exec_delete, exec_delete, deleted_eq hview fun r hr => (hhits r hr).1,
    deleted_eq (s := { s with role := Role.runtime }) hview fun r hr => (hhits r hr).2]
  exact Alike.ok ⟨hrole, rfl⟩

/-! ## After the write -/

theorem commit_split : Couples Split (commit : Handler Unit) commit (fun _ => Split) Split := by
  rintro s t ⟨hrole, rfl⟩
  exact Alike.ok ⟨hrole, rfl⟩

/-- A write, the commit, and the answer. -/
theorem write_commit {w : Handler α} {r : Response}
    (hw : Couples (Mirror me db) w w (fun _ => Split) Split) :
    Couples (Mirror me db) (w >>= fun _ => commit >>= fun _ => pure r)
      (w >>= fun _ => commit >>= fun _ => pure r) (fun _ => Split) Split :=
  Couples.bind hw fun _ => Couples.bind commit_split fun _ => Couples.pure fun _ _ h => h

theorem answer (r : α) : Couples (Mirror me db) (pure r : Handler α) (pure r) (fun _ => Split) Split :=
  Couples.pure fun _ _ h => h.split

theorem refuse (r : Response) :
    Couples (Mirror me db) (throw r : Handler α) (throw r) (fun _ => Split) Split :=
  Couples.throw fun _ _ h => h.split

theorem oneOrNone_then {f g : Option ρ → Handler β} {rows : List ρ}
    (hk : ∀ row : Option ρ, (∀ r ∈ row, r ∈ rows) → Couples (Mirror me db) (f row) (g row) post Split) :
    Couples (Mirror me db) (oneOrNone crash rows >>= f) (oneOrNone crash rows >>= g) post Split := by
  match rows with
  | [] => exact hk none (by simp)
  | [r] => exact hk (some r) (by simp)
  | r :: r' :: rest =>
    have hcrash : Couples (Mirror me db) (oneOrNone crash (r :: r' :: rest))
        (oneOrNone crash (r :: r' :: rest)) (fun _ _ _ => False) Split :=
      Couples.throw fun _ _ h => h.split
    exact Couples.bind hcrash fun _ _ _ h => h.elim

end WarsawEvents.RowSecurity
