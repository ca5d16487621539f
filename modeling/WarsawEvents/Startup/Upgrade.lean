import Mathlib.Data.List.Nodup
import WarsawEvents.Startup.Schema

/-! # Upgrading a database while services start

An earlier version's database lacks tables, or what `_ensure_*` adds to the tables it has. Any number of
processes run `_create_schema` on it at once, are refused or killed, and lose their connections.
-/

namespace WarsawEvents.Startup
open Accounts (User)
open Stages (Program Process)
set_option autoImplicit false

/-! ## What is there and what may come later -/

section Fits
variable {α κ : Type} {key : String × α → κ} {all later entries : List (String × α)} {tables : List String}
  {e a : String × α}

/-- Of the wanted entries, each is there with its table, or its key is free; and when the table is there
without it, it is one that comes later. -/
def Fits (key : String × α → κ) (all later : List (String × α)) (tables : List String)
    (entries : List (String × α)) : Prop :=
  ∀ e ∈ all, (e.1 ∈ tables ∧ e ∈ entries) ∨
    ((e.1 ∈ tables → e ∈ later) ∧ ∀ x ∈ entries, key x ≠ key e)

/-- The key of a wanted entry names it among the wanted ones. -/
def Keyed (key : String × α → κ) (all : List (String × α)) : Prop :=
  ∀ e ∈ all, ∀ x ∈ all, key x = key e → x = e

theorem Fits.add (h : Fits key all later tables entries) (hkeyed : Keyed key all) (ha : a ∈ all)
    (htable : a.1 ∈ tables) : Fits key all later tables (entries ++ [a]) := by
  intro e he
  obtain ⟨htab, hmem⟩ | ⟨hlater, hfree⟩ := h e he
  · exact Or.inl ⟨htab, List.mem_append_left _ hmem⟩
  · by_cases hkey : key a = key e
    · obtain rfl := hkeyed e he a ha hkey
      exact Or.inl ⟨htable, List.mem_append_right _ (List.mem_singleton.mpr rfl)⟩
    · refine Or.inr ⟨hlater, fun x hx => ?_⟩
      obtain hold | hnew := List.mem_append.mp hx
      · exact hfree x hold
      · rw [List.mem_singleton.mp hnew]
        exact hkey

/-- An entry whose key is taken is there. -/
theorem Fits.taken (h : Fits key all later tables entries) (ha : a ∈ all) {x : String × α}
    (hx : x ∈ entries) (hkey : key x = key a) : a ∈ entries := by
  obtain ⟨_, hmem⟩ | ⟨_, hfree⟩ := h a ha
  · exact hmem
  · exact absurd hkey (hfree x hx)

theorem Fits.addTable (h : Fits key all later tables entries) (hkeyed : Keyed key all) {name : String}
    {new : List (String × α)} (hnew : ∀ e, e ∈ new ↔ e ∈ all ∧ e.1 = name) :
    Fits key all later (tables ++ [name]) (entries ++ new) := by
  intro e he
  obtain ⟨htab, hmem⟩ | ⟨hlater, hfree⟩ := h e he
  · exact Or.inl ⟨List.mem_append_left _ htab, List.mem_append_left _ hmem⟩
  · by_cases hname : e.1 = name
    · refine Or.inl ⟨?_, List.mem_append_right _ ((hnew e).mpr ⟨he, hname⟩)⟩
      rw [hname]
      exact List.mem_append_right _ (List.mem_singleton.mpr rfl)
    · refine Or.inr ⟨fun htab => ?_, fun x hx => ?_⟩
      · obtain hold | hlast := List.mem_append.mp htab
        · exact hlater hold
        · exact absurd (List.mem_singleton.mp hlast) hname
      · obtain hold | hadded := List.mem_append.mp hx
        · exact hfree x hold
        · intro hkey
          obtain ⟨hall, hx1⟩ := (hnew x).mp hadded
          exact hname (hkeyed e he x hall hkey ▸ hx1)

/-- With every table and every later entry there, all of them are. -/
theorem Fits.complete (h : Fits key all later tables entries) (htables : ∀ e ∈ all, e.1 ∈ tables)
    (hlater : later ⊆ entries) : all ⊆ entries := by
  intro e he
  obtain ⟨_, hmem⟩ | ⟨hcomes, _⟩ := h e he
  · exact hmem
  · exact hlater (hcomes (htables e he))

end Fits

/-! ## The wanted entries -/

def allColumns : List (String × Column) := metadata.flatMap fun t => t.columns.map fun c => (t.name, c)

def allConstraints : List (String × Constraint) :=
  metadata.flatMap fun t => t.constraints.map fun k => (t.name, k)

def allIndexes : List (String × Index) := metadata.flatMap fun t => t.indexes.map fun i => (t.name, i)

/-- A column is named within its table; a constraint and an index, in the whole schema. -/
def columnKey (c : String × Column) : String × String := (c.1, c.2.name)

def constraintKey (k : String × Constraint) : String := k.2.name

def indexKey (i : String × Index) : String := i.2.name

theorem keyed_of_nodup {α κ : Type} {key : String × α → κ} {all : List (String × α)}
    (h : (all.map key).Nodup) : Keyed key all :=
  fun _ he _ hx hkey => List.inj_on_of_nodup_map h hx he hkey

theorem columns_keyed : Keyed columnKey allColumns := keyed_of_nodup (by decide +kernel)

theorem constraints_keyed : Keyed constraintKey allConstraints := keyed_of_nodup (by decide +kernel)

theorem indexes_keyed : Keyed indexKey allIndexes := keyed_of_nodup (by decide +kernel)

theorem table_names_nodup : (metadata.map Table.name).Nodup := by decide +kernel

theorem mem_entries {α : Type} {part : Table → List α} {t : Table} (ht : t ∈ metadata) (e : String × α) :
    e ∈ (part t).map (fun x => (t.name, x)) ↔
      e ∈ metadata.flatMap (fun t => (part t).map fun x => (t.name, x)) ∧ e.1 = t.name := by
  constructor
  · intro he
    obtain ⟨x, hx, rfl⟩ := List.mem_map.mp he
    exact ⟨List.mem_flatMap.mpr ⟨t, ht, he⟩, rfl⟩
  · rintro ⟨he, hname⟩
    obtain ⟨t', ht', hmem⟩ := List.mem_flatMap.mp he
    obtain ⟨x, hx, rfl⟩ := List.mem_map.mp hmem
    obtain rfl := List.inj_on_of_nodup_map table_names_nodup ht' ht hname
    exact hmem

/-- What an earlier version of the service may have left. -/
structure Upgradable (db : Database) : Prop where
  columns : Fits columnKey allColumns (laterColumns.map fun c => ("users", c)) db.tables db.columns
  constraints : Fits constraintKey allConstraints laterChecks db.tables db.constraints
  indexes : Fits indexKey allIndexes laterIndexes db.tables db.indexes

/-- In a new database, whichever extensions it has, nothing is in the way. -/
theorem upgradable_empty (extensions : List String) : Upgradable { extensions := extensions } where
  columns _ _ := Or.inr ⟨fun htable => absurd htable List.not_mem_nil, nofun⟩
  constraints _ _ := Or.inr ⟨fun htable => absurd htable List.not_mem_nil, nofun⟩
  indexes _ _ := Or.inr ⟨fun htable => absurd htable List.not_mem_nil, nofun⟩

/-- Everything that the service relies on. -/
structure Complete (db : Database) : Prop where
  tables : ∀ t ∈ metadata, t.name ∈ db.tables
  columns : allColumns ⊆ db.columns
  constraints : allConstraints ⊆ db.constraints
  indexes : allIndexes ⊆ db.indexes
  secured : ∀ t ∈ rlsPolicies, t.1 ∈ db.secured
  policies : ∀ t ∈ rlsPolicies, ∀ p ∈ t.2, (t.1, p) ∈ db.policies

/-! ## One statement -/

/-- The statements of `_create_schema` add what the models declare. -/
def Statement.Ours : Statement → Prop
  | .createTable t => t ∈ metadata
  | .addColumn table c => (table, c) ∈ allColumns
  | .createIndex table i => (table, i) ∈ allIndexes
  | .addCheck table k => (table, k) ∈ allConstraints
  | _ => True

instance : ∀ st : Statement, Decidable st.Ours
  | .createTable t => inferInstanceAs (Decidable (t ∈ metadata))
  | .addColumn table c => inferInstanceAs (Decidable ((table, c) ∈ allColumns))
  | .createIndex table i => inferInstanceAs (Decidable ((table, i) ∈ allIndexes))
  | .addCheck table k => inferInstanceAs (Decidable ((table, k) ∈ allConstraints))
  | .createExtension _ => .isTrue trivial
  | .verifyGoogle => .isTrue trivial
  | .enableRls _ => .isTrue trivial
  | .dropPolicy _ _ => .isTrue trivial
  | .createPolicy _ _ => .isTrue trivial

/-- Nothing but policies goes away. -/
structure Grows (db db' : Database) : Prop where
  extensions : db.extensions ⊆ db'.extensions
  tables : db.tables ⊆ db'.tables
  columns : db.columns ⊆ db'.columns
  constraints : db.constraints ⊆ db'.constraints
  indexes : db.indexes ⊆ db'.indexes
  secured : db.secured ⊆ db'.secured

/-- What a statement leaves true. -/
def Statement.Made (db : Database) : Statement → Prop
  | .createExtension name => name ∈ db.extensions
  | .createTable t => t.name ∈ db.tables
  | .addColumn table c => (table, c) ∈ db.columns
  | .createIndex table i => (table, i) ∈ db.indexes
  | .addCheck table k => (table, k) ∈ db.constraints
  | .enableRls table => table ∈ db.secured
  | _ => True

section Exec
variable {db db' db'' : Database} {st : Statement}

theorem Grows.refl (db : Database) : Grows db db :=
  ⟨fun _ h => h, fun _ h => h, fun _ h => h, fun _ h => h, fun _ h => h, fun _ h => h⟩

theorem Grows.trans (h : Grows db db') (h' : Grows db' db'') : Grows db db'' :=
  ⟨List.Subset.trans h.extensions h'.extensions, List.Subset.trans h.tables h'.tables,
    List.Subset.trans h.columns h'.columns, List.Subset.trans h.constraints h'.constraints,
    List.Subset.trans h.indexes h'.indexes, List.Subset.trans h.secured h'.secured⟩

theorem Statement.Made.mono (h : st.Made db) (hgrows : Grows db db') : st.Made db' := by
  cases st with
  | createExtension name => exact hgrows.extensions h
  | createTable t => exact hgrows.tables h
  | addColumn table c => exact hgrows.columns h
  | verifyGoogle => trivial
  | createIndex table i => exact hgrows.indexes h
  | addCheck table k => exact hgrows.constraints h
  | enableRls table => exact hgrows.secured h
  | dropPolicy table name => trivial
  | createPolicy table p => trivial

/-- What it would make is there by name. -/
def Statement.Present (db : Database) : Statement → Prop
  | .createExtension name => name ∈ db.extensions
  | .createTable t => t.name ∈ db.tables
  | .addColumn table c => ∃ x ∈ db.columns, columnKey x = columnKey (table, c)
  | .createIndex table i => ∃ x ∈ db.indexes, indexKey x = indexKey (table, i)
  | .addCheck table k => ∃ x ∈ db.constraints, constraintKey x = constraintKey (table, k)
  | .enableRls table => table ∈ db.secured
  | _ => False

/-- What the statements do, one case for each. -/
inductive Executed (db : Database) : Statement → Database → Prop
  | present {st : Statement} : st.Present db → Executed db st db
  | extension (name : String) :
      Executed db (.createExtension name) { db with extensions := db.extensions ++ [name] }
  | table {t : Table} : t.name ∉ db.tables → Executed db (.createTable t)
      { db with
        tables := db.tables ++ [t.name]
        columns := db.columns ++ t.columns.map fun c => (t.name, c)
        constraints := db.constraints ++ t.constraints.map fun k => (t.name, k)
        indexes := db.indexes ++ t.indexes.map fun i => (t.name, i) }
  | column {table : String} (c : Column) : table ∈ db.tables →
      Executed db (.addColumn table c) { db with columns := db.columns ++ [(table, c)] }
  | verified : Executed db .verifyGoogle { db with users := db.users.map backfilled }
  | index {table : String} (i : Index) : table ∈ db.tables →
      Executed db (.createIndex table i) { db with indexes := db.indexes ++ [(table, i)] }
  | check {table : String} (k : Constraint) : table ∈ db.tables →
      Executed db (.addCheck table k) { db with constraints := db.constraints ++ [(table, k)] }
  | secured (table : String) :
      Executed db (.enableRls table) { db with secured := db.secured ++ [table] }
  | dropped (table name : String) : Executed db (.dropPolicy table name)
      { db with policies := db.policies.filter fun p => !(p.1 = table && p.2.name = name) }
  | policy (table : String) (p : Policy) :
      Executed db (.createPolicy table p) { db with policies := db.policies ++ [(table, p)] }

theorem hasColumn_iff (table name : String) : db.hasColumn table name = true ↔
    ∃ x ∈ db.columns, columnKey x = (table, name) := by
  simp [Database.hasColumn, columnKey, Prod.ext_iff]

theorem hasConstraint_iff (name : String) : db.hasConstraint name = true ↔
    ∃ x ∈ db.constraints, constraintKey x = name := by
  simp [Database.hasConstraint, constraintKey]

theorem hasIndex_iff (name : String) : db.hasIndex name = true ↔
    ∃ x ∈ db.indexes, indexKey x = name := by
  simp [Database.hasIndex, indexKey]

theorem exec_executed (h : exec db st = some db') : Executed db st db' := by
  cases st with
  | createExtension name =>
    simp only [exec] at h
    split_ifs at h with hthere
    · cases h
      exact Executed.present hthere
    · cases h
      exact Executed.extension name
  | createTable t =>
    simp only [exec] at h
    split_ifs at h with hthere
    · cases h
      exact Executed.present hthere
    · cases h
      exact Executed.table hthere
  | addColumn table c =>
    simp only [exec] at h
    split_ifs at h with htable hthere
    · cases h
      exact Executed.present ((hasColumn_iff table c.name).mp hthere)
    · cases h
      exact Executed.column c htable
  | verifyGoogle =>
    simp only [exec] at h
    split_ifs at h
    cases h
    exact Executed.verified
  | createIndex table i =>
    simp only [exec] at h
    split_ifs at h with htable hthere
    · cases h
      exact Executed.present ((hasIndex_iff i.name).mp hthere)
    · cases h
      exact Executed.index i htable
  | addCheck table k =>
    simp only [exec] at h
    split_ifs at h with hthere htable
    · cases h
      exact Executed.present ((hasConstraint_iff k.name).mp hthere)
    · cases h
      exact Executed.check k htable
  | enableRls table =>
    simp only [exec] at h
    split_ifs at h with htable hthere
    · cases h
      exact Executed.present hthere
    · cases h
      exact Executed.secured table
  | dropPolicy table name =>
    cases h
    exact Executed.dropped table name
  | createPolicy table p =>
    simp only [exec] at h
    split_ifs at h
    cases h
    exact Executed.policy table p

theorem Executed.grows (h : Executed db st db') : Grows db db' := by
  cases h with
  | present _ => exact Grows.refl db
  | extension name => exact { Grows.refl db with extensions := List.subset_append_left _ _ }
  | table _ =>
    exact { Grows.refl db with
      tables := List.subset_append_left _ _
      columns := List.subset_append_left _ _
      constraints := List.subset_append_left _ _
      indexes := List.subset_append_left _ _ }
  | column c _ => exact { Grows.refl db with columns := List.subset_append_left _ _ }
  | verified => exact { Grows.refl db with }
  | index i _ => exact { Grows.refl db with indexes := List.subset_append_left _ _ }
  | check k _ => exact { Grows.refl db with constraints := List.subset_append_left _ _ }
  | secured table => exact { Grows.refl db with secured := List.subset_append_left _ _ }
  | dropped table name => exact { Grows.refl db with }
  | policy table p => exact { Grows.refl db with }

theorem Executed.upgradable (h : Executed db st db') (hours : st.Ours) (hup : Upgradable db) :
    Upgradable db' := by
  cases h with
  | present _ => exact hup
  | extension name => exact { hup with }
  | table _ =>
    exact ⟨hup.columns.addTable columns_keyed (mem_entries hours),
      hup.constraints.addTable constraints_keyed (mem_entries hours),
      hup.indexes.addTable indexes_keyed (mem_entries hours)⟩
  | column c htable => exact { hup with columns := hup.columns.add columns_keyed hours htable }
  | verified => exact { hup with }
  | index i htable => exact { hup with indexes := hup.indexes.add indexes_keyed hours htable }
  | check k htable => exact { hup with constraints := hup.constraints.add constraints_keyed hours htable }
  | secured table => exact { hup with }
  | dropped table name => exact { hup with }
  | policy table p => exact { hup with }

/-- By name is as good as made, where all entries of that name are the wanted ones. -/
theorem Executed.made (h : Executed db st db') (hours : st.Ours) (hup : Upgradable db) : st.Made db' := by
  cases h with
  | present hthere =>
    cases st with
    | createExtension name => exact hthere
    | createTable t => exact hthere
    | addColumn table c =>
      obtain ⟨x, hx, hkey⟩ := hthere
      exact hup.columns.taken hours hx hkey
    | createIndex table i =>
      obtain ⟨x, hx, hkey⟩ := hthere
      exact hup.indexes.taken hours hx hkey
    | addCheck table k =>
      obtain ⟨x, hx, hkey⟩ := hthere
      exact hup.constraints.taken hours hx hkey
    | enableRls table => exact hthere
    | _ => trivial
  | extension name => exact List.mem_append_right _ (List.mem_singleton.mpr rfl)
  | table _ => exact List.mem_append_right _ (List.mem_singleton.mpr rfl)
  | column c _ => exact List.mem_append_right _ (List.mem_singleton.mpr rfl)
  | verified => trivial
  | index i _ => exact List.mem_append_right _ (List.mem_singleton.mpr rfl)
  | check k _ => exact List.mem_append_right _ (List.mem_singleton.mpr rfl)
  | secured table => exact List.mem_append_right _ (List.mem_singleton.mpr rfl)
  | dropped table name => trivial
  | policy table p => trivial

end Exec

/-! ## One transaction -/

section Transactions
variable {db db' : Database} {statements : List Statement}

theorem runAll_cons {st : Statement} (h : runAll (st :: statements) db = some db') :
    ∃ mid, exec db st = some mid ∧ runAll statements mid = some db' := by
  unfold runAll at h
  rw [List.foldlM_cons] at h
  exact Option.bind_eq_some_iff.mp h

theorem runAll_grows (h : runAll statements db = some db') : Grows db db' := by
  induction statements generalizing db with
  | nil =>
    cases h
    exact Grows.refl _
  | cons st statements ih =>
    obtain ⟨mid, hexec, hrest⟩ := runAll_cons h
    exact (exec_executed hexec).grows.trans (ih hrest)

theorem runAll_upgradable (h : runAll statements db = some db') (hours : ∀ st ∈ statements, st.Ours)
    (hup : Upgradable db) : Upgradable db' := by
  induction statements generalizing db with
  | nil =>
    cases h
    exact hup
  | cons st statements ih =>
    obtain ⟨mid, hexec, hrest⟩ := runAll_cons h
    rw [List.forall_mem_cons] at hours
    exact ih hrest hours.2 ((exec_executed hexec).upgradable hours.1 hup)

theorem runAll_made (h : runAll statements db = some db') (hours : ∀ st ∈ statements, st.Ours)
    (hup : Upgradable db) : ∀ st ∈ statements, st.Made db' := by
  induction statements generalizing db with
  | nil => simp
  | cons st statements ih =>
    obtain ⟨mid, hexec, hrest⟩ := runAll_cons h
    rw [List.forall_mem_cons] at hours ⊢
    have hdone := exec_executed hexec
    exact ⟨(hdone.made hours.1 hup).mono (runAll_grows hrest),
      ih hrest hours.2 (hdone.upgradable hours.1 hup)⟩

/-- The statements that leave policies and secured tables alone. -/
def Statement.Plain : Statement → Bool
  | .enableRls _ => false
  | .dropPolicy _ _ => false
  | .createPolicy _ _ => false
  | _ => true

theorem runAll_plain (h : runAll statements db = some db')
    (hplain : ∀ st ∈ statements, st.Plain = true) :
    db'.secured = db.secured ∧ db'.policies = db.policies := by
  induction statements generalizing db with
  | nil =>
    cases h
    exact ⟨rfl, rfl⟩
  | cons st statements ih =>
    obtain ⟨mid, hexec, hrest⟩ := runAll_cons h
    rw [List.forall_mem_cons] at hplain
    obtain ⟨hsecured, hpolicies⟩ := ih hrest hplain.2
    rw [hsecured, hpolicies]
    cases exec_executed hexec with
    | secured table => exact absurd hplain.1 Bool.false_ne_true
    | dropped table name => exact absurd hplain.1 Bool.false_ne_true
    | policy table p => exact absurd hplain.1 Bool.false_ne_true
    | _ => exact ⟨rfl, rfl⟩

theorem runAll_append {first rest : List Statement} (h : runAll (first ++ rest) db = some db') :
    ∃ mid, runAll first db = some mid ∧ runAll rest mid = some db' := by
  unfold runAll at h
  rw [List.foldlM_append] at h
  exact Option.bind_eq_some_iff.mp h

/-! ## Policies -/

/-- One step of `_ensure_rls`: a table is secured, or one of its policies made anew. -/
def securing : String × Option Policy → List Statement
  | (table, none) => [.enableRls table]
  | (table, some p) => recreate table p

def policyKey (p : String × Policy) : String × String := (p.1, p.2.name)

/-- The policy that a step makes. -/
def policyOf (step : String × Option Policy) : Option (String × Policy) := step.2.map fun p => (step.1, p)

def rlsSteps : List (String × Option Policy) :=
  rlsPolicies.flatMap fun t => (t.1, none) :: t.2.map fun p => (t.1, some p)

theorem ensureRls_eq : ensureRls = rlsSteps.flatMap securing := rfl

theorem recreate_makes {table : String} {p : Policy} (h : runAll (recreate table p) db = some db') :
    (table, p) ∈ db'.policies ∧
      ∀ q ∈ db.policies, policyKey q ≠ policyKey (table, p) → q ∈ db'.policies := by
  obtain ⟨mid, hdrop, hrest⟩ := runAll_cons h
  obtain ⟨db'', hcreate, hlast⟩ := runAll_cons hrest
  cases hlast
  cases hdrop
  simp only [exec] at hcreate
  split_ifs at hcreate
  cases hcreate
  refine ⟨List.mem_append_right _ (List.mem_singleton.mpr rfl), fun q hq hkey => ?_⟩
  refine List.mem_append_left _ (List.mem_filter.mpr ⟨hq, ?_⟩)
  have hnot : ¬ (q.1 = table ∧ q.2.name = p.name) := by simpa [policyKey] using hkey
  simpa [imp_iff_not_or] using hnot

/-- Steps whose policies have different names leave all of them in place, and the others. -/
theorem securing_makes {steps : List (String × Option Policy)}
    (hnames : ((steps.filterMap policyOf).map policyKey).Nodup)
    (h : runAll (steps.flatMap securing) db = some db') :
    (∀ q ∈ steps.filterMap policyOf, q ∈ db'.policies) ∧
      ∀ q ∈ db.policies, policyKey q ∉ (steps.filterMap policyOf).map policyKey → q ∈ db'.policies := by
  induction steps generalizing db with
  | nil =>
    cases h
    exact ⟨by simp, fun q hq _ => hq⟩
  | cons step steps ih =>
    rw [List.flatMap_cons] at h
    obtain ⟨mid, hfirst, hrest⟩ := runAll_append h
    obtain ⟨table, policy⟩ := step
    cases policy with
    | none =>
      have hsame : mid.policies = db.policies := by
        obtain ⟨mid', hexec, hlast⟩ := runAll_cons hfirst
        cases hlast
        simp only [exec] at hexec
        split_ifs at hexec
        · cases hexec
          rfl
        · cases hexec
          rfl
      have hdone := ih hnames hrest
      rw [hsame] at hdone
      exact hdone
    | some p =>
      obtain ⟨hmade, hkept⟩ := recreate_makes hfirst
      have hcons : ((table, some p) :: steps).filterMap policyOf = (table, p) :: steps.filterMap policyOf := rfl
      rw [hcons, List.map_cons, List.nodup_cons] at hnames
      obtain ⟨hall, hothers⟩ := ih hnames.2 hrest
      rw [hcons]
      constructor
      · rw [List.forall_mem_cons]
        exact ⟨hothers _ hmade hnames.1, hall⟩
      · intro q hq hkey
        rw [List.map_cons, List.mem_cons, not_or] at hkey
        exact hothers q (hkept q hq hkey.1) hkey.2

/-- Every secured table has its policies. -/
def Policies (db : Database) : Prop := ∀ t ∈ rlsPolicies, ∀ p ∈ t.2, (t.1, p) ∈ db.policies

theorem ensureRls_policies (h : runAll ensureRls db = some db') : Policies db' := by
  rw [ensureRls_eq] at h
  have hall := (securing_makes (by decide +kernel) h).1
  have hlisted : ∀ t ∈ rlsPolicies, ∀ p ∈ t.2, (t.1, p) ∈ rlsSteps.filterMap policyOf := by
    intro t ht p hp
    refine List.mem_filterMap.mpr ⟨(t.1, some p), List.mem_flatMap.mpr ⟨t, ht, ?_⟩, rfl⟩
    exact List.mem_cons_of_mem _ (List.mem_map_of_mem hp)
  exact fun t ht p hp => hall _ (hlisted t ht p hp)

end Transactions

/-! ## The program -/

section Program
variable {retries : ℕ} {hretries : 0 < retries} {db db' : Database} {k : ℕ}
  {stage : Stages.Stage Database}

/-- What a transaction leaves true; the last one secures the tables. -/
def post (k : ℕ) (db : Database) : Prop :=
  (∀ t ∈ transactions[k]?, ∀ st ∈ t.1, st.Made db) ∧ (k = 6 → Policies db)

theorem stage_transaction (h : (createSchema retries hretries).stages[k]? = some stage) :
    ∃ t, transactions[k]? = some t ∧ stage = ⟨runAll t.1, t.2⟩ := by
  obtain ⟨t, ht, rfl⟩ := Option.map_eq_some_iff.mp ((List.getElem?_map ..).symm.trans h)
  exact ⟨t, ht, rfl⟩

theorem transactions_ours : ∀ t ∈ transactions, ∀ st ∈ t.1, st.Ours := by decide +kernel

theorem transactions_plain : ∀ t ∈ transactions.take 6, ∀ st ∈ t.1, st.Plain = true := by decide +kernel

/-- Only the last transaction touches policies and secured tables. -/
theorem transaction_plain {t : List Statement × Bool} (ht : transactions[k]? = some t) :
    k = 6 ∧ t.1 = ensureRls ∨ k ≠ 6 ∧ ∀ st ∈ t.1, st.Plain = true := by
  obtain ⟨hlt, hget⟩ := List.getElem?_eq_some_iff.mp ht
  have hlength : transactions.length = 7 := rfl
  obtain hlast | hbefore : k = 6 ∨ k < 6 := by omega
  · subst hlast
    exact Or.inl ⟨rfl, congrArg Prod.fst hget.symm⟩
  · refine Or.inr ⟨Nat.ne_of_lt hbefore, transactions_plain t ?_⟩
    have htake : (transactions.take 6)[k]? = some t := by rw [List.getElem?_take_of_lt hbefore, ht]
    exact List.mem_of_getElem? htake

theorem transaction_policies {t : List Statement × Bool} (ht : transactions[k]? = some t)
    (h : runAll t.1 db = some db') : (k = 6 → Policies db') ∧ (Policies db → Policies db') := by
  obtain ⟨_, heq⟩ | ⟨hk, hplain⟩ := transaction_plain ht
  · rw [heq] at h
    exact ⟨fun _ => ensureRls_policies h, fun _ => ensureRls_policies h⟩
  · refine ⟨fun hlast => absurd hlast hk, fun hpolicies t ht p hp => ?_⟩
    rw [(runAll_plain h hplain).2]
    exact hpolicies t ht p hp

theorem createSchema_safe : (createSchema retries hretries).Safe Upgradable post where
  keeps := by
    intro stage hstage db db' hup hrun
    obtain ⟨t, ht, rfl⟩ := List.mem_map.mp hstage
    exact runAll_upgradable hrun (transactions_ours t ht) hup
  own := by
    intro k stage db db' hs hup _ hrun
    obtain ⟨t, ht, rfl⟩ := stage_transaction hs
    have hours := transactions_ours t (List.mem_of_getElem? ht)
    refine ⟨fun t' ht' => ?_, (transaction_policies ht hrun).1⟩
    obtain rfl := Option.some.inj (ht.symm.trans ht')
    exact runAll_made hrun hours hup
  others := by
    rintro stage hstage j db db' _ hrun ⟨hmade, hpolicies⟩
    obtain ⟨k, hk⟩ := List.getElem?_of_mem hstage
    obtain ⟨t, ht, rfl⟩ := stage_transaction hk
    refine ⟨fun t' ht' st hst => (hmade t' ht' st hst).mono (runAll_grows hrun), fun hj => ?_⟩
    exact (transaction_policies ht hrun).2 (hpolicies hj)

/-! ## No statement fails by itself -/

theorem runAll_append_some {first rest : List Statement} (h : (runAll first db).isSome = true)
    (hrest : ∀ mid, runAll first db = some mid → (runAll rest mid).isSome = true) :
    (runAll (first ++ rest) db).isSome = true := by
  obtain ⟨mid, hmid⟩ := Option.isSome_iff_exists.mp h
  have hmore := hrest mid hmid
  unfold runAll at hmid hmore ⊢
  rw [List.foldlM_append, hmid]
  exact hmore

theorem runAll_flatMap_some {ι : Type} {f : ι → List Statement} {xs : List ι}
    (h : ∀ x ∈ xs, ∀ mid, Grows db mid → (runAll (f x) mid).isSome = true) :
    (runAll (xs.flatMap f) db).isSome = true := by
  induction xs generalizing db with
  | nil => rfl
  | cons x xs ih =>
    rw [List.forall_mem_cons] at h
    refine runAll_append_some (h.1 db (Grows.refl db)) fun mid hmid => ih ?_
    exact fun y hy later hgrows => h.2 y hy later ((runAll_grows hmid).trans hgrows)

theorem runAll_single (st : Statement) : runAll [st] db = exec db st := by
  unfold runAll
  rw [List.foldlM_cons]
  cases exec db st with
  | none => rfl
  | some db' => rfl

/-- The extensions that `db/init.sql` makes too. -/
def extensionNames : List String := ["vector", "pg_trgm"]

/-- Every table is among the ones before it that it references. -/
def Ordered : List String → List Table → Prop
  | _, [] => True
  | seen, t :: ts => t.references ⊆ seen ∧ Ordered (t.name :: seen) ts

instance : ∀ (seen : List String) (ts : List Table), Decidable (Ordered seen ts)
  | _, [] => .isTrue trivial
  | seen, t :: ts =>
    have := instDecidableOrdered (t.name :: seen) ts
    inferInstanceAs (Decidable (t.references ⊆ seen ∧ Ordered (t.name :: seen) ts))

theorem Upgradable.index_free (hup : Upgradable db) {t : Table} (ht : t ∈ metadata)
    (hnew : t.name ∉ db.tables) : ∀ i ∈ t.indexes, db.hasIndex i.name = false := by
  intro i hi
  have hall := ((mem_entries ht (t.name, i)).mp (List.mem_map_of_mem hi)).1
  obtain ⟨hthere, _⟩ | ⟨_, hfree⟩ := hup.indexes (t.name, i) hall
  · exact absurd hthere hnew
  · rw [Bool.eq_false_iff]
    intro htaken
    obtain ⟨x, hx, hkey⟩ := (hasIndex_iff i.name).mp htaken
    exact hfree x hx hkey

theorem createTable_some (hup : Upgradable db) (hext : extensionNames ⊆ db.extensions) {t : Table}
    (ht : t ∈ metadata) (href : t.references ⊆ db.tables) : (exec db (.createTable t)).isSome = true := by
  have hneeds : ∀ t ∈ metadata, t.extensions ⊆ extensionNames := by decide +kernel
  simp only [exec]
  split_ifs with hthere hfits
  · rfl
  · rfl
  · exact absurd ⟨List.Subset.trans (hneeds t ht) hext, href, hup.index_free ht hthere⟩ hfits

theorem createTables_some {ts : List Table} {seen : List String} (hordered : Ordered seen ts)
    (hmetadata : ts ⊆ metadata) (hup : Upgradable db) (hext : extensionNames ⊆ db.extensions)
    (hseen : seen ⊆ db.tables) :
    (runAll (ts.map .createTable) db).isSome = true := by
  induction ts generalizing db seen with
  | nil => rfl
  | cons t ts ih =>
    obtain ⟨href, hrest⟩ := hordered
    obtain ⟨ht, hts⟩ := List.cons_subset.mp hmetadata
    have hone := createTable_some hup hext ht (List.Subset.trans href hseen)
    refine runAll_append_some (by rw [runAll_single]; exact hone) fun mid hmid => ?_
    have hgrows := runAll_grows hmid
    have hours : ∀ st ∈ [Statement.createTable t], st.Ours := by simpa [Statement.Ours] using ht
    refine ih hrest hts (runAll_upgradable hmid hours hup) (List.Subset.trans hext hgrows.extensions) ?_
    refine List.cons_subset.mpr ⟨?_, List.Subset.trans hseen hgrows.tables⟩
    exact runAll_made hmid hours hup _ (List.mem_singleton.mpr rfl)

theorem addColumn_some {table : String} {c : Column} (htable : table ∈ db.tables) :
    (exec db (.addColumn table c)).isSome = true := by
  simp only [exec]
  rw [if_neg (not_not.mpr htable)]
  split_ifs
  · rfl
  · rfl

theorem addColumns_some {cs : List Column} (htable : "users" ∈ db.tables) :
    (runAll (cs.map (.addColumn "users")) db).isSome = true := by
  rw [List.map_eq_flatMap]
  refine runAll_flatMap_some fun c _ mid hgrows => ?_
  rw [runAll_single]
  exact addColumn_some (hgrows.tables htable)

/-- The Google subject is no later column. -/
theorem Upgradable.googleSub (hup : Upgradable db) (htable : "users" ∈ db.tables) :
    db.hasColumn "users" "google_sub" = true := by
  have hall : ("users", (⟨"google_sub", .text, false, none⟩ : Column)) ∈ allColumns := by decide +kernel
  have hnot : ("users", (⟨"google_sub", .text, false, none⟩ : Column)) ∉
      laterColumns.map fun c => ("users", c) := by decide +kernel
  obtain ⟨_, hmem⟩ | ⟨hlater, _⟩ := hup.columns _ hall
  · exact (hasColumn_iff _ _).mpr ⟨_, hmem, rfl⟩
  · exact absurd (hlater htable) hnot

theorem ensureColumns_some (hup : Upgradable db) (htable : "users" ∈ db.tables) :
    (runAll ensureColumns db).isSome = true := by
  refine runAll_append_some (addColumns_some htable) fun mid hmid => ?_
  have hgrows := runAll_grows hmid
  have hours : ∀ st ∈ (laterColumns.take 1).map (Statement.addColumn "users"), st.Ours := by decide +kernel
  have hadded := runAll_made hmid hours hup (.addColumn "users" ⟨"email_verified", .boolean, true,
    some "false"⟩) (by decide +kernel)
  have hsub := (runAll_upgradable hmid hours hup).googleSub (hgrows.tables htable)
  have hverified : mid.hasColumn "users" "email_verified" = true :=
    (hasColumn_iff _ _).mpr ⟨_, hadded, rfl⟩
  have hfill : exec mid .verifyGoogle = some { mid with users := mid.users.map backfilled } :=
    if_pos ⟨hgrows.tables htable, hsub, hverified⟩
  have hone : runAll [.verifyGoogle] mid = some { mid with users := mid.users.map backfilled } :=
    (runAll_single _).trans hfill
  have hfirst : (runAll [.verifyGoogle] mid).isSome = true := by rw [hone]; rfl
  have hrest : ∀ later, runAll [.verifyGoogle] mid = some later →
      (runAll ((laterColumns.drop 1).map (.addColumn "users")) later).isSome = true :=
    fun later hlater => addColumns_some ((runAll_grows hlater).tables (hgrows.tables htable))
  exact runAll_append_some hfirst hrest

theorem ensureIndexes_some (hext : extensionNames ⊆ db.extensions)
    (htables : ∀ t ∈ metadata, t.name ∈ db.tables) : (runAll ensureIndexes db).isSome = true := by
  have hlisted : ∀ i ∈ laterIndexes, (∃ t ∈ metadata, t.name = i.1) ∧
      i.2.extension.toList ⊆ extensionNames := by decide +kernel
  unfold ensureIndexes
  rw [List.map_eq_flatMap]
  refine runAll_flatMap_some fun i hi mid hgrows => ?_
  obtain ⟨⟨t, ht, hname⟩, hneeds⟩ := hlisted i hi
  have htable : i.1 ∈ mid.tables := hname ▸ hgrows.tables (htables t ht)
  rw [runAll_single]
  simp only [exec]
  rw [if_neg (not_not.mpr htable)]
  split_ifs with hthere hfits
  · rfl
  · rfl
  · exact absurd (List.Subset.trans hneeds (List.Subset.trans hext hgrows.extensions)) hfits

theorem ensureConstraints_some (htables : ∀ t ∈ metadata, t.name ∈ db.tables) :
    (runAll ensureConstraints db).isSome = true := by
  have hlisted : ∀ k ∈ laterChecks, ∃ t ∈ metadata, t.name = k.1 := by decide +kernel
  unfold ensureConstraints
  rw [List.map_eq_flatMap]
  refine runAll_flatMap_some fun k hk mid hgrows => ?_
  obtain ⟨t, ht, hname⟩ := hlisted k hk
  have htable : k.1 ∈ mid.tables := hname ▸ hgrows.tables (htables t ht)
  rw [runAll_single]
  simp only [exec]
  rw [if_pos htable]
  split_ifs
  · rfl
  · rfl

theorem recreate_some {table : String} (p : Policy) (htable : table ∈ db.tables) :
    (runAll (recreate table p) db).isSome = true := by
  have hdrop : (runAll [.dropPolicy table p.name] db).isSome = true := rfl
  have hcreate : ∀ mid, runAll [.dropPolicy table p.name] db = some mid →
      (runAll [.createPolicy table p] mid).isSome = true := by
    intro mid hmid
    cases hmid
    rw [runAll_single]
    simp only [exec]
    rw [if_neg (not_not.mpr htable), if_neg (by simp)]
    rfl
  exact runAll_append_some hdrop hcreate

theorem ensureRls_some (htables : ∀ t ∈ metadata, t.name ∈ db.tables) :
    (runAll ensureRls db).isSome = true := by
  have hlisted : ∀ step ∈ rlsSteps, ∃ t ∈ metadata, t.name = step.1 := by decide +kernel
  rw [ensureRls_eq]
  refine runAll_flatMap_some fun step hstep mid hgrows => ?_
  obtain ⟨t, ht, hname⟩ := hlisted step hstep
  have htable : step.1 ∈ mid.tables := hname ▸ hgrows.tables (htables t ht)
  obtain ⟨table, policy⟩ := step
  cases policy with
  | some p => exact recreate_some p htable
  | none =>
    unfold securing
    rw [runAll_single]
    simp only [exec]
    rw [if_neg (not_not.mpr htable)]
    split_ifs
    · rfl
    · rfl

/-- The posts of the required transactions before `k`. -/
theorem past_made (h : (createSchema retries hretries).Past post k db) {j : ℕ} (hj : j < k)
    {statements : List Statement} (ht : transactions[j]? = some (statements, false)) :
    (∀ st ∈ statements, st.Made db) ∧ (j = 6 → Policies db) := by
  have hs : (createSchema retries hretries).stages[j]? = some ⟨runAll statements, false⟩ := by
    have hstages : (createSchema retries hretries).stages =
        transactions.map fun t => ⟨runAll t.1, t.2⟩ := rfl
    rw [hstages, List.getElem?_map, ht]
    rfl
  obtain ⟨hmade, hpolicies⟩ := h j hj _ hs rfl
  exact ⟨hmade _ ht, hpolicies⟩

theorem past_tables (h : (createSchema retries hretries).Past post k db) (hk : 2 < k) :
    ∀ t ∈ metadata, t.name ∈ db.tables :=
  fun _ ht => (past_made h hk rfl).1 _ (List.mem_map_of_mem ht)

/-- The extensions that the process has made itself. -/
theorem passed_extensions (h : (createSchema retries hretries).Passed post k db) (hk : 1 < k) :
    extensionNames ⊆ db.extensions := by
  have hvector := (h 0 (by omega) _ rfl).1 _ rfl (.createExtension "vector") (List.mem_singleton.mpr rfl)
  have htrgm := (h 1 hk _ rfl).1 _ rfl (.createExtension "pg_trgm") (List.mem_singleton.mpr rfl)
  exact List.cons_subset.mpr ⟨hvector, List.cons_subset.mpr ⟨htrgm, List.nil_subset _⟩⟩

theorem createSchema_runs : (createSchema retries hretries).Runs Upgradable post := by
  intro k stage db hs hup hpassed
  obtain ⟨t, ht, rfl⟩ := stage_transaction hs
  have hpast : (createSchema retries hretries).Past post k db :=
    fun j hj other hother _ => hpassed j hj other hother
  have hextension : ∀ name, (runAll [.createExtension name] db).isSome = true := by
    intro name
    rw [runAll_single]
    simp only [exec]
    split_ifs
    · rfl
    · rfl
  match k, ht with
  | 0, rfl => exact hextension "vector"
  | 1, rfl => exact hextension "pg_trgm"
  | 2, rfl =>
    exact createTables_some (by decide +kernel) (List.Subset.refl _) hup
      (passed_extensions hpassed (by decide)) (List.nil_subset _)
  | 3, rfl => exact ensureColumns_some hup (past_tables hpast (by decide) users (by decide +kernel))
  | 4, rfl =>
    exact ensureIndexes_some (passed_extensions hpassed (by decide)) (past_tables hpast (by decide))
  | 5, rfl => exact ensureConstraints_some (past_tables hpast (by decide))
  | 6, rfl => exact ensureRls_some (past_tables hpast (by decide))

/-- All seven transactions leave a complete schema. -/
theorem complete_of_past (hup : Upgradable db) (h : (createSchema retries hretries).Past post 7 db) :
    Complete db := by
  have htables := past_tables h (by decide)
  have hall : ∀ {α : Type} {part : Table → List α} {e : String × α},
      e ∈ metadata.flatMap (fun t => (part t).map fun x => (t.name, x)) → e.1 ∈ db.tables := by
    intro α part e he
    obtain ⟨t, ht, hmem⟩ := List.mem_flatMap.mp he
    obtain ⟨x, _, rfl⟩ := List.mem_map.mp hmem
    exact htables t ht
  have hcolumns : (laterColumns.map fun c => ("users", c)) ⊆ db.columns := by
    intro c hc
    have hstatement : Statement.addColumn c.1 c.2 ∈ ensureColumns := by
      revert c
      decide +kernel
    exact (past_made h (by decide) (j := 3) rfl).1 _ hstatement
  have hindexes : laterIndexes ⊆ db.indexes := fun i hi =>
    (past_made h (by decide) (j := 4) rfl).1 _ (List.mem_map_of_mem hi)
  have hchecks : laterChecks ⊆ db.constraints := fun k hk =>
    (past_made h (by decide) (j := 5) rfl).1 _ (List.mem_map_of_mem hk)
  obtain ⟨hsecured, hpolicies⟩ := past_made h (by decide) (j := 6) rfl
  refine ⟨htables, hup.columns.complete (fun e he => hall he) hcolumns,
    hup.constraints.complete (fun e he => hall he) hchecks,
    hup.indexes.complete (fun e he => hall he) hindexes, fun t ht => ?_, hpolicies rfl⟩
  exact hsecured (.enableRls t.1) (List.mem_flatMap.mpr ⟨t, ht, List.mem_cons_self ..⟩)

end Program

/-! ## Every run -/

section Runs
variable {retries : ℕ} {hretries : 0 < retries} {db : Database} {past more : Stages.History}
  {sys sys' : Stages.System Database}

/-- Once a process is past its startup, then and at any later time the schema has every table, column,
constraint, index and policy of this version, whatever the other processes do and whatever happened before. -/
theorem started_on_the_schema (h : Stages.Reached (createSchema retries hretries) db past sys)
    (hup : Upgradable db) (hdone : Process.done ∈ sys.processes)
    (hmore : Runs.Run (Runs.guarded Runs.anyStep (createSchema retries hretries).step) past sys
      more sys') : Complete sys'.state := by
  have hlater : Stages.Reached (createSchema retries hretries) db (past ++ more) sys' :=
    h.trans (by simpa using hmore)
  obtain ⟨i, hi⟩ := List.getElem?_of_mem hdone
  have hstill := Stages.done_stays hmore hi
  obtain ⟨hvalid, hbehind⟩ := Stages.done_posts createSchema_safe hlater hup
  exact complete_of_past hvalid (hbehind _ (List.mem_of_getElem? hstill))

/-- The startup of a process that is neither refused nor killed ends, unless its connection breaks `retries`
times: no statement fails by itself, and every break costs it one round at most. -/
theorem startup_ends (h : Stages.Reached (createSchema retries hretries) db past sys) (hup : Upgradable db)
    {i : ℕ} (hi : i < sys.processes.length) (hends : ∀ e ∈ past, Stages.endsAt i e.1 = false)
    (hbroken : Stages.broken i past < retries) :
    sys.processes[i]? = some .done ∨ ∃ k < 7,
      sys.processes[i]? = some (.running (Stages.broken i past) k) ∧
        Stages.worked i past ≤ Stages.broken i past * 7 + k :=
  Stages.gets_done createSchema_safe createSchema_runs h hup hends hbroken hi

theorem transaction_secures {stage : Stages.Stage Database}
    (hstage : stage ∈ (createSchema retries hretries).stages) {s s' : Database}
    (hrun : stage.run s = some s') {t : String × List Policy} (ht : t ∈ rlsPolicies)
    (hpolicies : t.1 ∈ s.secured → ∀ p ∈ t.2, (t.1, p) ∈ s.policies) :
    t.1 ∈ s'.secured → ∀ p ∈ t.2, (t.1, p) ∈ s'.policies := by
  intro hs' p hp
  obtain ⟨k, hk⟩ := List.getElem?_of_mem hstage
  obtain ⟨tx, htx, rfl⟩ := stage_transaction hk
  obtain ⟨_, heq⟩ | ⟨_, hplain⟩ := transaction_plain htx
  · rw [heq] at hrun
    exact ensureRls_policies hrun t ht p hp
  · obtain ⟨hsame, hkept⟩ := runAll_plain hrun hplain
    rw [hsame] at hs'
    rw [hkept]
    exact hpolicies hs' p hp

/-- A table that is secured at one time is secured at every later time, and where the first database has no
secured table without its policies, no committed state has one: `DROP POLICY` is never seen without the
`CREATE POLICY` after it. -/
theorem policies_never_missing (h : Stages.Reached (createSchema retries hretries) db past sys)
    (hmore : Runs.Run (Runs.guarded Runs.anyStep (createSchema retries hretries).step) past sys
      more sys') :
    ∀ t ∈ rlsPolicies, (t.1 ∈ sys.state.secured → t.1 ∈ sys'.state.secured) ∧
      ((t.1 ∈ db.secured → ∀ p ∈ t.2, (t.1, p) ∈ db.policies) →
        t.1 ∈ sys'.state.secured → ∀ p ∈ t.2, (t.1, p) ∈ sys'.state.policies) := by
  intro t ht
  constructor
  · refine Stages.run_keeps (I := fun s => t.1 ∈ sys.state.secured → t.1 ∈ s.secured) ?_ hmore id
    intro stage hstage s s' hsecured hrun hsys
    obtain ⟨k, hk⟩ := List.getElem?_of_mem hstage
    obtain ⟨tx, _, rfl⟩ := stage_transaction hk
    exact (runAll_grows hrun).secured (hsecured hsys)
  · intro hinit
    have hall : Stages.Reached (createSchema retries hretries) db (past ++ more) sys' :=
      h.trans (by simpa using hmore)
    refine Stages.run_keeps (I := fun s => t.1 ∈ s.secured → ∀ p ∈ t.2, (t.1, p) ∈ s.policies) ?_ hall hinit
    exact fun stage hstage s s' hpolicies hrun => transaction_secures hstage hrun ht hpolicies

end Runs

/-! ## An older version, two processes -/

/-- The tables as they were before anything was added to them, the extension they needed, and one Google
account. -/
def olderVersion : Database where
  extensions := ["vector"]
  tables := metadata.map Table.name
  columns := allColumns.filter fun c => !(c.1 = "users" && laterColumns.contains c.2)
  constraints := allConstraints.filter fun k => !laterChecks.contains k
  indexes := allIndexes.filter fun i => !laterIndexes.contains i
  users := [{ id := 0, googleSub := some ⟨"4711", by decide⟩ }]

theorem olderVersion_upgradable : Upgradable olderVersion := by
  constructor
  · unfold Fits
    decide +kernel
  · unfold Fits
    decide +kernel
  · unfold Fits
    decide +kernel

/-- The first process loses its connection after its columns are committed, and is killed on its second
attempt; the second one gets done. -/
def upgradeMoves : List Stages.Move :=
  [.launch] ++ List.replicate 3 (.work 0 .runs) ++ [.launch, .work 0 (.breaks true)] ++
    List.replicate 3 (.work 1 .runs) ++ [.work 0 .runs, .work 0 (.killed false)] ++
    List.replicate 4 (.work 1 .runs)

def plain : Stages.Program Database := createSchema 30 (by decide)

def upgraded : Stages.History × Stages.System Database :=
  (Runs.replay Runs.anyStep plain.step [] { state := olderVersion }
    upgradeMoves).getD ([], { state := olderVersion })

theorem upgraded_reached :
    Stages.Reached plain olderVersion upgraded.1 upgraded.2 :=
  Runs.replay_getD_run _ _ _ _ upgradeMoves _ (by decide +kernel)

theorem started_on_the_schema_upgraded :
    upgraded.2.processes = [.stopped, .done] ∧ Complete upgraded.2.state := by
  have hprocesses : upgraded.2.processes = [.stopped, .done] := by decide +kernel
  refine ⟨hprocesses, ?_⟩
  exact started_on_the_schema upgraded_reached olderVersion_upgradable (by simp [hprocesses]) Runs.Run.refl

theorem startup_ends_upgraded : upgraded.2.processes[1]? = some .done ∨ ∃ k < 7,
    upgraded.2.processes[1]? = some (.running 0 k) ∧ Stages.worked 1 upgraded.1 ≤ k := by
  have hends := startup_ends upgraded_reached olderVersion_upgradable
    (i := 1) (by decide +kernel) (by decide +kernel) (by decide +kernel)
  have hunbroken : Stages.broken 1 upgraded.1 = 0 := by decide +kernel
  rw [hunbroken, Nat.zero_mul] at hends
  simpa using hends

theorem policies_never_missing_upgraded : ∃ t ∈ rlsPolicies, t.1 ∈ upgraded.2.state.secured ∧
    ∀ p ∈ t.2, (t.1, p) ∈ upgraded.2.state.policies := by
  have hlisted : rlsPolicies[0]? =
      some ("friendships", [⟨"p_friendships", .all, some parties, some parties⟩]) := rfl
  have ht := List.mem_of_getElem? hlisted
  have hsecured : "friendships" ∈ upgraded.2.state.secured := by decide +kernel
  exact ⟨_, ht, hsecured,
    (policies_never_missing upgraded_reached Runs.Run.refl _ ht).2 (by simp [olderVersion]) hsecured⟩

end WarsawEvents.Startup
