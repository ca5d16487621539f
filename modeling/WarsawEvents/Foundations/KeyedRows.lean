import WarsawEvents.Foundations.SideBySide
import Mathlib.Data.List.Induction
import Mathlib.Data.List.Nodup

/-! # INSERT ... ON CONFLICT DO UPDATE

A statement of several rows against a table with a unique key. A row whose key is taken refreshes the
row that has it, any other row is inserted under the next id; a row without a key conflicts with
nothing. A statement that would touch one row twice is refused as a whole.

`insertAll_rows` is what an accepted statement leaves: the old rows, each refreshed by the one incoming
row with its key if there is one, and after them the inserted ones. `insertAll_puts` is the same from
the incoming rows: each is written into one row, and the rest is left alone. -/

namespace KeyedRows
set_option autoImplicit false

structure Rows (ρ : Type) where
  rows : List ρ := []
  nextId : ℕ := 0
  deriving DecidableEq

/-- The conflict key of stored rows `ρ` and incoming rows `ν`, and what a statement writes. -/
structure Rule (ρ ν κ : Type) where
  stored : ρ → Option κ
  incoming : ν → Option κ
  refresh : ν → ρ → ρ
  create : ℕ → ν → ρ
  stored_refresh : ∀ n r, stored (refresh n r) = stored r
  stored_create : ∀ id n, stored (create id n) = incoming n

variable {ρ ν κ : Type} [DecidableEq κ] (R : Rule ρ ν κ)

namespace Rule

def clashes (n : ν) (r : ρ) : Bool := (R.incoming n).isSome && R.incoming n = R.stored r

def insertOne (t : Rows ρ) (n : ν) : Rows ρ :=
  if t.rows.any (R.clashes n) then
    { t with rows := t.rows.map fun r => if R.clashes n r then R.refresh n r else r }
  else { rows := t.rows ++ [R.create t.nextId n], nextId := t.nextId + 1 }

def insertAll (t : Rows ρ) (ns : List ν) : Rows ρ := ns.foldl R.insertOne t

/-- One statement; `none` when it would touch a row a second time. -/
def upsert (t : Rows ρ) (ns : List ν) : Option (Rows ρ) :=
  if (ns.filterMap R.incoming).Nodup then some (R.insertAll t ns) else none

/-! ## What a statement leaves -/

/-- An old row after the statement. -/
def refreshed (ns : List ν) (r : ρ) : ρ :=
  match ns.find? fun n => R.clashes n r with
  | some n => R.refresh n r
  | none => r

/-- The incoming rows whose key no old row has. -/
def fresh (t : Rows ρ) (ns : List ν) : List ν := ns.filter fun n => !t.rows.any (R.clashes n)

def created (t : Rows ρ) (ns : List ν) : List ρ :=
  ((R.fresh t ns).zipIdx t.nextId).map fun p => R.create p.2 p.1

variable {R} {t : Rows ρ} {ns : List ν} {n : ν} {r : ρ}

theorem clashes_iff : R.clashes n r = true ↔ R.incoming n ≠ none ∧ R.incoming n = R.stored r := by
  unfold clashes
  rw [Bool.and_eq_true, decide_eq_true_eq, Option.isSome_iff_ne_none]

@[simp] theorem clashes_refresh (m : ν) : R.clashes n (R.refresh m r) = R.clashes n r := by
  unfold clashes
  rw [R.stored_refresh]

@[simp] theorem clashes_refreshed : R.clashes n (R.refreshed ns r) = R.clashes n r := by
  unfold refreshed
  cases ns.find? fun m => R.clashes m r with
  | none => rfl
  | some m => exact clashes_refresh m

theorem stored_refreshed : R.stored (R.refreshed ns r) = R.stored r := by
  unfold refreshed
  cases ns.find? fun m => R.clashes m r with
  | none => rfl
  | some m => exact R.stored_refresh m r

/-- What no refresh changes is as it was. -/
theorem proj_refreshed {γ : Type} {g : ρ → γ} (h : ∀ n r, g (R.refresh n r) = g r) :
    g (R.refreshed ns r) = g r := by
  unfold refreshed
  cases ns.find? fun m => R.clashes m r with
  | none => rfl
  | some m => exact h m r

theorem insertAll_append_singleton :
    R.insertAll t (ns ++ [n]) = R.insertOne (R.insertAll t ns) n := by
  unfold insertAll
  rw [List.foldl_append, List.foldl_cons, List.foldl_nil]

theorem clashes_created (id : ℕ) (m : ν) :
    R.clashes n (R.create id m) = true ↔ R.incoming n ≠ none ∧ R.incoming n = R.incoming m := by
  rw [clashes_iff, R.stored_create]

omit [DecidableEq κ] in
/-- In a statement without repetition no earlier row has the key of a later one. -/
theorem earlier_key_ne {m : ν} (h : ((ns ++ [n]).filterMap R.incoming).Nodup) (hm : m ∈ ns)
    (hn : R.incoming n ≠ none) : R.incoming n ≠ R.incoming m := by
  intro hsame
  obtain ⟨k, hk⟩ := Option.ne_none_iff_exists'.mp hn
  rw [List.filterMap_append, List.nodup_append] at h
  have hleft : k ∈ ns.filterMap R.incoming := List.mem_filterMap.mpr ⟨m, hm, hsame ▸ hk⟩
  have hright : k ∈ [n].filterMap R.incoming := by simp [hk]
  exact h.2.2 k hleft k hright rfl

theorem not_clashes_created (h : ((ns ++ [n]).filterMap R.incoming).Nodup)
    (hr : r ∈ R.created t ns) : R.clashes n r = false := by
  rw [← Bool.not_eq_true]
  intro hclash
  obtain ⟨⟨m, i⟩, hm, rfl⟩ := List.mem_map.mp hr
  have hfresh : m ∈ R.fresh t ns := List.fst_mem_of_mem_zipIdx hm
  obtain ⟨hsome, hkey⟩ := (clashes_created i m).mp hclash
  exact earlier_key_ne h (List.mem_filter.mp hfresh).1 hsome hkey

theorem refreshed_append_singleton (h : ((ns ++ [n]).filterMap R.incoming).Nodup) :
    R.refreshed (ns ++ [n]) r =
      if R.clashes n r then R.refresh n (R.refreshed ns r) else R.refreshed ns r := by
  unfold refreshed
  rw [List.find?_append]
  cases hfind : ns.find? fun m => R.clashes m r with
  | none =>
    by_cases hn : R.clashes n r = true
    · simp [hn]
    · simp [hn]
  | some m =>
    have hm := clashes_iff.mp (List.find?_some (p := fun m => R.clashes m r) hfind)
    have hn : R.clashes n r = false := by
      rw [← Bool.not_eq_true]
      intro hn
      obtain ⟨hsome, hkey⟩ := clashes_iff.mp hn
      exact earlier_key_ne h (List.mem_of_find?_eq_some hfind) hsome (hkey.trans hm.2.symm)
    simp [hn]

/-- What an accepted statement leaves. -/
theorem insertAll_rows (h : (ns.filterMap R.incoming).Nodup) :
    R.insertAll t ns =
      { rows := t.rows.map (R.refreshed ns) ++ R.created t ns
        nextId := t.nextId + (R.fresh t ns).length } := by
  induction ns using List.reverseRecOn with
  | nil =>
    have hid : t.rows.map (R.refreshed []) = t.rows := List.map_id'' (fun _ => rfl) _
    simp [insertAll, created, fresh, hid]
  | append_singleton ns n ih =>
    have hns : (ns.filterMap R.incoming).Nodup := by
      rw [List.filterMap_append] at h
      exact h.of_append_left
    have hnew : (R.created t ns).any (R.clashes n) = false :=
      List.any_eq_false.mpr fun r hr => by simp [not_clashes_created h hr]
    have hany : (t.rows.map (R.refreshed ns) ++ R.created t ns).any (R.clashes n) =
        t.rows.any (R.clashes n) := by
      rw [List.any_append, hnew, Bool.or_false, List.any_map]
      congr 1
      funext r
      exact clashes_refreshed
    have hold : t.rows.map (R.refreshed (ns ++ [n])) = (t.rows.map (R.refreshed ns)).map
        fun r => if R.clashes n r then R.refresh n r else r := by
      rw [List.map_map]
      refine List.map_congr_left fun r _ => ?_
      rw [refreshed_append_singleton h]
      simp
    rw [insertAll_append_singleton, ih hns]
    unfold insertOne
    rw [hany]
    by_cases hn : t.rows.any (R.clashes n) = true
    · have hfresh : R.fresh t (ns ++ [n]) = R.fresh t ns := by simp [fresh, hn]
      have hcreated : R.created t (ns ++ [n]) = R.created t ns := by
        unfold created
        rw [hfresh]
      have hkeep : (R.created t ns).map (fun r => if R.clashes n r then R.refresh n r else r) =
          R.created t ns :=
        (List.map_congr_left fun r hr => if_neg (by simp [not_clashes_created h hr])).trans
          (List.map_id' _)
      rw [if_pos hn, hold, hcreated, hfresh, List.map_append, hkeep]
    · have hfresh : R.fresh t (ns ++ [n]) = R.fresh t ns ++ [n] := by simp [fresh, hn]
      have hcreated : R.created t (ns ++ [n]) =
          R.created t ns ++ [R.create (t.nextId + (R.fresh t ns).length) n] := by
        unfold created
        rw [hfresh, List.zipIdx_append]
        simp
      have hsame : t.rows.map (R.refreshed (ns ++ [n])) = t.rows.map (R.refreshed ns) := by
        rw [Bool.not_eq_true, List.any_eq_false] at hn
        refine List.map_congr_left fun r hr => ?_
        rw [refreshed_append_singleton h, if_neg (hn r hr)]
      rw [if_neg hn, hsame, hcreated, hfresh, List.length_append]
      simp [Nat.add_assoc]

/-! ## Consequences -/

theorem upsert_eq_some_iff {t' : Rows ρ} : R.upsert t ns = some t' ↔
    (ns.filterMap R.incoming).Nodup ∧ t' = R.insertAll t ns := by
  unfold upsert
  by_cases h : (ns.filterMap R.incoming).Nodup
  · rw [if_pos h, Option.some.injEq]
    exact ⟨fun he => ⟨h, he.symm⟩, fun he => he.2.symm⟩
  · rw [if_neg h]
    exact ⟨nofun, fun he => absurd he.1 h⟩

theorem upsert_eq_none_iff : R.upsert t ns = none ↔ ¬ (ns.filterMap R.incoming).Nodup := by
  unfold upsert
  by_cases h : (ns.filterMap R.incoming).Nodup
  · rw [if_pos h]
    exact ⟨nofun, fun hn => absurd h hn⟩
  · rw [if_neg h]
    exact ⟨fun _ => h, fun _ => rfl⟩

theorem mem_created_iff : r ∈ R.created t ns ↔
    ∃ n i, (n, i) ∈ (R.fresh t ns).zipIdx t.nextId ∧ r = R.create i n := by
  unfold created
  rw [List.mem_map]
  constructor
  · rintro ⟨⟨n, i⟩, hmem, rfl⟩
    exact ⟨n, i, hmem, rfl⟩
  · rintro ⟨n, i, hmem, rfl⟩
    exact ⟨(n, i), hmem, rfl⟩

/-! ## The constraints are kept -/

/-- The unique key stays unique. -/
theorem insertAll_keys_nodup (hns : (ns.filterMap R.incoming).Nodup)
    (ht : (t.rows.filterMap R.stored).Nodup) :
    ((R.insertAll t ns).rows.filterMap R.stored).Nodup := by
  have hold : (t.rows.map (R.refreshed ns)).filterMap R.stored = t.rows.filterMap R.stored := by
    rw [List.filterMap_map]
    exact List.filterMap_congr fun r _ => stored_refreshed
  have hnew : (R.created t ns).filterMap R.stored = (R.fresh t ns).filterMap R.incoming := by
    unfold created
    conv_rhs => rw [← List.zipIdx_map_fst t.nextId (R.fresh t ns)]
    rw [List.filterMap_map, List.filterMap_map]
    exact List.filterMap_congr fun p _ => R.stored_create p.2 p.1
  rw [insertAll_rows hns]
  simp only
  rw [List.filterMap_append, hold, hnew, List.nodup_append]
  refine ⟨ht, (List.filter_sublist.filterMap R.incoming).nodup hns, ?_⟩
  intro k hk k' hk' hsame
  subst hsame
  obtain ⟨r, hr, hrk⟩ := List.mem_filterMap.mp hk
  obtain ⟨n, hn, hnk⟩ := List.mem_filterMap.mp hk'
  have hclash : t.rows.any (R.clashes n) = true :=
    List.any_eq_true.mpr ⟨r, hr, clashes_iff.mpr ⟨by simp [hnk], by rw [hnk, hrk]⟩⟩
  have hfresh := (List.mem_filter.mp hn).2
  rw [hclash] at hfresh
  cases hfresh

/-- The primary key stays unique and below the supply of ids. -/
theorem insertAll_ids (pk : ρ → ℕ) (hrefresh : ∀ n r, pk (R.refresh n r) = pk r)
    (hcreate : ∀ i n, pk (R.create i n) = i) (hns : (ns.filterMap R.incoming).Nodup)
    (hids : (t.rows.map pk).Nodup) (hbelow : ∀ r ∈ t.rows, pk r < t.nextId) :
    ((R.insertAll t ns).rows.map pk).Nodup ∧
      ∀ r ∈ (R.insertAll t ns).rows, pk r < (R.insertAll t ns).nextId := by
  have hold : (t.rows.map (R.refreshed ns)).map pk = t.rows.map pk := by
    rw [List.map_map]
    exact List.map_congr_left fun r _ => proj_refreshed hrefresh
  have hnew : (R.created t ns).map pk = List.range' t.nextId (R.fresh t ns).length := by
    rw [← List.zipIdx_map_snd t.nextId (R.fresh t ns)]
    unfold created
    rw [List.map_map]
    exact List.map_congr_left fun p _ => hcreate p.2 p.1
  have hlt : ∀ k ∈ t.rows.map pk, k < t.nextId := by
    intro k hk
    obtain ⟨r, hr, rfl⟩ := List.mem_map.mp hk
    exact hbelow r hr
  have hmap : (R.insertAll t ns).rows.map pk =
      t.rows.map pk ++ List.range' t.nextId (R.fresh t ns).length := by
    rw [insertAll_rows hns]
    simp only
    rw [List.map_append, hold, hnew]
  constructor
  · rw [hmap, List.nodup_append]
    refine ⟨hids, List.nodup_range', ?_⟩
    intro k hk k' hk' hsame
    have h1 := hlt k hk
    have h2 := (List.mem_range'_1.mp hk').1
    omega
  · intro r hr
    have hin : pk r ∈ (R.insertAll t ns).rows.map pk := List.mem_map_of_mem hr
    rw [hmap] at hin
    rw [insertAll_rows hns]
    simp only
    rcases List.mem_append.mp hin with hk | hk
    · have h1 := hlt _ hk
      omega
    · have h2 := (List.mem_range'_1.mp hk).2
      omega

/-! ## Every incoming row is written once -/

section Puts
variable (R t) in
/-- The row a statement leaves for one of its incoming rows. -/
inductive Put (n : ν) : ρ → Prop
  | refreshed {r : ρ} : r ∈ t.rows → R.clashes n r = true → Put n (R.refresh n r)
  | created {id : ℕ} : (∀ r ∈ t.rows, R.clashes n r = false) → t.nextId ≤ id →
    Put n (R.create id n)

theorem Put.stored {w : ρ} (h : R.Put t n w) : R.stored w = R.incoming n := by
  cases h with
  | refreshed hr hclash =>
    rw [R.stored_refresh]
    exact (clashes_iff.mp hclash).2.symm
  | created hnone hid => exact R.stored_create _ _

/-- At most one row has the key. -/
theorem not_clashes_of_split {before after : List ρ}
    (hkeys : ((before ++ r :: after).filterMap R.stored).Nodup) (hr : R.clashes n r = true) :
    ∀ x ∈ before ++ after, R.clashes n x = false := by
  intro x hx
  rw [← Bool.not_eq_true]
  intro hclash
  obtain ⟨hsome, hkey⟩ := clashes_iff.mp hr
  obtain ⟨k, hk⟩ := Option.ne_none_iff_exists'.mp hsome
  have hrk : R.stored r = some k := hkey.symm.trans hk
  have hxk : R.stored x = some k := (clashes_iff.mp hclash).2.symm.trans hk
  rw [List.filterMap_append, List.filterMap_cons_some hrk, List.nodup_middle, List.nodup_cons,
    ← List.filterMap_append] at hkeys
  exact hkeys.1 (List.mem_filterMap.mpr ⟨x, hx, hxk⟩)

/-- Rows the incoming row does not conflict with stay as they are. -/
theorem map_refresh_of_not_clashes {l : List ρ} (h : ∀ x ∈ l, R.clashes n x = false) :
    (l.map fun x => if R.clashes n x then R.refresh n x else x) = l := by
  refine (List.map_congr_left fun x hx => ?_).trans (List.map_id' l)
  rw [if_neg (by simp [h x hx])]

/-- One more incoming row, over rows of which the last have no conflict with it. -/
theorem insertOne_perm {untouched written : List ρ}
    (hperm : t.rows.Perm (untouched ++ written)) (hkeys : (untouched.filterMap R.stored).Nodup)
    (hwritten : ∀ w ∈ written, R.clashes n w = false) :
    ∃ w, (R.insertOne t n).rows.Perm
        (untouched.filter (fun r => !R.clashes n r) ++ (written ++ [w])) ∧
      ((∃ r ∈ untouched, R.clashes n r = true ∧ w = R.refresh n r) ∨
        (∀ r ∈ untouched, R.clashes n r = false) ∧ w = R.create t.nextId n) := by
  have hany : t.rows.any (R.clashes n) = untouched.any (R.clashes n) := by
    have hfree : written.any (R.clashes n) = false :=
      List.any_eq_false.mpr fun w hw => by simp [hwritten w hw]
    rw [hperm.any_eq, List.any_append, hfree, Bool.or_false]
  unfold insertOne
  by_cases hclash : untouched.any (R.clashes n) = true
  · rw [if_pos (hany.trans hclash)]
    obtain ⟨r, hr, hn⟩ := List.any_eq_true.mp hclash
    obtain ⟨before, after, rfl⟩ := List.append_of_mem hr
    have hothers := not_clashes_of_split hkeys hn
    have hbefore : ∀ x ∈ before, R.clashes n x = false :=
      fun x hx => hothers x (List.mem_append_left _ hx)
    have hafter : ∀ x ∈ after, R.clashes n x = false :=
      fun x hx => hothers x (List.mem_append_right _ hx)
    have hkept : ∀ l : List ρ, (∀ x ∈ l, R.clashes n x = false) →
        (l.filter fun x => !R.clashes n x) = l :=
      fun l hl => List.filter_eq_self.mpr fun x hx => by simp [hl x hx]
    refine ⟨R.refresh n r, ?_, Or.inl ⟨r, hr, hn, rfl⟩⟩
    refine (hperm.map fun x => if R.clashes n x then R.refresh n x else x).trans ?_
    rw [List.map_append, map_refresh_of_not_clashes hwritten, List.map_append, List.map_cons,
      map_refresh_of_not_clashes hbefore, map_refresh_of_not_clashes hafter, if_pos hn,
      List.filter_append, List.filter_cons_of_neg (by simp [hn]), hkept before hbefore,
      hkept after hafter]
    refine (List.perm_middle.append_right written).trans ?_
    rw [← List.append_assoc]
    exact (List.perm_append_singleton _ _).symm
  · have hnone : ∀ r ∈ untouched, R.clashes n r = false := by
      intro r hr
      rw [← Bool.not_eq_true]
      exact fun hn => hclash (List.any_eq_true.mpr ⟨r, hr, hn⟩)
    have hkept : (untouched.filter fun r => !R.clashes n r) = untouched :=
      List.filter_eq_self.mpr fun r hr => by simp [hnone r hr]
    rw [if_neg (by rw [hany]; exact hclash)]
    refine ⟨R.create t.nextId n, ?_, Or.inr ⟨hnone, rfl⟩⟩
    rw [hkept, ← List.append_assoc]
    exact hperm.append_right _

/-- A whole statement: the rows none of its own conflicts with, and one row for each of its own. -/
theorem insertAll_puts (hns : (ns.filterMap R.incoming).Nodup)
    (hkeys : (t.rows.filterMap R.stored).Nodup) :
    ∃ written, (R.insertAll t ns).rows.Perm
        (t.rows.filter (fun r => !ns.any fun n => R.clashes n r) ++ written) ∧
      List.Forall₂ (R.Put t) ns written := by
  induction ns using List.reverseRecOn with
  | nil => exact ⟨[], by simp [insertAll], List.Forall₂.nil⟩
  | append_singleton ns n ih =>
    have hns' : (ns.filterMap R.incoming).Nodup := by
      rw [List.filterMap_append] at hns
      exact hns.of_append_left
    obtain ⟨written, hperm, hputs⟩ := ih hns'
    have hwritten : ∀ w ∈ written, R.clashes n w = false := by
      intro w hw
      rw [← Bool.not_eq_true]
      intro hclash
      obtain ⟨m, hm, hput⟩ := SideBySide.exists_left hputs hw
      obtain ⟨hsome, hkey⟩ := clashes_iff.mp hclash
      exact earlier_key_ne hns hm hsome (hkey.trans hput.stored)
    obtain ⟨w, hone, hw⟩ := insertOne_perm hperm
      ((List.filter_sublist.filterMap R.stored).nodup hkeys) hwritten
    refine ⟨written ++ [w], ?_, List.rel_append hputs (List.Forall₂.cons ?_ List.Forall₂.nil)⟩
    · rw [insertAll_append_singleton]
      refine hone.trans (List.Perm.of_eq ?_)
      congr 1
      rw [List.filter_filter]
      refine List.filter_congr fun r _ => ?_
      rw [List.any_append, List.any_cons, List.any_nil, Bool.or_false, Bool.not_or, Bool.and_comm]
    · rcases hw with ⟨r, hr, hclash, rfl⟩ | ⟨hnone, rfl⟩
      · exact Put.refreshed (List.mem_filter.mp hr).1 hclash
      · refine Put.created (fun r hr => ?_) ?_
        · by_cases hfree : (ns.any fun m => R.clashes m r) = true
          · obtain ⟨m, hm, hclash⟩ := List.any_eq_true.mp hfree
            rw [← Bool.not_eq_true]
            intro hn
            obtain ⟨hsome, hkey⟩ := clashes_iff.mp hn
            exact earlier_key_ne hns hm hsome (hkey.trans (clashes_iff.mp hclash).2.symm)
          · exact hnone r (List.mem_filter.mpr ⟨hr, by simpa using hfree⟩)
        · rw [insertAll_rows hns']
          exact Nat.le_add_right _ _

end Puts

/-! ## What a statement leaves, in a view of it -/

section Views
variable {α : Type} (R) in
/-- A projection of the rows that a statement sets from its incoming rows. -/
structure Writes (g : ρ → α) (g' : ν → α) : Prop where
  refresh : ∀ n r, g (R.refresh n r) = g' n
  create : ∀ i n, g (R.create i n) = g' n

variable {α : Type} {g : ρ → α} {g' : ν → α}

variable (R) in
/-- The key of a row, and the projection. -/
def rowView (g : ρ → α) (r : ρ) : Option κ × α := (R.stored r, g r)

variable (R) in
def newView (g' : ν → α) (n : ν) : Option κ × α := (R.incoming n, g' n)

variable (R) in
/-- The view is of a row that the incoming row conflicts with. -/
def hits (n : ν) (view : Option κ × α) : Bool := (R.incoming n).isSome && R.incoming n = view.1

theorem Put.view {w : ρ} (hw : R.Writes g g') (h : R.Put t n w) :
    R.rowView g w = R.newView g' n := by
  unfold rowView newView
  rw [h.stored]
  cases h with
  | refreshed hr hclash => rw [hw.refresh]
  | created hnone hid => rw [hw.create]

/-- A whole statement: the views it conflicts with go, and its own are added. -/
theorem insertAll_perm (hw : R.Writes g g') (hns : (ns.filterMap R.incoming).Nodup)
    (hkeys : (t.rows.filterMap R.stored).Nodup) :
    ((R.insertAll t ns).rows.map (R.rowView g)).Perm
      ((t.rows.map (R.rowView g)).filter (fun view => !ns.any fun n => R.hits n view) ++
        ns.map (R.newView g')) := by
  obtain ⟨written, hperm, hputs⟩ := insertAll_puts hns hkeys
  have hviews : written.map (R.rowView g) = ns.map (R.newView g') := by
    clear hns hperm
    induction hputs with
    | nil => rfl
    | cons hput _ ih => rw [List.map_cons, List.map_cons, hput.view hw, ih]
  have hfilter : (t.rows.map (R.rowView g)).filter (fun view => !ns.any fun n => R.hits n view) =
      (t.rows.filter fun r => !ns.any fun n => R.clashes n r).map (R.rowView g) := List.filter_map
  rw [hfilter, ← hviews, ← List.map_append]
  exact hperm.map _

end Views

end Rule

end KeyedRows
