import WarsawEvents.Ingestion.Dedup
import Mathlib.Data.List.Permutation

/-! # Deduplication keeps account of every item

The ledger of a call of `deduplicate`: each item beside the branch that it took. What the call returns
is read off the ledger, and each entry of it is a choice among the candidates of that turn.
-/

namespace WarsawEvents.Ingestion
set_option autoImplicit false

/-! ## Reading a ledger -/

abbrev Ledger := List (RawItem × Branch)

/-- The merge that an entry stands for. -/
def mergeOf : RawItem × Branch → Option (ℕ × Ref)
  | (x, .merge e) => some (e.id, x.ref)
  | _ => none

def newOf : RawItem × Branch → Option RawItem
  | (x, .new) => some x
  | _ => none

/-- The reference that an entry folds into the card at the place `p`. -/
def foldOf (p : ℕ) : RawItem × Branch → Option Ref
  | (x, .fold twin) => if twin = p then some x.ref else none
  | _ => none

def Ledger.merges (l : Ledger) : List (ℕ × Ref) := l.filterMap mergeOf

def Ledger.news (l : Ledger) : List RawItem := l.filterMap newOf

def Ledger.folds (l : Ledger) (p : ℕ) : List Ref := l.filterMap (foldOf p)

/-- An accepted item with its list: its own reference, then those of the items folded into it. -/
def Ledger.carry (l : Ledger) (x : RawItem) (p : ℕ) : RawItem :=
  { x with sources := some (x.ref :: l.folds p) }

def Ledger.canonical (l : Ledger) : List RawItem := l.news.mapIdx fun p x => l.carry x p

variable (m : Matching) (existing : List Card) (adjudicate : Option Adjudicator)

/-- Each item with the branch it takes at its turn. -/
def ledger (items : List RawItem) : Ledger :=
  items.zipIdx.map fun p =>
    (p.1, branch m existing adjudicate (acceptedAfter m existing adjudicate (items.take p.2)) p.1)

variable {m existing adjudicate} {items : List RawItem} {x y : RawItem} {l : Ledger} {b : Branch}
  {p i : ℕ}

theorem ledger_items (items : List RawItem) :
    (ledger m existing adjudicate items).map Prod.fst = items := by
  unfold ledger
  rw [List.map_map]
  exact List.zipIdx_map_fst 0 items

theorem ledger_snoc : ledger m existing adjudicate (items ++ [x]) =
    ledger m existing adjudicate items ++
      [(x, branch m existing adjudicate (acceptedAfter m existing adjudicate items) x)] := by
  unfold ledger
  rw [List.zipIdx_append, List.map_append]
  refine congrArg₂ List.append ?_ ?_
  · apply List.map_congr_left
    rintro ⟨y, i⟩ hmem
    have hlt : i < items.length := (List.mem_zipIdx' hmem).1
    rw [List.take_append_of_le_length (Nat.le_of_lt hlt)]
  · simp

/-- The entry of an item, at its place in the input. -/
theorem ledger_getElem? (h : (ledger m existing adjudicate items)[i]? = some (x, b)) :
    items[i]? = some x ∧
      branch m existing adjudicate (acceptedAfter m existing adjudicate (items.take i)) x = b := by
  unfold ledger at h
  rw [List.getElem?_map, List.getElem?_zipIdx, Option.map_map] at h
  obtain ⟨y, hy, hpair⟩ := Option.map_eq_some_iff.mp h
  simp only [Function.comp_apply, Nat.zero_add, Prod.mk.injEq] at hpair
  obtain ⟨rfl, rfl⟩ := hpair
  exact ⟨hy, rfl⟩

/-! ## One more entry -/

theorem filterMap_snoc {α β : Type} (f : α → Option β) (l : List α) (a : α) :
    (l ++ [a]).filterMap f = l.filterMap f ++ (f a).toList := by
  rw [List.filterMap_append]
  rfl

theorem folds_snoc : Ledger.folds (l ++ [(x, b)]) p = l.folds p ++ (foldOf p (x, b)).toList :=
  filterMap_snoc (foldOf p) l (x, b)

theorem news_snoc : Ledger.news (l ++ [(x, b)]) = l.news ++ (newOf (x, b)).toList :=
  filterMap_snoc newOf l (x, b)

theorem merges_snoc : Ledger.merges (l ++ [(x, b)]) = l.merges ++ (mergeOf (x, b)).toList :=
  filterMap_snoc mergeOf l (x, b)

theorem news_snoc_quiet (h : newOf (x, b) = none) : Ledger.news (l ++ [(x, b)]) = l.news := by
  rw [news_snoc, h]
  exact List.append_nil _

theorem merges_snoc_quiet (h : mergeOf (x, b) = none) : Ledger.merges (l ++ [(x, b)]) = l.merges := by
  rw [merges_snoc, h]
  exact List.append_nil _

theorem carry_snoc_other (hb : ∀ y, foldOf p (y, b) = none) (z : RawItem) :
    Ledger.carry (l ++ [(x, b)]) z p = l.carry z p := by
  unfold Ledger.carry
  rw [folds_snoc, hb]
  simp

/-- Entries that fold nothing leave the lists as they are. -/
theorem mapIdx_carry (hb : ∀ p y, foldOf p (y, b) = none) (zs : List RawItem) :
    (zs.mapIdx fun p z => Ledger.carry (l ++ [(x, b)]) z p) = zs.mapIdx fun p z => l.carry z p := by
  refine List.ext_getElem? fun i => ?_
  rw [List.getElem?_mapIdx, List.getElem?_mapIdx]
  refine congrFun (congrArg Option.map ?_) _
  funext z
  exact carry_snoc_other (hb i) z

theorem canonical_snoc_quiet (hnew : newOf (x, b) = none) (hfold : ∀ p y, foldOf p (y, b) = none) :
    Ledger.canonical (l ++ [(x, b)]) = l.canonical := by
  unfold Ledger.canonical
  rw [news_snoc_quiet hnew]
  exact mapIdx_carry hfold l.news

theorem canonical_snoc_fold {twin : ℕ} : Ledger.canonical (l ++ [(x, .fold twin)]) =
    l.canonical.modify twin fun t => t.addRef x.ref := by
  unfold Ledger.canonical
  rw [news_snoc_quiet rfl]
  refine List.ext_getElem? fun i => ?_
  rw [List.getElem?_modify, List.getElem?_mapIdx, List.getElem?_mapIdx]
  cases hz : l.news[i]? with
  | none => rfl
  | some z =>
    simp only [Option.map_some]
    unfold Ledger.carry
    rw [folds_snoc]
    by_cases htwin : twin = i
    · subst htwin
      simp [foldOf, RawItem.addRef, RawItem.refs]
    · simp [foldOf, htwin]

/-- A new entry carries its own reference only, as nothing is folded into a place that is not taken. -/
theorem canonical_snoc_new (hfolds : l.folds l.news.length = []) :
    Ledger.canonical (l ++ [(x, .new)]) = l.canonical ++ [x.asCanonical] := by
  unfold Ledger.canonical
  have hnews : Ledger.news (l ++ [(x, .new)]) = l.news ++ [x] := news_snoc
  have hlast : Ledger.carry (l ++ [(x, .new)]) x l.news.length = x.asCanonical := by
    rw [carry_snoc_other fun _ => rfl]
    unfold Ledger.carry RawItem.asCanonical
    rw [hfolds]
  rw [hnews, List.mapIdx_concat, mapIdx_carry (fun _ _ => rfl), hlast]

/-! ## The result of a call is its ledger -/

/-- The result so far is the ledger so far, which folds into places that are taken. -/
structure Posted (st : Deduped) (l : Ledger) : Prop where
  merges : st.merges = l.merges
  canonical : st.canonical = l.canonical
  folds : ∀ p, l.news.length ≤ p → l.folds p = []

theorem Posted.length {st : Deduped} (h : Posted st l) : st.canonical.length = l.news.length := by
  rw [h.canonical]
  exact List.length_mapIdx

theorem Posted.step {st : Deduped} (h : Posted st l) :
    Posted (dedupStep m existing adjudicate st x)
      (l ++ [(x, branch m existing adjudicate st.canonical x)]) := by
  unfold dedupStep
  cases hbranch : branch m existing adjudicate st.canonical x with
  | merge e =>
    refine ⟨?_, ?_, ?_⟩
    · show st.merges ++ [(e.id, x.ref)] = _
      rw [h.merges]
      exact (merges_snoc (b := .merge e)).symm
    · rw [canonical_snoc_quiet rfl fun _ _ => rfl]
      exact h.canonical
    · intro p hp
      rw [news_snoc_quiet rfl] at hp
      rw [folds_snoc, h.folds p hp]
      rfl
  | fold twin =>
    obtain ⟨t, ht, _⟩ := fold_place hbranch
    have htaken : twin < l.news.length := by
      rw [← h.length]
      exact (List.getElem?_eq_some_iff.mp ht).1
    refine ⟨?_, ?_, ?_⟩
    · rw [merges_snoc_quiet rfl]
      exact h.merges
    · rw [canonical_snoc_fold, ← h.canonical]
    · intro p hp
      rw [news_snoc_quiet rfl] at hp
      rw [folds_snoc, h.folds p hp]
      have hne : twin ≠ p := by omega
      simp [foldOf, hne]
  | new =>
    have hnews : Ledger.news (l ++ [(x, .new)]) = l.news ++ [x] := news_snoc
    refine ⟨?_, ?_, ?_⟩
    · rw [merges_snoc_quiet rfl]
      exact h.merges
    · rw [canonical_snoc_new (h.folds _ (Nat.le_refl _)), ← h.canonical]
    · intro p hp
      rw [hnews, List.length_append] at hp
      rw [folds_snoc, h.folds p (by omega)]
      rfl

theorem deduplicate_posted (items : List RawItem) :
    Posted (deduplicate m items existing adjudicate) (ledger m existing adjudicate items) := by
  induction items using List.reverseRecOn with
  | nil => exact ⟨rfl, rfl, fun _ _ => rfl⟩
  | append_singleton items x ih =>
    rw [deduplicate_snoc, ledger_snoc]
    exact ih.step

/-! ## Every reference has its place -/

theorem refs_addRef_perm {canonical : List RawItem} {twin : ℕ} {t : RawItem}
    (ht : canonical[twin]? = some t) (ref : Ref) :
    ((canonical.modify twin fun t => t.addRef ref).flatMap RawItem.refs).Perm
      (canonical.flatMap RawItem.refs ++ [ref]) := by
  obtain ⟨hlt, _⟩ := List.getElem?_eq_some_iff.mp ht
  obtain ⟨before, c, after, hsplit, _, hmodified⟩ :=
    List.exists_of_modify (fun t : RawItem => t.addRef ref) hlt
  have hrefs : (c.addRef ref).refs = c.refs ++ [ref] := rfl
  rw [hmodified, hsplit, List.flatMap_append, List.flatMap_append, List.flatMap_cons,
    List.flatMap_cons, hrefs, List.append_assoc, List.append_assoc, List.append_assoc]
  refine List.Perm.append_left _ (List.Perm.append_left _ ?_)
  exact List.perm_append_comm

/-- An item adds its reference, wherever it goes. -/
theorem step_refs (st : Deduped) (x : RawItem) :
    ((dedupStep m existing adjudicate st x).merges.map Prod.snd ++
      (dedupStep m existing adjudicate st x).canonical.flatMap RawItem.refs).Perm
      ((st.merges.map Prod.snd ++ st.canonical.flatMap RawItem.refs) ++ [x.ref]) := by
  unfold dedupStep
  cases hbranch : branch m existing adjudicate st.canonical x with
  | merge e =>
    simp only [List.map_append, List.map_singleton, List.append_assoc]
    exact List.Perm.append_left _ List.perm_append_comm
  | fold twin =>
    obtain ⟨t, ht, _⟩ := fold_place hbranch
    rw [List.append_assoc]
    exact List.Perm.append_left _ (refs_addRef_perm ht x.ref)
  | new =>
    have hown : x.asCanonical.refs = [x.ref] := rfl
    rw [List.flatMap_append, List.flatMap_singleton, hown, List.append_assoc]

theorem refs_perm (items : List RawItem) : (items.map RawItem.ref).Perm
    ((deduplicate m items existing adjudicate).merges.map Prod.snd ++
      (deduplicate m items existing adjudicate).canonical.flatMap RawItem.refs) := by
  induction items using List.reverseRecOn with
  | nil => exact List.Perm.refl _
  | append_singleton items x ih =>
    rw [deduplicate_snoc, List.map_append, List.map_singleton]
    exact (ih.append_right [x.ref]).trans (step_refs _ x).symm

/-- An accepted card is an input item with its list. -/
theorem canonical_getElem? {c : RawItem}
    (h : (deduplicate m items existing adjudicate).canonical[p]? = some c) :
    ∃ x, (ledger m existing adjudicate items).news[p]? = some x ∧
      c = (ledger m existing adjudicate items).carry x p := by
  rw [(deduplicate_posted items).canonical] at h
  unfold Ledger.canonical at h
  rw [List.getElem?_mapIdx] at h
  obtain ⟨x, hx, hc⟩ := Option.map_eq_some_iff.mp h
  exact ⟨x, hx, hc.symm⟩

theorem canonical_sublist (items : List RawItem) :
    ((deduplicate m items existing adjudicate).canonical.map RawItem.bare).Sublist
      (items.map RawItem.bare) := by
  induction items using List.reverseRecOn with
  | nil => exact List.Sublist.refl _
  | append_singleton items x ih =>
    have hstep := @acceptedAfter_snoc_bare m existing adjudicate items x
    unfold acceptedAfter at hstep
    rw [hstep, List.map_append, List.map_singleton]
    apply ih.append
    split
    · exact List.Sublist.refl _
    · exact List.nil_sublist _

/-! ## Every entry is justified -/

/-- The card is an existing one of the item's block with another URL, and the first of the best among
those, with a score that counts as a match. -/
structure MergedInto (m : Matching) (existing : List Card) (adjudicate : Option Adjudicator)
    (x : RawItem) (e : Card) : Prop where
  stored : e ∈ existing
  block : blockKey m e.toRawItem = blockKey m x
  url : e.sourceUrl ≠ x.sourceUrl
  best : BestScore.Wins (nameScore m Card.toRawItem x) 0 (rivals m existing x) e
  accepted : Accepted adjudicate x e.toRawItem (nameScore m Card.toRawItem x e)

/-- The same of a card `t` that was accepted before, at the place `p`. -/
structure FoldedInto (m : Matching) (adjudicate : Option Adjudicator) (canonical : List RawItem)
    (x t : RawItem) (p : ℕ) : Prop where
  earlier : canonical[p]? = some t
  block : blockKey m t = blockKey m x
  best : BestScore.Wins (nameScore m Prod.fst x) 0 (twins m canonical x) (t, p)
  accepted : Accepted adjudicate x t (nameScore m Prod.fst x (t, p))

theorem merged_into {canonical : List RawItem} {e : Card}
    (h : branch m existing adjudicate canonical x = .merge e) :
    MergedInto m existing adjudicate x e := by
  have hmatch := branch_eq_merge_iff.mp h
  obtain ⟨hstored, hkept⟩ := List.mem_filter.mp hmatch.wins.mem
  simp only [Bool.and_eq_true, Bool.not_eq_true', decide_eq_false_iff_not, decide_eq_true_eq] at hkept
  exact ⟨hstored, hkept.2, hkept.1, hmatch.wins, hmatch.accepted⟩

theorem folded_into {canonical : List RawItem}
    (h : branch m existing adjudicate canonical x = .fold p) :
    ∃ t, FoldedInto m adjudicate canonical x t p := by
  obtain ⟨t, ht, _, hmatch⟩ := fold_place h
  have hkept := (List.mem_filter.mp hmatch.wins.mem).2
  exact ⟨t, ht, of_decide_eq_true hkept, hmatch.wins, hmatch.accepted⟩

/-- What is accepted stays, with a longer list. -/
theorem accepted_stays {t : RawItem} (i : ℕ)
    (h : (deduplicate m (items.take i) existing adjudicate).canonical[p]? = some t) :
    ∃ c, (deduplicate m items existing adjudicate).canonical[p]? = some c ∧ c.bare = t.bare := by
  have hprefix := acceptedAfter_prefix m existing adjudicate (items.take i) (items.drop i)
  rw [List.take_append_drop] at hprefix
  obtain ⟨rest, hrest⟩ := hprefix
  have hplace : ((acceptedAfter m existing adjudicate (items.take i)).map RawItem.bare)[p]? =
      some t.bare := by
    rw [List.getElem?_map]
    exact congrArg (Option.map RawItem.bare) h
  have hfinal : ((acceptedAfter m existing adjudicate items).map RawItem.bare)[p]? = some t.bare := by
    rw [← hrest, List.getElem?_append_left (List.getElem?_eq_some_iff.mp hplace).1]
    exact hplace
  rw [List.getElem?_map] at hfinal
  obtain ⟨c, hc, hbare⟩ := Option.map_eq_some_iff.mp hfinal
  exact ⟨c, hc, hbare⟩

/-- The accepted items are items of the input in their order. All references are kept: each stands in a
merge or in one list, and each list starts with the card's own. Every merge and every fold goes to the
first best candidate of the item's block at its turn, and that one is a match. -/
theorem dedup_accounts (items : List RawItem) (existing : List Card) (adjudicate : Option Adjudicator) :
    ((deduplicate m items existing adjudicate).canonical.map RawItem.bare).Sublist
        (items.map RawItem.bare) ∧
      (items.map RawItem.ref).Perm
        ((deduplicate m items existing adjudicate).merges.map Prod.snd ++
          (deduplicate m items existing adjudicate).canonical.flatMap RawItem.refs) ∧
      (∀ c ∈ (deduplicate m items existing adjudicate).canonical, c.refs.head? = some c.ref) ∧
      ∃ l : Ledger, l.map Prod.fst = items ∧
        (deduplicate m items existing adjudicate).merges = l.merges ∧
        (∀ p c, (deduplicate m items existing adjudicate).canonical[p]? = some c →
          c.refs.tail = l.folds p) ∧
        (∀ (i : ℕ) x e, l[i]? = some (x, Branch.merge e) → MergedInto m existing adjudicate x e) ∧
        ∀ (i : ℕ) x p, l[i]? = some (x, Branch.fold p) → ∃ t c,
          FoldedInto m adjudicate (deduplicate m (items.take i) existing adjudicate).canonical x t p ∧
            (deduplicate m items existing adjudicate).canonical[p]? = some c ∧ c.bare = t.bare := by
  refine ⟨canonical_sublist items, refs_perm items, ?_, ledger m existing adjudicate items,
    ledger_items items, (deduplicate_posted items).merges, ?_, ?_, ?_⟩
  · intro c hc
    obtain ⟨p, hp⟩ := List.mem_iff_getElem?.mp hc
    obtain ⟨x, _, rfl⟩ := canonical_getElem? hp
    rfl
  · intro p c hc
    obtain ⟨x, _, rfl⟩ := canonical_getElem? hc
    rfl
  · intro i x e hentry
    exact merged_into (ledger_getElem? hentry).2
  · intro i x p hentry
    obtain ⟨t, ht⟩ := folded_into (ledger_getElem? hentry).2
    obtain ⟨c, hc, hbare⟩ := accepted_stays i ht.earlier
    exact ⟨t, c, ht, hc, hbare⟩

end WarsawEvents.Ingestion
