import WarsawEvents.Ingestion.Freshness
import WarsawEvents.Ingestion.UpsertKeys

/-! # Where the reference of an item is stored

A reference travels with a merge, with a twin it is folded into, or with the item's own card. The upsert
stores the list of a card it inserts; of a card that is already there it refreshes other columns, and
the references the run collected on it are dropped.
-/

namespace WarsawEvents.Ingestion
set_option autoImplicit false

variable {m : Matching} {v : Voyage} {existing : List Card} {adjudicate : Option Adjudicator}
  {items canonical pre post : List RawItem} {catalog : Catalog} {ref : Ref} {x : RawItem}

/-! ## The two upserts together -/

theorem known_congr {rows : List Card} {a b : RawItem} (h : a.key = b.key) :
    Known rows a ↔ Known rows b := by
  unfold Known
  rw [h]

theorem repeatFree_iff_at : RepeatFree canonical ↔ RepeatFreeAt (fun _ => true) canonical := by
  rw [← nodup_keys_at_iff, RepeatFree, List.filter_true]
  have hkeys : (canonical.zipIdx.filterMap fun p => p.1.key) = canonical.filterMap RawItem.key := by
    conv_rhs => rw [← List.zipIdx_map_fst 0 canonical]
    rw [List.filterMap_map]
    rfl
  rw [hkeys]

theorem both_repeatFree (hfree : RepeatFree canonical) :
    RepeatFree (embedded v canonical) ∧ RepeatFree (notEmbedded v canonical) := by
  refine both_repeatFree_iff.mpr fun p q a b hpq ha hb hkey hsome => ?_
  exact absurd (repeatFree_iff_at.mp hfree p q a b hpq ha hb rfl rfl hkey) hsome

/-- What the two upserts write are the canonical cards, up to the vector. -/
theorem of_mem_written {w : RawItem} (h : w ∈ embedded v canonical ++ notEmbedded v canonical) :
    ∃ c ∈ canonical, ∃ vector, w = { c with embedding := vector } := by
  rcases List.mem_append.mp h with h | h
  · rw [embedded_eq] at h
    obtain ⟨p, hp, rfl⟩ := List.mem_map.mp h
    refine ⟨p.1, List.fst_mem_of_mem_zipIdx (List.mem_filter.mp hp).1, ?_⟩
    unfold withVector
    cases v.batch (p.2 / batchSize * batchSize) with
    | none => exact ⟨p.1.embedding, rfl⟩
    | some vector => exact ⟨_, rfl⟩
  · rw [notEmbedded_eq] at h
    obtain ⟨p, hp, rfl⟩ := List.mem_map.mp h
    exact ⟨p.1, List.fst_mem_of_mem_zipIdx (List.mem_filter.mp hp).1, p.1.embedding, rfl⟩

/-- The upserts share no key. -/
theorem written_key_ne {u w : RawItem} (hfree : RepeatFree canonical)
    (hu : u ∈ embedded v canonical) (hw : w ∈ notEmbedded v canonical) (hsome : u.key ≠ none) :
    u.key ≠ w.key := by
  rw [embedded_eq] at hu
  rw [notEmbedded_eq] at hw
  obtain ⟨⟨a, i⟩, ha, rfl⟩ := List.mem_map.mp hu
  obtain ⟨⟨b, j⟩, hb, rfl⟩ := List.mem_map.mp hw
  obtain ⟨ha, hi⟩ := List.mem_filter.mp ha
  obtain ⟨hb, hj⟩ := List.mem_filter.mp hb
  rw [List.mk_mem_zipIdx_iff_getElem?] at ha hb
  rw [withVector_key] at hsome ⊢
  intro hkey
  have hat := repeatFree_iff_at.mp hfree
  rcases Nat.lt_trichotomy i j with hij | hij | hij
  · exact hsome (hat i j a b hij ha hb rfl rfl hkey)
  · subst hij
    simp only at hi hj
    rw [hi] at hj
    cases hj
  · rw [hkey] at hsome
    exact hsome (hat j i b a hij hb ha rfl rfl hkey.symm)

variable (v catalog) in
theorem write_succeeds (hfree : RepeatFree canonical) :
    ∃ first second, upsert (embedded v canonical) true catalog = some first ∧
      upsert (notEmbedded v canonical) false first = some second ∧
      write v canonical catalog = { catalog := second, raised := false } := by
  obtain ⟨hin, hout⟩ := both_repeatFree (v := v) hfree
  cases hfirst : upsert (embedded v canonical) true catalog with
  | none => exact absurd hin (upsert_eq_none_iff.mp hfirst)
  | some first =>
    cases hsecond : upsert (notEmbedded v canonical) false first with
    | none => exact absurd hout (upsert_eq_none_iff.mp hsecond)
    | some second =>
      refine ⟨first, second, rfl, hsecond, ?_⟩
      unfold write
      rw [hfirst]
      simp only [hsecond]

/-- The upserts store the lists of the canonical cards that are new to the catalog. -/
theorem write_listed_iff (hfree : RepeatFree canonical) :
    Listed (write v canonical catalog).catalog.rows ref ↔ Listed catalog.rows ref ∨
      ∃ c ∈ canonical, ¬ Known catalog.rows c ∧ ref ∈ c.refs := by
  obtain ⟨first, second, hfirst, hsecond, hwrite⟩ := write_succeeds v catalog hfree
  rw [hwrite, upsert_listed_iff hsecond, upsert_listed_iff hfirst]
  have hrefs : ∀ {a b : RawItem}, a.sources = b.sources → a.refs = b.refs := by
    intro a b h
    unfold RawItem.refs
    rw [h]
  constructor
  · rintro ((hold | ⟨u, hu, hnew, href⟩) | ⟨w, hw, hnew, href⟩)
    · exact Or.inl hold
    · obtain ⟨c, hc, vector, rfl⟩ := of_mem_written (List.mem_append_left _ hu)
      exact Or.inr ⟨c, hc, hnew, href⟩
    · obtain ⟨c, hc, vector, rfl⟩ := of_mem_written (List.mem_append_right _ hw)
      refine Or.inr ⟨c, hc, fun hknown => hnew ?_, href⟩
      exact (upsert_known_iff hfirst).mpr (Or.inl hknown)
  · rintro (hold | ⟨c, hc, hnew, href⟩)
    · exact Or.inl (Or.inl hold)
    · obtain ⟨w, hw, hkey, hsources⟩ := mem_embedded_or_notEmbedded (v := v) hc
      rw [← hrefs hsources] at href
      rw [← known_congr hkey] at hnew
      rcases List.mem_append.mp hw with hw | hw
      · exact Or.inl (Or.inr ⟨w, hw, hnew, href⟩)
      · refine Or.inr ⟨w, hw, fun hknown => ?_, href⟩
        rcases (upsert_known_iff hfirst).mp hknown with hold | ⟨hsome, u, hu, hsame⟩
        · exact hnew hold
        · exact written_key_ne hfree hu hw (hsame ▸ hsome) hsame

/-! ## One run -/

variable (m existing adjudicate) in
theorem canonical_repeatFree (hrefs : (items.map RawItem.ref).Nodup) :
    RepeatFree (deduplicate m items existing adjudicate).canonical := by
  refine repeatFree_iff_at.mpr fun p q a b hpq ha hb _ _ hkey => ?_
  by_contra hsome
  obtain ⟨pre, x, mid, y, post, hitems, hax, hby, _⟩ := accepted_pair hpq ha hb
  have href : a.ref = b.ref := (key_eq_iff_ref_eq hsome).mp hkey
  rw [ref_of_bare hax, ref_of_bare hby] at href
  rw [hitems, List.map_append, List.nodup_append] at hrefs
  have hx : x.ref ∈ (pre ++ x :: mid).map RawItem.ref :=
    List.mem_map_of_mem (List.mem_append_right _ List.mem_cons_self)
  have hy : y.ref ∈ (y :: post).map RawItem.ref := List.mem_map_of_mem List.mem_cons_self
  exact hrefs.2.2 _ hx _ hy href

theorem known_mergeAll_iff {merges : List (ℕ × Ref)} (hperm : existing.Perm catalog.rows) :
    Known (catalog.rows.map (Card.mergeAll merges)) x ↔ Known existing x := by
  unfold Known
  refine and_congr_right fun _ => ?_
  constructor
  · rintro ⟨r', hr', hkey⟩
    obtain ⟨r, hr, rfl⟩ := List.mem_map.mp hr'
    exact ⟨r, hperm.mem_iff.mpr hr, Card.mergeAll_key.symm.trans hkey⟩
  · rintro ⟨r, hr, hkey⟩
    exact ⟨_, List.mem_map_of_mem (hperm.mem_iff.mp hr), Card.mergeAll_key.trans hkey⟩

theorem run_listed_iff (hkeyed : Keyed catalog.rows) (hperm : existing.Perm catalog.rows)
    (hrefs : (items.map RawItem.ref).Nodup) :
    Listed (run m v adjudicate items existing catalog).catalog.rows ref ↔
      Listed existing ref ∨
      (∃ id, (id, ref) ∈ (deduplicate m items existing adjudicate).merges) ∨
      ∃ c ∈ (deduplicate m items existing adjudicate).canonical,
        ¬ Known existing c ∧ ref ∈ c.refs := by
  unfold run
  simp only
  rw [write_listed_iff (canonical_repeatFree m existing adjudicate hrefs), commitMerges_alone hperm hkeyed.ids]
  have hlisted : Listed (catalog.rows.map (Card.mergeAll
      (deduplicate m items existing adjudicate).merges)) ref ↔
      Listed existing ref ∨ ∃ id, (id, ref) ∈ (deduplicate m items existing adjudicate).merges := by
    constructor
    · rintro ⟨c', hc', href⟩
      obtain ⟨c, hc, rfl⟩ := List.mem_map.mp hc'
      rcases mem_refs_mergeAll_iff.mp href with hold | hmerge
      · exact Or.inl ⟨c, hperm.mem_iff.mpr hc, hold⟩
      · exact Or.inr ⟨c.id, hmerge⟩
    · rintro (⟨c, hc, href⟩ | ⟨id, hmerge⟩)
      · exact ⟨_, List.mem_map_of_mem (hperm.mem_iff.mp hc), mem_refs_mergeAll_iff.mpr (Or.inl href)⟩
      · obtain ⟨e, he, hid⟩ := merges_target hmerge
        refine ⟨_, List.mem_map_of_mem (hperm.mem_iff.mp he), mem_refs_mergeAll_iff.mpr (Or.inr ?_)⟩
        have hid' : e.id = id := hid
        rwa [hid']
  simp only [hlisted, known_mergeAll_iff hperm, or_assoc]

theorem took_iff {n : ℕ} {b : Branch} (hrefs : ((pre ++ x :: post).map RawItem.ref).Nodup) :
    Took m existing adjudicate (pre ++ x :: post) x.ref n b ↔
      n = (acceptedAfter m existing adjudicate pre).length ∧
        branch m existing adjudicate (acceptedAfter m existing adjudicate pre) x = b := by
  constructor
  · rintro ⟨pre', x', post', hsplit, href, hn, hbranch⟩
    obtain ⟨rfl, rfl⟩ := split_unique hrefs hsplit href.symm
    exact ⟨hn, hbranch⟩
  · rintro ⟨hn, hbranch⟩
    exact ⟨pre, x, post, rfl, rfl, hn, hbranch⟩

/-- The reference is on the list of a new card: the item's own, or its twin's. -/
def CarriedByNew (m : Matching) (existing : List Card) (adjudicate : Option Adjudicator)
    (canonical : List RawItem) (x : RawItem) : Prop :=
  branch m existing adjudicate canonical x = .new ∧ ¬ Known existing x ∨
    ∃ p t, branch m existing adjudicate canonical x = .fold p ∧ canonical[p]? = some t ∧
      ¬ Known existing t

/-- A card accepted before is still at its place, with more references perhaps. -/
theorem accepted_at_place (post : List RawItem) {p : ℕ} {t : RawItem}
    (h : (acceptedAfter m existing adjudicate pre)[p]? = some t) :
    ∃ c, (acceptedAfter m existing adjudicate (pre ++ post))[p]? = some c ∧ c.bare = t.bare := by
  obtain ⟨rest, hrest⟩ := acceptedAfter_prefix m existing adjudicate pre post
  have hlt : p < ((acceptedAfter m existing adjudicate pre).map RawItem.bare).length := by
    rw [List.length_map]
    exact (List.getElem?_eq_some_iff.mp h).1
  have hbare : ((acceptedAfter m existing adjudicate (pre ++ post)).map RawItem.bare)[p]? =
      some t.bare := by
    rw [← hrest, List.getElem?_append_left hlt, List.getElem?_map, h, Option.map_some]
  rw [List.getElem?_map] at hbare
  exact Option.map_eq_some_iff.mp hbare

theorem carried_iff (hrefs : ((pre ++ x :: post).map RawItem.ref).Nodup) :
    (∃ c ∈ acceptedAfter m existing adjudicate (pre ++ x :: post),
      ¬ Known existing c ∧ x.ref ∈ c.refs) ↔
      CarriedByNew m existing adjudicate (acceptedAfter m existing adjudicate pre) x := by
  have hnew : branch m existing adjudicate (acceptedAfter m existing adjudicate pre) x = .new →
      ∃ c, (acceptedAfter m existing adjudicate (pre ++ x :: post))[(acceptedAfter m existing
        adjudicate pre).length]? = some c ∧ c.bare = x.bare := by
    intro hbranch
    have hplace := acceptedAfter_of_unmatched post (branch_eq_new_iff.mp hbranch)
    rw [List.getElem?_map] at hplace
    exact Option.map_eq_some_iff.mp hplace
  constructor
  · rintro ⟨c, hc, hunknown, href⟩
    obtain ⟨p, hp⟩ := List.mem_iff_getElem?.mp hc
    rcases mem_refs_accepted_iff.mp ⟨c, hp, href⟩ with htook | ⟨n, htook⟩
    · obtain ⟨rfl, hbranch⟩ := (took_iff hrefs).mp htook
      obtain ⟨c', hc', hbare⟩ := hnew hbranch
      have hsame : c = c' := Option.some.inj (hp.symm.trans hc')
      subst hsame
      exact Or.inl ⟨hbranch, (known_congr (key_of_bare hbare)).not.mp hunknown⟩
    · obtain ⟨_, hbranch⟩ := (took_iff hrefs).mp htook
      obtain ⟨t, ht, _⟩ := fold_place hbranch
      obtain ⟨c', hc', hbare⟩ := accepted_at_place (x :: post) ht
      have hsame : c = c' := Option.some.inj (hp.symm.trans hc')
      subst hsame
      exact Or.inr ⟨p, t, hbranch, ht, (known_congr (key_of_bare hbare)).not.mp hunknown⟩
  · rintro (⟨hbranch, hunknown⟩ | ⟨p, t, hbranch, ht, hunknown⟩)
    · obtain ⟨c, hc, hbare⟩ := hnew hbranch
      obtain ⟨w, hw, href⟩ := mem_refs_accepted_iff.mpr (Or.inl ((took_iff hrefs).mpr ⟨rfl, hbranch⟩))
      have hsame : w = c := Option.some.inj (hw.symm.trans hc)
      subst hsame
      exact ⟨w, List.mem_of_getElem? hw, (known_congr (key_of_bare hbare)).not.mpr hunknown, href⟩
    · obtain ⟨c, hc, hbare⟩ := accepted_at_place (x :: post) ht
      obtain ⟨w, hw, href⟩ := mem_refs_accepted_iff.mpr
        (Or.inr ⟨_, (took_iff hrefs).mpr ⟨rfl, hbranch⟩⟩)
      have hsame : w = c := Option.some.inj (hw.symm.trans hc)
      subst hsame
      exact ⟨w, List.mem_of_getElem? hw, (known_congr (key_of_bare hbare)).not.mpr hunknown, href⟩

/-- One item, by the branch it takes at its turn. -/
theorem item_listed_iff (hkeyed : Keyed catalog.rows) (hperm : existing.Perm catalog.rows)
    (hrefs : ((pre ++ x :: post).map RawItem.ref).Nodup) :
    Listed (run m v adjudicate (pre ++ x :: post) existing catalog).catalog.rows x.ref ↔
      Listed existing x.ref ∨
      (∃ e, branch m existing adjudicate (acceptedAfter m existing adjudicate pre) x = .merge e) ∨
      CarriedByNew m existing adjudicate (acceptedAfter m existing adjudicate pre) x := by
  rw [run_listed_iff hkeyed hperm hrefs, ← carried_iff hrefs]
  refine or_congr_right (or_congr_left ?_)
  constructor
  · rintro ⟨id, hmerge⟩
    obtain ⟨n, e, _, htook⟩ := mem_merges_iff.mp hmerge
    exact ⟨e, ((took_iff hrefs).mp htook).2⟩
  · rintro ⟨e, hbranch⟩
    exact ⟨e.id, mem_merges_iff.mpr ⟨_, e, rfl, (took_iff hrefs).mpr ⟨rfl, hbranch⟩⟩⟩

/-- The branches of an item whose reference reaches a stored list, in terms of what matches it. -/
theorem delivered_iff {accepted : List RawItem} :
    ((∃ e, branch m existing adjudicate accepted x = .merge e) ∨
      CarriedByNew m existing adjudicate accepted x) ↔
    (Unmatched m existing adjudicate accepted x → ¬ Known existing x) ∧
      ∀ t, (∀ e, ¬ Matches m Card.toRawItem adjudicate x (rivals m existing x) e) →
        Matches m Prod.fst adjudicate x (twins m accepted x) t → ¬ Known existing t.1 := by
  have hchosen := branch_chosen m existing adjudicate accepted x
  unfold CarriedByNew
  generalize branch m existing adjudicate accepted x = b at hchosen
  cases hchosen with
  | @merge e he =>
    refine ⟨fun _ => ⟨fun hun => absurd he (hun.1 e), fun t hrivals => absurd he (hrivals e)⟩, ?_⟩
    exact fun _ => Or.inl ⟨e, rfl⟩
  | @fold t hrivals ht =>
    have hplace : accepted[t.2]? = some t.1 :=
      List.mk_mem_zipIdx_iff_getElem?.mp (List.mem_filter.mp ht.wins.mem).1
    constructor
    · rintro (⟨e, hbranch⟩ | ⟨hbranch, _⟩ | ⟨p, t', hbranch, ht', hunknown⟩)
      · cases hbranch
      · cases hbranch
      · cases hbranch
        have hsame : t.1 = t' := Option.some.inj (hplace.symm.trans ht')
        refine ⟨fun hun => absurd ht (hun.2 t), fun s _ hs => ?_⟩
        rw [hs.wins.unique ht.wins, hsame]
        exact hunknown
    · intro h
      exact Or.inr (Or.inr ⟨t.2, t.1, rfl, hplace, h.2 t hrivals ht⟩)
  | new hrivals htwins =>
    constructor
    · rintro (⟨e, hbranch⟩ | ⟨_, hunknown⟩ | ⟨p, t', hbranch, _⟩)
      · cases hbranch
      · exact ⟨fun _ => hunknown, fun t _ ht => absurd ht (htwins t)⟩
      · cases hbranch
    · intro h
      exact Or.inr (Or.inl ⟨rfl, h.1 ⟨hrivals, htwins⟩⟩)

/-- After a run every reference is stored exactly when no item whose reference was stored nowhere is
left to the upsert of a card that is already there: its own, or its twin's. -/
theorem references_listed_iff (hkeyed : Keyed catalog.rows) (hperm : existing.Perm catalog.rows)
    (hrefs : (items.map RawItem.ref).Nodup) :
    (∀ x ∈ items, Listed (run m v adjudicate items existing catalog).catalog.rows x.ref) ↔
    ∀ pre x post, items = pre ++ x :: post → ¬ Listed existing x.ref →
      (Unmatched m existing adjudicate (acceptedAfter m existing adjudicate pre) x →
        ¬ Known existing x) ∧
      ∀ t, (∀ e, ¬ Matches m Card.toRawItem adjudicate x (rivals m existing x) e) →
        Matches m Prod.fst adjudicate x (twins m (acceptedAfter m existing adjudicate pre) x) t →
        ¬ Known existing t.1 := by
  constructor
  · intro h pre x post hitems hnot
    have hlisted := h x (hitems ▸ List.mem_append_right _ List.mem_cons_self)
    rw [hitems] at hrefs hlisted
    rw [item_listed_iff hkeyed hperm hrefs] at hlisted
    exact delivered_iff.mp (hlisted.resolve_left hnot)
  · intro h x hx
    obtain ⟨pre, post, hitems⟩ := List.append_of_mem hx
    by_cases hlisted : Listed existing x.ref
    · rw [hitems] at hrefs ⊢
      exact (item_listed_iff hkeyed hperm hrefs).mpr (Or.inl hlisted)
    · have hdelivered := delivered_iff.mpr (h pre x post hitems hlisted)
      rw [hitems] at hrefs ⊢
      exact (item_listed_iff hkeyed hperm hrefs).mpr (Or.inr hdelivered)

theorem run_completes (hrefs : (items.map RawItem.ref).Nodup) :
    (run m v adjudicate items existing catalog).raised = false := by
  obtain ⟨_, _, _, _, hwrite⟩ := write_succeeds v _
    (canonical_repeatFree m existing adjudicate hrefs)
  unfold run
  simp only
  rw [hwrite]

/-! ## A twin of a card that is already there -/

theorem references_listed_iff_merged :
    Listed (run asciiNames noVoyage none [galaFrom "facebook" "fb/1"] [storedGala]
      oneGala).catalog.rows (galaFrom "facebook" "fb/1").ref := by
  have hkeyed : Keyed oneGala.rows := ⟨by decide, by decide⟩
  refine (references_listed_iff hkeyed (List.Perm.refl _) (by decide)).mpr ?_ _ List.mem_cons_self
  intro pre x post hitems _
  obtain ⟨rfl, rfl, rfl⟩ := split_singleton hitems
  refine ⟨fun _ hknown => ?_, fun t _ ht => absurd ht.wins.mem List.not_mem_nil⟩
  unfold Known at hknown
  exact absurd hknown (by decide)

/-- The stored gala is moved, and listed once more under another URL. -/
def movedAndListedAgain : List RawItem := [gala "tm/1" 5, gala "tm/2" 5]

theorem reference_not_listed :
    ¬ ∀ (m : Matching) (v : Voyage) (adjudicate : Option Adjudicator) (items : List RawItem)
      (existing : List Card) (catalog : Catalog), Keyed catalog.rows → existing.Perm catalog.rows →
      (∀ x ∈ items, x.key ≠ none) → (items.map RawItem.ref).Nodup →
      ∀ x ∈ items, Listed (run m v adjudicate items existing catalog).catalog.rows x.ref := by
  intro h
  have hkeyed : Keyed oneGala.rows := ⟨by decide, by decide⟩
  have hlisted := h asciiNames noVoyage none movedAndListedAgain [storedGala] oneGala hkeyed
    (List.Perm.refl _) (by decide) (by decide) (gala "tm/2" 5)
    (List.mem_cons_of_mem _ List.mem_cons_self)
  unfold Listed at hlisted
  exact absurd hlisted (by decide +kernel)

end WarsawEvents.Ingestion
