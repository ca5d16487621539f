import WarsawEvents.Ingestion.CleanCatalog

/-! # A second run, told before the first

The first run leaves the stored cards that no accepted listing refreshes, and the accepted listings. The
second run over the same list is told from these, in the order its SELECT returns them: whom an item
would be merged into, whether that card has the reference by then, and which items find nothing.
-/

namespace WarsawEvents.Ingestion
set_option autoImplicit false

variable {m : Matching} {v : Voyage} {existing : List Card} {adjudicate : Option Adjudicator}
  {items canonical pre post : List RawItem} {catalog : Catalog} {x y : RawItem}

/-! ## The rows that the two upserts leave -/

/-- One statement: a row has the view of a listing with its key, or its own. -/
theorem refreshed_view (fresh : Bool) (items : List RawItem) (c : Card) :
    ((cardRule fresh).refreshed items c).view = c.view ∧ keyAmong items c.view = false ∨
      ∃ w ∈ items, w.key ≠ none ∧ w.view = ((cardRule fresh).refreshed items c).view := by
  unfold KeyedRows.Rule.refreshed
  cases hfind : items.find? fun n => (cardRule fresh).clashes n c with
  | none =>
    refine Or.inl ⟨rfl, List.any_eq_false.mpr fun w hw => ?_⟩
    exact List.find?_eq_none.mp hfind w hw
  | some w =>
    have hclash := List.find?_some hfind
    obtain ⟨hsome, hkey⟩ := KeyedRows.Rule.clashes_iff.mp hclash
    refine Or.inr ⟨w, List.mem_of_find?_eq_some hfind, hsome, ?_⟩
    exact Prod.ext hkey rfl

/-- Where a row of the two upserts comes from: an old card, refreshed or as it was, or a new listing. -/
theorem of_mem_write (hfree : RepeatFree canonical) {r : Card}
    (hr : r ∈ (write v canonical catalog).catalog.rows) :
    (∃ c ∈ catalog.rows, r.id = c.id ∧ r.sources = c.sources ∧ r.key = c.key ∧
      (r.view = c.view ∧ keyAmong canonical c.view = false ∨
        ∃ a ∈ canonical, a.key ≠ none ∧ a.view = r.view)) ∨
      ∃ a ∈ canonical, ¬ Known catalog.rows a ∧ a.view = r.view ∧ a.sources = r.sources := by
  obtain ⟨first, second, hfirst, hsecond, hwrite⟩ := write_succeeds v catalog hfree
  have hcanonical : ∀ w ∈ embedded v canonical ++ notEmbedded v canonical,
      ∃ a ∈ canonical, a.view = w.view ∧ a.key = w.key ∧ a.sources = w.sources := by
    intro w hw
    obtain ⟨a, ha, vector, rfl⟩ := of_mem_written hw
    exact ⟨a, ha, rfl, rfl, rfl⟩
  rw [hwrite] at hr
  simp only [upsert_rows hsecond, upsert_rows hfirst, List.map_append, List.map_map, List.append_assoc,
    List.mem_append, List.mem_map] at hr
  obtain ⟨c, hc, rfl⟩ | ⟨c, hc, rfl⟩ | hc := hr
  · left
    refine ⟨c, hc, by simp, by simp, by simp, ?_⟩
    rw [← keyAmong_written]
    obtain ⟨hlast, hout⟩ | ⟨w, hw, hsome, hview⟩ :=
        refreshed_view false (notEmbedded v canonical) ((cardRule true).refreshed (embedded v canonical) c)
    · rw [Function.comp_apply, hlast]
      obtain ⟨hfirst, hin⟩ | ⟨w, hw, hsome, hview⟩ := refreshed_view true (embedded v canonical) c
      · rw [hfirst] at hout ⊢
        exact Or.inl ⟨rfl, by rw [hin, hout]; rfl⟩
      · obtain ⟨a, ha, hsame, hkey, _⟩ := hcanonical w (List.mem_append_left _ hw)
        exact Or.inr ⟨a, ha, hkey ▸ hsome, hsame.trans hview⟩
    · obtain ⟨a, ha, hsame, hkey, _⟩ := hcanonical w (List.mem_append_right _ hw)
      exact Or.inr ⟨a, ha, hkey ▸ hsome, hsame.trans hview⟩
  · obtain ⟨u, hu, hnew, rfl⟩ := mem_created hc
    obtain ⟨a, ha, hview, hkey, hsources⟩ := hcanonical c.toRawItem (List.mem_append_left _ hu)
    refine Or.inr ⟨a, ha, (known_congr hkey).not.mpr hnew, ?_, ?_⟩
    · obtain ⟨hlast, _⟩ | ⟨w, hw, hsome, hsame⟩ := refreshed_view false (notEmbedded v canonical) c
      · exact hview.trans hlast.symm
      · have hwkey : w.key = c.key := (congrArg Prod.fst hsame).trans (refreshed_key _ _ c)
        exact absurd hwkey.symm (written_key_ne hfree hu hw (hwkey ▸ hsome))
    · rw [hsources, refreshed_sources]
  · obtain ⟨w, hw, hnew, rfl⟩ := mem_created hc
    obtain ⟨a, ha, hview, hkey, hsources⟩ := hcanonical r.toRawItem (List.mem_append_right _ hw)
    refine Or.inr ⟨a, ha, fun hknown => hnew ?_, hview, hsources⟩
    exact (upsert_known_iff hfirst).mpr (Or.inl ((known_congr hkey).mp hknown))

/-! ## What stands after the first run -/

/-- A stored card, or a listing that became one. -/
inductive Stand where
  | stored (c : Card)
  | listed (y : RawItem)

/-- The card as the matcher reads it; the id is not among what it reads. -/
def Stand.card : Stand → Card
  | .stored c => c
  | .listed y => { y with id := 0 }

/-- The row has the key and the reading of the card, and it is the stored card's own row. -/
def Stand.Row : Stand → Card → Prop
  | .stored c, r => r.id = c.id ∧ c.view = r.view
  | .listed y, r => y.view = r.view

theorem Stand.Row.view {s : Stand} {r : Card} (h : s.Row r) : s.card.view = r.view := by
  cases s with
  | stored c => exact h.2
  | listed y => exact h

section Stands
variable (m existing adjudicate items)

/-- The stored cards that no accepted listing refreshes, and the accepted listings. -/
def Stands : Stand → Prop
  | .stored c => c ∈ existing ∧ ¬ Refreshed m existing adjudicate items c
  | .listed y => ∃ pre post, items = pre ++ y :: post ∧
    Unmatched m existing adjudicate (acceptedAfter m existing adjudicate pre) y

/-- The run merges the item into the card. -/
def MergesInto (x : RawItem) (c : Card) : Prop :=
  Matches m Card.toRawItem adjudicate x (rivals m existing x) c

/-- The run folds the item, the next one after `pre`, into the listing accepted before. -/
def FoldsInto (pre : List RawItem) (x y : RawItem) : Prop :=
  (∀ e, ¬ MergesInto m existing adjudicate x e) ∧
    ∃ t, Matches m Prod.fst adjudicate x (twins m (acceptedAfter m existing adjudicate pre) x) t ∧
      t.1.ref = y.ref

/-- The item's reference is on the card: from before the run, or as the run merged it into the card's row
or folded it into the listing of a new row. -/
def Stand.Lists (pre : List RawItem) (x : RawItem) : Stand → Prop
  | .stored c => x.ref ∈ c.refs ∨ MergesInto m existing adjudicate x c
  | .listed y =>
    (∃ c ∈ existing, c.key = y.key ∧ (x.ref ∈ c.refs ∨ MergesInto m existing adjudicate x c)) ∨
      ¬ Known existing y ∧ FoldsInto m existing adjudicate pre x y

end Stands

theorem merged_iff (hids : (existing.map Card.id).Nodup) {c : Card} (hc : c ∈ existing)
    (hrefs : ((pre ++ x :: post).map RawItem.ref).Nodup) :
    (c.id, x.ref) ∈ (deduplicate m (pre ++ x :: post) existing adjudicate).merges ↔
      MergesInto m existing adjudicate x c := by
  rw [mem_merges_iff]
  constructor
  · rintro ⟨n, e, hid, htook⟩
    have he := branch_eq_merge_iff.mp ((took_iff hrefs).mp htook).2
    have hmem : e ∈ existing := (List.mem_filter.mp he.wins.mem).1
    rwa [List.inj_on_of_nodup_map hids hmem hc hid] at he
  · intro h
    exact ⟨_, c, rfl, (took_iff hrefs).mpr ⟨rfl, branch_eq_merge_iff.mpr h⟩⟩

/-- An accepted listing has the references of the items folded into it, apart from its own. -/
theorem folded_iff {a : RawItem} (hrefs : ((pre ++ x :: post).map RawItem.ref).Nodup)
    (ha : a ∈ acceptedAfter m existing adjudicate (pre ++ x :: post)) (hsome : a.key ≠ none)
    (hne : x.ref ≠ a.ref) : x.ref ∈ a.refs ↔ FoldsInto m existing adjudicate pre x a := by
  obtain ⟨p, hp⟩ := List.mem_iff_getElem?.mp ha
  have hplace : x.ref ∈ a.refs ↔ Took m existing adjudicate (pre ++ x :: post) x.ref p .new ∨
      ∃ n, Took m existing adjudicate (pre ++ x :: post) x.ref n (.fold p) := by
    rw [← mem_refs_accepted_iff, hp]
    simp
  have hnew : ¬ Took m existing adjudicate (pre ++ x :: post) x.ref p .new := by
    intro htook
    obtain ⟨rfl, hbranch⟩ := (took_iff hrefs).mp htook
    have hx := acceptedAfter_of_unmatched post (branch_eq_new_iff.mp hbranch)
    rw [List.getElem?_map, hp] at hx
    exact hne (ref_of_bare (Option.some.inj hx).symm)
  rw [hplace, or_iff_right hnew]
  constructor
  · rintro ⟨n, htook⟩
    obtain ⟨_, hbranch⟩ := (took_iff hrefs).mp htook
    obtain ⟨t, ht, hnone, hmatch⟩ := fold_place hbranch
    obtain ⟨c, hc, hbare⟩ := accepted_at_place (x :: post) ht
    obtain rfl : a = c := Option.some.inj (hp.symm.trans hc)
    exact ⟨hnone, (t, p), hmatch, ref_of_bare hbare.symm⟩
  · rintro ⟨hnone, ⟨t, q⟩, hmatch, href⟩
    have ht := List.mk_mem_zipIdx_iff_getElem?.mp (List.mem_filter.mp hmatch.wins.mem).1
    obtain ⟨c, hc, hbare⟩ := accepted_at_place (x :: post) ht
    have hkey : a.key = c.key := (key_eq_iff_ref_eq hsome).mpr (href.symm.trans (ref_of_bare hbare.symm))
    have hat := repeatFree_iff_at.mp (canonical_repeatFree m existing adjudicate hrefs)
    have hsame : q = p := by
      rcases Nat.lt_trichotomy p q with hlt | heq | hlt
      · exact absurd (hat p q a c hlt hp hc rfl rfl hkey) hsome
      · exact heq.symm
      · exact absurd (hat q p c a hlt hc hp rfl rfl hkey.symm) (hkey ▸ hsome)
    exact ⟨_, (took_iff hrefs).mpr ⟨rfl, branch_eq_fold_iff.mpr ⟨hnone, (t, q), hmatch, hsame⟩⟩⟩

/-- A listing that refreshed a stored card has the references of that card. -/
theorem listed_stored_iff {c : Card} (hkeyed : Keyed existing) (hc : c ∈ existing) (hkey : c.key = y.key)
    (hsome : y.key ≠ none) : (Stand.listed y).Lists m existing adjudicate pre x ↔
      x.ref ∈ c.refs ∨ MergesInto m existing adjudicate x c := by
  constructor
  · rintro (⟨e, he, hekey, hin⟩ | ⟨hunknown, _⟩)
    · rwa [hkeyed.eq_of_key he hc (hekey ▸ hsome) (hekey.trans hkey.symm)] at hin
    · exact absurd ⟨hsome, c, hc, hkey⟩ hunknown
  · exact fun hin => Or.inl ⟨c, hc, hkey, hin⟩

theorem listed_new_iff (hunknown : ¬ Known existing y) (hsome : y.key ≠ none) :
    (Stand.listed y).Lists m existing adjudicate pre x ↔ FoldsInto m existing adjudicate pre x y := by
  constructor
  · rintro (⟨c, hc, hckey, _⟩ | ⟨_, hfold⟩)
    · exact absurd ⟨hsome, c, hc, hckey⟩ hunknown
    · exact hfold
  · exact fun hfold => Or.inr ⟨hunknown, hfold⟩

theorem view_of_bare {a b : RawItem} (h : a.bare = b.bare) : a.view = b.view := by
  unfold RawItem.view
  rw [key_of_bare h, read_of_bare h]

variable (m existing adjudicate items) in
/-- The first run leaves the row for the card, with the references the card has by then. -/
structure Leaves (s : Stand) (r : Card) : Prop where
  stands : Stands m existing adjudicate items s
  row : s.Row r
  lists : ∀ pre x post, items = pre ++ x :: post → x.key ≠ r.key →
    (x.ref ∈ r.refs ↔ s.Lists m existing adjudicate pre x)

/-- The row of an accepted listing whose key was not stored. -/
theorem leaves_of_new (hrefs : (items.map RawItem.ref).Nodup) (hsome : ∀ x ∈ items, x.key ≠ none)
    {a : RawItem} {r : Card} (ha : a ∈ (deduplicate m items existing adjudicate).canonical)
    (hunknown : ¬ Known existing a) (hview : a.view = r.view) (hsources : a.sources = r.sources) :
    ∃ s, Leaves m existing adjudicate items s r := by
  obtain ⟨pre, y, post, hitems, hbare, hun⟩ := exists_unmatched ha
  have hy : y.view = r.view := (view_of_bare hbare).symm.trans hview
  have hakey : a.key = y.key := key_of_bare hbare
  have hysome : y.key ≠ none := hsome y (hitems ▸ List.mem_append_right _ List.mem_cons_self)
  refine ⟨.listed y, ⟨pre, post, hitems, hun⟩, hy, fun pre' x post' hitems' hother => ?_⟩
  have harefs : x.ref ∈ r.refs ↔ x.ref ∈ a.refs := by
    unfold RawItem.refs
    rw [hsources]
  have hasome : a.key ≠ none := hakey ▸ hysome
  have hne : x.ref ≠ a.ref := by
    intro hsame
    refine hother (((key_eq_iff_ref_eq hasome).mpr hsame.symm).symm.trans ?_)
    exact congrArg Prod.fst hview
  subst hitems'
  rw [harefs, folded_iff hrefs ha hasome hne, listed_new_iff ((known_congr hakey).not.mp hunknown) hysome]
  unfold FoldsInto
  rw [ref_of_bare hbare]

theorem exists_leaves (hkeyed : Keyed catalog.rows) (hperm : existing.Perm catalog.rows)
    (hrefs : (items.map RawItem.ref).Nodup) (hsome : ∀ x ∈ items, x.key ≠ none) {r : Card}
    (hr : r ∈ (run m v adjudicate items existing catalog).catalog.rows) :
    ∃ s, Leaves m existing adjudicate items s r := by
  have hloaded : Keyed existing := hkeyed.perm hperm
  unfold run at hr
  simp only at hr
  rw [commitMerges_alone hperm hkeyed.ids] at hr
  have hmerged : ∀ c ∈ existing, r.sources = (c.mergeAll
      (deduplicate m items existing adjudicate).merges).sources → ∀ pre x post, items = pre ++ x :: post →
        (x.ref ∈ r.refs ↔ x.ref ∈ c.refs ∨ MergesInto m existing adjudicate x c) := by
    rintro c hc hsources pre x post rfl
    rw [← merged_iff hloaded.ids hc hrefs, ← mem_refs_mergeAll_iff]
    unfold RawItem.refs
    rw [hsources]
  obtain ⟨c', hc', hid, hsources, hkey, hview⟩ | ⟨a, ha, hunknown, hview, hsources⟩ :=
    of_mem_write (canonical_repeatFree m existing adjudicate hrefs) hr
  · obtain ⟨c, hc, rfl⟩ := List.mem_map.mp hc'
    have hmem : c ∈ existing := hperm.mem_iff.mpr hc
    rw [Card.mergeAll_id] at hid
    rw [Card.mergeAll_key] at hkey
    obtain ⟨hown, hnone⟩ | ⟨a, ha, hkeyed', hview⟩ := hview
    · -- no accepted listing has the card's key: it stands as the merges left it
      have hsame : (c.mergeAll (deduplicate m items existing adjudicate).merges).view = c.view := by
        rw [Card.mergeAll_eq]
        rfl
      rw [hsame] at hown hnone
      refine ⟨.stored c, ⟨hmem, ?_⟩, ⟨hid, hown.symm⟩, fun pre x post hitems _ => ?_⟩
      · rw [← refreshed_iff]
        exact Bool.eq_false_iff.mp hnone
      · exact hmerged c hmem hsources pre x post hitems
    · -- an accepted listing has refreshed the card, whose references stay
      obtain ⟨pre, y, post, hitems, hbare, hun⟩ := exists_unmatched ha
      have hy : y.view = r.view := (view_of_bare hbare).symm.trans hview
      have hykey : c.key = y.key := hkey.symm.trans (congrArg Prod.fst hy).symm
      refine ⟨.listed y, ⟨pre, post, hitems, hun⟩, hy, fun pre' x post' hitems' _ => ?_⟩
      have hysome : y.key ≠ none := hsome y (hitems ▸ List.mem_append_right _ List.mem_cons_self)
      rw [hmerged c hmem hsources pre' x post' hitems', listed_stored_iff hloaded hmem hykey hysome]
  · refine leaves_of_new hrefs hsome ha (fun hknown => hunknown ?_) hview hsources
    exact (known_mergeAll_iff hperm).mpr hknown

theorem stand_unique {s s' : Stand} {r : Card} (hids : (existing.map Card.id).Nodup)
    (hrefs : (items.map RawItem.ref).Nodup) (hsome : ∀ x ∈ items, x.key ≠ none)
    (hs : Stands m existing adjudicate items s) (hs' : Stands m existing adjudicate items s')
    (hr : s.Row r) (hr' : s'.Row r) : s = s' := by
  have hleft : ∀ {c y}, Stands m existing adjudicate items (.stored c) →
      Stands m existing adjudicate items (.listed y) → c.view = r.view → y.view = r.view → False := by
    rintro c y hc ⟨pre, post, rfl, hun⟩ hcr hyr
    refine hc.2 ⟨pre, y, post, rfl, hsome y (List.mem_append_right _ List.mem_cons_self), ?_, hun⟩
    exact congrArg Prod.fst (hyr.trans hcr.symm)
  cases s with
  | stored c =>
    cases s' with
    | stored c' => rw [List.inj_on_of_nodup_map hids hs.1 hs'.1 (hr.1.symm.trans hr'.1)]
    | listed y => exact (hleft hs hs' hr.2 hr').elim
  | listed y =>
    cases s' with
    | stored c => exact (hleft hs' hs hr'.2 hr).elim
    | listed y' =>
      obtain ⟨pre, post, hitems, _⟩ := hs
      obtain ⟨pre', post', hitems', _⟩ := hs'
      have hy : y ∈ items := hitems ▸ List.mem_append_right _ List.mem_cons_self
      have hy' : y' ∈ items := hitems' ▸ List.mem_append_right _ List.mem_cons_self
      have href : y.ref = y'.ref :=
        (key_eq_iff_ref_eq (hsome y hy)).mp (congrArg Prod.fst (hr.trans hr'.symm))
      rw [List.inj_on_of_nodup_map hrefs hy hy' href]

/-- Every card that stands has its row. -/
theorem row_of_stands {s : Stand} (hkeyed : Keyed catalog.rows) (hperm : existing.Perm catalog.rows)
    (hrefs : (items.map RawItem.ref).Nodup) (hsome : ∀ x ∈ items, x.key ≠ none)
    (hs : Stands m existing adjudicate items s) :
    ∃ r ∈ (run m v adjudicate items existing catalog).catalog.rows, s.Row r := by
  cases s with
  | stored c =>
    have hids : (existing.map Card.id).Nodup := (hkeyed.perm hperm).ids
    obtain ⟨f, extra, hrows, hf, _⟩ := write_rows v
      { catalog with rows := catalog.rows.map (Card.mergeAll
          (deduplicate m items existing adjudicate).merges) }
      (canonical_repeatFree m existing adjudicate hrefs)
    have hr : f (c.mergeAll (deduplicate m items existing adjudicate).merges) ∈
        (run m v adjudicate items existing catalog).catalog.rows := by
      unfold run
      simp only
      rw [commitMerges_alone hperm hkeyed.ids, hrows]
      exact List.mem_append_left _ (List.mem_map_of_mem (List.mem_map_of_mem (hperm.mem_iff.mp hs.1)))
    obtain ⟨hid, _, hkey⟩ := hf (c.mergeAll (deduplicate m items existing adjudicate).merges)
    rw [Card.mergeAll_id] at hid
    rw [Card.mergeAll_key] at hkey
    obtain ⟨s, hstands, hrow, _⟩ := exists_leaves hkeyed hperm hrefs hsome hr
    cases s with
    | stored c' =>
      obtain rfl : c = c' := List.inj_on_of_nodup_map hids hs.1 hstands.1 (hid.symm.trans hrow.1)
      exact ⟨_, hr, hrow⟩
    | listed y =>
      obtain ⟨pre, post, rfl, hun⟩ := hstands
      have hykey : y.key = c.key := (congrArg Prod.fst hrow).trans hkey
      exact absurd ⟨pre, y, post, rfl, hsome y (List.mem_append_right _ List.mem_cons_self), hykey, hun⟩ hs.2
  | listed y =>
    obtain ⟨pre, post, rfl, hun⟩ := hs
    obtain ⟨a, ha, hbare⟩ := exists_accepted post hun
    have hview : a.view ∈ (run m v adjudicate (pre ++ y :: post) existing catalog).catalog.rows.map
        Card.view := by
      rw [(run_views hkeyed hperm hrefs).mem_iff]
      exact List.mem_append_right _ (List.mem_map_of_mem ha)
    obtain ⟨r, hr, hsame⟩ := List.mem_map.mp hview
    exact ⟨r, hr, (view_of_bare hbare).symm.trans hsame.symm⟩

theorem row_unique {s : Stand} {r r' : Card} (hkeyed : Keyed catalog.rows)
    (hsome : ∀ x ∈ items, x.key ≠ none) (hs : Stands m existing adjudicate items s)
    (hr : r ∈ catalog.rows) (hr' : r' ∈ catalog.rows) (h : s.Row r) (h' : s.Row r') : r = r' := by
  cases s with
  | stored c => exact List.inj_on_of_nodup_map hkeyed.ids hr hr' (h.1.trans h'.1.symm)
  | listed y =>
    obtain ⟨pre, post, rfl, _⟩ := hs
    have hkey : y.key = r.key := congrArg Prod.fst h
    refine hkeyed.eq_of_key hr hr' ?_ (congrArg Prod.fst (h.symm.trans h'))
    rw [← hkey]
    exact hsome y (List.mem_append_right _ List.mem_cons_self)

/-! ## The order of the second SELECT -/

/-- However the second SELECT orders the rows, they are the cards that stand, each once. -/
theorem standing_order {existing' : List Card} (hsound : Sound catalog)
    (hperm : existing.Perm catalog.rows) (hrefs : (items.map RawItem.ref).Nodup)
    (hsome : ∀ x ∈ items, x.key ≠ none)
    (hperm' : existing'.Perm (run m v adjudicate items existing catalog).catalog.rows) :
    ∃ order : List Stand, order.Nodup ∧ (∀ s, s ∈ order ↔ Stands m existing adjudicate items s) ∧
      List.Forall₂ (Leaves m existing adjudicate items) order existing' := by
  have hids : (existing.map Card.id).Nodup := (hsound.keyed.perm hperm).ids
  have hafter : Sound (run m v adjudicate items existing catalog).catalog := hsound.run hperm
  obtain ⟨order, horder⟩ := SideBySide.exists_beside fun r hr =>
    exists_leaves hsound.keyed hperm hrefs hsome (hperm'.mem_iff.mp hr)
  refine ⟨order, ?_, fun s => ⟨fun hs => ?_, fun hs => ?_⟩, horder⟩
  · have hnodup : existing'.Nodup := hperm'.nodup_iff.mpr (hafter.keyed.ids.of_map _)
    refine SideBySide.nodup horder hnodup fun s r hr r' hr' h h' => ?_
    exact row_unique hafter.keyed hsome h.stands (hperm'.mem_iff.mp hr) (hperm'.mem_iff.mp hr') h.row h'.row
  · obtain ⟨r, _, hr⟩ := SideBySide.exists_right horder hs
    exact hr.stands
  · obtain ⟨r, hr, hrow⟩ := row_of_stands (v := v) hsound.keyed hperm hrefs hsome hs
    obtain ⟨s', hs', hleaves⟩ := SideBySide.exists_left horder (hperm'.mem_iff.mpr hr)
    rwa [stand_unique hids hrefs hsome hs hleaves.stands hrow hleaves.row]

/-! ## Decisions on what the matcher reads -/

/-- An adjudicator that answers from names and dates. -/
def byNameAndDate
    (answers : Option (String × Option Datetime → String × Option Datetime → Bool)) :
    Option Adjudicator :=
  answers.map fun same a b => same (a.name, a.startsAt) (b.name, b.startsAt)

section Decisions
variable {l l' : List Card}

theorem branch_same (canonical : List RawItem)
    (h : (∃ e, MergesInto m l adjudicate x e) ↔ ∃ e, MergesInto m l' adjudicate x e) :
    branch m l adjudicate canonical x = branch m l' adjudicate canonical x ∨
      ∃ e e', branch m l adjudicate canonical x = .merge e ∧ branch m l' adjudicate canonical x = .merge e' := by
  have hnone : (∀ e, ¬ MergesInto m l adjudicate x e) ↔ ∀ e, ¬ MergesInto m l' adjudicate x e := by
    rw [← not_exists, ← not_exists, h]
  cases hbranch : branch m l adjudicate canonical x with
  | merge e =>
    obtain ⟨e', he'⟩ := h.mp ⟨e, branch_eq_merge_iff.mp hbranch⟩
    exact Or.inr ⟨e, e', rfl, branch_eq_merge_iff.mpr he'⟩
  | fold twin =>
    obtain ⟨hrivals, htwin⟩ := branch_eq_fold_iff.mp hbranch
    exact Or.inl (branch_eq_fold_iff.mpr ⟨hnone.mp hrivals, htwin⟩).symm
  | new =>
    obtain ⟨hrivals, htwins⟩ := branch_eq_new_iff.mp hbranch
    exact Or.inl (branch_eq_new_iff.mpr ⟨hnone.mp hrivals, htwins⟩).symm

/-- What is accepted depends on which items find a rival, and not on the rival. -/
theorem acceptedAfter_same
    (h : ∀ x, (∃ e, MergesInto m l adjudicate x e) ↔ ∃ e, MergesInto m l' adjudicate x e)
    (items : List RawItem) : acceptedAfter m l adjudicate items = acceptedAfter m l' adjudicate items := by
  induction items using List.reverseRecOn with
  | nil => rfl
  | append_singleton items x ih =>
    unfold acceptedAfter at ih ⊢
    rw [deduplicate_snoc, deduplicate_snoc]
    unfold dedupStep
    rw [← ih]
    obtain hsame | ⟨e, e', he, he'⟩ :=
      branch_same (deduplicate m items l adjudicate).canonical (h x)
    · rw [← hsame]
      cases branch m l adjudicate (deduplicate m items l adjudicate).canonical x <;> rfl
    · rw [he, he']

theorem unmatched_same (canonical : List RawItem)
    (h : (∃ e, MergesInto m l adjudicate x e) ↔ ∃ e, MergesInto m l' adjudicate x e) :
    Unmatched m l adjudicate canonical x ↔ Unmatched m l' adjudicate canonical x := by
  refine and_congr_left fun _ => ?_
  have hnone := not_congr h
  rw [not_exists, not_exists] at hnone
  exact hnone

end Decisions

section Pairs
variable {answers : Option (String × Option Datetime → String × Option Datetime → Bool)} {γ : Type}
  {pairs : List γ} {f g : γ → Card} {q : γ}

/-- The card could be a match of the item. -/
def isRival (m : Matching) (x : RawItem) (c : Card) : Bool :=
  !decide (c.sourceUrl = x.sourceUrl) && decide (blockKey m c.toRawItem = blockKey m x)

theorem mergesInto_map_iff {e : Card} : MergesInto m (pairs.map f) adjudicate x e ↔ ∃ q, f q = e ∧
    Matches m (fun q => (f q).toRawItem) adjudicate x (pairs.filter fun q => isRival m x (f q)) q := by
  have hrivals : rivals m (pairs.map f) x = (pairs.filter fun q => isRival m x (f q)).map f :=
    List.filter_map
  unfold MergesInto
  rw [hrivals]
  exact matches_map_iff

theorem url_of_key {a b : RawItem} (h : a.key = b.key) : a.sourceUrl = b.sourceUrl := by
  have hurl := congrArg (Option.map Prod.snd) h
  simpa [RawItem.key] using hurl

theorem isRival_view {c d : Card} (h : c.view = d.view) : isRival m x c = isRival m x d := by
  have hurl : c.sourceUrl = d.sourceUrl := url_of_key (congrArg Prod.fst h)
  have hblock : blockKey m c.toRawItem = blockKey m d.toRawItem :=
    congrArg (fun view => blockKey m view.2) h
  unfold isRival
  rw [hurl, hblock]

/-- Cards with the same keys and readings match alike. -/
theorem matches_view (h : ∀ q ∈ pairs, (f q).view = (g q).view)
    (hq : Matches m (fun q => (f q).toRawItem) (byNameAndDate answers) x
      (pairs.filter fun q => isRival m x (f q)) q) :
    Matches m (fun q => (g q).toRawItem) (byNameAndDate answers) x
      (pairs.filter fun q => isRival m x (g q)) q := by
  have hfilter : (pairs.filter fun q => isRival m x (f q)) = pairs.filter fun q => isRival m x (g q) :=
    List.filter_congr fun q hq => isRival_view (h q hq)
  rw [hfilter] at hq
  have hname : ∀ d ∈ pairs, (f d).name = (g d).name := fun d hd => congrArg (fun view => view.2.name) (h d hd)
  have hscore : ∀ d ∈ pairs.filter fun q => isRival m x (g q),
      nameScore m (fun q => (f q).toRawItem) x d = nameScore m (fun q => (g q).toRawItem) x d := by
    intro d hd
    unfold nameScore
    rw [hname d (List.mem_filter.mp hd).1]
  have hmem : q ∈ pairs := (List.mem_filter.mp hq.wins.mem).1
  refine ⟨hq.named, hq.wins.congr hscore, ?_⟩
  rw [← hscore q hq.wins.mem]
  obtain hauto | ⟨hband, same, hsame, hyes⟩ := hq.accepted
  · exact Or.inl hauto
  · refine Or.inr ⟨hband, same, hsame, ?_⟩
    obtain ⟨asked, _, rfl⟩ := Option.mem_map.mp hsame
    have hstart : (f q).startsAt = (g q).startsAt := congrArg (fun view => view.2.startsAt) (h q hmem)
    simp only at hyes ⊢
    rw [← hname q hmem, ← hstart]
    exact hyes

/-- Two runs find the same matches among cards with the same keys and readings. -/
theorem matches_view_iff (h : ∀ q ∈ pairs, (f q).view = (g q).view) :
    Matches m (fun q => (f q).toRawItem) (byNameAndDate answers) x
        (pairs.filter fun q => isRival m x (f q)) q ↔
      Matches m (fun q => (g q).toRawItem) (byNameAndDate answers) x
        (pairs.filter fun q => isRival m x (g q)) q :=
  ⟨matches_view h, matches_view fun q hq => (h q hq).symm⟩

theorem merges_view_iff (h : ∀ q ∈ pairs, (f q).view = (g q).view) (x : RawItem) :
    (∃ e, MergesInto m (pairs.map f) (byNameAndDate answers) x e) ↔
      ∃ e, MergesInto m (pairs.map g) (byNameAndDate answers) x e := by
  simp only [mergesInto_map_iff]
  constructor
  · rintro ⟨_, q, rfl, hq⟩
    exact ⟨g q, q, rfl, (matches_view_iff h).mp hq⟩
  · rintro ⟨_, q, rfl, hq⟩
    exact ⟨f q, q, rfl, (matches_view_iff h).mpr hq⟩

end Pairs

theorem card_injective {s s' : Stand} (hsome : ∀ x ∈ items, x.key ≠ none)
    (hs : Stands m existing adjudicate items s) (hs' : Stands m existing adjudicate items s')
    (h : s.card = s'.card) : s = s' := by
  have hleft : ∀ {c y}, Stands m existing adjudicate items (.stored c) →
      Stands m existing adjudicate items (.listed y) → c.key = y.key → False := by
    rintro c y hc ⟨pre, post, rfl, hun⟩ hkey
    exact hc.2 ⟨pre, y, post, rfl, hsome y (List.mem_append_right _ List.mem_cons_self), hkey.symm, hun⟩
  cases s with
  | stored c =>
    cases s' with
    | stored c' => exact congrArg Stand.stored h
    | listed y => exact (hleft hs hs' (congrArg (fun c : Card => c.key) h)).elim
  | listed y =>
    cases s' with
    | stored c => exact (hleft hs' hs (congrArg (fun c : Card => c.key) h).symm).elim
    | listed y' => exact congrArg Stand.listed (congrArg Card.toRawItem h)

/-! ## Two runs -/

section Turn
variable {answers : Option (String × Option Datetime → String × Option Datetime → Bool)}
  {pairs : List (Stand × Card)}

/-- The merges of a turn of the second run, and whether they are listed, by the cards that stand. -/
theorem merges_listed_at_iff (hsome : ∀ x ∈ items, x.key ≠ none) (hitems : items = pre ++ x :: post)
    (hpairs : ∀ q ∈ pairs, Leaves m existing (byNameAndDate answers) items q.1 q.2) :
    (∀ e, MergesInto m (pairs.map Prod.snd) (byNameAndDate answers) x e → x.ref ∈ e.refs) ↔
      ∀ s ∈ pairs.map Prod.fst,
        MergesInto m ((pairs.map Prod.fst).map Stand.card) (byNameAndDate answers) x s.card →
          s.Lists m existing (byNameAndDate answers) pre x := by
  have hview : ∀ q ∈ pairs, ((Stand.card ∘ Prod.fst) q).view = q.2.view :=
    fun q hq => (hpairs q hq).row.view
  have hlists : ∀ q, Matches m (fun q => q.2.toRawItem) (byNameAndDate answers) x
      (pairs.filter fun q => isRival m x q.2) q → q ∈ pairs ∧
        (x.ref ∈ q.2.refs ↔ q.1.Lists m existing (byNameAndDate answers) pre x) := by
    intro q hq
    obtain ⟨hmem, hrival⟩ := List.mem_filter.mp hq.wins.mem
    refine ⟨hmem, (hpairs q hmem).lists pre x post hitems fun hkey => ?_⟩
    simp [isRival, url_of_key hkey] at hrival
  rw [List.map_map]
  constructor
  · intro h s hs hmerge
    obtain ⟨q', hq', rfl⟩ := List.mem_map.mp hs
    obtain ⟨q, hcard, hq⟩ := mergesInto_map_iff.mp hmerge
    have hthere := (matches_view_iff hview).mp hq
    obtain ⟨hmem, hiff⟩ := hlists q hthere
    rw [← card_injective hsome (hpairs q hmem).stands (hpairs q' hq').stands hcard]
    exact hiff.mp (h q.2 (mergesInto_map_iff.mpr ⟨q, rfl, hthere⟩))
  · intro h e hmerge
    obtain ⟨q, rfl, hq⟩ := mergesInto_map_iff.mp hmerge
    obtain ⟨hmem, hiff⟩ := hlists q hq
    refine hiff.mpr (h q.1 (List.mem_map_of_mem hmem) ?_)
    exact mergesInto_map_iff.mpr ⟨q, rfl, (matches_view_iff hview).mpr hq⟩

end Turn

/-- The item's row is there after the first run: it was there before, or the run accepted the item. -/
theorem known_after_iff {existing' : List Card} (hsound : Sound catalog)
    (hperm : existing.Perm catalog.rows) (hrefs : ((pre ++ x :: post).map RawItem.ref).Nodup)
    (hsome : ∀ y ∈ pre ++ x :: post, y.key ≠ none)
    (hperm' : existing'.Perm (run m v adjudicate (pre ++ x :: post) existing catalog).catalog.rows) :
    Known existing' x ↔ Known existing x ∨
      Unmatched m existing adjudicate (acceptedAfter m existing adjudicate pre) x := by
  have hxsome : x.key ≠ none := hsome x (List.mem_append_right _ List.mem_cons_self)
  have hrow : ∀ s, Stands m existing adjudicate (pre ++ x :: post) s → s.card.key = x.key →
      Known existing' x := by
    intro s hs hkey
    obtain ⟨r, hr, hrow⟩ := row_of_stands (v := v) hsound.keyed hperm hrefs hsome hs
    refine ⟨hxsome, r, hperm'.mem_iff.mpr hr, ?_⟩
    exact (congrArg Prod.fst hrow.view).symm.trans hkey
  constructor
  · rintro ⟨_, r, hr, hkey⟩
    obtain ⟨s, hs, hrow, _⟩ := exists_leaves hsound.keyed hperm hrefs hsome (hperm'.mem_iff.mp hr)
    have hskey : s.card.key = x.key := (congrArg Prod.fst hrow.view).trans hkey
    cases s with
    | stored c => exact Or.inl ⟨hxsome, c, hs.1, hskey⟩
    | listed y =>
      obtain ⟨pre', post', hsplit, hun⟩ := hs
      have href : x.ref = y.ref := (key_eq_iff_ref_eq hxsome).mp hskey.symm
      obtain ⟨rfl, rfl⟩ := split_unique hrefs hsplit href
      exact Or.inr hun
  · rintro (⟨_, c, hc, hkey⟩ | hun)
    · by_cases hrefreshed : Refreshed m existing adjudicate (pre ++ x :: post) c
      · obtain ⟨pre', y, post', hsplit, _, hykey, hun⟩ := hrefreshed
        exact hrow (.listed y) ⟨pre', post', hsplit, hun⟩ (hykey.trans hkey)
      · exact hrow (.stored c) ⟨hc, hrefreshed⟩ hkey
    · exact hrow (.listed x) ⟨pre, post, rfl, hun⟩ rfl

/-- A second run over the same list leaves the first one's catalog settled exactly when, of the cards that
stand after the first run, each one that an item finds as its rival has the item's reference by then, and
each item that finds neither such a card nor one accepted before it has its row, stored before the first
run or accepted in it. -/
theorem rerun_settled_iff {answers : Option (String × Option Datetime → String × Option Datetime → Bool)}
    (v' : Voyage) {existing' : List Card} (hsound : Sound catalog) (hperm : existing.Perm catalog.rows)
    (hrefs : (items.map RawItem.ref).Nodup) (hsome : ∀ x ∈ items, x.key ≠ none)
    (hperm' : existing'.Perm (run m v (byNameAndDate answers) items existing catalog).catalog.rows) :
    ∃ order : List Stand, order.Nodup ∧
      (∀ s, s ∈ order ↔ Stands m existing (byNameAndDate answers) items s) ∧
      List.Forall₂ Stand.Row order existing' ∧
      (Settled (run m v (byNameAndDate answers) items existing catalog).catalog.rows
          (run m v' (byNameAndDate answers) items existing'
            (run m v (byNameAndDate answers) items existing catalog).catalog).catalog.rows ↔
        ∀ pre x post, items = pre ++ x :: post →
          (∀ s ∈ order, MergesInto m (order.map Stand.card) (byNameAndDate answers) x s.card →
            s.Lists m existing (byNameAndDate answers) pre x) ∧
          (Unmatched m (order.map Stand.card) (byNameAndDate answers)
              (acceptedAfter m (order.map Stand.card) (byNameAndDate answers) pre) x →
            Known existing x ∨ Unmatched m existing (byNameAndDate answers)
              (acceptedAfter m existing (byNameAndDate answers) pre) x)) := by
  obtain ⟨order, hnodup, hstands, hleaves⟩ := standing_order hsound hperm hrefs hsome hperm'
  refine ⟨order, hnodup, hstands, hleaves.imp fun _ _ h => h.row, ?_⟩
  rw [run_settled_iff (hsound.run hperm).keyed hperm' hrefs]
  obtain ⟨pairs, rfl, rfl, hpairs⟩ := SideBySide.exists_pairs hleaves
  have hview : ∀ q ∈ pairs, ((Stand.card ∘ Prod.fst) q).view = q.2.view :=
    fun q hq => (hpairs q hq).row.view
  have hsame : ∀ x, (∃ e, MergesInto m (pairs.map Prod.snd) (byNameAndDate answers) x e) ↔
      ∃ e, MergesInto m ((pairs.map Prod.fst).map Stand.card) (byNameAndDate answers) x e := by
    intro x
    rw [List.map_map]
    exact (merges_view_iff hview x).symm
  refine forall_congr' fun pre => forall_congr' fun x => forall_congr' fun post => ?_
  refine imp_congr_right fun hitems => and_congr (merges_listed_at_iff hsome hitems hpairs) ?_
  subst hitems
  rw [acceptedAfter_same hsame, unmatched_same _ (hsame x), known_after_iff hsound hperm hrefs hsome hperm']

/-! ## A merged listing loses its card to another evening -/

/-- The catalog after a run without vectors and without adjudicator. -/
def afterRun (items : List RawItem) (catalog : Catalog) : Catalog :=
  (run asciiNames noVoyage none items catalog.rows catalog).catalog

/-- The one card that stands is the stored gala, into which the first run merged the listing. -/
theorem rerun_settled_iff_merged :
    Settled (afterRun [galaFrom "facebook" "fb/1"] oneGala).rows
      (afterRun [galaFrom "facebook" "fb/1"]
        (afterRun [galaFrom "facebook" "fb/1"] oneGala)).rows := by
  have hsound : Sound oneGala := ⟨⟨by decide, by decide⟩, by decide⟩
  have hmerge : branch asciiNames [storedGala] none [] (galaFrom "facebook" "fb/1") = .merge storedGala := by
    decide +kernel
  have hlisted : ¬ Unmatched asciiNames [storedGala] none [] (galaFrom "facebook" "fb/1") := by
    rw [← branch_eq_new_iff, hmerge]
    nofun
  have hperm : [storedGala].Perm oneGala.rows := List.Perm.refl _
  have hrefs : ([galaFrom "facebook" "fb/1"].map RawItem.ref).Nodup := by decide
  have hsome : ∀ x ∈ [galaFrom "facebook" "fb/1"], x.key ≠ none := by decide
  have hperm' : (afterRun [galaFrom "facebook" "fb/1"] oneGala).rows.Perm (run asciiNames noVoyage
      (byNameAndDate none) [galaFrom "facebook" "fb/1"] [storedGala] oneGala).catalog.rows :=
    List.Perm.refl _
  obtain ⟨order, _, hstands, hrows, hsettled⟩ :=
    rerun_settled_iff noVoyage hsound hperm hrefs hsome hperm'
  have honly : ∀ s, s ∈ order → s = .stored storedGala := by
    intro s hs
    have hstand := (hstands s).mp hs
    cases s with
    | stored c => exact congrArg Stand.stored (List.mem_singleton.mp hstand.1)
    | listed y =>
      obtain ⟨pre, post, hitems, hun⟩ := hstand
      obtain ⟨rfl, rfl, rfl⟩ := split_singleton hitems
      exact absurd hun hlisted
  have hone : (afterRun [galaFrom "facebook" "fb/1"] oneGala).rows.length = 1 := by decide +kernel
  obtain ⟨s, rfl⟩ := List.length_eq_one_iff.mp (hrows.length_eq.trans hone)
  obtain rfl := honly s List.mem_cons_self
  refine hsettled.mpr ?_
  intro pre x post hitems
  obtain ⟨rfl, rfl, rfl⟩ := split_singleton hitems
  constructor
  · intro s hs _
    rw [honly s hs]
    exact Or.inr (branch_eq_merge_iff.mp hmerge)
  · intro hun
    exact absurd hun hlisted

/-- A second listing of the stored gala, which itself has moved to the next evening. -/
def listedAgainAndMoved : List RawItem := [gala "tm/2" 4, gala "tm/1" 5]

theorem rerun_not_settled :
    ¬ ∀ (m : Matching) (v : Voyage)
      (answers : Option (String × Option Datetime → String × Option Datetime → Bool))
      (items : List RawItem) (catalog : Catalog), Sound catalog → (∀ x ∈ items, x.key ≠ none) →
      (items.map RawItem.ref).Nodup →
      let first := (run m v (byNameAndDate answers) items catalog.rows catalog).catalog
      Settled first.rows (run m v (byNameAndDate answers) items first.rows first).catalog.rows := by
  intro h
  have hsound : Sound oneGala := ⟨⟨by decide, by decide⟩, by decide⟩
  have hsettled := h asciiNames noVoyage none listedAgainAndMoved oneGala hsound (by decide)
    (by decide)
  have hlength : (afterRun listedAgainAndMoved oneGala).rows.length ≠
      (afterRun listedAgainAndMoved (afterRun listedAgainAndMoved oneGala)).rows.length := by
    decide +kernel
  exact hlength hsettled.length_eq

end WarsawEvents.Ingestion
