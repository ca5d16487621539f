import WarsawEvents.Ingestion.Dedup

/-! # Which known items reach the upsert

An item whose own row is in the catalog should come back as canonical, so that the upsert refreshes the
row. It does when nothing else matches it at its turn; a rescheduled or renamed item can match another
card of its new block first, and its own row stays as it was.
-/

namespace WarsawEvents.Ingestion
set_option autoImplicit false

variable {m : Matching} {existing : List Card} {adjudicate : Option Adjudicator}
  {items pre post : List RawItem} {x : RawItem}

/-- With distinct references an item stands at one place of the list. -/
theorem split_unique {pre' post' : List RawItem} {x' : RawItem}
    (hrefs : ((pre ++ x :: post).map RawItem.ref).Nodup)
    (hsplit : pre ++ x :: post = pre' ++ x' :: post') (href : x.ref = x'.ref) :
    pre = pre' ∧ x = x' := by
  have hrefs' := hrefs
  rw [hsplit] at hrefs'
  have hlen : pre.length = pre'.length := by
    have hmap := congrArg (List.map RawItem.ref) hsplit
    rw [List.map_append, List.map_append, List.map_cons, List.map_cons] at hmap
    rw [List.map_append, List.map_cons, List.nodup_middle, List.nodup_cons, List.mem_append,
      not_or] at hrefs hrefs'
    rw [← href] at hmap hrefs'
    have hpre := ((List.append_cons_inj_of_notMem hrefs'.1.1 hrefs'.1.2).mp hmap.symm).1
    simpa using congrArg List.length hpre.symm
  have hboth := List.append_inj hsplit hlen
  exact ⟨hboth.1, (List.cons.inj hboth.2).1⟩

/-- An item comes back as canonical exactly when nothing matches it at its turn. -/
theorem canonical_iff_unmatched (hrefs : ((pre ++ x :: post).map RawItem.ref).Nodup) :
    x.bare ∈ (deduplicate m (pre ++ x :: post) existing adjudicate).canonical.map RawItem.bare ↔
      Unmatched m existing adjudicate (acceptedAfter m existing adjudicate pre) x := by
  constructor
  · intro hmem
    obtain ⟨p, hp⟩ := List.mem_iff_getElem?.mp hmem
    obtain ⟨pre', x', post', hsplit, hbare, _, hun⟩ := unmatched_of_acceptedAfter hp
    obtain ⟨rfl, rfl⟩ := split_unique hrefs hsplit (ref_of_bare hbare)
    exact hun
  · intro hun
    exact List.mem_iff_getElem?.mpr ⟨_, acceptedAfter_of_unmatched post hun⟩

/-- Every known item is returned exactly when none of them matches another card at its turn. -/
theorem known_items_canonical_iff (hrefs : (items.map RawItem.ref).Nodup) :
    (∀ x ∈ items, Known existing x →
      x.bare ∈ (deduplicate m items existing adjudicate).canonical.map RawItem.bare) ↔
    ∀ pre x post, items = pre ++ x :: post → Known existing x →
      Unmatched m existing adjudicate (acceptedAfter m existing adjudicate pre) x := by
  constructor
  · intro h pre x post hitems hknown
    have hmem : x ∈ items := by
      rw [hitems]
      exact List.mem_append_right _ List.mem_cons_self
    have hcanonical := h x hmem hknown
    rw [hitems] at hrefs hcanonical
    exact (canonical_iff_unmatched hrefs).mp hcanonical
  · intro h x hx hknown
    obtain ⟨pre, post, hitems⟩ := List.append_of_mem hx
    have hun := h pre x post hitems hknown
    rw [hitems] at hrefs ⊢
    exact (canonical_iff_unmatched hrefs).mpr hun

/-! ## A gala moved to the evening of another -/

def twoGalas : List Card := [{ gala "tm/1" 4 with id := 1 }, { gala "tm/2" 5 with id := 2 }]

theorem known_items_canonical_iff_unchanged : Known twoGalas (gala "tm/1" 4) ∧
    (gala "tm/1" 4).bare ∈
      (deduplicate asciiNames [gala "tm/1" 4] twoGalas none).canonical.map RawItem.bare := by
  have hknown : Known twoGalas (gala "tm/1" 4) := ⟨nofun, _, List.mem_cons_self, rfl⟩
  refine ⟨hknown, (known_items_canonical_iff (by decide)).mpr ?_ _ List.mem_cons_self hknown⟩
  intro pre x post hitems _
  obtain ⟨rfl, rfl, rfl⟩ := split_singleton hitems
  exact branch_eq_new_iff.mp (by decide +kernel)

theorem known_item_left_stale :
    ¬ ∀ (m : Matching) (items : List RawItem) (existing : List Card)
      (adjudicate : Option Adjudicator), Keyed existing → (items.map RawItem.ref).Nodup →
      ∀ x ∈ items, Known existing x →
        x.bare ∈ (deduplicate m items existing adjudicate).canonical.map RawItem.bare := by
  intro h
  have hknown : Known twoGalas (gala "tm/1" 5) := ⟨nofun, _, List.mem_cons_self, rfl⟩
  have hmem := h asciiNames [gala "tm/1" 5] twoGalas none ⟨by decide, by decide⟩ (by decide)
    (gala "tm/1" 5) List.mem_cons_self hknown
  exact absurd hmem (by decide +kernel)

end WarsawEvents.Ingestion
