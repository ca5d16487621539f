import WarsawEvents.Ingestion.Pipeline

/-! # When the rows of one upsert repeat a key

PostgreSQL refuses an upsert whose rows repeat a conflict key. Nothing in the pipeline compares keys:
two items with the same URL reach the same upsert when nothing matched either of them and both got a
vector, or neither.
-/

namespace WarsawEvents.Ingestion
set_option autoImplicit false

/-- No two of the items share a non-null `(source, source_url)`. -/
def RepeatFree (items : List RawItem) : Prop := (items.filterMap RawItem.key).Nodup

/-- No two items at places that `sel` selects share a key. -/
def RepeatFreeAt (sel : ℕ → Bool) (items : List RawItem) : Prop :=
  ∀ (p q : ℕ) (a b : RawItem), p < q → items[p]? = some a → items[q]? = some b →
    sel p = true → sel q = true → a.key = b.key → a.key = none

variable {m : Matching} {v : Voyage} {existing : List Card} {adjudicate : Option Adjudicator}
  {items canonical : List RawItem}

theorem nodup_keys_at_iff (sel : ℕ → Bool) (items : List RawItem) :
    ((items.zipIdx.filter fun p => sel p.2).filterMap fun p => p.1.key).Nodup ↔
      RepeatFreeAt sel items := by
  rw [List.Nodup, List.pairwise_filterMap, List.pairwise_filter, List.pairwise_iff_getElem]
  constructor
  · intro h p q a b hpq ha hb hp hq hkey
    obtain ⟨hplt, rfl⟩ := List.getElem?_eq_some_iff.mp ha
    obtain ⟨hqlt, rfl⟩ := List.getElem?_eq_some_iff.mp hb
    have hpair := h p q (by simpa using hplt) (by simpa using hqlt) hpq
    simp only [List.getElem_zipIdx, Nat.zero_add] at hpair
    cases hk : items[p].key with
    | none => rfl
    | some k => exact absurd rfl (hpair hp hq k hk k (hkey.symm.trans hk))
  · intro h p q hp hq hpq
    simp only [List.getElem_zipIdx, Nat.zero_add]
    intro hselp hselq k hk k' hk' hsame
    rw [List.length_zipIdx] at hp hq
    have hnone := h p q items[p] items[q] hpq (List.getElem?_eq_getElem hp)
      (List.getElem?_eq_getElem hq) hselp hselq (by rw [hk, hk', hsame])
    rw [hk] at hnone
    cases hnone

theorem repeatFree_embedded_iff :
    RepeatFree (embedded v canonical) ↔ RepeatFreeAt v.embeds canonical := by
  rw [← nodup_keys_at_iff, RepeatFree, embedded_eq, List.filterMap_map]
  have hkey : (RawItem.key ∘ fun p => (withVector v p).1) = fun p : Placed => p.1.key := by
    funext p
    exact withVector_key p
  rw [hkey]

theorem repeatFree_notEmbedded_iff :
    RepeatFree (notEmbedded v canonical) ↔ RepeatFreeAt (fun p => !v.embeds p) canonical := by
  rw [← nodup_keys_at_iff, RepeatFree, notEmbedded_eq, List.filterMap_map]
  rfl

/-- Both upserts are free of repetition when equal keys stand in different upserts only. -/
theorem both_repeatFree_iff :
    RepeatFree (embedded v canonical) ∧ RepeatFree (notEmbedded v canonical) ↔
      ∀ (p q : ℕ) (a b : RawItem), p < q → canonical[p]? = some a → canonical[q]? = some b →
        a.key = b.key → a.key ≠ none → v.embeds p ≠ v.embeds q := by
  rw [repeatFree_embedded_iff, repeatFree_notEmbedded_iff]
  constructor
  · rintro ⟨hin, hout⟩ p q a b hpq ha hb hkey hsome hsame
    cases hp : v.embeds p with
    | true => exact hsome (hin p q a b hpq ha hb hp (hsame ▸ hp) hkey)
    | false =>
      exact hsome (hout p q a b hpq ha hb (by simp [hp]) (by simp [← hsame, hp]) hkey)
  · intro h
    constructor
    · intro p q a b hpq ha hb hp hq hkey
      by_contra hsome
      exact h p q a b hpq ha hb hkey hsome (hp.trans hq.symm)
    · intro p q a b hpq ha hb hp hq hkey
      by_contra hsome
      rw [Bool.not_eq_true'] at hp hq
      exact h p q a b hpq ha hb hkey hsome (hp.trans hq.symm)

/-- Two accepted cards are two items that nothing matched at their turns. -/
theorem accepted_pair {p q : ℕ} {a b : RawItem} (hpq : p < q)
    (ha : (acceptedAfter m existing adjudicate items)[p]? = some a)
    (hb : (acceptedAfter m existing adjudicate items)[q]? = some b) :
    ∃ pre x mid y post, items = pre ++ x :: mid ++ y :: post ∧ a.bare = x.bare ∧ b.bare = y.bare ∧
      p = (acceptedAfter m existing adjudicate pre).length ∧
      q = (acceptedAfter m existing adjudicate (pre ++ x :: mid)).length ∧
      Unmatched m existing adjudicate (acceptedAfter m existing adjudicate pre) x ∧
      Unmatched m existing adjudicate (acceptedAfter m existing adjudicate (pre ++ x :: mid)) y := by
  have hb' : ((acceptedAfter m existing adjudicate items).map RawItem.bare)[q]? = some b.bare := by
    rw [List.getElem?_map, hb, Option.map_some]
  obtain ⟨pre', y, post, hitems, hy, hq, huny⟩ := unmatched_of_acceptedAfter hb'
  have ha' : ((acceptedAfter m existing adjudicate pre').map RawItem.bare)[p]? = some a.bare := by
    have hprefix := acceptedAfter_prefix m existing adjudicate pre' (y :: post)
    have hlt : p < ((acceptedAfter m existing adjudicate pre').map RawItem.bare).length := by
      rw [List.length_map]
      omega
    obtain ⟨rest, hrest⟩ := hprefix
    have hwhole : ((acceptedAfter m existing adjudicate (pre' ++ y :: post)).map
        RawItem.bare)[p]? = some a.bare := by
      rw [← hitems, List.getElem?_map, ha, Option.map_some]
    rw [← hrest, List.getElem?_append_left hlt] at hwhole
    exact hwhole
  obtain ⟨pre, x, mid, hpre, hx, hp, hunx⟩ := unmatched_of_acceptedAfter ha'
  subst hpre
  exact ⟨pre, x, mid, y, post, hitems, hx, hy, hp, hq, hunx, huny⟩

/-- The upserts of a run are free of repetition exactly when no two items with one key both go
unmatched with the same outcome of their embedding batches. -/
theorem upserts_repeatFree_iff :
    RepeatFree (embedded v (deduplicate m items existing adjudicate).canonical) ∧
      RepeatFree (notEmbedded v (deduplicate m items existing adjudicate).canonical) ↔
    ∀ pre x mid y post, items = pre ++ x :: mid ++ y :: post → x.key = y.key → x.key ≠ none →
      Unmatched m existing adjudicate (acceptedAfter m existing adjudicate pre) x →
      Unmatched m existing adjudicate (acceptedAfter m existing adjudicate (pre ++ x :: mid)) y →
      v.embeds (acceptedAfter m existing adjudicate pre).length ≠
        v.embeds (acceptedAfter m existing adjudicate (pre ++ x :: mid)).length := by
  rw [both_repeatFree_iff]
  constructor
  · intro h pre x mid y post hitems hkey hsome hunx huny
    have hx := acceptedAfter_of_unmatched (mid ++ y :: post) hunx
    have hy := acceptedAfter_of_unmatched post huny
    have hassoc : pre ++ x :: (mid ++ y :: post) = pre ++ x :: mid ++ y :: post := by simp
    rw [hassoc, ← hitems, List.getElem?_map] at hx
    rw [← hitems, List.getElem?_map] at hy
    obtain ⟨a, ha, hax⟩ := Option.map_eq_some_iff.mp hx
    obtain ⟨b, hb, hby⟩ := Option.map_eq_some_iff.mp hy
    have hak : a.key = x.key := key_of_bare hax
    have hbk : b.key = y.key := key_of_bare hby
    exact h _ _ a b (acceptedAfter_length_lt hunx) ha hb (by rw [hak, hbk, hkey]) (by rwa [hak])
  · intro h p q a b hpq ha hb hkey hsome
    obtain ⟨pre, x, mid, y, post, hitems, hax, hby, rfl, rfl, hunx, huny⟩ := accepted_pair hpq ha hb
    have hak : a.key = x.key := key_of_bare hax
    have hbk : b.key = y.key := key_of_bare hby
    exact h pre x mid y post hitems (by rw [← hak, ← hbk, hkey]) (by rwa [← hak]) hunx huny

/-! ## One URL for two evenings -/

theorem upserts_not_repeatFree :
    ¬ ∀ (m : Matching) (v : Voyage) (items : List RawItem) (existing : List Card)
      (adjudicate : Option Adjudicator), Keyed existing →
      RepeatFree (embedded v (deduplicate m items existing adjudicate).canonical) ∧
        RepeatFree (notEmbedded v (deduplicate m items existing adjudicate).canonical) := by
  intro h
  have hboth := h asciiNames noVoyage [gala "tm/1" 4, gala "tm/1" 5] [] none
    ⟨List.nodup_nil, List.nodup_nil⟩
  have hrepeat : ¬ RepeatFree (notEmbedded noVoyage
      (deduplicate asciiNames [gala "tm/1" 4, gala "tm/1" 5] [] none).canonical) := by
    unfold RepeatFree
    decide +kernel
  exact hrepeat hboth.2

/-! ## What a repetition costs -/

theorem upsert_eq_none_iff {items : List RawItem} {fresh : Bool} {catalog : Catalog} :
    upsert items fresh catalog = none ↔ ¬ RepeatFree items := by
  unfold upsert
  cases items with
  | nil => simp [RepeatFree]
  | cons x xs =>
    rw [if_neg (by simp)]
    exact KeyedRows.Rule.upsert_eq_none_iff

/-- A run ends in an exception exactly when one of its upserts repeats a key. -/
theorem run_raised_iff {catalog : Catalog} :
    (run m v adjudicate items existing catalog).raised = true ↔
      ¬ (RepeatFree (embedded v (deduplicate m items existing adjudicate).canonical) ∧
        RepeatFree (notEmbedded v (deduplicate m items existing adjudicate).canonical)) := by
  unfold run write
  simp only
  split
  · next hnone =>
    have hrepeat := upsert_eq_none_iff.mp hnone
    simp [hrepeat]
  · next catalog' hfirst =>
    have hfree : RepeatFree (embedded v (deduplicate m items existing adjudicate).canonical) := by
      by_contra hrepeat
      rw [upsert_eq_none_iff.mpr hrepeat] at hfirst
      cases hfirst
    split
    · next hnone =>
      have hrepeat := upsert_eq_none_iff.mp hnone
      simp [hrepeat]
    · next catalog'' hsecond =>
      have hfree' : RepeatFree
          (notEmbedded v (deduplicate m items existing adjudicate).canonical) := by
        by_contra hrepeat
        rw [upsert_eq_none_iff.mpr hrepeat] at hsecond
        cases hsecond
      simp [hfree, hfree']

end WarsawEvents.Ingestion
