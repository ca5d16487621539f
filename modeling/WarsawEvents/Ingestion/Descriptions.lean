import WarsawEvents.Ingestion.Wikidata

/-! # The description of a place

With services that answer for the entities and articles there are, `enrich` gives each item the text of
the first article it names, and the text it had, or the line of its entity, where that article has no
extract. The Polish article is asked for only where there is no English title.
-/

namespace WarsawEvents.Ingestion
set_option autoImplicit false

namespace Wikidata

open Batches (batches Fills Within)
open Chase (dict walk EndsAt)

/-! ## What there is -/

/-- Entities by Q-id, and in each language the article a title leads to and the extract of an article. -/
structure Wiki where
  entity : String → Option Entity
  resolve : Lang → Title → Title
  text : Lang → Title → Option String

/-- The extract of the article a title leads to, where it is not empty. -/
def Wiki.extract (w : Wiki) (lang : Lang) (title : Title) : Option String :=
  truthy (w.text lang (w.resolve lang title))

/-- The services answer for what there is: the entities asked for under their ids, and each title asked
for renamed, step by step, to that of its article. -/
structure Serves (w : Wiki) (api : Api) : Prop where
  entities : ∀ ids, ∃ answer, api.wbgetentities ids = .ok answer ∧
    (∀ qid e, dict answer qid = some e → w.entity qid = some e) ∧
    ∀ qid ∈ ids, dict answer qid = w.entity qid
  query : ∀ lang batch, ∃ q, api.query lang batch = .ok q ∧ ∀ title ∈ batch,
    EndsAt q.renames title (w.resolve lang title) ∧
      q.extract (w.resolve lang title) = w.extract lang title

variable {w : Wiki} {api : Api}

/-! ## The two fetches -/

theorem orElse_within {υ : Type} {x known : Option υ} (h : x = none ∨ x = known) :
    (known <|> x) = known := by
  rcases h with rfl | rfl
  · cases known <;> rfl
  · cases x <;> rfl

theorem fetchEntities_known (h : Serves w api) (qids : List String) :
    ∃ entities, fetchEntities api qids = .ok entities ∧ ∀ qid ∈ qids, entities qid = w.entity qid := by
  have hfills : Fills w.entity fun entities ids => (api.wbgetentities ids).map (updated entities) := by
    intro entities ids hwithin
    obtain ⟨answer, hanswer, hsound, hasked⟩ := h.entities ids
    refine ⟨updated entities answer, congrArg (Except.map (updated entities)) hanswer,
      fun qid hqid => ?_, fun qid => ?_⟩
    · unfold updated
      rw [hasked qid hqid]
      exact orElse_within (hwithin qid)
    · unfold updated
      cases hdict : dict answer qid with
      | none => exact .inl rfl
      | some e => exact .inr (hsound qid e hdict).symm
  obtain ⟨entities, hrun, hknown⟩ := Batches.foldlM_batches (n := wikidataBatch)
    (qids.dedup.mergeSort fun a b => decide (a ≤ b)) (by decide) hfills
  refine ⟨entities, hrun, fun qid hqid => hknown qid ?_⟩
  exact List.mem_mergeSort.mpr (List.mem_dedup.mpr hqid)

theorem fetchExtracts_known (h : Serves w api) (lang : Lang) (titles : List Title) :
    ∃ extracts, fetchExtracts api lang titles = .ok extracts ∧
      ∀ title ∈ titles, extracts title = w.extract lang title := by
  have hfills : Fills (w.extract lang) fun extracts batch =>
      (api.query lang batch).map fun q => batch.foldl (record q) extracts := by
    intro extracts batch hwithin
    obtain ⟨q, hq, hpages⟩ := h.query lang batch
    have hrecorded : ∀ title ∈ batch,
        batch.foldl (record q) extracts title = w.extract lang title := by
      intro title hmem
      obtain ⟨hends, hextract⟩ := hpages title hmem
      obtain ⟨final, hwalk⟩ := walk_ends q title
      have hfinal := hwalk q.turns (Nat.le_refl _)
      obtain rfl := hends.unique (Chase.walk_of_acyclic hends.acyclic hfinal)
      rw [foldl_record_mem q batch extracts hmem hfinal, hextract]
      exact orElse_within (hwithin title)
    refine ⟨_, congrArg (Except.map fun q => batch.foldl (record q) extracts) hq, hrecorded,
      fun title => ?_⟩
    by_cases hmem : title ∈ batch
    · exact .inr (hrecorded title hmem)
    · exact .inl (foldl_record_not_mem q batch extracts hmem)
  exact Batches.foldlM_batches _ (by decide) hfills

/-! ## The groups -/

/-- The item at place `i` waits for the article with this title. -/
def Wants (groups : List (Title × List ℕ)) (title : Title) (i : ℕ) : Prop :=
  ∃ group ∈ groups, group.1 = title ∧ i ∈ group.2

theorem wants_appendTo {title t : Title} {i j : ℕ} {groups : List (Title × List ℕ)} :
    Wants (appendTo title i groups) t j ↔ Wants groups t j ∨ (title = t ∧ j = i) := by
  induction groups with
  | nil => simp [Wants, appendTo]
  | cons group groups ih =>
    have hcons : ∀ g gs, Wants (g :: gs) t j ↔ (g.1 = t ∧ j ∈ g.2) ∨ Wants gs t j := by
      simp [Wants]
    unfold appendTo
    split
    next hsame =>
      subst hsame
      rw [hcons, hcons, List.mem_append, List.mem_singleton]
      tauto
    next =>
      rw [hcons, hcons, ih]
      tauto

theorem wants_addWanted {lang : Lang} {found : Option (Lang × Title)} {t : Title} {i j : ℕ}
    {groups : List (Title × List ℕ)} : Wants (addWanted lang i found groups) t j ↔
      Wants groups t j ∨ (j = i ∧ found = some (lang, t)) := by
  unfold addWanted
  cases found with
  | none => simp
  | some found =>
    obtain ⟨l, title⟩ := found
    by_cases hl : l = lang
    · simp only [hl, if_true, wants_appendTo, Option.some.injEq, Prod.mk.injEq, true_and]
      tauto
    · simp [hl]

theorem wants_wantedTitles {entities : String → Option Entity} {lang : Lang}
    (pairs : List (RawItem × String)) {i j : ℕ} {groups : List (Title × List ℕ)} {t : Title} :
    Wants (wantedTitles entities lang i pairs groups) t j ↔ Wants groups t j ∨
      ∃ k p, pairs[k]? = some p ∧ j = i + k ∧ (entities p.2).bind article = some (lang, t) := by
  induction pairs generalizing i groups with
  | nil => simp [wantedTitles]
  | cons p pairs ih =>
    obtain ⟨item, qid⟩ := p
    have htail : (∃ k p, ((item, qid) :: pairs)[k]? = some p ∧ j = i + k ∧
          (entities p.2).bind article = some (lang, t)) ↔
        (j = i ∧ (entities qid).bind article = some (lang, t)) ∨
          ∃ k p, pairs[k]? = some p ∧ j = i + 1 + k ∧ (entities p.2).bind article = some (lang, t) := by
      constructor
      · rintro ⟨k, p, hp, hj, harticle⟩
        cases k with
        | zero =>
          obtain rfl := Option.some.inj hp
          exact .inl ⟨hj, harticle⟩
        | succ k => exact .inr ⟨k, p, hp, by omega, harticle⟩
      · rintro (⟨hj, harticle⟩ | ⟨k, p, hp, hj, harticle⟩)
        · exact ⟨0, (item, qid), rfl, hj, harticle⟩
        · exact ⟨k + 1, p, hp, by omega, harticle⟩
    rw [wantedTitles, ih, wants_addWanted, htail, or_assoc]

/-! ## The second loop -/

variable {items : List RawItem} {extracts : Title → Option String} {groups : List (Title × List ℕ)}
  {j : ℕ}

/-- An item with a text, where there is one. -/
def withText : Option String → RawItem → RawItem
  | some extract, item => described extract item
  | none, item => item

theorem withText_twice (text : Option String) (item : RawItem) :
    withText text (withText text item) = withText text item := by
  cases text <;> rfl

theorem foldl_described (extract : String) (places : List ℕ) (items : List RawItem) (j : ℕ) :
    (places.foldl (fun items i => items.modify i (described extract)) items)[j]?
      = if j ∈ places then items[j]?.map (described extract) else items[j]? := by
  induction places generalizing items with
  | nil => simp
  | cons i places ih =>
    rw [List.foldl_cons, ih, List.getElem?_modify]
    have htwice : described extract ∘ described extract = described extract := rfl
    by_cases hi : i = j
    · by_cases hmem : j ∈ places
      · simp [hi, hmem, htwice]
      · simp [hi, hmem]
    · simp [hi, Ne.symm hi]

theorem getElem?_describeGroup (extracts : Title → Option String) (items : List RawItem)
    (group : Title × List ℕ) (j : ℕ) : (describeGroup extracts items group)[j]?
      = if j ∈ group.2 then items[j]?.map (withText (truthy (extracts group.1))) else items[j]? := by
  unfold describeGroup
  cases truthy (extracts group.1) with
  | none =>
    have hnone : withText none = id := rfl
    simp [hnone]
  | some extract => exact foldl_described extract group.2 items j

theorem describeAll_untouched (h : ∀ group ∈ groups, j ∉ group.2) :
    (describeAll extracts groups items)[j]? = items[j]? := by
  induction groups generalizing items with
  | nil => rfl
  | cons group groups ih =>
    obtain ⟨hgroup, hgroups⟩ := List.forall_mem_cons.mp h
    have hrest : (describeAll extracts groups (describeGroup extracts items group))[j]?
        = (describeGroup extracts items group)[j]? := ih hgroups
    rw [describeAll, List.foldl_cons]
    exact hrest.trans ((getElem?_describeGroup extracts items group j).trans (if_neg hgroup))

/-- Where every group with the item leads to one text, it gets that text, however many there are. -/
theorem describeAll_touched {text : Option String}
    (htext : ∀ group ∈ groups, j ∈ group.2 → truthy (extracts group.1) = text)
    (hmem : ∃ group ∈ groups, j ∈ group.2) :
    (describeAll extracts groups items)[j]? = items[j]?.map (withText text) := by
  induction groups generalizing items with
  | nil => simp at hmem
  | cons group groups ih =>
    obtain ⟨hgroup, hgroups⟩ := List.forall_mem_cons.mp htext
    have hstep := getElem?_describeGroup extracts items group j
    rw [describeAll, List.foldl_cons]
    by_cases hlater : ∃ group ∈ groups, j ∈ group.2
    · refine (ih hgroups hlater).trans ?_
      rw [hstep]
      split
      next hhere =>
        rw [hgroup hhere, Option.map_map]
        exact congrArg (fun f => items[j]?.map f) (funext (withText_twice text))
      next => rfl
    · have hnone : ∀ group ∈ groups, j ∉ group.2 := fun g hg hj => hlater ⟨g, hg, hj⟩
      have hhere : j ∈ group.2 := by
        obtain ⟨g, hg, hj⟩ := hmem
        rcases List.mem_cons.mp hg with rfl | hg
        · exact hj
        · exact absurd hj (hnone g hg)
      refine (describeAll_untouched hnone).trans ?_
      rw [hstep, if_pos hhere, hgroup hhere]

/-! ## What each item gets -/

variable {pairs : List (RawItem × String)} {entities : String → Option Entity} {p : RawItem × String}

/-- The extract that is asked for in a language. -/
def asked (w : Wiki) (lang : Lang) (qid : String) : Option String :=
  ((w.entity qid).bind article).bind fun found =>
    if found.1 = lang then w.extract lang found.2 else none

/-- The extract of the first article that the entity names. -/
def given (w : Wiki) (e : Entity) : Option String :=
  (article e).bind fun found => w.extract found.1 found.2

def enriched (w : Wiki) (p : RawItem × String) : RawItem :=
  match w.entity p.2 with
  | some e => withText (given w e) (prepared e p.1)
  | none => p.1

theorem truthy_extract (lang : Lang) (title : Title) :
    truthy (w.extract lang title) = w.extract lang title := by
  unfold Wiki.extract truthy
  cases w.text lang (w.resolve lang title) with
  | none => rfl
  | some text => by_cases h : text = "" <;> simp [Option.filter, h]

theorem describeAll_asked (lang : Lang)
    (hknown : ∀ qid ∈ pairs.map Prod.snd, entities qid = w.entity qid)
    (hextracts : ∀ title ∈ (wantedTitles entities lang 0 pairs []).map Prod.fst,
      extracts title = w.extract lang title) (items : List RawItem) (hp : pairs[j]? = some p) :
    (describeAll extracts (wantedTitles entities lang 0 pairs []) items)[j]?
      = items[j]?.map (withText (asked w lang p.2)) := by
  have hentity : entities p.2 = w.entity p.2 :=
    hknown p.2 (List.mem_map_of_mem (List.mem_of_getElem? hp))
  have hwants : ∀ t, Wants (wantedTitles entities lang 0 pairs []) t j ↔
      (w.entity p.2).bind article = some (lang, t) := by
    intro t
    rw [wants_wantedTitles, ← hentity]
    constructor
    · rintro (⟨group, hgroup, -⟩ | ⟨k, p', hp', hk, harticle⟩)
      · cases hgroup
      · obtain rfl : j = k := by omega
        obtain rfl := Option.some.inj (hp'.symm.trans hp)
        exact harticle
    · intro harticle
      exact .inr ⟨j, p, hp, by omega, harticle⟩
  by_cases hmem : ∃ group ∈ wantedTitles entities lang 0 pairs [], j ∈ group.2
  · refine describeAll_touched (fun group hgroup hj => ?_) hmem
    have harticle := (hwants group.1).mp ⟨group, hgroup, rfl, hj⟩
    rw [hextracts group.1 (List.mem_map_of_mem hgroup), truthy_extract, asked, harticle]
    simp
  · have hnone : asked w lang p.2 = none := by
      unfold asked
      cases harticle : (w.entity p.2).bind article with
      | none => rfl
      | some found =>
        obtain ⟨l, t⟩ := found
        by_cases hl : l = lang
        · subst hl
          obtain ⟨group, hgroup, -, hj⟩ := (hwants t).mpr harticle
          exact absurd ⟨group, hgroup, hj⟩ hmem
        · simp [hl]
    have hid : withText none = id := rfl
    rw [hnone, hid, Option.map_id]
    exact describeAll_untouched fun group hgroup hj => hmem ⟨group, hgroup, hj⟩

theorem describeAll_beyond (lang : Lang) (items : List RawItem) (hp : pairs[j]? = none) :
    (describeAll extracts (wantedTitles entities lang 0 pairs []) items)[j]? = items[j]? := by
  refine describeAll_untouched fun group hgroup hj => ?_
  have hwants : Wants (wantedTitles entities lang 0 pairs []) group.1 j := ⟨group, hgroup, rfl, hj⟩
  rw [wants_wantedTitles] at hwants
  rcases hwants with ⟨group', hgroup', -⟩ | ⟨k, p', hp', hk, -⟩
  · cases hgroup'
  · obtain rfl : j = k := by omega
    rw [hp] at hp'
    cases hp'

theorem withText_asked (w : Wiki) (p : RawItem × String) {e : Entity} (he : w.entity p.2 = some e)
    (item : RawItem) :
    withText (asked w .pl p.2) (withText (asked w .en p.2) item) = withText (given w e) item := by
  unfold asked given
  rw [he, Option.bind_some]
  cases article e with
  | none => rfl
  | some found =>
    obtain ⟨lang, title⟩ := found
    cases lang <;> rfl

/-- Each item of the result is that of its own pair. -/
theorem enrich_eq (h : Serves w api) (pairs : List (RawItem × String)) :
    enrich api pairs = .ok (pairs.map (enriched w)) := by
  obtain ⟨entities, hentities, hknown⟩ := fetchEntities_known h (pairs.map Prod.snd)
  obtain ⟨enExtracts, hen, henKnown⟩ :=
    fetchExtracts_known h .en ((wantedTitles entities .en 0 pairs []).map Prod.fst)
  obtain ⟨plExtracts, hpl, hplKnown⟩ :=
    fetchExtracts_known h .pl ((wantedTitles entities .pl 0 pairs []).map Prod.fst)
  simp only [enrich, hentities, hen, hpl, bind, Except.bind, pure, Except.pure]
  refine congrArg Except.ok (List.ext_getElem? fun j => ?_)
  cases hp : pairs[j]? with
  | none =>
    rw [describeAll_beyond .pl _ hp, describeAll_beyond .en _ hp, List.getElem?_map, List.getElem?_map,
      hp]
    rfl
  | some p =>
    have hentity : entities p.2 = w.entity p.2 :=
      hknown p.2 (List.mem_map_of_mem (List.mem_of_getElem? hp))
    rw [describeAll_asked .pl hknown hplKnown _ hp, describeAll_asked .en hknown henKnown _ hp,
      List.getElem?_map, List.getElem?_map, hp]
    simp only [Option.map_some, hentity]
    cases he : w.entity p.2 with
    | none => simp [enriched, asked, he, withText]
    | some e => simp only [Option.map_some, Option.getD_some, withText_asked w p he, enriched, he]

/-! ## The preference -/

/-- The text that the preference gives: the trimmed English extract, else the trimmed Polish one, else
what the item had, else the line of the entity. -/
def preferred (w : Wiki) (e : Entity) (item : RawItem) : Option String :=
  ((truthy e.enwiki).bind (w.extract .en)).map trim <|>
    ((truthy e.plwiki).bind (w.extract .pl)).map trim <|>
    item.description <|> shortDescription e

/-- Every item has the preferred description, and one without an entity the one it had. -/
def Preferred (w : Wiki) (pairs : List (RawItem × String)) (items : List RawItem) : Prop :=
  List.Forall₂ (fun p item => item.description =
    ((w.entity p.2).map fun e => preferred w e p.1).getD p.1.description) pairs items

/-- The Polish article is passed over: there is an English title without an extract, and a Polish
extract that is not what the item falls back to. -/
def PolishPassedOver (w : Wiki) (e : Entity) (item : RawItem) : Prop :=
  ∃ english polish extract, truthy e.enwiki = some english ∧ w.extract .en english = none ∧
    truthy e.plwiki = some polish ∧ w.extract .pl polish = some extract ∧
    some (trim extract) ≠ (item.description <|> shortDescription e)

theorem description_withText (text : Option String) (e : Entity) (item : RawItem) :
    (withText text (prepared e item)).description
      = (text.map trim <|> item.description <|> shortDescription e) := by
  cases text <;> rfl

theorem enriched_preferred_iff (e : Entity) (item : RawItem) :
    (withText (given w e) (prepared e item)).description = preferred w e item ↔
      ¬PolishPassedOver w e item := by
  rw [description_withText]
  unfold given article preferred PolishPassedOver
  cases hen : truthy e.enwiki with
  | none =>
    cases hpl : truthy e.plwiki with
    | none => simp
    | some polish => simp
  | some english =>
    cases hextract : w.extract .en english with
    | some text => simp [hextract]
    | none =>
      cases hpl : truthy e.plwiki with
      | none => simp [hextract]
      | some polish =>
        cases hpolish : w.extract .pl polish with
        | none => simp [hextract, hpolish]
        | some text =>
          simp [hextract, hpolish, eq_comm]
          tauto

/-- With services that answer, `enrich` returns, and every item has the text that the preference gives
exactly where no Polish extract is passed over for an English article without one. -/
theorem descriptions_preferred_iff (h : Serves w api) (pairs : List (RawItem × String)) :
    ∃ items, enrich api pairs = .ok items ∧
      (Preferred w pairs items ↔
        ∀ p ∈ pairs, ∀ e, w.entity p.2 = some e → ¬PolishPassedOver w e p.1) := by
  refine ⟨_, enrich_eq h pairs, ?_⟩
  rw [Preferred, List.forall₂_map_right_iff, List.forall₂_same]
  refine forall₂_congr fun p _ => ?_
  unfold enriched
  cases he : w.entity p.2 with
  | none => simp
  | some e => simpa using enriched_preferred_iff e p.1

/-! ## Services that answer -/

/-- Each rename in one step, and every page asked for. -/
def Wiki.answer (w : Wiki) (lang : Lang) (titles : List Title) : Query where
  redirects := (titles.filter fun t => w.resolve lang t ≠ t).map fun t => (t, w.resolve lang t)
  pages := titles.map fun t => (w.resolve lang t, w.text lang (w.resolve lang t))

def Wiki.services (w : Wiki) : Api where
  wbgetentities ids := .ok (ids.filterMap fun qid => (w.entity qid).map fun e => (qid, e))
  query lang titles := .ok (w.answer lang titles)

variable {lang : Lang} {batch : List Title} {t : Title}

theorem mem_redirects {p : Title × Title} (hp : p ∈ (w.answer lang batch).redirects) :
    p.2 = w.resolve lang p.1 ∧ w.resolve lang p.1 ≠ p.1 := by
  obtain ⟨t, ht, rfl⟩ := List.mem_map.mp hp
  exact ⟨rfl, by simpa using (List.mem_filter.mp ht).2⟩

theorem answer_renames_self (h : w.resolve lang t = t) : (w.answer lang batch).renames t = none := by
  refine Chase.dict_eq_none fun hkey => ?_
  obtain ⟨p, hp, rfl⟩ := List.mem_map.mp hkey
  exact (mem_redirects hp).2 h

theorem answer_renames_step (hmem : t ∈ batch) (h : w.resolve lang t ≠ t) :
    (w.answer lang batch).renames t = some (w.resolve lang t) := by
  have hkept : t ∈ batch.filter fun t => w.resolve lang t ≠ t :=
    List.mem_filter.mpr ⟨hmem, by simpa using h⟩
  have hentry : (t, w.resolve lang t) ∈ (w.answer lang batch).redirects :=
    List.mem_map.mpr ⟨t, hkept, rfl⟩
  refine Chase.dict_eq_some (List.mem_map_of_mem (f := Prod.fst) hentry) fun p hp hkey => ?_
  rw [(mem_redirects hp).1, hkey]

theorem answer_extract (hmem : t ∈ batch) :
    (w.answer lang batch).extract (w.resolve lang t) = w.extract lang t := by
  have hpage : dict (w.answer lang batch).pages (w.resolve lang t)
      = some (w.text lang (w.resolve lang t)) := by
    have hentry : (w.resolve lang t, w.text lang (w.resolve lang t)) ∈ (w.answer lang batch).pages :=
      List.mem_map.mpr ⟨t, hmem, rfl⟩
    refine Chase.dict_eq_some (List.mem_map_of_mem (f := Prod.fst) hentry) fun p hp hkey => ?_
    obtain ⟨t', -, rfl⟩ := List.mem_map.mp hp
    exact congrArg (w.text lang) hkey
  rw [Query.extract, hpage]
  rfl

theorem services_entities (w : Wiki) (ids : List String) (qid : String) (e : Entity) :
    (qid, e) ∈ (ids.filterMap fun qid => (w.entity qid).map fun e => (qid, e)) ↔
      qid ∈ ids ∧ w.entity qid = some e := by
  simp only [List.mem_filterMap, Option.map_eq_some_iff, Prod.mk.injEq]
  constructor
  · rintro ⟨qid', hmem, e', he, rfl, rfl⟩
    exact ⟨hmem, he⟩
  · rintro ⟨hmem, he⟩
    exact ⟨qid, hmem, e, he, rfl, rfl⟩

theorem Wiki.serves (w : Wiki) (h : ∀ lang t, w.resolve lang (w.resolve lang t) = w.resolve lang t) :
    Serves w w.services where
  entities ids := by
    refine ⟨_, rfl, fun qid e he => ((services_entities w ids qid e).mp (Chase.mem_of_dict he)).2,
      fun qid hmem => ?_⟩
    cases he : w.entity qid with
    | none =>
      refine Chase.dict_eq_none fun hkey => ?_
      obtain ⟨p, hp, rfl⟩ := List.mem_map.mp hkey
      rw [((services_entities w ids p.1 p.2).mp hp).2] at he
      cases he
    | some e =>
      have hentry := (services_entities w ids qid e).mpr ⟨hmem, he⟩
      refine Chase.dict_eq_some (List.mem_map_of_mem (f := Prod.fst) hentry) fun p hp hkey => ?_
      have hp' := ((services_entities w ids p.1 p.2).mp hp).2
      rw [hkey, he] at hp'
      exact (Option.some.inj hp').symm
  query lang batch := by
    refine ⟨_, rfl, fun title hmem => ⟨⟨?_, answer_renames_self (h lang title)⟩, answer_extract hmem⟩⟩
    by_cases hself : w.resolve lang title = title
    · exact ⟨0, congrArg some hself.symm⟩
    · exact ⟨1, answer_renames_step hmem hself⟩

/-! ## A Polish extract passed over -/

/-- A place whose English article has no introduction. -/
def skippingWiki : Wiki where
  entity _ := some { enwiki := some "Praga Park", plwiki := some "Park Praski" }
  resolve _ t := t
  text lang _ := if lang = .pl then some "Park w Warszawie." else none

def parkPair : RawItem × String := ({ kind := .place, name := "Park Praski", source := "places" }, "Q1")

theorem polish_extract_passed_over :
    ¬∀ (w : Wiki) (api : Api), Serves w api → ∀ (pairs : List (RawItem × String))
      (items : List RawItem), enrich api pairs = .ok items → Preferred w pairs items := by
  intro h
  have hserves : Serves skippingWiki skippingWiki.services := skippingWiki.serves fun _ _ => rfl
  cases h skippingWiki _ hserves [parkPair] _ (enrich_eq hserves [parkPair]) with
  | cons hdescription _ => exact absurd hdescription (by decide +kernel)

theorem descriptions_preferred_iff_park :
    ∃ items, enrich skippingWiki.services [parkPair] = .ok items ∧
      (Preferred skippingWiki [parkPair] items ↔ ∀ p ∈ [parkPair], ∀ e,
        skippingWiki.entity p.2 = some e → ¬PolishPassedOver skippingWiki e p.1) :=
  descriptions_preferred_iff (skippingWiki.serves fun _ _ => rfl) [parkPair]

end Wikidata

end WarsawEvents.Ingestion
