import WarsawEvents.Retrieval.Search

/-! # What a returned card obeys

Every query of `search_items` has the filters of the intent in its WHERE, whatever leg or path it is.
Budget and category bind one by one, the two bounds of the dates only together: with one bound missing or
unreadable the other is dropped as well. -/

namespace WarsawEvents.Retrieval
open Ingestion (Card)
open Json (Text ascii)
set_option autoImplicit false

variable {δ σ : Type}

/-! ## The constraints of an intent, one by one -/

def InCategory (intent : Intent) (c : Card) : Prop :=
  intent.categories ≠ [] → ∃ category ∈ c.category, ascii category ∈ intent.categories

def WithinBudget (intent : Intent) (c : Card) : Prop :=
  ∀ budget ∈ intent.budgetMax, ∀ price ∈ c.priceFrom, withinBudget price budget = true

/-- Permanent, or within each of the bounds that can be read. -/
def InWindow (pg : Postgres δ σ) (intent : Intent) (c : Card) : Prop :=
  c.isPermanent = true ∨
    (∀ dateFrom ∈ dt intent.dateFrom, ∃ s ∈ c.startsAt, pg.instant dateFrom ≤ s.instant) ∧
      ∀ dateTo ∈ dt intent.dateTo, ∃ s ∈ c.startsAt, s.instant ≤ pg.instant dateTo

structure Obeys (pg : Postgres δ σ) (intent : Intent) (c : Card) : Prop where
  category : InCategory intent c
  budget : WithinBudget intent c
  dates : InWindow pg intent c

/-- Both bounds can be read or neither can; or the one that can holds of whatever passes the rest. -/
def BoundsBind (pg : Postgres δ σ) (intent : Intent) (table : ItemTable) : Prop :=
  (dt intent.dateFrom).isSome = (dt intent.dateTo).isSome ∨
    ∀ c ∈ table.cards, InCategory intent c → WithinBudget intent c → InWindow pg intent c

/-! ## The conditions of the WHERE -/

variable {pg : Postgres δ σ} {intent : Intent} {table : ItemTable} {c : Card}

theorem budgetCondition_iff {budget : Search.PyFloat ℚ} : budgetCondition budget c = true ↔
    ∀ price ∈ c.priceFrom, withinBudget price budget = true := by
  unfold budgetCondition
  cases c.priceFrom with
  | none => simp
  | some price => simp

theorem categoryCondition_iff {categories : List Text} : categoryCondition categories c = true ↔
    ∃ category ∈ c.category, ascii category ∈ categories := by
  unfold categoryCondition
  cases c.category with
  | none => simp
  | some category => simp

theorem dateCondition_iff {dateFrom dateTo : IsoFormat.Stamp} :
    dateCondition pg dateFrom dateTo c = true ↔ c.isPermanent = true ∨
      ∃ s ∈ c.startsAt, pg.instant dateFrom ≤ s.instant ∧ s.instant ≤ pg.instant dateTo := by
  unfold dateCondition
  rw [Bool.or_eq_true, or_comm]
  cases c.startsAt with
  | none => simp
  | some s => simp

/-- What the two bounds ask of a card when both can be read; otherwise they ask nothing. -/
def BetweenBounds (pg : Postgres δ σ) (intent : Intent) (c : Card) : Prop :=
  ∀ dateFrom ∈ dt intent.dateFrom, ∀ dateTo ∈ dt intent.dateTo,
    dateCondition pg dateFrom dateTo c = true

theorem meets_iff : meets (filterConditions pg intent) c = true ↔
    BetweenBounds pg intent c ∧ WithinBudget intent c ∧ InCategory intent c := by
  unfold meets filterConditions
  rw [List.all_append, List.all_append, Bool.and_eq_true, Bool.and_eq_true, and_assoc]
  apply and_congr
  · unfold BetweenBounds
    cases dt intent.dateFrom with
    | none => simp
    | some dateFrom =>
      cases dt intent.dateTo with
      | none => simp
      | some dateTo => simp
  · apply and_congr
    · unfold WithinBudget
      cases intent.budgetMax with
      | none => simp
      | some budget => simp [budgetCondition_iff]
    · unfold InCategory
      cases intent.categories with
      | nil => simp
      | cons category categories => simp [categoryCondition_iff]

theorem inWindow_of_between (h : BetweenBounds pg intent c)
    (hboth : (dt intent.dateFrom).isSome = (dt intent.dateTo).isSome) : InWindow pg intent c := by
  unfold BetweenBounds at h
  unfold InWindow
  cases hfrom : dt intent.dateFrom with
  | none =>
    cases hto : dt intent.dateTo with
    | none => simp
    | some dateTo => rw [hfrom, hto] at hboth; cases hboth
  | some dateFrom =>
    cases hto : dt intent.dateTo with
    | none => rw [hfrom, hto] at hboth; cases hboth
    | some dateTo =>
      rcases dateCondition_iff.mp (h dateFrom hfrom dateTo hto) with hpermanent | ⟨s, hs, hlow, hhigh⟩
      · exact Or.inl hpermanent
      · right
        simp only [Option.mem_def, Option.some.injEq, forall_eq']
        exact ⟨⟨s, hs, hlow⟩, ⟨s, hs, hhigh⟩⟩

variable (pg c) in
/-- With one bound only, nothing is asked. -/
theorem between_of_one (hone : (dt intent.dateFrom).isSome ≠ (dt intent.dateTo).isSome) :
    BetweenBounds pg intent c := by
  intro dateFrom hfrom dateTo hto
  rw [Option.mem_def] at hfrom hto
  rw [hfrom, hto] at hone
  exact absurd rfl hone

/-! ## What the queries return -/

theorem mem_ranking {cards : List Card} {r : ℕ × ℕ} (h : r ∈ ranking cards) :
    ∃ c ∈ cards, c.id = r.1 := by
  unfold ranking at h
  obtain ⟨id, rank⟩ := r
  have hid : id ∈ cards.map Card.id := List.fst_mem_of_mem_zipIdx (List.mem_of_mem_take h)
  exact List.mem_map.mp hid

theorem mem_joined {best : List (ℕ × ℚ)} (h : c ∈ joined pg table best) :
    c ∈ table.cards ∧ c.id ∈ best.map Prod.fst := by
  unfold joined at h
  obtain ⟨⟨c', score⟩, hrow, rfl⟩ := List.mem_map.mp h
  have hpair := pg.order_subset _ _ hrow
  obtain ⟨d, hd, hmem⟩ := List.mem_flatMap.mp hpair
  obtain ⟨f, hf, heq⟩ := List.mem_map.mp hmem
  obtain ⟨rfl, rfl⟩ := Prod.mk.inj heq
  obtain ⟨hbest, hid⟩ := List.mem_filter.mp hf
  rw [of_decide_eq_true hid]
  exact ⟨hd, List.mem_map_of_mem hbest⟩

theorem mem_fused {ranked : List (ℕ × ℕ)} {limit id : ℕ}
    (h : id ∈ (fused pg ranked limit).map Prod.fst) : id ∈ ranked.map Prod.fst := by
  obtain ⟨f, hf, rfl⟩ := List.mem_map.mp h
  have hscored := pg.order_subset _ _ (List.mem_of_mem_take hf)
  obtain ⟨id, hid, rfl⟩ := List.mem_map.mp hscored
  exact List.mem_dedup.mp hid

/-- The ids are keys: a card is the one that stands in the table under its id. -/
theorem eq_of_id {d : Card} (hc : c ∈ table.cards) (hd : d ∈ table.cards) (hid : c.id = d.id) :
    c = d := List.inj_on_of_nodup_map table.keyed hc hd hid

variable [LinearOrder δ] [LinearOrder σ] {settings : Settings δ} {queryEmbedding : Option (List ℚ)}
  {limit : ℕ}

omit [LinearOrder δ] [LinearOrder σ] in
/-- A leg ranks cards of the table that meet the conditions. -/
theorem mem_leg {κ : Type} [LinearOrder κ] {key : Card → κ} {listed : Card → Bool}
    {conds : List (Card → Bool)} {id : ℕ}
    (h : id ∈ (ranking (pg.order key (table.cards.filter fun c => listed c && meets conds c))).map Prod.fst) :
    ∃ c ∈ table.cards, c.id = id ∧ meets conds c = true := by
  obtain ⟨r, hr, rfl⟩ := List.mem_map.mp h
  obtain ⟨c, hc, hid⟩ := mem_ranking hr
  obtain ⟨hmem, hkept⟩ := List.mem_filter.mp (pg.order_subset _ _ hc)
  exact ⟨c, hmem, hid, (Bool.and_eq_true_iff.mp hkept).2⟩

omit [LinearOrder δ] in
theorem mem_lexicalLeg {textQuery : Text} {conds : List (Card → Bool)} {id : ℕ}
    (h : id ∈ (lexicalLeg pg table textQuery conds).map Prod.fst) :
    ∃ c ∈ table.cards, c.id = id ∧ meets conds c = true := mem_leg h

omit [LinearOrder σ] in
theorem mem_semanticLeg {embedding : List ℚ} {conds : List (Card → Bool)} {id : ℕ}
    (h : id ∈ (semanticLeg pg settings table embedding conds).map Prod.fst) :
    ∃ c ∈ table.cards, c.id = id ∧ meets conds c = true := mem_leg h

theorem hybridSearch_meets {textQuery : Text}
    (h : c ∈ hybridSearch pg intent settings table queryEmbedding textQuery limit) :
    c ∈ table.cards ∧ meets (filterConditions pg intent) c = true := by
  unfold hybridSearch at h
  obtain ⟨hc, hbest⟩ := mem_joined h
  have hranked := mem_fused hbest
  rw [List.map_append, List.mem_append] at hranked
  have hleg : ∃ d ∈ table.cards, d.id = c.id ∧ meets (filterConditions pg intent) d = true := by
    rcases hranked with hlexical | hsemantic
    · exact mem_lexicalLeg hlexical
    · cases queryEmbedding with
      | none => cases hsemantic
      | some embedding => exact mem_semanticLeg hsemantic
  obtain ⟨d, hd, hid, hmeets⟩ := hleg
  rw [eq_of_id hc hd hid.symm]
  exact ⟨hd, hmeets⟩

omit [LinearOrder σ] in
theorem semanticSearch_meets
    (h : c ∈ semanticSearch pg intent settings table queryEmbedding limit) :
    c ∈ table.cards ∧ meets (filterConditions pg intent) c = true := by
  unfold semanticSearch at h
  cases queryEmbedding with
  | none =>
    have hscan := (pg.scan_perm _).subset (List.mem_of_mem_take h)
    exact List.mem_filter.mp hscan
  | some embedding =>
    have hnear := pg.order_subset _ _ (List.mem_of_mem_take h)
    exact List.mem_filter.mp (List.mem_filter.mp hnear).1

theorem searchItems_meets {textQuery : Option Text}
    (h : c ∈ searchItems pg intent settings table queryEmbedding textQuery limit) :
    c ∈ table.cards ∧ meets (filterConditions pg intent) c = true := by
  unfold searchItems at h
  cases textQuery with
  | none => exact semanticSearch_meets h
  | some text =>
    simp only at h
    split at h
    · exact hybridSearch_meets h
    · exact semanticSearch_meets h

/-- Without a query text, an embedding or a limit to speak of, the search returns all that meet. -/
theorem mem_searchItems_of_meets (hc : c ∈ table.cards)
    (hmeets : meets (filterConditions pg intent) c = true) :
    c ∈ searchItems pg intent settings table none none table.cards.length := by
  have hkept : c ∈ table.cards.filter (meets (filterConditions pg intent)) :=
    List.mem_filter.mpr ⟨hc, hmeets⟩
  have hscan := (pg.scan_perm (table.cards.filter (meets (filterConditions pg intent)))).symm
  have hlength : (pg.scan (table.cards.filter (meets (filterConditions pg intent)))).length ≤
      table.cards.length := by
    rw [← hscan.length_eq]
    exact List.length_filter_le _ _
  show c ∈ (pg.scan (table.cards.filter (meets (filterConditions pg intent)))).take table.cards.length
  rw [List.take_of_length_le hlength]
  exact hscan.subset hkept

/-- Every search of an intent returns cards that obey it, exactly if its bounds bind. -/
theorem every_card_obeys_iff (pg : Postgres δ σ) (intent : Intent) (table : ItemTable)
    (searchMaxDistance : δ) :
    (∀ (hybrid : Bool) (queryEmbedding : Option (List ℚ)) (textQuery : Option Text) (limit : ℕ),
      ∀ c ∈ searchItems pg intent ⟨hybrid, searchMaxDistance⟩ table queryEmbedding textQuery limit,
        Obeys pg intent c) ↔ BoundsBind pg intent table := by
  constructor
  · intro h
    by_cases hboth : (dt intent.dateFrom).isSome = (dt intent.dateTo).isSome
    · exact Or.inl hboth
    · refine Or.inr fun c hc hcategory hbudget => ?_
      have hmeets := meets_iff.mpr ⟨between_of_one pg c hboth, hbudget, hcategory⟩
      exact (h false none none _ c (mem_searchItems_of_meets hc hmeets)).dates
  · intro h hybrid queryEmbedding textQuery limit c hreturned
    obtain ⟨hc, hmeets⟩ := searchItems_meets hreturned
    obtain ⟨hbetween, hbudget, hcategory⟩ := meets_iff.mp hmeets
    refine ⟨hcategory, hbudget, ?_⟩
    rcases h with hboth | hrest
    · exact inWindow_of_between hbetween hboth
    · exact hrest c hc hcategory hbudget

/-! ## A window without an end -/

/-- Everything from the evening of the eighth of August on. -/
def fromSaturday : Intent where
  onTopic := true
  categories := []
  dateFrom := some (ascii "2026-08-08T18:00")
  dateTo := none
  budgetMax := none
  area := none
  freeText := []

def eveningConcert (id : ℕ) (day : ℤ) : Card where
  id := id
  kind := .event
  name := "Jazz Night"
  source := "facebook"
  startsAt := some { wall := day * 86400000000 + 72000000000 }

/-- Its only concert is on the fifth of August. -/
def wednesdayOnly : ItemTable := ⟨[eveningConcert 1 20670], by decide⟩

theorem wednesday_returned :
    ¬ ∀ (pg : Postgres ℚ ℚ) (intent : Intent) (table : ItemTable) (settings : Settings ℚ)
      (queryEmbedding : Option (List ℚ)) (textQuery : Option Text) (limit : ℕ),
      ∀ c ∈ searchItems pg intent settings table queryEmbedding textQuery limit, Obeys pg intent c := by
  intro h
  have hobeys := h utcPostgres fromSaturday wednesdayOnly ⟨true, 0⟩ none none 30
    (eveningConcert 1 20670) (by decide +kernel)
  have hlower : dt fromSaturday.dateFrom = some ⟨20673 * 86400000000 + 64800000000, none⟩ := by
    decide +kernel
  rcases hobeys.dates with hpermanent | ⟨hfrom, _⟩
  · cases hpermanent
  · obtain ⟨s, hs, hle⟩ := hfrom _ hlower
    cases hs
    revert hle
    decide +kernel

end WarsawEvents.Retrieval
