import WarsawEvents.Ingestion.Ledger
import Mathlib.Tactic.NormNum

/-! # Matches that deduplication misses

The adjudicator is asked about one candidate of a pool only, the best one. When it turns that one down,
another candidate of the ambiguous band is not looked at, whatever the adjudicator would say of it.
-/

namespace WarsawEvents.Ingestion
set_option autoImplicit false

variable (m : Matching) (existing : List Card) (adjudicate : Option Adjudicator)

/-- The best candidate scores in the band and is turned down, another one of the band would not be. -/
def Shadowed {γ : Type} (view : γ → RawItem) (item : RawItem) (candidates : List γ) : Prop :=
  ∃ same ∈ adjudicate, ∃ best, BestScore.Wins (nameScore m view item) 0 candidates best ∧
    ambiguous ≤ nameScore m view item best ∧ nameScore m view item best < autoMatch ∧
    same item (view best) = false ∧
    ∃ c ∈ candidates, ambiguous ≤ nameScore m view item c ∧ same item (view c) = true

/-- Every item with a name that becomes a new card has no eligible candidate that is a match: none of the
stored cards of its block with another URL, none of the accepted ones of its block. -/
def MissesNothing (items : List RawItem) : Prop :=
  ∀ pre x post, items = pre ++ x :: post → normalizeName m x.name ≠ "" →
    branch m existing adjudicate (acceptedAfter m existing adjudicate pre) x = .new →
      (∀ e ∈ existing, blockKey m e.toRawItem = blockKey m x → e.sourceUrl ≠ x.sourceUrl →
        ¬ Accepted adjudicate x e.toRawItem (nameScore m Card.toRawItem x e)) ∧
      ∀ t ∈ acceptedAfter m existing adjudicate pre, blockKey m t = blockKey m x →
        ¬ Accepted adjudicate x t (nameScore m id x t)

/-- At the turn of every item with a name, a shadowed pool has the other pool to find a match. -/
def Unshadowed (items : List RawItem) : Prop :=
  ∀ pre x post, items = pre ++ x :: post → normalizeName m x.name ≠ "" →
    (Shadowed m adjudicate Card.toRawItem x (rivals m existing x) →
      ∃ t, Matches m Prod.fst adjudicate x
        (twins m (acceptedAfter m existing adjudicate pre) x) t) ∧
    (Shadowed m adjudicate Prod.fst x (twins m (acceptedAfter m existing adjudicate pre) x) →
      ∃ e, Matches m Card.toRawItem adjudicate x (rivals m existing x) e)

variable {m existing adjudicate} {items canonical : List RawItem} {x : RawItem}

/-! ## One pool -/

section Pool
variable {γ : Type} {view : γ → RawItem} {candidates : List γ} {c : γ}

theorem ambiguous_le_of_accepted {candidate : RawItem} {score : ℚ}
    (h : Accepted adjudicate x candidate score) : ambiguous ≤ score := by
  obtain hauto | ⟨hband, _⟩ := h
  · refine le_trans ?_ hauto
    norm_num [ambiguous, autoMatch]
  · exact hband

theorem exists_best (hc : c ∈ candidates) (hscore : ambiguous ≤ nameScore m view x c) :
    ∃ best, BestScore.Wins (nameScore m view x) 0 candidates best := by
  have hscanned := BestScore.scan_scanned (nameScore m view x) 0 candidates
  generalize BestScore.scan (nameScore m view x) 0 candidates = r at hscanned
  cases hscanned with
  | none hle =>
    have hpos : (0 : ℚ) < ambiguous := by norm_num [ambiguous]
    exact absurd (hle c hc) (not_le_of_gt (lt_of_lt_of_le hpos hscore))
  | @some best hwins => exact ⟨best, hwins⟩

variable (view) in
/-- A candidate that is a match is found, or another match, or the pool is shadowed. -/
theorem match_or_shadowed (hnamed : normalizeName m x.name ≠ "") (hc : c ∈ candidates)
    (haccepted : Accepted adjudicate x (view c) (nameScore m view x c)) :
    (∃ d, Matches m view adjudicate x candidates d) ∨ Shadowed m adjudicate view x candidates := by
  obtain ⟨best, hwins⟩ := exists_best hc (ambiguous_le_of_accepted haccepted)
  by_cases hbest : Accepted adjudicate x (view best) (nameScore m view x best)
  · exact Or.inl ⟨best, hnamed, hwins, hbest⟩
  · right
    have hle := hwins.le c hc
    have hbelow : nameScore m view x best < autoMatch := by
      by_contra hauto
      exact hbest (Or.inl (not_lt.mp hauto))
    have hband : ambiguous ≤ nameScore m view x best :=
      (ambiguous_le_of_accepted haccepted).trans hle
    obtain hauto | ⟨hscore, same, hsame, hyes⟩ := haccepted
    · exact absurd (hauto.trans hle) (not_le_of_gt hbelow)
    · have hno : same x (view best) = false := by
        rw [← Bool.not_eq_true]
        intro hyes
        exact hbest (Or.inr ⟨hband, same, hsame, hyes⟩)
      exact ⟨same, hsame, best, hwins, hband, hbelow, hno, c, hc, hscore, hyes⟩

theorem Shadowed.exists_accepted (h : Shadowed m adjudicate view x candidates) :
    ∃ c ∈ candidates, Accepted adjudicate x (view c) (nameScore m view x c) := by
  obtain ⟨same, hsame, _, _, _, _, _, c, hc, hscore, hyes⟩ := h
  exact ⟨c, hc, Or.inr ⟨hscore, same, hsame, hyes⟩⟩

theorem Shadowed.unmatched (h : Shadowed m adjudicate view x candidates) (d : γ) :
    ¬ Matches m view adjudicate x candidates d := by
  intro hmatch
  obtain ⟨same, hsame, best, hwins, _, hbelow, hno, _⟩ := h
  obtain rfl := hwins.unique hmatch.wins
  obtain hauto | ⟨_, same', hsame', hyes⟩ := hmatch.accepted
  · exact not_le_of_gt hbelow hauto
  · obtain rfl : same = same' := Option.mem_unique hsame hsame'
    rw [hno] at hyes
    cases hyes

end Pool

/-! ## The two pools of an item -/

theorem mem_rivals {e : Card} : e ∈ rivals m existing x ↔
    e ∈ existing ∧ blockKey m e.toRawItem = blockKey m x ∧ e.sourceUrl ≠ x.sourceUrl := by
  unfold rivals
  rw [List.mem_filter, Bool.and_eq_true, Bool.not_eq_true', decide_eq_false_iff_not,
    decide_eq_true_eq]
  tauto

theorem mem_twins {t : RawItem} {p : ℕ} : (t, p) ∈ twins m canonical x ↔
    canonical[p]? = some t ∧ blockKey m t = blockKey m x := by
  unfold twins
  rw [List.mem_filter, List.mk_mem_zipIdx_iff_getElem?, decide_eq_true_eq]

/-- No match among the stored cards and none among the accepted ones, read as pools. -/
theorem no_candidate_iff :
    ((∀ e ∈ existing, blockKey m e.toRawItem = blockKey m x → e.sourceUrl ≠ x.sourceUrl →
        ¬ Accepted adjudicate x e.toRawItem (nameScore m Card.toRawItem x e)) ∧
      ∀ t ∈ canonical, blockKey m t = blockKey m x →
        ¬ Accepted adjudicate x t (nameScore m id x t)) ↔
    (∀ e ∈ rivals m existing x,
        ¬ Accepted adjudicate x e.toRawItem (nameScore m Card.toRawItem x e)) ∧
      ∀ t ∈ twins m canonical x, ¬ Accepted adjudicate x t.1 (nameScore m Prod.fst x t) := by
  apply and_congr
  · constructor
    · intro h e he
      obtain ⟨hstored, hblock, hurl⟩ := mem_rivals.mp he
      exact h e hstored hblock hurl
    · intro h e hstored hblock hurl
      exact h e (mem_rivals.mpr ⟨hstored, hblock, hurl⟩)
  · constructor
    · rintro h ⟨t, p⟩ ht
      obtain ⟨hplace, hblock⟩ := mem_twins.mp ht
      exact h t (List.mem_of_getElem? hplace) hblock
    · intro h t ht hblock
      obtain ⟨p, hp⟩ := List.mem_iff_getElem?.mp ht
      exact h (t, p) (mem_twins.mpr ⟨hp, hblock⟩)

/-- An item of either kind: what is missed at its turn is what a shadowed pool hides. -/
theorem turn_iff (hnamed : normalizeName m x.name ≠ "") :
    (branch m existing adjudicate canonical x = .new →
      (∀ e ∈ rivals m existing x,
        ¬ Accepted adjudicate x e.toRawItem (nameScore m Card.toRawItem x e)) ∧
      ∀ t ∈ twins m canonical x, ¬ Accepted adjudicate x t.1 (nameScore m Prod.fst x t)) ↔
    (Shadowed m adjudicate Card.toRawItem x (rivals m existing x) →
      ∃ t, Matches m Prod.fst adjudicate x (twins m canonical x) t) ∧
    (Shadowed m adjudicate Prod.fst x (twins m canonical x) →
      ∃ e, Matches m Card.toRawItem adjudicate x (rivals m existing x) e) := by
  rw [branch_eq_new_iff]
  constructor
  · intro h
    refine ⟨?_, ?_⟩
    · intro hshadow
      by_contra hnone
      obtain ⟨e, he, haccepted⟩ := hshadow.exists_accepted
      exact (h ⟨hshadow.unmatched, fun t ht => hnone ⟨t, ht⟩⟩).1 e he haccepted
    · intro hshadow
      by_contra hnone
      obtain ⟨t, ht, haccepted⟩ := hshadow.exists_accepted
      exact (h ⟨fun e he => hnone ⟨e, he⟩, hshadow.unmatched⟩).2 t ht haccepted
  · rintro ⟨hrivals, htwins⟩ hun
    refine ⟨?_, ?_⟩
    · intro e he haccepted
      obtain ⟨d, hd⟩ | hshadow := match_or_shadowed _ hnamed he haccepted
      · exact hun.1 d hd
      · obtain ⟨t, ht⟩ := hrivals hshadow
        exact hun.2 t ht
    · intro t ht haccepted
      obtain ⟨d, hd⟩ | hshadow := match_or_shadowed Prod.fst hnamed ht haccepted
      · exact hun.2 d hd
      · obtain ⟨e, he⟩ := htwins hshadow
        exact hun.1 e he

/-- A call misses no match exactly if no match is shadowed at any turn. -/
theorem misses_nothing_iff (m : Matching) (existing : List Card) (adjudicate : Option Adjudicator)
    (items : List RawItem) :
    MissesNothing m existing adjudicate items ↔ Unshadowed m existing adjudicate items := by
  unfold MissesNothing Unshadowed
  refine forall_congr' fun pre => forall_congr' fun x => forall_congr' fun post => ?_
  refine imp_congr_right fun _ => imp_congr_right fun hnamed => ?_
  rw [no_candidate_iff]
  exact turn_iff hnamed

/-! ## Two recitals in the castle -/

/-- The scorer of rapidfuzz on three names, in full points. -/
def recitalNames : Matching :=
  { asciiNames with
    tokenSetRatio := fun _ candidate => if candidate = "chopinowski recital zamek" then 88 else 78 }

def recital (name url : String) : RawItem where
  kind := .event
  name := name
  source := "ticketmaster"
  sourceUrl := some url
  startsAt := some (evening 4)

def storedRecitals : List Card :=
  [{ recital "Chopinowski recital Zamek" "tm/1" with id := 1 },
    { recital "Recital Chopina Zamek Krolewski" "tm/2" with id := 2 }]

/-- Only the second of them is the same event. -/
def onlyTheSecond : Adjudicator := fun _ candidate => candidate.sourceUrl = some "tm/2"

theorem recital_missed :
    ¬ ∀ (m : Matching) (existing : List Card) (adjudicate : Option Adjudicator)
      (items : List RawItem), MissesNothing m existing adjudicate items := by
  intro h
  have hnothing := h recitalNames storedRecitals (some onlyTheSecond)
    [recital "Chopin recital Zamek" "fb/1"] [] (recital "Chopin recital Zamek" "fb/1") [] rfl
    (by decide +kernel) (by decide +kernel)
  have hsecond := hnothing.1 { recital "Recital Chopina Zamek Krolewski" "tm/2" with id := 2 }
    (by decide +kernel) (by decide +kernel) (by decide +kernel)
  refine hsecond (Or.inr ⟨by decide +kernel, onlyTheSecond, rfl, rfl⟩)

end WarsawEvents.Ingestion
