import WarsawEvents.Foundations.BestScore
import WarsawEvents.Ingestion.Cards

/-! # Cross-source deduplication

`app.ingestion.dedup.deduplicate`, one iteration of its loop at a time. The dictionaries of blocks are
read off the lists they index: a block is the sublist of the cards with its key, in order. An item takes
one of three branches, and `branch` is the choice; the lemmas say when it takes which, in terms of the
scores.
-/

namespace WarsawEvents.Ingestion
set_option autoImplicit false

variable (m : Matching)

def autoMatch : ℚ := 90

def ambiguous : ℚ := 75

abbrev Adjudicator := RawItem → RawItem → Bool

/-! ## The loop -/

section Loop
variable {γ : Type}

/-- The score of a candidate; `view` are the attributes the matcher reads of it. -/
def nameScore (view : γ → RawItem) (item : RawItem) (c : γ) : ℚ :=
  m.tokenSetRatio (normalizeName m item.name) (normalizeName m (view c).name)

def bestMatch (view : γ → RawItem) (item : RawItem) (candidates : List γ)
    (adjudicate : Option Adjudicator) (skip : γ → Bool) : Option γ :=
  if normalizeName m item.name = "" then none
  else
    match BestScore.scan (nameScore m view item) 0 (candidates.filter fun c => !skip c) with
    | (none, _) => none
    | (some best, bestScore) =>
      if autoMatch ≤ bestScore then some best
      else if ambiguous ≤ bestScore && adjudicate.any fun same => same item (view best) then some best
      else none

end Loop

inductive Branch where
  | merge (existing : Card)
  | fold (twin : ℕ)
  | new
  deriving DecidableEq

/-- The branch of an item, given the cards accepted before it; a twin is named by its place. -/
def branch (existing : List Card) (adjudicate : Option Adjudicator) (canonical : List RawItem)
    (item : RawItem) : Branch :=
  let inBlock (c : RawItem) := decide (blockKey m c = blockKey m item)
  match bestMatch m Card.toRawItem item (existing.filter fun e => inBlock e.toRawItem) adjudicate
      fun e => e.sourceUrl = item.sourceUrl with
  | some e => .merge e
  | none =>
    match bestMatch m Prod.fst item (canonical.zipIdx.filter fun p => inBlock p.1) adjudicate
        fun _ => false with
    | some twin => .fold twin.2
    | none => .new

structure Deduped where
  canonical : List RawItem := []
  merges : List (ℕ × Ref) := []
  deriving DecidableEq

def RawItem.addRef (item : RawItem) (ref : Ref) : RawItem :=
  { item with sources := some (item.refs ++ [ref]) }

def RawItem.asCanonical (item : RawItem) : RawItem := { item with sources := some [item.ref] }

def dedupStep (existing : List Card) (adjudicate : Option Adjudicator) (st : Deduped)
    (item : RawItem) : Deduped :=
  match branch m existing adjudicate st.canonical item with
  | .merge e => { st with merges := st.merges ++ [(e.id, item.ref)] }
  | .fold twin => { st with canonical := st.canonical.modify twin fun t => t.addRef item.ref }
  | .new => { st with canonical := st.canonical ++ [item.asCanonical] }

def deduplicate (items : List RawItem) (existing : List Card) (adjudicate : Option Adjudicator) :
    Deduped :=
  items.foldl (dedupStep m existing adjudicate) {}

/-! ## When an item takes which branch -/

def Accepted (adjudicate : Option Adjudicator) (item candidate : RawItem) (score : ℚ) : Prop :=
  autoMatch ≤ score ∨ ambiguous ≤ score ∧ ∃ same ∈ adjudicate, same item candidate = true

/-- The first of the highest-scoring candidates, and it is accepted. -/
structure Matches {γ : Type} (view : γ → RawItem) (adjudicate : Option Adjudicator) (item : RawItem)
    (candidates : List γ) (c : γ) : Prop where
  named : normalizeName m item.name ≠ ""
  wins : BestScore.Wins (nameScore m view item) 0 candidates c
  accepted : Accepted adjudicate item (view c) (nameScore m view item c)

/-- The existing cards an item may be merged into. -/
def rivals (existing : List Card) (item : RawItem) : List Card :=
  existing.filter fun e =>
    !decide (e.sourceUrl = item.sourceUrl) && decide (blockKey m e.toRawItem = blockKey m item)

/-- The accepted cards an item may be folded into. -/
def twins (canonical : List RawItem) (item : RawItem) : List (RawItem × ℕ) :=
  canonical.zipIdx.filter fun p => blockKey m p.1 = blockKey m item

variable {m} {existing : List Card} {adjudicate : Option Adjudicator} {canonical : List RawItem}
  {item : RawItem}

theorem bestMatch_eq_some_iff {γ : Type} {view : γ → RawItem} {candidates : List γ}
    {skip : γ → Bool} {c : γ} : bestMatch m view item candidates adjudicate skip = some c ↔
      Matches m view adjudicate item (candidates.filter fun x => !skip x) c := by
  unfold bestMatch
  by_cases hname : normalizeName m item.name = ""
  · rw [if_pos hname]
    exact ⟨nofun, fun h => absurd hname h.named⟩
  · rw [if_neg hname]
    have hscan := BestScore.scan_scanned (nameScore m view item) 0
      (candidates.filter fun x => !skip x)
    have hwins : (BestScore.scan (nameScore m view item) 0
        (candidates.filter fun x => !skip x)).1 = some c ↔
        BestScore.Wins (nameScore m view item) 0 (candidates.filter fun x => !skip x) c :=
      BestScore.scan_wins_iff
    generalize BestScore.scan (nameScore m view item) 0 (candidates.filter fun x => !skip x) = best
      at hscan hwins
    cases hscan with
    | none _ =>
      refine ⟨nofun, fun h => ?_⟩
      cases hwins.mpr h.wins
    | @some b hb =>
      have haccept : Accepted adjudicate item (view b) (nameScore m view item b) ↔
          autoMatch ≤ nameScore m view item b ∨ (decide (ambiguous ≤ nameScore m view item b) &&
            adjudicate.any fun same => same item (view b)) = true := by
        unfold Accepted
        rw [Bool.and_eq_true, decide_eq_true_eq, Option.any_eq_true]
        rfl
      have hresult : (if autoMatch ≤ nameScore m view item b then some b
          else if decide (ambiguous ≤ nameScore m view item b) &&
            adjudicate.any fun same => same item (view b) then some b else none) = some c ↔
          b = c ∧ Accepted adjudicate item (view b) (nameScore m view item b) := by
        rw [haccept]
        split_ifs with hauto hband
        · simp [hauto]
        · simp [hband]
        · simp [hauto, hband]
      simp only [hresult]
      constructor
      · rintro ⟨rfl, hacc⟩
        exact ⟨hname, hb, hacc⟩
      · intro h
        have hbc : b = c := Option.some.inj (hwins.mpr h.wins)
        subst hbc
        exact ⟨rfl, h.accepted⟩

/-- Candidates read off others. -/
theorem matches_map_iff {γ δ : Type} {view : γ → RawItem} {f : δ → γ} {ys : List δ} {c : γ} :
    Matches m view adjudicate item (ys.map f) c ↔
      ∃ y, f y = c ∧ Matches m (fun y => view (f y)) adjudicate item ys y := by
  constructor
  · intro h
    obtain ⟨y, rfl, hwins⟩ := BestScore.wins_map_iff.mp h.wins
    exact ⟨y, rfl, h.named, hwins, h.accepted⟩
  · rintro ⟨y, rfl, h⟩
    exact ⟨h.named, BestScore.wins_map_iff.mpr ⟨y, rfl, h.wins⟩, h.accepted⟩

theorem existing_match_iff {e : Card} :
    bestMatch m Card.toRawItem item
      (existing.filter fun e => decide (blockKey m e.toRawItem = blockKey m item)) adjudicate
      (fun e => e.sourceUrl = item.sourceUrl) = some e ↔
      Matches m Card.toRawItem adjudicate item (rivals m existing item) e := by
  rw [bestMatch_eq_some_iff, List.filter_filter]
  rfl

theorem batch_match_iff {t : RawItem × ℕ} :
    bestMatch m Prod.fst item
      (canonical.zipIdx.filter fun p => decide (blockKey m p.1 = blockKey m item)) adjudicate
      (fun _ => false) = some t ↔
      Matches m Prod.fst adjudicate item (twins m canonical item) t := by
  rw [bestMatch_eq_some_iff, List.filter_filter]
  rfl

inductive Chosen (m : Matching) (existing : List Card) (adjudicate : Option Adjudicator)
    (canonical : List RawItem) (item : RawItem) : Branch → Prop
  | merge {e : Card} : Matches m Card.toRawItem adjudicate item (rivals m existing item) e →
      Chosen m existing adjudicate canonical item (.merge e)
  | fold {t : RawItem × ℕ} :
      (∀ e, ¬ Matches m Card.toRawItem adjudicate item (rivals m existing item) e) →
      Matches m Prod.fst adjudicate item (twins m canonical item) t →
      Chosen m existing adjudicate canonical item (.fold t.2)
  | new : (∀ e, ¬ Matches m Card.toRawItem adjudicate item (rivals m existing item) e) →
      (∀ t, ¬ Matches m Prod.fst adjudicate item (twins m canonical item) t) →
      Chosen m existing adjudicate canonical item .new

variable (m existing adjudicate canonical item) in
theorem branch_chosen : Chosen m existing adjudicate canonical item
    (branch m existing adjudicate canonical item) := by
  unfold branch
  simp only
  split
  · next e he => exact Chosen.merge (existing_match_iff.mp he)
  · next hnone =>
    have hrivals : ∀ e, ¬ Matches m Card.toRawItem adjudicate item (rivals m existing item) e := by
      intro e he
      rw [existing_match_iff.mpr he] at hnone
      cases hnone
    split
    · next t ht => exact Chosen.fold hrivals (batch_match_iff.mp ht)
    · next hnotwin =>
      refine Chosen.new hrivals fun t ht => ?_
      rw [batch_match_iff.mpr ht] at hnotwin
      cases hnotwin

variable (m existing adjudicate canonical item) in
def Unmatched : Prop :=
  (∀ e, ¬ Matches m Card.toRawItem adjudicate item (rivals m existing item) e) ∧
    ∀ t, ¬ Matches m Prod.fst adjudicate item (twins m canonical item) t

theorem branch_eq_new_iff : branch m existing adjudicate canonical item = .new ↔
    Unmatched m existing adjudicate canonical item := by
  have hchosen := branch_chosen m existing adjudicate canonical item
  generalize branch m existing adjudicate canonical item = b at hchosen
  cases hchosen with
  | @merge e he => exact ⟨nofun, fun h => absurd he (h.1 e)⟩
  | @fold t _ ht => exact ⟨nofun, fun h => absurd ht (h.2 t)⟩
  | new hrivals htwins => exact ⟨fun _ => ⟨hrivals, htwins⟩, fun _ => rfl⟩

theorem branch_eq_merge_iff {e : Card} : branch m existing adjudicate canonical item = .merge e ↔
    Matches m Card.toRawItem adjudicate item (rivals m existing item) e := by
  have hchosen := branch_chosen m existing adjudicate canonical item
  generalize branch m existing adjudicate canonical item = b at hchosen
  cases hchosen with
  | @merge e' he' =>
    constructor
    · intro h
      cases h
      exact he'
    · intro he
      rw [he.wins.unique he'.wins]
  | fold hrivals _ => exact ⟨nofun, fun he => absurd he (hrivals e)⟩
  | new hrivals _ => exact ⟨nofun, fun he => absurd he (hrivals e)⟩

theorem branch_eq_fold_iff {twin : ℕ} : branch m existing adjudicate canonical item = .fold twin ↔
    (∀ e, ¬ Matches m Card.toRawItem adjudicate item (rivals m existing item) e) ∧
      ∃ t, Matches m Prod.fst adjudicate item (twins m canonical item) t ∧ t.2 = twin := by
  have hchosen := branch_chosen m existing adjudicate canonical item
  generalize branch m existing adjudicate canonical item = b at hchosen
  cases hchosen with
  | @merge e he => exact ⟨nofun, fun h => absurd he (h.1 e)⟩
  | @fold t hrivals ht =>
    constructor
    · intro h
      exact ⟨hrivals, t, ht, Branch.fold.inj h⟩
    · rintro ⟨_, s, hs, rfl⟩
      rw [hs.wins.unique ht.wins]
  | new _ htwins =>
    refine ⟨nofun, ?_⟩
    rintro ⟨_, t, ht, _⟩
    exact absurd ht (htwins t)

/-! ## One more item -/

/-- An item without what deduplication writes into it. -/
def RawItem.bare (item : RawItem) : RawItem := { item with sources := none }

@[simp] theorem bare_addRef (ref : Ref) : (item.addRef ref).bare = item.bare := rfl

@[simp] theorem bare_asCanonical : item.asCanonical.bare = item.bare := rfl

theorem ref_of_bare {a b : RawItem} (h : a.bare = b.bare) : a.ref = b.ref := by
  have href : a.bare.ref = b.bare.ref := by rw [h]
  exact href

theorem key_of_bare {a b : RawItem} (h : a.bare = b.bare) : a.key = b.key := by
  have hkey : a.bare.key = b.bare.key := by rw [h]
  exact hkey

theorem map_bare_modify (twin : ℕ) (ref : Ref) :
    (canonical.modify twin fun t => t.addRef ref).map RawItem.bare =
      canonical.map RawItem.bare := by
  refine List.ext_getElem? fun i => ?_
  rw [List.getElem?_map, List.getElem?_map, List.getElem?_modify]
  by_cases hi : twin = i
  · cases canonical[i]? <;> simp [hi]
  · simp [hi]

theorem deduplicate_snoc {items : List RawItem} : deduplicate m (items ++ [item]) existing adjudicate =
    dedupStep m existing adjudicate (deduplicate m items existing adjudicate) item := by
  unfold deduplicate
  rw [List.foldl_append, List.foldl_cons, List.foldl_nil]

/-- The accepted cards, without their references, grow by the items that nothing matches. -/
theorem canonical_bare_step {st : Deduped} :
    (dedupStep m existing adjudicate st item).canonical.map RawItem.bare =
      st.canonical.map RawItem.bare ++
        if branch m existing adjudicate st.canonical item = .new then [item.bare] else [] := by
  unfold dedupStep
  cases branch m existing adjudicate st.canonical item with
  | merge e => simp
  | fold twin => simp [map_bare_modify]
  | new => simp

theorem merges_target {items : List RawItem} {merge : ℕ × Ref}
    (h : merge ∈ (deduplicate m items existing adjudicate).merges) :
    ∃ e ∈ existing, e.id = merge.1 := by
  induction items using List.reverseRecOn with
  | nil => cases h
  | append_singleton items x ih =>
    rw [deduplicate_snoc] at h
    unfold dedupStep at h
    have hchosen := branch_chosen m existing adjudicate
      (deduplicate m items existing adjudicate).canonical x
    generalize branch m existing adjudicate (deduplicate m items existing adjudicate).canonical x = b
      at h hchosen
    cases hchosen with
    | @merge e he =>
      rcases List.mem_append.mp h with hold | hnew
      · exact ih hold
      · have hmem : e ∈ existing := (List.mem_filter.mp he.wins.mem).1
        rw [List.mem_singleton.mp hnew]
        exact ⟨e, hmem, rfl⟩
    | fold _ _ => exact ih h
    | new _ _ => exact ih h

/-! ## A whole list -/

section Whole
variable (m existing adjudicate)

/-- What the loop has accepted after these items. -/
def acceptedAfter (items : List RawItem) : List RawItem :=
  (deduplicate m items existing adjudicate).canonical

variable {m existing adjudicate} {pre post items : List RawItem} {x : RawItem}

theorem acceptedAfter_snoc_bare : (acceptedAfter m existing adjudicate (items ++ [x])).map RawItem.bare =
    (acceptedAfter m existing adjudicate items).map RawItem.bare ++
      if branch m existing adjudicate (acceptedAfter m existing adjudicate items) x = .new
      then [x.bare] else [] := by
  unfold acceptedAfter
  rw [deduplicate_snoc]
  exact canonical_bare_step

variable (m existing adjudicate) in
theorem acceptedAfter_prefix (pre post : List RawItem) :
    (acceptedAfter m existing adjudicate pre).map RawItem.bare <+:
      (acceptedAfter m existing adjudicate (pre ++ post)).map RawItem.bare := by
  induction post using List.reverseRecOn with
  | nil => simp
  | append_singleton post x ih =>
    rw [← List.append_assoc, acceptedAfter_snoc_bare]
    exact ih.trans (List.prefix_append _ _)

/-- An item that nothing matches is accepted, at the next place. -/
theorem acceptedAfter_of_unmatched (post : List RawItem)
    (h : Unmatched m existing adjudicate (acceptedAfter m existing adjudicate pre) x) :
    ((acceptedAfter m existing adjudicate (pre ++ x :: post)).map
      RawItem.bare)[(acceptedAfter m existing adjudicate pre).length]? = some x.bare := by
  have hprefix := acceptedAfter_prefix m existing adjudicate (pre ++ [x]) post
  rw [acceptedAfter_snoc_bare, if_pos (branch_eq_new_iff.mpr h), List.append_assoc] at hprefix
  obtain ⟨rest, hrest⟩ := hprefix
  have hsplit : pre ++ x :: post = pre ++ ([x] ++ post) := rfl
  rw [hsplit, ← hrest, List.append_assoc, List.getElem?_append_right (by simp)]
  simp

theorem acceptedAfter_length_lt
    (h : Unmatched m existing adjudicate (acceptedAfter m existing adjudicate pre) x) :
    (acceptedAfter m existing adjudicate pre).length <
      (acceptedAfter m existing adjudicate (pre ++ x :: post)).length := by
  have hlt := (List.getElem?_eq_some_iff.mp (acceptedAfter_of_unmatched post h)).1
  rwa [List.length_map] at hlt

/-- Every accepted card is an item that nothing matched at its turn. -/
theorem unmatched_of_acceptedAfter {p : ℕ} {c : RawItem}
    (h : ((acceptedAfter m existing adjudicate items).map RawItem.bare)[p]? = some c) :
    ∃ pre x post, items = pre ++ x :: post ∧ c = x.bare ∧
      p = (acceptedAfter m existing adjudicate pre).length ∧
      Unmatched m existing adjudicate (acceptedAfter m existing adjudicate pre) x := by
  induction items using List.reverseRecOn with
  | nil => simp [acceptedAfter, deduplicate] at h
  | append_singleton items y ih =>
    rw [acceptedAfter_snoc_bare] at h
    by_cases hp : p < (acceptedAfter m existing adjudicate items).length
    · rw [List.getElem?_append_left (by simpa using hp)] at h
      obtain ⟨pre, x, post, hitems, hrest⟩ := ih h
      exact ⟨pre, x, post ++ [y], by simp [hitems], hrest⟩
    · rw [List.getElem?_append_right (by simpa using hp)] at h
      by_cases hnew : branch m existing adjudicate (acceptedAfter m existing adjudicate items) y = .new
      · rw [if_pos hnew, List.length_map, List.getElem?_singleton] at h
        split_ifs at h with hzero
        refine ⟨items, y, [], rfl, (Option.some.inj h).symm, by omega, branch_eq_new_iff.mp hnew⟩
      · rw [if_neg hnew] at h
        cases h

/-- An accepted card, as an item that nothing matched at its turn. -/
theorem exists_unmatched {c : RawItem} (h : c ∈ acceptedAfter m existing adjudicate items) :
    ∃ pre x post, items = pre ++ x :: post ∧ c.bare = x.bare ∧
      Unmatched m existing adjudicate (acceptedAfter m existing adjudicate pre) x := by
  obtain ⟨p, hp⟩ := List.mem_iff_getElem?.mp h
  have hplace : ((acceptedAfter m existing adjudicate items).map RawItem.bare)[p]? = some c.bare := by
    rw [List.getElem?_map, hp, Option.map_some]
  obtain ⟨pre, x, post, hitems, hbare, _, hun⟩ := unmatched_of_acceptedAfter hplace
  exact ⟨pre, x, post, hitems, hbare, hun⟩

theorem exists_accepted (post : List RawItem)
    (h : Unmatched m existing adjudicate (acceptedAfter m existing adjudicate pre) x) :
    ∃ c ∈ acceptedAfter m existing adjudicate (pre ++ x :: post), c.bare = x.bare := by
  have hplace := acceptedAfter_of_unmatched post h
  rw [List.getElem?_map] at hplace
  obtain ⟨c, hc, hbare⟩ := Option.map_eq_some_iff.mp hplace
  exact ⟨c, List.mem_of_getElem? hc, hbare⟩

/-! ## Where a reference goes -/

theorem split_snoc {y : RawItem} : items ++ [y] = pre ++ x :: post ↔
    (pre = items ∧ x = y ∧ post = []) ∨ ∃ post', post = post' ++ [y] ∧ items = pre ++ x :: post' := by
  constructor
  · intro h
    rcases List.eq_nil_or_concat post with rfl | ⟨post', z, rfl⟩
    · obtain ⟨hitems, hy⟩ := List.append_inj' h rfl
      exact Or.inl ⟨hitems.symm, (List.cons.inj hy).1.symm, rfl⟩
    · have hassoc : pre ++ x :: (post' ++ [z]) = (pre ++ x :: post') ++ [z] := by simp
      rw [List.concat_eq_append, hassoc] at h
      obtain ⟨hitems, hy⟩ := List.append_inj' h rfl
      refine Or.inr ⟨post', ?_, hitems⟩
      rw [List.concat_eq_append, (List.cons.inj hy).1]
  · rintro (⟨rfl, rfl, rfl⟩ | ⟨post', rfl, rfl⟩)
    · rfl
    · simp

theorem split_singleton {y : RawItem} (h : [y] = pre ++ x :: post) :
    pre = [] ∧ x = y ∧ post = [] := by
  have hsnoc : [] ++ [y] = pre ++ x :: post := h
  rcases split_snoc.mp hsnoc with hsplit | ⟨post', _, hnil⟩
  · exact hsplit
  · exact absurd hnil.symm (by simp)

variable (m existing adjudicate) in
/-- An item with this reference took the branch `b`, when `n` cards were accepted. -/
def Took (items : List RawItem) (ref : Ref) (n : ℕ) (b : Branch) : Prop :=
  ∃ pre x post, items = pre ++ x :: post ∧ x.ref = ref ∧
    n = (acceptedAfter m existing adjudicate pre).length ∧
    branch m existing adjudicate (acceptedAfter m existing adjudicate pre) x = b

variable {ref : Ref} {n p : ℕ} {b : Branch}

theorem took_snoc {y : RawItem} : Took m existing adjudicate (items ++ [y]) ref n b ↔
    Took m existing adjudicate items ref n b ∨
      (y.ref = ref ∧ n = (acceptedAfter m existing adjudicate items).length ∧
        branch m existing adjudicate (acceptedAfter m existing adjudicate items) y = b) := by
  constructor
  · rintro ⟨pre, x, post, hitems, htook⟩
    rcases split_snoc.mp hitems with ⟨rfl, rfl, rfl⟩ | ⟨post', rfl, hitems'⟩
    · exact Or.inr htook
    · exact Or.inl ⟨pre, x, post', hitems', htook⟩
  · rintro (⟨pre, x, post, hitems, htook⟩ | htook)
    · exact ⟨pre, x, post ++ [y], by simp [hitems], htook⟩
    · exact ⟨items, y, [], rfl, htook⟩

theorem not_took_nil : ¬ Took m existing adjudicate [] ref n b := by
  rintro ⟨pre, x, post, hitems, _⟩
  simp at hitems

theorem mem_merges_step {st : Deduped} {id : ℕ} :
    (id, ref) ∈ (dedupStep m existing adjudicate st x).merges ↔ (id, ref) ∈ st.merges ∨
      x.ref = ref ∧ ∃ e, e.id = id ∧ branch m existing adjudicate st.canonical x = .merge e := by
  unfold dedupStep
  cases branch m existing adjudicate st.canonical x with
  | merge e =>
    simp only [List.mem_append, List.mem_singleton, Prod.mk.injEq, Branch.merge.injEq]
    constructor
    · rintro (hold | ⟨rfl, rfl⟩)
      · exact Or.inl hold
      · exact Or.inr ⟨rfl, e, rfl, rfl⟩
    · rintro (hold | ⟨rfl, e', rfl, rfl⟩)
      · exact Or.inl hold
      · exact Or.inr ⟨rfl, rfl⟩
  | fold twin => simp
  | new => simp

/-- The merges are the references of the items that took that branch. -/
theorem mem_merges_iff {id : ℕ} : (id, ref) ∈ (deduplicate m items existing adjudicate).merges ↔
    ∃ n e, e.id = id ∧ Took m existing adjudicate items ref n (.merge e) := by
  induction items using List.reverseRecOn with
  | nil =>
    refine ⟨nofun, ?_⟩
    rintro ⟨n, e, _, htook⟩
    exact absurd htook not_took_nil
  | append_singleton items y ih =>
    rw [deduplicate_snoc, mem_merges_step, ih]
    constructor
    · rintro (⟨n, e, hid, htook⟩ | ⟨href, e, hid, hbranch⟩)
      · exact ⟨n, e, hid, took_snoc.mpr (Or.inl htook)⟩
      · exact ⟨_, e, hid, took_snoc.mpr (Or.inr ⟨href, rfl, hbranch⟩)⟩
    · rintro ⟨n, e, hid, htook⟩
      rcases took_snoc.mp htook with hold | ⟨href, _, hbranch⟩
      · exact Or.inl ⟨n, e, hid, hold⟩
      · exact Or.inr ⟨href, e, hid, hbranch⟩

theorem fold_place {canonical : List RawItem} {twin : ℕ}
    (h : branch m existing adjudicate canonical x = .fold twin) :
    ∃ t, canonical[twin]? = some t ∧
      (∀ e, ¬ Matches m Card.toRawItem adjudicate x (rivals m existing x) e) ∧
      Matches m Prod.fst adjudicate x (twins m canonical x) (t, twin) := by
  obtain ⟨hrivals, t, ht, rfl⟩ := branch_eq_fold_iff.mp h
  have hmem : t ∈ canonical.zipIdx := (List.mem_filter.mp ht.wins.mem).1
  exact ⟨t.1, List.mk_mem_zipIdx_iff_getElem?.mp hmem, hrivals, ht⟩

theorem mem_refs_step {st : Deduped} :
    (∃ w, (dedupStep m existing adjudicate st x).canonical[p]? = some w ∧ ref ∈ w.refs) ↔
      (∃ w, st.canonical[p]? = some w ∧ ref ∈ w.refs) ∨ x.ref = ref ∧
        (p = st.canonical.length ∧ branch m existing adjudicate st.canonical x = .new ∨
          branch m existing adjudicate st.canonical x = .fold p) := by
  unfold dedupStep
  cases hbranch : branch m existing adjudicate st.canonical x with
  | merge e => simp
  | fold twin =>
    obtain ⟨t, ht, _⟩ := fold_place hbranch
    simp only [List.getElem?_modify, Branch.fold.injEq]
    by_cases hp : twin = p
    · subst hp
      simp only [ht, if_true]
      constructor
      · rintro ⟨w, hw, href⟩
        cases hw
        rcases List.mem_append.mp (show ref ∈ t.refs ++ [x.ref] from href) with hold | hnew
        · exact Or.inl ⟨t, rfl, hold⟩
        · exact Or.inr ⟨(List.mem_singleton.mp hnew).symm, Or.inr trivial⟩
      · rintro (⟨w, hw, href⟩ | ⟨rfl, _⟩)
        · cases hw
          exact ⟨_, rfl, List.mem_append_left _ href⟩
        · exact ⟨_, rfl, List.mem_append_right _ List.mem_cons_self⟩
    · simp [hp]
  | new =>
    simp only [reduceCtorEq, or_false, and_true]
    by_cases hp : p < st.canonical.length
    · have hne : p ≠ st.canonical.length := Nat.ne_of_lt hp
      rw [List.getElem?_append_left hp]
      simp [hne]
    · have hnone : st.canonical[p]? = none := List.getElem?_eq_none (Nat.le_of_not_lt hp)
      rw [List.getElem?_append_right (Nat.le_of_not_lt hp), List.getElem?_singleton, hnone]
      by_cases hlast : p = st.canonical.length
      · subst hlast
        rw [Nat.sub_self, if_pos rfl]
        constructor
        · rintro ⟨w, hw, href⟩
          cases hw
          exact Or.inr ⟨(List.mem_singleton.mp href).symm, rfl⟩
        · rintro (⟨w, hw, _⟩ | ⟨rfl, _⟩)
          · cases hw
          · exact ⟨_, rfl, List.mem_singleton.mpr rfl⟩
      · rw [if_neg (by omega)]
        simp [hlast]

/-- The list of an accepted card: its own reference, and those of the items folded into it. -/
theorem mem_refs_accepted_iff :
    (∃ w, (acceptedAfter m existing adjudicate items)[p]? = some w ∧ ref ∈ w.refs) ↔
      Took m existing adjudicate items ref p .new ∨
        ∃ n, Took m existing adjudicate items ref n (.fold p) := by
  induction items using List.reverseRecOn with
  | nil =>
    constructor
    · rintro ⟨w, hw, _⟩
      simp [acceptedAfter, deduplicate] at hw
    · rintro (htook | ⟨n, htook⟩)
      · exact absurd htook not_took_nil
      · exact absurd htook not_took_nil
  | append_singleton items y ih =>
    unfold acceptedAfter at ih ⊢
    rw [deduplicate_snoc, mem_refs_step, ih]
    constructor
    · rintro ((hnew | ⟨n, hfold⟩) | ⟨href, ⟨hp, hbranch⟩ | hbranch⟩)
      · exact Or.inl (took_snoc.mpr (Or.inl hnew))
      · exact Or.inr ⟨n, took_snoc.mpr (Or.inl hfold)⟩
      · exact Or.inl (took_snoc.mpr (Or.inr ⟨href, hp, hbranch⟩))
      · exact Or.inr ⟨_, took_snoc.mpr (Or.inr ⟨href, rfl, hbranch⟩)⟩
    · rintro (hnew | ⟨n, hfold⟩)
      · rcases took_snoc.mp hnew with hold | ⟨href, hp, hbranch⟩
        · exact Or.inl (Or.inl hold)
        · exact Or.inr ⟨href, Or.inl ⟨hp, hbranch⟩⟩
      · rcases took_snoc.mp hfold with hold | ⟨href, _, hbranch⟩
        · exact Or.inl (Or.inr ⟨n, hold⟩)
        · exact Or.inr ⟨href, Or.inr hbranch⟩

end Whole

/-! ## The same gala on several evenings -/

def evening (day : ℤ) : Datetime := { wall := day * 86400000000 + 72000000000 }

def gala (url : String) (day : ℤ) : RawItem where
  kind := .event
  name := "Opera Gala"
  source := "ticketmaster"
  sourceUrl := some url
  startsAt := some (evening day)

/-- Consecutive nights are different events. -/
example : (deduplicate asciiNames [gala "tm/1" 4, gala "tm/2" 5] [] none).canonical.length = 2 := by
  decide +kernel

end WarsawEvents.Ingestion
