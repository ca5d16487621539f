import WarsawEvents.Foundations.SideBySide
import WarsawEvents.Ingestion.Ledger

/-! # The offset a start is written in

`block_key` takes the date off the wall clock of the datetime, in whatever UTC offset it comes. Two calls
of `deduplicate` on the same events, with some starts written in another offset, are compared turn by
turn.
-/

namespace WarsawEvents.Ingestion
set_option autoImplicit false

/-! ## The same events on another dating -/

def RawItem.undated (item : RawItem) : RawItem := { item with startsAt := none }

/-- The same item, its start written in another offset. -/
structure Redated (x y : RawItem) : Prop where
  start : x.startsAt.map Datetime.instant = y.startsAt.map Datetime.instant
  rest : x.undated = y.undated

def RedatedCard (e f : Card) : Prop := e.id = f.id ∧ Redated e.toRawItem f.toRawItem

/-- What an adjudicator may look at here: a name and an instant. -/
abbrev Billing := String × Option ℤ

def RawItem.billing (item : RawItem) : Billing := (item.name, item.startsAt.map Datetime.instant)

def byBilling (same : Billing → Billing → Bool) : Adjudicator := fun a b => same a.billing b.billing

namespace Redated
variable {x y : RawItem}

/-- What is read off an item without its start is the same on both datings. -/
theorem same {β : Type} (h : Redated x y) (f : RawItem → β) (hf : ∀ z, f z = f z.undated) :
    f x = f y := by
  rw [hf x, hf y, h.rest]

theorem name_eq (h : Redated x y) : x.name = y.name := h.same RawItem.name fun _ => rfl

theorem ref_eq (h : Redated x y) : x.ref = y.ref := h.same RawItem.ref fun _ => rfl

theorem refs_eq (h : Redated x y) : x.refs = y.refs := h.same RawItem.refs fun _ => rfl

theorem url_eq (h : Redated x y) : x.sourceUrl = y.sourceUrl := h.same RawItem.sourceUrl fun _ => rfl

theorem billing_eq (h : Redated x y) : x.billing = y.billing := by
  unfold RawItem.billing
  rw [h.name_eq, h.start]

/-- Other references do not change the start. -/
theorem withSources (h : Redated x y) (sources : Option (List Ref)) :
    Redated { x with sources := sources } { y with sources := sources } :=
  ⟨h.start, h.same (fun z => { z.undated with sources := sources }) fun _ => rfl⟩

theorem addRef (h : Redated x y) {r s : Ref} (hr : r = s) : Redated (x.addRef r) (y.addRef s) := by
  unfold RawItem.addRef
  rw [h.refs_eq, hr]
  exact h.withSources _

theorem asCanonical (h : Redated x y) : Redated x.asCanonical y.asCanonical := by
  unfold RawItem.asCanonical
  rw [h.ref_eq]
  exact h.withSources _

end Redated

/-! ## What a call decides -/

/-- Where an item goes: to a stored card, to the accepted card at a place, or into a card of its own. -/
inductive Verdict where
  | merge (id : ℕ)
  | fold (place : ℕ)
  | new
  deriving DecidableEq

def Branch.verdict : Branch → Verdict
  | .merge e => .merge e.id
  | .fold twin => .fold twin
  | .new => .new

section Calls
variable (m : Matching) (existing : List Card) (adjudicate : Option Adjudicator)

def verdicts (items : List RawItem) : List Verdict :=
  (ledger m existing adjudicate items).map fun entry => entry.2.verdict

/-- The two states differ in the offsets only. -/
structure SameState (st st' : Deduped) : Prop where
  merges : st.merges = st'.merges
  canonical : List.Forall₂ Redated st.canonical st'.canonical

/-- Every item goes the same way, with the same merges and the same lists of references. -/
structure Unmoved (existing' : List Card) (items items' : List RawItem) : Prop where
  partition : verdicts m existing adjudicate items = verdicts m existing' adjudicate items'
  result : SameState (deduplicate m items existing adjudicate)
    (deduplicate m items' existing' adjudicate)

/-! ## When the offsets do not matter -/

/-- The candidate of a pool that matches the item, of those in its block. -/
def MatchIn {γ : Type} (view : γ → RawItem) (x : RawItem) (pool : List γ) (c : γ) : Prop :=
  Matches m view adjudicate x (pool.filter fun d => blockKey m (view d) = blockKey m x) c

/-- A candidate that matches on one of the datings is in the item's block on both of them, and the first
of the highest score among the candidates that are in it on either. -/
def SteadyPool {γ : Type} (view view' : γ → RawItem) (x x' : RawItem) (pool : List γ) : Prop :=
  ∀ c, MatchIn m adjudicate view x pool c ∨ MatchIn m adjudicate view' x' pool c →
    blockKey m (view c) = blockKey m x ∧ blockKey m (view' c) = blockKey m x' ∧
      BestScore.Wins (nameScore m view x) 0
        (pool.filter fun d => blockKey m (view d) = blockKey m x || blockKey m (view' d) = blockKey m x') c

/-- The stored cards with another URL, each on its two datings. -/
def storedPool (existing' : List Card) (x : RawItem) : List (Card × Card) :=
  (existing.zip existing').filter fun e => !decide (e.1.sourceUrl = x.sourceUrl)

/-- The cards accepted so far, each on its two datings and with its place. -/
def batchPool (canonical canonical' : List RawItem) : List ((RawItem × RawItem) × ℕ) :=
  (canonical.zip canonical').zipIdx

/-- The accepted cards count only when no stored card matches. -/
def SteadyTurn (existing' : List Card) (canonical canonical' : List RawItem) (x x' : RawItem) : Prop :=
  SteadyPool m adjudicate (fun e : Card × Card => e.1.toRawItem) (fun e => e.2.toRawItem) x x'
      (storedPool existing existing' x) ∧
    ((∀ e, ¬ Matches m Card.toRawItem adjudicate x (rivals m existing x) e) →
      SteadyPool m adjudicate (fun t : (RawItem × RawItem) × ℕ => t.1.1) (fun t => t.1.2) x x'
        (batchPool canonical canonical'))

def Steady (existing' : List Card) (items items' : List RawItem) : Prop :=
  ∀ (i : ℕ) x x', items[i]? = some x → items'[i]? = some x' →
    SteadyTurn m existing adjudicate existing'
      (acceptedAfter m existing adjudicate (items.take i))
      (acceptedAfter m existing' adjudicate (items'.take i)) x x'

end Calls

/-! ## One pool -/

variable {m : Matching} {same : Option (Billing → Billing → Bool)} {x x' : RawItem}

theorem Redated.symm {x y : RawItem} (h : Redated x y) : Redated y x := ⟨h.start.symm, h.rest.symm⟩

theorem Accepted.redated {a b a' b' : RawItem} {score : ℚ}
    (h : Accepted (same.map byBilling) a b score) (ha : Redated a a') (hb : Redated b b') :
    Accepted (same.map byBilling) a' b' score := by
  obtain hauto | ⟨hband, asked, hasked, hyes⟩ := h
  · exact Or.inl hauto
  · obtain ⟨f, hf, rfl⟩ := Option.mem_map.mp hasked
    refine Or.inr ⟨hband, byBilling f, hasked, ?_⟩
    unfold byBilling at hyes ⊢
    rw [← ha.billing_eq, ← hb.billing_eq]
    exact hyes

section Pool
variable {γ : Type} {view view' : γ → RawItem} {pool candidates : List γ} {c d : γ}
  {adjudicate : Option Adjudicator}

theorem Matches.unique (hc : Matches m view adjudicate x candidates c)
    (hd : Matches m view adjudicate x candidates d) : c = d := hc.wins.unique hd.wins

theorem nameScore_redated (hx : Redated x x') (hd : Redated (view d) (view' d)) :
    nameScore m view x d = nameScore m view' x' d := by
  unfold nameScore
  rw [hx.name_eq, hd.name_eq]

/-- The same candidates on the other dating: it is the names that are compared. -/
theorem Matches.redated (h : Matches m view (same.map byBilling) x candidates c) (hx : Redated x x')
    (hview : ∀ d ∈ candidates, Redated (view d) (view' d)) :
    Matches m view' (same.map byBilling) x' candidates c := by
  have hscore : ∀ d ∈ candidates, nameScore m view x d = nameScore m view' x' d :=
    fun d hd => nameScore_redated hx (hview d hd)
  refine ⟨?_, h.wins.congr hscore, ?_⟩
  · rw [← hx.name_eq]
    exact h.named
  · rw [← hscore c h.wins.mem]
    exact h.accepted.redated hx (hview c h.wins.mem)

theorem matchIn_of_wins (h : MatchIn m (same.map byBilling) view x pool c) (hx : Redated x x')
    (hview : ∀ d ∈ pool, Redated (view d) (view' d))
    (hwins : BestScore.Wins (nameScore m view x) 0
      (pool.filter fun d => blockKey m (view' d) = blockKey m x') c) :
    MatchIn m (same.map byBilling) view' x' pool c := by
  have hthere : Matches m view (same.map byBilling) x
      (pool.filter fun d => blockKey m (view' d) = blockKey m x') c := ⟨h.named, hwins, h.accepted⟩
  exact hthere.redated hx fun d hd => hview d (List.mem_filter.mp hd).1

theorem SteadyPool.wins (h : SteadyPool m adjudicate view view' x x' pool)
    (hc : MatchIn m adjudicate view x pool c ∨ MatchIn m adjudicate view' x' pool c) :
    BestScore.Wins (nameScore m view x) 0 (pool.filter fun d => blockKey m (view d) = blockKey m x) c ∧
      BestScore.Wins (nameScore m view x) 0
        (pool.filter fun d => blockKey m (view' d) = blockKey m x') c := by
  obtain ⟨hhere, hthere, hwins⟩ := h c hc
  exact BestScore.wins_both_iff.mpr ⟨decide_eq_true hhere, decide_eq_true hthere, hwins⟩

/-- The pool is steady if and only if it matches the same candidate on both datings. -/
theorem steadyPool_iff (hx : Redated x x') (hview : ∀ d ∈ pool, Redated (view d) (view' d)) :
    SteadyPool m (same.map byBilling) view view' x x' pool ↔
      ∀ c, MatchIn m (same.map byBilling) view x pool c ↔
        MatchIn m (same.map byBilling) view' x' pool c := by
  have hback : ∀ d ∈ pool, Redated (view' d) (view d) := fun d hd => (hview d hd).symm
  constructor
  · intro h c
    constructor
    · intro hc
      exact matchIn_of_wins hc hx hview (h.wins (Or.inl hc)).2
    · intro hc
      refine matchIn_of_wins hc hx.symm hback ?_
      exact (h.wins (Or.inr hc)).1.congr fun d hd => nameScore_redated hx (hview d (List.mem_filter.mp hd).1)
  · intro h c hc
    have hhere : MatchIn m (same.map byBilling) view x pool c := hc.elim id (h c).mpr
    have hthere := ((h c).mp hhere).redated hx.symm fun d hd => hback d (List.mem_filter.mp hd).1
    obtain ⟨hp, hq, hwins⟩ := BestScore.wins_both_iff.mp ⟨hhere.wins, hthere.wins⟩
    exact ⟨of_decide_eq_true hp, of_decide_eq_true hq, hwins⟩

end Pool

/-! ## The verdict, over a pool of which the candidates are read off -/

section Turn
variable {adjudicate : Option Adjudicator} {existing : List Card} {canonical : List RawItem}

theorem verdict_merge_iff {γ : Type} {f : γ → Card} {pairs : List γ} {id : ℕ} :
    (branch m (pairs.map f) adjudicate canonical x).verdict = .merge id ↔
      ∃ e, MatchIn m adjudicate (fun e => (f e).toRawItem) x
        (pairs.filter fun e => !decide ((f e).sourceUrl = x.sourceUrl)) e ∧ (f e).id = id := by
  have hrivals : rivals m (pairs.map f) x = ((pairs.filter fun e =>
      !decide ((f e).sourceUrl = x.sourceUrl)).filter fun e =>
        blockKey m (f e).toRawItem = blockKey m x).map f := by
    unfold rivals
    rw [List.filter_map, List.filter_filter]
    congr 1
    apply List.filter_congr
    intro e _
    exact Bool.and_comm _ _
  constructor
  · intro h
    cases hb : branch m (pairs.map f) adjudicate canonical x with
    | merge e =>
      have hmatch := branch_eq_merge_iff.mp hb
      rw [hrivals] at hmatch
      obtain ⟨q, rfl, hq⟩ := matches_map_iff.mp hmatch
      rw [hb] at h
      exact ⟨q, hq, Verdict.merge.inj h⟩
    | fold twin => rw [hb] at h; cases h
    | new => rw [hb] at h; cases h
  · rintro ⟨e, he, rfl⟩
    have hmatch : Matches m Card.toRawItem adjudicate x (rivals m (pairs.map f) x) (f e) := by
      rw [hrivals]
      exact matches_map_iff.mpr ⟨e, rfl, he⟩
    rw [branch_eq_merge_iff.mpr hmatch]
    rfl

theorem verdict_fold_iff {δ : Type} {g : δ → RawItem} {pairs : List δ} {p : ℕ} :
    (branch m existing adjudicate (pairs.map g) x).verdict = .fold p ↔
      (∀ e, ¬ Matches m Card.toRawItem adjudicate x (rivals m existing x) e) ∧
        ∃ t, MatchIn m adjudicate (fun t : δ × ℕ => g t.1) x pairs.zipIdx t ∧ t.2 = p := by
  have htwins : twins m (pairs.map g) x = (pairs.zipIdx.filter fun t =>
      blockKey m (g t.1) = blockKey m x).map (Prod.map g id) := by
    unfold twins
    rw [List.zipIdx_map, List.filter_map]
    rfl
  have hverdict : (branch m existing adjudicate (pairs.map g) x).verdict = .fold p ↔
      branch m existing adjudicate (pairs.map g) x = .fold p := by
    cases branch m existing adjudicate (pairs.map g) x <;> simp [Branch.verdict]
  rw [hverdict, branch_eq_fold_iff, htwins]
  apply and_congr_right
  intro _
  constructor
  · rintro ⟨t, ht, rfl⟩
    obtain ⟨q, rfl, hq⟩ := matches_map_iff.mp ht
    exact ⟨q, hq, rfl⟩
  · rintro ⟨q, hq, rfl⟩
    exact ⟨_, matches_map_iff.mpr ⟨q, rfl, hq⟩, rfl⟩

theorem Verdict.ext {v w : Verdict} (hmerge : ∀ id, v = .merge id ↔ w = .merge id)
    (hfold : ∀ p, v = .fold p ↔ w = .fold p) : v = w := by
  cases v with
  | merge id => exact ((hmerge id).mp rfl).symm
  | fold p => exact ((hfold p).mp rfl).symm
  | new =>
    cases w with
    | merge id => exact (hmerge id).mpr rfl
    | fold p => exact (hfold p).mpr rfl
    | new => rfl

theorem zipIdx_place {α : Type} {l : List α} {t t' : α × ℕ} (ht : t ∈ l.zipIdx) (ht' : t' ∈ l.zipIdx)
    (h : t.2 = t'.2) : t = t' := by
  have hplace := List.mk_mem_zipIdx_iff_getElem?.mp ht
  have hplace' := List.mk_mem_zipIdx_iff_getElem?.mp ht'
  rw [h, hplace'] at hplace
  exact Prod.ext (Option.some.inj hplace).symm h

/-! ## One turn on both datings -/

variable {stored : List (Card × Card)} {batch : List (RawItem × RawItem)}

/-- The cards with another URL are the same on both datings. -/
theorem storedPool_other (hx : Redated x x') (hstored : ∀ e ∈ stored, RedatedCard e.1 e.2) :
    (stored.filter fun e => !decide (e.2.sourceUrl = x'.sourceUrl)) =
      stored.filter fun e => !decide (e.1.sourceUrl = x.sourceUrl) := by
  apply List.filter_congr
  intro e he
  have hurl : e.1.sourceUrl = e.2.sourceUrl := (hstored e he).2.url_eq
  rw [hurl, hx.url_eq]

theorem no_rival_iff : (∀ e, ¬ Matches m Card.toRawItem adjudicate x (rivals m existing x) e) ↔
    ∀ id, (branch m existing adjudicate canonical x).verdict ≠ .merge id := by
  constructor
  · intro hnone id h
    cases hb : branch m existing adjudicate canonical x with
    | merge e => exact hnone e (branch_eq_merge_iff.mp hb)
    | fold twin => rw [hb] at h; cases h
    | new => rw [hb] at h; cases h
  · intro hnone e he
    refine hnone e.id ?_
    rw [branch_eq_merge_iff.mpr he]
    rfl

theorem MatchIn.mem {γ : Type} {view : γ → RawItem} {pool : List γ} {c : γ}
    (h : MatchIn m adjudicate view x pool c) : c ∈ pool := (List.mem_filter.mp h.wins.mem).1

/-- The candidates of a turn, on both datings, with what the two verdicts say of them. -/
structure Compared {γ δ : Type} (v v' : Verdict) (stored stored' : γ → Prop) (key : γ → ℕ)
    (batch batch' : δ → Prop) (place : δ → ℕ) : Prop where
  merge : ∀ id, v = .merge id ↔ ∃ e, stored e ∧ key e = id
  merge' : ∀ id, v' = .merge id ↔ ∃ e, stored' e ∧ key e = id
  fold : ∀ p, v = .fold p ↔ (∀ id, v ≠ .merge id) ∧ ∃ t, batch t ∧ place t = p
  fold' : ∀ p, v' = .fold p ↔ (∀ id, v' ≠ .merge id) ∧ ∃ t, batch' t ∧ place t = p

namespace Compared
variable {γ δ : Type} {v v' : Verdict} {first first' : γ → Prop} {key : γ → ℕ}
  {second second' : δ → Prop} {place : δ → ℕ}

theorem same_verdict (h : Compared v v' first first' key second second' place)
    (hfirst : ∀ e, first e ↔ first' e)
    (hsecond : (∀ id, v ≠ .merge id) → ∀ t, second t ↔ second' t) : v = v' := by
  have hmerge : ∀ id, v = .merge id ↔ v' = .merge id := by
    intro id
    rw [h.merge, h.merge']
    exact exists_congr fun e => and_congr_left fun _ => hfirst e
  refine Verdict.ext hmerge fun p => ?_
  rw [h.fold, h.fold']
  have hnone : (∀ id, v ≠ .merge id) ↔ ∀ id, v' ≠ .merge id :=
    forall_congr' fun id => not_congr (hmerge id)
  rw [← hnone]
  apply and_congr_right
  intro hno
  exact exists_congr fun t => and_congr_left fun _ => hsecond hno t

theorem same_candidates (h : Compared v v' first first' key second second' place) (hv : v = v')
    (hkey : ∀ e e', first e ∨ first' e → first e' ∨ first' e' → key e = key e' → e = e')
    (hplace : ∀ t t', second t ∨ second' t → second t' ∨ second' t' → place t = place t' → t = t') :
    (∀ e, first e ↔ first' e) ∧ ((∀ id, v ≠ .merge id) → ∀ t, second t ↔ second' t) := by
  subst hv
  refine ⟨fun e => ⟨fun he => ?_, fun he => ?_⟩, fun hno t => ⟨fun ht => ?_, fun ht => ?_⟩⟩
  · obtain ⟨e', he', hid⟩ := (h.merge' (key e)).mp ((h.merge (key e)).mpr ⟨e, he, rfl⟩)
    rwa [hkey e e' (Or.inl he) (Or.inr he') hid.symm]
  · obtain ⟨e', he', hid⟩ := (h.merge (key e)).mp ((h.merge' (key e)).mpr ⟨e, he, rfl⟩)
    rwa [hkey e e' (Or.inr he) (Or.inl he') hid.symm]
  · obtain ⟨_, t', ht', hp⟩ := (h.fold' (place t)).mp ((h.fold (place t)).mpr ⟨hno, t, ht, rfl⟩)
    rwa [hplace t t' (Or.inl ht) (Or.inr ht') hp.symm]
  · obtain ⟨_, t', ht', hp⟩ := (h.fold (place t)).mp ((h.fold' (place t)).mpr ⟨hno, t, ht, rfl⟩)
    rwa [hplace t t' (Or.inr ht) (Or.inl ht') hp.symm]

end Compared

variable (m adjudicate batch) in
/-- The two turns, as candidates of one pool each. -/
theorem compared (hx : Redated x x') (hstored : ∀ e ∈ stored, RedatedCard e.1 e.2) :
    Compared
      (branch m (stored.map Prod.fst) adjudicate (batch.map Prod.fst) x).verdict
      (branch m (stored.map Prod.snd) adjudicate (batch.map Prod.snd) x').verdict
      (MatchIn m adjudicate (fun e : Card × Card => e.1.toRawItem) x
        (stored.filter fun e => !decide (e.1.sourceUrl = x.sourceUrl)))
      (MatchIn m adjudicate (fun e : Card × Card => e.2.toRawItem) x'
        (stored.filter fun e => !decide (e.1.sourceUrl = x.sourceUrl)))
      (fun e => e.1.id)
      (MatchIn m adjudicate (fun t : (RawItem × RawItem) × ℕ => t.1.1) x batch.zipIdx)
      (MatchIn m adjudicate (fun t : (RawItem × RawItem) × ℕ => t.1.2) x' batch.zipIdx)
      Prod.snd where
  merge _ := verdict_merge_iff
  merge' id := by
    rw [verdict_merge_iff, storedPool_other hx hstored]
    refine exists_congr fun e => and_congr_right fun he => ?_
    rw [(hstored e (List.mem_filter.mp he.mem).1).1]
  fold p := by rw [verdict_fold_iff, no_rival_iff]
  fold' p := by rw [verdict_fold_iff, no_rival_iff]

theorem steadyTurn_iff (hx : Redated x x') (hstored : ∀ e ∈ stored, RedatedCard e.1 e.2)
    (hbatch : ∀ t ∈ batch, Redated t.1 t.2) :
    SteadyTurn m (stored.map Prod.fst) (same.map byBilling) (stored.map Prod.snd)
        (batch.map Prod.fst) (batch.map Prod.snd) x x' ↔
      (∀ e, MatchIn m (same.map byBilling) (fun e : Card × Card => e.1.toRawItem) x
          (stored.filter fun e => !decide (e.1.sourceUrl = x.sourceUrl)) e ↔
        MatchIn m (same.map byBilling) (fun e : Card × Card => e.2.toRawItem) x'
          (stored.filter fun e => !decide (e.1.sourceUrl = x.sourceUrl)) e) ∧
      ((∀ id, (branch m (stored.map Prod.fst) (same.map byBilling) (batch.map Prod.fst) x).verdict ≠
          .merge id) →
        ∀ t, MatchIn m (same.map byBilling) (fun t : (RawItem × RawItem) × ℕ => t.1.1) x batch.zipIdx t ↔
          MatchIn m (same.map byBilling) (fun t : (RawItem × RawItem) × ℕ => t.1.2) x' batch.zipIdx t) := by
  have hzip : (stored.map Prod.fst).zip (stored.map Prod.snd) = stored := (List.zip_of_prod rfl rfl).symm
  have hzip' : (batch.map Prod.fst).zip (batch.map Prod.snd) = batch := (List.zip_of_prod rfl rfl).symm
  unfold SteadyTurn storedPool batchPool
  rw [hzip, hzip', no_rival_iff]
  apply and_congr
  · apply steadyPool_iff hx
    intro e he
    exact (hstored e (List.mem_filter.mp he).1).2
  · apply imp_congr_right
    intro _
    apply steadyPool_iff hx
    rintro ⟨t, p⟩ ht
    exact hbatch t (List.mem_of_getElem? (List.mk_mem_zipIdx_iff_getElem?.mp ht))

end Turn

/-! ## Two calls, turn by turn -/

section Runs
variable {adjudicate : Option Adjudicator} {existing existing' : List Card} {items items' : List RawItem}
  {st st' : Deduped}

/-- A turn with one verdict on both datings keeps the states alike. -/
theorem SameState.step (h : SameState st st') (hx : Redated x x')
    (hverdict : (branch m existing adjudicate st.canonical x).verdict =
      (branch m existing' adjudicate st'.canonical x').verdict) :
    SameState (dedupStep m existing adjudicate st x) (dedupStep m existing' adjudicate st' x') := by
  unfold dedupStep
  generalize branch m existing adjudicate st.canonical x = b at hverdict
  generalize branch m existing' adjudicate st'.canonical x' = b' at hverdict
  cases b with
  | merge e =>
    cases b' with
    | merge e' =>
      have hid : e.id = e'.id := Verdict.merge.inj hverdict
      refine ⟨?_, h.canonical⟩
      show st.merges ++ [(e.id, x.ref)] = st'.merges ++ [(e'.id, x'.ref)]
      rw [h.merges, hid, hx.ref_eq]
    | fold _ => cases hverdict
    | new => cases hverdict
  | fold twin =>
    cases b' with
    | merge _ => cases hverdict
    | fold twin' =>
      obtain rfl : twin = twin' := Verdict.fold.inj hverdict
      exact ⟨h.merges, SideBySide.modify h.canonical (fun _ _ hab => hab.addRef hx.ref_eq) twin⟩
    | new => cases hverdict
  | new =>
    cases b' with
    | merge _ => cases hverdict
    | fold _ => cases hverdict
    | new =>
      have hlast : List.Forall₂ Redated [x.asCanonical] [x'.asCanonical] :=
        List.Forall₂.cons hx.asCanonical List.Forall₂.nil
      exact ⟨h.merges, List.rel_append h.canonical hlast⟩

theorem verdicts_getElem? (i : ℕ) : (verdicts m existing adjudicate items)[i]? =
    items[i]?.map fun x =>
      (branch m existing adjudicate (acceptedAfter m existing adjudicate (items.take i)) x).verdict := by
  unfold verdicts ledger
  rw [List.map_map, List.getElem?_map, List.getElem?_zipIdx, Option.map_map]
  refine congrFun (congrArg Option.map ?_) _
  funext x
  simp

/-- Up to the first item that goes another way, the states are alike. -/
theorem sameState_take (hitems : List.Forall₂ Redated items items') (n : ℕ)
    (h : ∀ i < n, (verdicts m existing adjudicate items)[i]? =
      (verdicts m existing' adjudicate items')[i]?) :
    SameState (deduplicate m (items.take n) existing adjudicate)
      (deduplicate m (items'.take n) existing' adjudicate) := by
  induction n with
  | zero => exact ⟨rfl, List.Forall₂.nil⟩
  | succ n ih =>
    have hbefore := ih fun i hi => h i (Nat.lt_succ_of_lt hi)
    have hturn := h n (Nat.lt_succ_self n)
    rw [List.take_add_one, List.take_add_one]
    rw [verdicts_getElem?, verdicts_getElem?] at hturn
    rcases SideBySide.place hitems n with ⟨hx, hx'⟩ | ⟨x, x', hx, hx', hredated⟩
    · rw [hx, hx', Option.toList_none, List.append_nil, List.append_nil]
      exact hbefore
    · rw [hx, hx'] at hturn
      rw [hx, hx', Option.toList_some, Option.toList_some, deduplicate_snoc, deduplicate_snoc]
      exact hbefore.step hredated (Option.some.inj hturn)

/-- The turn of an item, in states that are alike. -/
theorem turn_same_iff (hexisting : List.Forall₂ RedatedCard existing existing') (h : SameState st st')
    (hx : Redated x x') :
    (SteadyTurn m existing (same.map byBilling) existing' st.canonical st'.canonical x x' →
      (branch m existing (same.map byBilling) st.canonical x).verdict =
        (branch m existing' (same.map byBilling) st'.canonical x').verdict) ∧
    ((existing.map Card.id).Nodup →
      (branch m existing (same.map byBilling) st.canonical x).verdict =
        (branch m existing' (same.map byBilling) st'.canonical x').verdict →
      SteadyTurn m existing (same.map byBilling) existing' st.canonical st'.canonical x x') := by
  obtain ⟨stored, rfl, rfl, hstored⟩ := SideBySide.exists_pairs hexisting
  obtain ⟨batch, hfst, hsnd, hbatch⟩ := SideBySide.exists_pairs h.canonical
  rw [← hfst, ← hsnd, steadyTurn_iff hx hstored hbatch]
  have hcompared := compared m (same.map byBilling) batch hx hstored
  constructor
  · rintro ⟨hfirst, hsecond⟩
    exact hcompared.same_verdict hfirst hsecond
  · intro hids hverdict
    rw [List.map_map] at hids
    refine hcompared.same_candidates hverdict ?_ ?_
    · intro e e' he he' hid
      refine List.inj_on_of_nodup_map hids ?_ ?_ hid
      · exact (List.mem_filter.mp (he.elim MatchIn.mem MatchIn.mem)).1
      · exact (List.mem_filter.mp (he'.elim MatchIn.mem MatchIn.mem)).1
    · intro t t' ht ht' hplace
      exact zipIdx_place (ht.elim MatchIn.mem MatchIn.mem) (ht'.elim MatchIn.mem MatchIn.mem) hplace

theorem verdicts_of_steady (hitems : List.Forall₂ Redated items items')
    (hexisting : List.Forall₂ RedatedCard existing existing')
    (h : Steady m existing (same.map byBilling) existing' items items') :
    verdicts m existing (same.map byBilling) items =
      verdicts m existing' (same.map byBilling) items' := by
  refine List.ext_getElem? fun i => ?_
  -- The turns before this one keep the states alike.
  induction i using Nat.strong_induction_on with
  | _ i ih =>
    have hstate := sameState_take hitems i ih
    rw [verdicts_getElem?, verdicts_getElem?]
    rcases SideBySide.place hitems i with ⟨hx, hx'⟩ | ⟨x, x', hx, hx', hredated⟩
    · rw [hx, hx']
      rfl
    · rw [hx, hx']
      exact congrArg some ((turn_same_iff hexisting hstate hredated).1 (h i x x' hx hx'))

/-- Two datings of the same events are deduplicated alike if every turn is steady; and only then, as the
ids of the stored cards are keys. -/
theorem redated_unmoved_iff (m : Matching) (same : Option (Billing → Billing → Bool))
    (items items' : List RawItem) (existing existing' : List Card)
    (hitems : List.Forall₂ Redated items items')
    (hexisting : List.Forall₂ RedatedCard existing existing') :
    (Steady m existing (same.map byBilling) existing' items items' →
      Unmoved m existing (same.map byBilling) existing' items items') ∧
    ((existing.map Card.id).Nodup → Unmoved m existing (same.map byBilling) existing' items items' →
      Steady m existing (same.map byBilling) existing' items items') := by
  constructor
  · intro h
    have hverdicts := verdicts_of_steady hitems hexisting h
    refine ⟨hverdicts, ?_⟩
    have hstate := sameState_take hitems items.length fun i _ => by rw [hverdicts]
    rwa [List.take_length, hitems.length_eq, List.take_length] at hstate
  · intro hids h i x x' hx hx'
    have hstate := sameState_take hitems i fun j _ => by rw [h.partition]
    have hturn : (verdicts m existing (same.map byBilling) items)[i]? =
        (verdicts m existing' (same.map byBilling) items')[i]? := by rw [h.partition]
    rw [verdicts_getElem?, verdicts_getElem?, hx, hx'] at hturn
    rcases SideBySide.place hitems i with ⟨hnone, _⟩ | ⟨y, y', hy, hy', hredated⟩
    · rw [hx] at hnone
      cases hnone
    · rw [hx] at hy
      rw [hx'] at hy'
      cases hy
      cases hy'
      exact (turn_same_iff hexisting hstate hredated).2 hids (Option.some.inj hturn)

end Runs

/-! ## A concert after midnight -/

/-- Half past midnight in Warsaw, on the clock there and on the clock of UTC. -/
def afterMidnight : Datetime := { wall := 5 * 86400000000 + 1800000000, offset := 7200000000 }

def beforeMidnight : Datetime := { wall := 5 * 86400000000 - 5400000000 }

def concert (url : String) (start : Datetime) : RawItem where
  kind := .event
  name := "Jazz Night"
  source := "facebook"
  sourceUrl := some url
  startsAt := some start

def storedConcert : List Card := [{ concert "fb/1" afterMidnight with id := 1 }]

theorem storedConcert_same : List.Forall₂ RedatedCard storedConcert storedConcert :=
  List.Forall₂.cons ⟨rfl, rfl, rfl⟩ List.Forall₂.nil

/-- Eight in the evening by UTC, on the clock of Warsaw. -/
def eveningThere (day : ℤ) : Datetime := { wall := day * 86400000000 + 79200000000, offset := 7200000000 }

def storedEvening : List Card := [{ concert "fb/1" (evening 4) with id := 1 }]

/-- In the evening the offset does not matter: the listing is merged on either dating. -/
theorem evening_steady :
    Steady asciiNames storedEvening none storedEvening [concert "fb/2" (evening 4)]
      [concert "fb/2" (eveningThere 4)] := by
  have hredated : Redated (concert "fb/2" (evening 4)) (concert "fb/2" (eveningThere 4)) :=
    ⟨by decide, rfl⟩
  have hhere : deduplicate asciiNames [concert "fb/2" (evening 4)] storedEvening none =
      ⟨[], [(1, (concert "fb/2" (evening 4)).ref)]⟩ := by decide +kernel
  have hthere : deduplicate asciiNames [concert "fb/2" (eveningThere 4)] storedEvening none =
      ⟨[], [(1, (concert "fb/2" (evening 4)).ref)]⟩ := by decide +kernel
  refine (redated_unmoved_iff asciiNames none _ _ _ _ (List.Forall₂.cons hredated List.Forall₂.nil)
    (List.Forall₂.cons ⟨rfl, rfl, rfl⟩ List.Forall₂.nil)).2 (by decide) ⟨by decide +kernel, ?_⟩
  show SameState (deduplicate asciiNames _ storedEvening none) (deduplicate asciiNames _ storedEvening none)
  rw [hhere, hthere]
  exact ⟨rfl, List.Forall₂.nil⟩

/-- The listing in UTC becomes a card of its own, the same listing in local time is merged. -/
theorem midnight_splits :
    ¬ ∀ (m : Matching) (same : Option (Billing → Billing → Bool)) (items items' : List RawItem)
      (existing existing' : List Card), List.Forall₂ Redated items items' →
        List.Forall₂ RedatedCard existing existing' →
          Unmoved m existing (same.map byBilling) existing' items items' := by
  intro h
  have hmoved := h asciiNames none [concert "fb/2" beforeMidnight] [concert "fb/2" afterMidnight]
    storedConcert storedConcert (List.Forall₂.cons ⟨by decide, rfl⟩ List.Forall₂.nil) storedConcert_same
  have hmerges := hmoved.result.merges
  revert hmerges
  decide +kernel

end WarsawEvents.Ingestion
