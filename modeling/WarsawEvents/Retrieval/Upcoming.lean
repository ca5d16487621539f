import Mathlib.Data.Int.ConditionallyCompleteOrder
import Mathlib.Data.Prod.Lex
import WarsawEvents.Foundations.Like
import WarsawEvents.Ingestion.Fixtures
import WarsawEvents.Retrieval.Filters

/-! # The feed of the home page

`upcoming` of `backend/app/api/routes.py`: the events that have not ended, the soonest first, and the
fixtures of the demo behind all the others.

* `upcoming_feed`: what one answer shows, and what it leaves out.
* `feed_moves_on`: as time goes by, an event leaves the feed by ending and the ones left move up.
* `seeding_leaves_the_feed`: fixtures that are seeded push no other event off the feed.
-/

namespace WarsawEvents.Retrieval
open Ingestion (Card)
open OrderBy (Engine)
set_option autoImplicit false

/-- `name LIKE '[TEST]%'`; a bracket is literal there. -/
def isTest (c : Card) : Bool :=
  (Like.parse '\\' "[TEST]%".toList).any fun pattern => Like.Matches pattern c.name.toList

/-- An event until it ends, or starts when it has no end. -/
def isUpcoming (now : ℤ) (c : Card) : Bool :=
  c.kind = .event && c.startsAt.isSome && (c.endsAt.or c.startsAt).any fun t => now ≤ t.instant

/-- A card without a start comes last. -/
def startKey (c : Card) : WithTop ℤ :=
  match c.startsAt with
  | some t => t.instant
  | none => ⊤

def feedKey (c : Card) : Bool ×ₗ WithTop ℤ := toLex (isTest c, startKey c)

/-- `min(max(limit, 1), 48)`. -/
def feedSize (limit : ℤ) : ℕ := (min (max limit 1) 48).toNat

def upcoming (e : Engine) (now limit : ℤ) (table : ItemTable) : List Card :=
  (e.order feedKey (table.cards.filter (isUpcoming now))).take (feedSize limit)

variable {e : Engine} {now later limit : ℤ} {table : ItemTable} {c d : Card}

theorem isTest_iff : isTest c = true ↔ "[TEST]".toList <+: c.name.toList := by
  have hpattern : Like.parse '\\' "[TEST]%".toList =
      some ("[TEST]".toList.map .lit ++ [.many]) := by decide +kernel
  unfold isTest
  rw [hpattern, Option.any_some, Like.matches_lits]
  constructor
  · rintro ⟨rest, hsplit, _⟩
    exact ⟨rest, hsplit⟩
  · rintro ⟨rest, hsplit⟩
    exact ⟨rest, hsplit, Like.matches_everything rest⟩

/-- What has not ended later has not ended now. -/
theorem isUpcoming_of_later (hle : now ≤ later) (h : isUpcoming later c = true) : isUpcoming now c = true := by
  unfold isUpcoming at *
  rw [Bool.and_eq_true] at *
  obtain ⟨t, ht, hend⟩ := (Option.any_eq_true _ _).mp h.2
  refine ⟨h.1, (Option.any_eq_true _ _).mpr ⟨t, ht, ?_⟩⟩
  rw [decide_eq_true_eq] at hend ⊢
  exact le_trans hle hend

theorem feedKey_lt_of_test (hc : isTest c = false) (hd : isTest d = true) : feedKey c < feedKey d := by
  unfold feedKey
  rw [Prod.Lex.toLex_lt_toLex, hc, hd]
  exact Or.inl Bool.false_lt_true

/-- The first answers of the order by `feedKey` among the events that have not ended. -/
structure Feed (table : ItemTable) (now : ℤ) (size : ℕ) (shown : List Card) : Prop where
  nodup : (shown.map Card.id).Nodup
  upcoming : ∀ c ∈ shown, c ∈ table.cards ∧ isUpcoming now c = true
  sorted : shown.Pairwise fun a b => feedKey a ≤ feedKey b
  filled : shown.length = min size (table.cards.filter (isUpcoming now)).length
  /-- Nothing that is left out comes before what is shown. -/
  first : ∀ c ∈ table.cards, isUpcoming now c = true → c ∉ shown → ∀ d ∈ shown, feedKey d ≤ feedKey c
  /-- A fixture fills up only what real events leave free. -/
  fixtures : ∀ d ∈ shown, "[TEST]".toList <+: d.name.toList → ∀ c ∈ table.cards,
    isUpcoming now c = true → ¬"[TEST]".toList <+: c.name.toList → c ∈ shown

/-- Whatever limit is asked for, the feed has between one and 48 events, if there are as many, each once, and
they are the first ones. -/
theorem upcoming_feed (hexact : e.Exact) (now limit : ℤ) (table : ItemTable) :
    (1 ≤ feedSize limit ∧ feedSize limit ≤ 48) ∧
      Feed table now (feedSize limit) (upcoming e now limit table) := by
  have hperm := hexact.perm feedKey (table.cards.filter (isUpcoming now))
  have hsorted := hexact.sorted feedKey (table.cards.filter (isUpcoming now))
  have hmem : ∀ c, c ∈ e.order feedKey (table.cards.filter (isUpcoming now)) ↔
      c ∈ table.cards ∧ isUpcoming now c = true := fun c => hperm.mem_iff.trans List.mem_filter
  refine ⟨⟨by unfold feedSize; omega, by unfold feedSize; omega⟩, ?_⟩
  constructor
  · have hids : ((table.cards.filter (isUpcoming now)).map Card.id).Nodup :=
      (List.filter_sublist.map Card.id).nodup table.keyed
    exact ((List.take_sublist _ _).map Card.id).nodup ((hperm.map Card.id).nodup_iff.mpr hids)
  · exact fun c hc => (hmem c).mp (List.mem_of_mem_take hc)
  · exact hsorted.sublist (List.take_sublist _ _)
  · unfold Retrieval.upcoming
    rw [List.length_take, hperm.length_eq]
  · intro c hc hup hnot d hd
    exact OrderBy.key_le_of_notMem_take hsorted hd ((hmem c).mpr ⟨hc, hup⟩) hnot
  · intro d hd htest c hc hup hreal
    have hd' : isTest d = true := isTest_iff.mpr htest
    have hc' : isTest c = false := by
      rw [← Bool.not_eq_true, isTest_iff]
      exact hreal
    exact OrderBy.mem_take_of_key_lt hsorted hd ((hmem c).mpr ⟨hc, hup⟩) (feedKey_lt_of_test hc' hd')

/-- As long as the catalog stays as it is, an event leaves the feed only by ending, and those that are left
stand first in the later feed: up to ties for any two engines, and card by card where no two events tie. -/
theorem feed_moves_on {e' : Engine} (hexact : e.Exact) (hexact' : e'.Exact) (hle : now ≤ later) :
    (((upcoming e now limit table).filter (isUpcoming later)).map feedKey <+:
        (upcoming e' later limit table).map feedKey) ∧
      (((table.cards.filter (isUpcoming now)).map feedKey).Nodup →
        (upcoming e now limit table).filter (isUpcoming later) <+: upcoming e' later limit table) := by
  have hlater : table.cards.filter (isUpcoming later) =
      (table.cards.filter (isUpcoming now)).filter (isUpcoming later) := by
    rw [List.filter_filter]
    refine List.filter_congr fun c _ => ?_
    cases h : isUpcoming later c with
    | false => rfl
    | true => rw [isUpcoming_of_later hle h, Bool.and_true]
  have hprefix := OrderBy.filter_take_prefix (isUpcoming later)
    (e.order feedKey (table.cards.filter (isUpcoming now))) (feedSize limit)
  unfold upcoming
  rw [hlater]
  constructor
  · rw [List.map_take, hexact.map_order_filter hexact', ← List.map_take]
    exact hprefix.map feedKey
  · intro hties
    rw [hexact.order_filter hexact' _ hties]
    exact hprefix

/-! ## After a seeding -/

section Seeding
open Ingestion (Catalog Filled Matching Voyage Adjudicator Zone isMarked unmarked run)
open Ingestion.Fixtures (Record seeded)
variable {e' : Engine} {table' : ItemTable} {rows : List Card}

theorem isTest_eq (c : Card) : isTest c = isMarked c.toRawItem := by
  rw [Bool.eq_iff_iff, isTest_iff]
  unfold isMarked
  exact List.isPrefixOf_iff_prefix.symm

theorem unmarked_upcoming (now : ℤ) (rows : List Card) :
    unmarked (rows.filter (isUpcoming now)) = (unmarked rows).filter (isUpcoming now) := by
  unfold unmarked
  rw [List.filter_map, List.filter_filter, List.filter_filter]
  congr 1
  exact List.filter_congr fun c _ => Bool.and_comm _ _

/-- In the order of the feed the cards without the mark come first. -/
theorem unmarked_take (h : rows.Pairwise fun a b => feedKey a ≤ feedKey b) (n : ℕ) :
    unmarked (rows.take n) = (unmarked rows).take n := by
  have hfirst : rows.Pairwise fun a b => (!isMarked b.toRawItem) = true → (!isMarked a.toRawItem) = true := by
    refine h.imp fun {a b} hle hb => ?_
    rw [← isTest_eq, Bool.not_eq_true'] at hb ⊢
    by_contra ha
    exact not_lt.mpr hle (feedKey_lt_of_test hb (Bool.not_eq_false _ ▸ ha))
  unfold unmarked
  rw [OrderBy.filter_take_of_first hfirst, List.map_take]

theorem unmarked_sorted (h : rows.Pairwise fun a b => feedKey a ≤ feedKey b) :
    (unmarked rows).Pairwise fun a b => feedKey a ≤ feedKey b :=
  List.pairwise_map.mpr (h.filter _)

theorem unmarked_order (hexact : e.Exact) (now : ℤ) (table : ItemTable) :
    (unmarked (e.order feedKey (table.cards.filter (isUpcoming now)))).Perm
      ((unmarked table.cards).filter (isUpcoming now)) := by
  rw [← unmarked_upcoming]
  exact ((hexact.perm feedKey _).filter _).map _

/-- Two tables with the same real events show the same of them: at the same places up to ties, and the same
cards where no two of them tie. -/
theorem real_events_shown (hexact : e.Exact) (hexact' : e'.Exact)
    (hsame : (unmarked table'.cards).Perm (unmarked table.cards)) :
    (unmarked (upcoming e' now limit table')).map feedKey =
        (unmarked (upcoming e now limit table)).map feedKey ∧
      ((((unmarked table.cards).filter (isUpcoming now)).map feedKey).Nodup →
        unmarked (upcoming e' now limit table') = unmarked (upcoming e now limit table)) := by
  have hsorted := hexact.sorted feedKey (table.cards.filter (isUpcoming now))
  have hsorted' := hexact'.sorted feedKey (table'.cards.filter (isUpcoming now))
  have hrows := unmarked_order hexact now table
  have hperm := ((unmarked_order hexact' now table').trans (hsame.filter _)).trans hrows.symm
  unfold upcoming
  rw [unmarked_take hsorted, unmarked_take hsorted']
  constructor
  · rw [List.map_take, List.map_take, OrderBy.map_key_eq (hperm.map feedKey) (unmarked_sorted hsorted')
      (unmarked_sorted hsorted)]
  · intro hties
    have hdistinct := ((hrows.map feedKey).nodup_iff).mpr hties
    have hstrict : (unmarked (e.order feedKey (table.cards.filter (isUpcoming now)))).Pairwise
        fun a b => feedKey a < feedKey b :=
      (unmarked_sorted hsorted).imp₂ (fun _ _ hle hne => lt_of_le_of_ne hle hne)
        (List.pairwise_map.mp hdistinct)
    rw [OrderBy.eq_of_sorted hperm (unmarked_sorted hsorted') hstrict]

/-- A fixture of a later day is upcoming when it is seeded, one of the same day until it ends. -/
theorem fixture_upcoming_iff {z : Zone} {r : Record} {i : ℕ} (hlong : 0 ≤ r.durationHours)
    (hc : c.toRawItem = Ingestion.Fixtures.item z now r i) :
    isUpcoming now c = true ↔ 1 ≤ r.inDays ∨ now ≤ r.stop z now - z.offset (r.stop z now) := by
  have hlasts : isUpcoming now c = true ↔ now ≤ r.stop z now - z.offset (r.stop z now) := by
    unfold isUpcoming
    rw [hc]
    exact decide_eq_true_iff
  rw [hlasts]
  constructor
  · exact Or.inr
  · rintro (hday | hend)
    · exact le_of_lt ((Ingestion.Fixtures.fixture_lasts z now r hday).2 hlong)
    · exact hend

/-- The `items` table of a catalog. -/
def tableOf {catalog : Catalog} (h : Filled catalog) : ItemTable := ⟨catalog.rows, h.sound.keyed.ids⟩

/-- Whatever runs have filled the catalog: however many fixtures are seeded into it, at whatever time and
however their names match, every other event of the feed keeps its place. -/
theorem seeding_leaves_the_feed {catalog : Catalog} {existing : List Card} (h : Filled catalog)
    (hperm : existing.Perm catalog.rows) (hexact : e.Exact) (hexact' : e'.Exact) (m : Matching) (v : Voyage)
    (adjudicate : Option Adjudicator) (z : Zone) (seededAt : ℤ) (records : List Record) (now limit : ℤ)
    {after : Filled (run m v adjudicate (seeded m z seededAt records) existing catalog).catalog} :
    (unmarked (upcoming e' now limit (tableOf after))).map feedKey =
        (unmarked (upcoming e now limit (tableOf h))).map feedKey ∧
      ((((unmarked catalog.rows).filter (isUpcoming now)).map feedKey).Nodup →
        unmarked (upcoming e' now limit (tableOf after)) = unmarked (upcoming e now limit (tableOf h))) :=
  real_events_shown hexact hexact' (Ingestion.seeding_keeps_unmarked m v adjudicate z seededAt records h.sound
    hperm h.marked)

end Seeding

/-! ## Two concerts and a fixture -/

open Ingestion (Filled asciiNames noVoyage unmarked run utcZone bookBazaar galaNight galaNight_filled)
open Ingestion.Fixtures (seeded)

def testConcert : Card := { eveningConcert 3 20670 with name := "[TEST] Jazz Night" }

/-- The fixture is on the first of the three evenings. -/
def threeEvenings : ItemTable := ⟨[testConcert, eveningConcert 2 20672, eveningConcert 1 20671], by decide⟩

def morning (day : ℤ) : ℤ := day * 86400000000

theorem feed_of_threeEvenings : upcoming OrderBy.stable (morning 20670) 2 threeEvenings =
    [eveningConcert 1 20671, eveningConcert 2 20672] := by
  have horder : OrderBy.stable.order feedKey (threeEvenings.cards.filter (isUpcoming (morning 20670))) =
      [eveningConcert 1 20671, eveningConcert 2 20672, testConcert] :=
    OrderBy.stable_exact.order_eq (by decide +kernel) (by decide +kernel)
  unfold upcoming
  rw [horder]
  rfl

theorem upcoming_feed_threeEvenings :
    Feed threeEvenings (morning 20670) 2 [eveningConcert 1 20671, eveningConcert 2 20672] := by
  have hfeed := (upcoming_feed OrderBy.stable_exact (morning 20670) 2 threeEvenings).2
  rw [feed_of_threeEvenings] at hfeed
  exact hfeed

/-- On the third day the first concert is gone and the second has moved up. -/
theorem feed_moves_on_threeEvenings :
    [eveningConcert 2 20672] <+: upcoming OrderBy.stable (morning 20672) 2 threeEvenings := by
  have hties : ((threeEvenings.cards.filter (isUpcoming (morning 20670))).map feedKey).Nodup := by
    decide +kernel
  have hleft : [eveningConcert 1 20671, eveningConcert 2 20672].filter (isUpcoming (morning 20672)) =
      [eveningConcert 2 20672] := by decide +kernel
  have hprefix := (@feed_moves_on OrderBy.stable (morning 20670) (morning 20672) 2 threeEvenings OrderBy.stable
    OrderBy.stable_exact OrderBy.stable_exact (by decide)).2 hties
  rw [feed_of_threeEvenings, hleft] at hprefix
  exact hprefix

theorem seeding_leaves_the_feed_galaNight :
    (unmarked (upcoming OrderBy.stable (morning 20670) 12 (@tableOf (run asciiNames noVoyage none
        (seeded asciiNames utcZone (morning 20670) [bookBazaar]) galaNight.rows galaNight).catalog
        (Filled.seeded galaNight_filled (List.Perm.refl _))))).map feedKey =
      (unmarked (upcoming OrderBy.stable (morning 20670) 12 (tableOf galaNight_filled))).map feedKey ∧
    galaNight.rows.length = 1 :=
  ⟨(seeding_leaves_the_feed galaNight_filled (List.Perm.refl _) OrderBy.stable_exact OrderBy.stable_exact
    asciiNames noVoyage none utcZone (morning 20670) [bookBazaar] (morning 20670) 12).1, by decide +kernel⟩

end WarsawEvents.Retrieval
