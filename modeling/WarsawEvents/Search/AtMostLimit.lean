import Mathlib.Data.Finset.Card
import Mathlib.Data.Finset.Dedup
import WarsawEvents.Search.LineFormat

/-! # How many cards a search can get

`rerank_stream` tells the model how many lines to write at most and does not count them. It yields one pair
for each candidate number that some line names, so no position comes twice, and there are more than `limit`
pairs exactly when the lines name more than `limit` candidates.
-/

namespace WarsawEvents.Search
open Json (Text Value ascii)
set_option autoImplicit false

variable {φ : Type}

section
variable (loads : Text → Loaded φ) (isZero : φ → Bool) (items : List (Item φ))

/-- `rerank_stream(prompt, items, limit)`: the limit stands in the system prompt and nowhere else. -/
def rerankStreamTold (model : ℤ → ModelStream) (limit : ℤ) : List (Item φ × Value (PyNum φ)) × Bool :=
  rerankStream loads isZero items (model limit)

/-- The candidate that a line names, whatever was named before it. -/
def named (line : Text) : Option ℤ :=
  if (trimmed line).head? ≠ some 0x7b then none
  else
    match loads (trimmed line) with
    | .value (.obj ms) =>
      (asInt (dictGet (ascii "n") ms)).filter fun n => 1 ≤ n && n ≤ items.length
    | _ => none

/-- The line leaves an exception of `json.loads` or of `obj.get`. -/
def stops (line : Text) : Bool :=
  (trimmed line).head? == some 0x7b &&
    match loads (trimmed line) with
    | .value (.obj _) => false
    | .value _ => true
    | .decodeError => false
    | .raised => true

/-- The candidates named up to the line that stops the run. -/
def namedNumbers (lines : List Text) : List ℤ :=
  (lines.takeWhile fun line => !stops loads line).filterMap (named loads items)

end

section
variable {loads : Text → Loaded φ} {isZero : φ → Bool} {items : List (Item φ)} {seen : List ℤ} {line : Text}

theorem named_object {n : ℤ} (h : named loads items line = some n) :
    (trimmed line).head? = some 0x7b ∧ ∃ ms, loads (trimmed line) = .value (.obj ms) ∧
      asInt (dictGet (ascii "n") ms) = some n ∧ 1 ≤ n ∧ n ≤ items.length := by
  unfold named at h
  split at h
  next => simp at h
  next hhead =>
    refine ⟨not_not.mp hhead, ?_⟩
    split at h
    next ms hload =>
      obtain ⟨hn, hrange⟩ := Option.filter_eq_some_iff.mp h
      rw [Bool.and_eq_true, decide_eq_true_eq, decide_eq_true_eq] at hrange
      exact ⟨ms, hload, hn, hrange⟩
    next => simp at h

theorem parseLine_stops (h : stops loads line = true) :
    parseLine loads isZero items line seen = none := by
  unfold stops at h
  rw [Bool.and_eq_true, beq_iff_eq] at h
  obtain ⟨hhead, hload⟩ := h
  unfold parseLine
  rw [if_neg (not_not_intro hhead)]
  split at hload
  next => simp at hload
  next v hobj hvalue =>
    rw [hvalue]
    cases v with
    | obj ms => exact absurd rfl (hobj ms)
    | null => rfl
    | bool b => rfl
    | num x => rfl
    | str s => rfl
    | arr vs => rfl
  next => simp at hload
  next hraised => rw [hraised]

variable (isZero) in
theorem parseLine_named {n : ℤ} (h : named loads items line = some n) (hn : n ∉ seen) :
    ∃ pair, parseLine loads isZero items line seen = some (some pair, n :: seen) := by
  obtain ⟨hhead, ms, hload, hint, hrange⟩ := named_object h
  obtain ⟨item, _, htaken⟩ := parseLine_fresh isZero hhead hload hint ⟨hrange, hn⟩
  exact ⟨_, htaken⟩

theorem parseLine_unnamed (hgo : stops loads line = false)
    (h : ∀ n, named loads items line = some n → n ∈ seen) :
    parseLine loads isZero items line seen = some (none, seen) := by
  by_cases hhead : (trimmed line).head? = some 0x7b
  · unfold stops at hgo
    rw [hhead, beq_self_eq_true, Bool.true_and] at hgo
    split at hgo
    next ms hload =>
      apply parseLine_stale hhead hload
      intro n hn hfresh
      obtain ⟨⟨hlow, hhigh⟩, hnew⟩ := hfresh
      apply hnew
      apply h
      unfold named
      rw [if_neg (not_not_intro hhead), hload]
      exact Option.filter_eq_some_iff.mpr ⟨hn, by simp [hlow, hhigh]⟩
    next => simp at hgo
    next hload =>
      unfold parseLine
      rw [if_neg (not_not_intro hhead), hload]
    next => simp at hgo
  · exact parseLine_no_brace hhead

theorem namedNumbers_cons (lines : List Text) (hgo : stops loads line = false) :
    namedNumbers loads items (line :: lines) =
      (named loads items line).toList ++ namedNumbers loads items lines := by
  unfold namedNumbers
  rw [List.takeWhile_cons_of_pos (by rw [hgo]; rfl), List.filterMap_cons]
  cases named loads items line with
  | none => rfl
  | some n => rfl

theorem card_insert_sdiff {α : Type} [DecidableEq α] {a : α} (s : Finset α) {t : Finset α} (h : a ∉ t) :
    (insert a s \ t).card = (s \ insert a t).card + 1 := by
  have hsplit : insert a s \ t = insert a (s \ insert a t) := by
    ext b
    simp only [Finset.mem_sdiff, Finset.mem_insert]
    by_cases hb : b = a
    · subst hb
      simp [h]
    · simp [hb]
  rw [hsplit, Finset.card_insert_of_notMem (by simp)]

variable (loads isZero items) in
/-- One pair for each number named that was not seen before. -/
theorem parseLines_length (lines : List Text) (seen : List ℤ) :
    (parseLines loads isZero items lines seen).1.length =
      ((namedNumbers loads items lines).toFinset \ seen.toFinset).card := by
  induction lines generalizing seen with
  | nil => simp [parseLines, namedNumbers]
  | cons line lines ih =>
    rw [parseLines]
    by_cases hstops : stops loads line = true
    · rw [parseLine_stops hstops]
      simp [namedNumbers, hstops]
    · rw [Bool.not_eq_true] at hstops
      rw [namedNumbers_cons lines hstops]
      by_cases hnew : ∃ n, named loads items line = some n ∧ n ∉ seen
      · obtain ⟨n, hnamed, hn⟩ := hnew
        obtain ⟨pair, hpair⟩ := parseLine_named isZero hnamed hn
        rw [hpair, hnamed]
        simp only [Option.toList_some, List.singleton_append, List.toFinset_cons, List.length_cons]
        rw [ih, List.toFinset_cons, card_insert_sdiff _ (by rwa [List.mem_toFinset])]
      · push Not at hnew
        rw [parseLine_unnamed hstops hnew]
        simp only [Option.toList_none, List.nil_append, ih]
        cases hnamed : named loads items line with
        | none => rw [Option.toList_none, List.nil_append]
        | some n =>
          rw [Option.toList_some, List.singleton_append, List.toFinset_cons,
            Finset.insert_sdiff_of_mem _ (List.mem_toFinset.mpr (hnew n hnamed))]

end

/-- No position comes twice, whatever the model writes; there are at most `limit` pairs exactly when the lines
name at most `limit` candidates. -/
theorem at_most_limit_iff (loads : Text → Loaded φ) (isZero : φ → Bool) (items : List (Item φ))
    (model : ℤ → ModelStream) (limit : ℤ) :
    (∃ positions, Picks items [] (rerankStreamTold loads isZero items model limit).1 positions) ∧
      (((rerankStreamTold loads isZero items model limit).1.length : ℤ) ≤ limit ↔
        ((namedNumbers loads items (heardLines (model limit))).toFinset.card : ℤ) ≤ limit) := by
  refine ⟨rerankStream_picks loads isZero items (model limit), ?_⟩
  have hlength : (rerankStreamTold loads isZero items model limit).1.length =
      (namedNumbers loads items (heardLines (model limit))).toFinset.card := by
    unfold rerankStreamTold
    rw [rerankStream_pairs, parseLines_length, List.toFinset_nil, Finset.sdiff_empty]
  rw [hlength]

def elevenItems : List (Item Unit) := (List.range 11).map fun id => namedItem id "Jazz"

/-- Every candidate on a line of its own. -/
def everyCandidate (_ : ℤ) : ModelStream where
  pieces := [ascii "\x7b\"n\": 1\x7d\n\x7b\"n\": 2\x7d\n\x7b\"n\": 3\x7d\n\x7b\"n\": 4\x7d\n",
    ascii "\x7b\"n\": 5\x7d\n\x7b\"n\": 6\x7d\n\x7b\"n\": 7\x7d\n\x7b\"n\": 8\x7d\n",
    ascii "\x7b\"n\": 9\x7d\n\x7b\"n\": 10\x7d\n\x7b\"n\": 11\x7d\n"]
  fails := false

/-- Ten cards at most were asked for and eleven are yielded. -/
theorem eleven_of_ten :
    ¬ ((rerankStreamTold (jsonLoads zeroDouble) zeroDouble.isZero elevenItems everyCandidate 10).1.length : ℤ)
      ≤ 10 := by
  have hcount : (rerankStreamTold (jsonLoads zeroDouble) zeroDouble.isZero elevenItems everyCandidate
      10).1.length = 11 := by decide +kernel
  rw [hcount]
  decide

end WarsawEvents.Search
