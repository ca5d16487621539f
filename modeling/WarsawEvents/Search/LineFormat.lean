import WarsawEvents.Foundations.JsonDialects
import WarsawEvents.Search.Sse
import WarsawEvents.Search.Streaming

/-! # What `_parse_line` takes beyond the format of a line

The format is one JSON object a line: `n` an integer, `blurb` a string, null or left out.
`reads_format_iff` says for which lines `_parse_line` reads it. `json.loads` knows three words that are no
JSON and raises beyond its limits, `isinstance` passes `true`, and `or ""` lets any other blurb through.
-/

namespace WarsawEvents.Search
open Json (Text Value ascii)
set_option autoImplicit false

variable {φ : Type}

/-- `json.loads` with the texts that are beyond its limits on digits and nesting. -/
def loadsWithin (D : Doubles φ) (beyond : Text → Bool) (line : Text) : Loaded φ :=
  if beyond line then .raised else jsonLoads D line

/-- A number in the range of the candidates that no line has named before. -/
def Fresh (items : List (Item φ)) (seen : List ℤ) (n : ℤ) : Prop :=
  (1 ≤ n ∧ n ≤ items.length) ∧ n ∉ seen

/-- The line is in the format, with this number and this blurb. -/
def Says (D : Doubles φ) (line : Text) (n : ℤ) (blurb : Text) : Prop :=
  ∃ ms, Json.read (pyDialect D).plain (trimmed line) = some (.obj ms) ∧
    dictGet (ascii "n") ms = .num (.int n) ∧
    (dictGet (ascii "blurb") ms = .str blurb ∨ dictGet (ascii "blurb") ms = .null ∧ blurb = [])

section
variable (D : Doubles φ) (beyond : Text → Bool) (items : List (Item φ)) (seen : List ℤ) (line : Text)

/-- A line in the format that names a fresh candidate gives its pair, any other line nothing. -/
def ReadsFormat : Prop :=
  (∀ n blurb, Says D line n blurb → Fresh items seen n →
    ∃ item, items[(n - 1).toNat]? = some item ∧
      parseLine (loadsWithin D beyond) D.isZero items line seen
        = some (some (item, .str blurb), n :: seen)) ∧
  ((∀ n blurb, Says D line n blurb → ¬ Fresh items seen n) →
    parseLine (loadsWithin D beyond) D.isZero items line seen = some (none, seen))

/-- No Boolean, number, array or object. -/
def IsTextOrNull : Value (PyNum φ) → Prop
  | .null => True
  | .str _ => True
  | _ => False

/-- A line that opens with a brace is within the limits of `json.loads`; and where it names a fresh
candidate it has no `NaN` or `Infinity`, its number is not `true` and its blurb is a text or null. -/
def Fits : Prop :=
  (trimmed line).head? = some 0x7b →
    beyond (trimmed line) = false ∧
      ∀ ms n, Json.read (pyDialect D) (trimmed line) = some (.obj ms) →
        asInt (dictGet (ascii "n") ms) = some n → Fresh items seen n →
          (Json.read (pyDialect D).plain (trimmed line)).isSome ∧
            dictGet (ascii "n") ms ≠ .bool true ∧ IsTextOrNull (dictGet (ascii "blurb") ms)

end

/-- Every line fits with the numbers seen when its turn comes. -/
def FitsThroughout (D : Doubles φ) (beyond : Text → Bool) (items : List (Item φ)) (seen : List ℤ)
    (lines : List Text) : Prop :=
  ∀ first line rest, lines = first ++ line :: rest →
    ∀ pairs after, parseLines (loadsWithin D beyond) D.isZero items first seen = (pairs, some after) →
      Fits D beyond items after line

/-! ## The line before it is read -/

theorem head_dropWhile {p : ℕ → Bool} (t : Text) : ∀ c ∈ (t.dropWhile p).head?, p c = false := by
  intro c hc
  have hhead := List.head?_dropWhile_not p t
  rw [Option.mem_def.mp hc] at hhead
  exact hhead

theorem trimmed_prefix (line : Text) : trimmed line <+: line.dropWhile PyText.isSpace := by
  unfold trimmed PyText.trim PyText.trimBy
  rw [List.reverse_reverse]
  have hsuffix := (List.dropWhile_suffix (p := (· == 0x2c))
    (l := (line.dropWhile PyText.isSpace).reverse.dropWhile PyText.isSpace)).trans
      (List.dropWhile_suffix PyText.isSpace)
  rw [← List.reverse_prefix] at hsuffix
  simpa using hsuffix

theorem isSpace_of_isBlank {c : ℕ} (h : Json.isBlank c = true) : PyText.isSpace c = true := by
  simp only [Json.isBlank, Bool.or_eq_true, beq_iff_eq] at h
  unfold PyText.isSpace
  grind

/-- The first character is no blank. -/
theorem trimmed_head (line : Text) : ∀ c ∈ (trimmed line).head?, Json.isBlank c = false := by
  intro c hc
  obtain ⟨after, hafter⟩ := trimmed_prefix line
  have hhead : c ∈ (line.dropWhile PyText.isSpace).head? := by
    rw [← hafter, List.head?_append, Option.mem_def.mp hc]
    rfl
  have hspace := head_dropWhile line c hhead
  cases hblank : Json.isBlank c with
  | false => rfl
  | true => rw [isSpace_of_isBlank hblank] at hspace; exact hspace

/-- What reads as an object opens with a brace. -/
theorem head_of_read {d : Json.Dialect (PyNum φ)} {line : Text} {ms : List (Text × Value (PyNum φ))}
    (h : Json.read d (trimmed line) = some (.obj ms)) : (trimmed line).head? = some 0x7b := by
  obtain ⟨rest, hnext⟩ := Json.next_of_read h
  have hblank := trimmed_head line
  cases htext : trimmed line with
  | nil =>
    rw [htext] at hnext
    simp [Json.next] at hnext
  | cons c text =>
    rw [htext] at hnext hblank
    rw [Json.next_cons (hblank c rfl)] at hnext
    simp only [Option.some.injEq, Prod.mk.injEq] at hnext
    rw [List.head?_cons, hnext.1]

theorem read_of_head {d : Json.Dialect (PyNum φ)} {text : Text} {v : Value (PyNum φ)}
    (hhead : text.head? = some 0x7b) (h : Json.read d text = some v) : ∃ ms, v = .obj ms := by
  obtain ⟨rest, rfl⟩ := List.head?_eq_some_iff.mp hhead
  exact Json.read_brace h

theorem pyDialect_plain (D : Doubles φ) : (pyDialect D).plain.Within (pyDialect D) := by
  apply Json.Dialect.plain_within
  intro p hp rest
  simp only [pyDialect, List.mem_cons, List.not_mem_nil, or_false] at hp
  obtain rfl | rfl | rfl := hp
  · rfl
  · rfl
  · rfl

/-! ## What one line does -/

section
variable {loads : Text → Loaded φ} {isZero : φ → Bool} {items : List (Item φ)} {seen : List ℤ}
  {line : Text} {ms : List (Text × Value (PyNum φ))}

theorem parseLine_no_brace (h : (trimmed line).head? ≠ some 0x7b) :
    parseLine loads isZero items line seen = some (none, seen) := by
  rw [parseLine, if_pos h]

variable (isZero) in
theorem parseLine_fresh (hhead : (trimmed line).head? = some 0x7b)
    (hload : loads (trimmed line) = .value (.obj ms)) {n : ℤ}
    (hn : asInt (dictGet (ascii "n") ms) = some n) (hfresh : Fresh items seen n) :
    ∃ item, items[(n - 1).toNat]? = some item ∧
      parseLine loads isZero items line seen
        = some (some (item, orEmpty isZero (dictGet (ascii "blurb") ms)), n :: seen) := by
  obtain ⟨⟨hlow, hhigh⟩, hnew⟩ := hfresh
  have hlt : (n - 1).toNat < items.length := by omega
  have hitem := List.getElem?_eq_getElem hlt
  refine ⟨items[(n - 1).toNat], hitem, ?_⟩
  have hgood : ¬ (¬ (1 ≤ n ∧ n ≤ items.length) ∨ n ∈ seen) := by tauto
  unfold parseLine
  rw [if_neg (not_not_intro hhead), hload]
  simp only [hn]
  rw [if_neg hgood, hitem, Option.map_some]

theorem parseLine_stale (hhead : (trimmed line).head? = some 0x7b)
    (hload : loads (trimmed line) = .value (.obj ms))
    (hn : ∀ n, asInt (dictGet (ascii "n") ms) = some n → ¬ Fresh items seen n) :
    parseLine loads isZero items line seen = some (none, seen) := by
  unfold parseLine
  rw [if_neg (not_not_intro hhead), hload]
  simp only
  cases hint : asInt (dictGet (ascii "n") ms) with
  | none => rfl
  | some n =>
    have hbad : ¬ (1 ≤ n ∧ n ≤ items.length) ∨ n ∈ seen := by
      have hstale := hn n hint
      unfold Fresh at hstale
      tauto
    simp only
    rw [if_pos hbad]

end

/-! ## When a line is read as the format says -/

theorem orEmpty_text {isZero : φ → Bool} {v : Value (PyNum φ)} {blurb : Text}
    (h : v = .str blurb ∨ v = .null ∧ blurb = []) : orEmpty isZero v = .str blurb := by
  obtain rfl | ⟨rfl, rfl⟩ := h
  · rfl
  · rfl

theorem isTextOrNull_iff (v : Value (PyNum φ)) :
    IsTextOrNull v ↔ ∃ blurb : Text, v = .str blurb ∨ v = .null ∧ blurb = [] := by
  cases v <;> simp [IsTextOrNull]

theorem asInt_number {v : Value (PyNum φ)} {n : ℤ} (h : asInt v = some n) (hpos : 1 ≤ n)
    (htrue : v ≠ .bool true) : v = .num (.int n) := by
  cases v with
  | bool b =>
    cases b with
    | true => exact absurd rfl htrue
    | false =>
      simp only [asInt, Bool.false_eq_true, if_false, Option.some.injEq] at h
      omega
  | num x =>
    cases x with
    | int z => rw [Option.some.inj h]
    | float x => simp [asInt] at h
  | null => simp [asInt] at h
  | str s => simp [asInt] at h
  | arr vs => simp [asInt] at h
  | obj ms => simp [asInt] at h

section
variable {D : Doubles φ} {beyond : Text → Bool} {items : List (Item φ)} {seen : List ℤ} {line : Text}

theorem loads_object {text : Text} {ms : List (Text × Value (PyNum φ))} (hin : beyond text = false)
    (h : Json.read (pyDialect D) text = some (.obj ms)) :
    loadsWithin D beyond text = .value (.obj ms) := by
  unfold loadsWithin jsonLoads
  rw [hin, h]
  rfl

/-- Both dialects read one document to one value. -/
theorem read_same {text : Text} {v w : Value (PyNum φ)} (hread : Json.read (pyDialect D) text = some v)
    (hplain : Json.read (pyDialect D).plain text = some w) : w = v := by
  have hsame := (pyDialect_plain D).read hplain
  rw [hread] at hsame
  exact (Option.some.inj hsame).symm

/-- A line that is read as the format says leaves no exception, and its blurb is a text. -/
theorem ReadsFormat.step (h : ReadsFormat D beyond items seen line) :
    ∃ pair after, parseLine (loadsWithin D beyond) D.isZero items line seen = some (pair, after) ∧
      ∀ p ∈ pair.toList, ∃ blurb : Text, p.2 = .str blurb := by
  obtain ⟨haccepts, hrefuses⟩ := h
  by_cases hsays : ∀ n blurb, Says D line n blurb → ¬ Fresh items seen n
  · exact ⟨none, seen, hrefuses hsays, by simp⟩
  · push Not at hsays
    obtain ⟨n, blurb, hline, hfresh⟩ := hsays
    obtain ⟨item, _, hpair⟩ := haccepts n blurb hline hfresh
    refine ⟨some (item, .str blurb), n :: seen, hpair, ?_⟩
    intro p hp
    obtain rfl := List.mem_singleton.mp hp
    exact ⟨blurb, rfl⟩

theorem fits_of_reads (h : ReadsFormat D beyond items seen line) : Fits D beyond items seen line := by
  intro hhead
  have hin : beyond (trimmed line) = false := by
    by_contra hbeyond
    obtain ⟨pair, after, hline, _⟩ := h.step
    unfold parseLine loadsWithin at hline
    rw [if_neg (not_not_intro hhead), if_pos (by simpa using hbeyond)] at hline
    simp at hline
  refine ⟨hin, ?_⟩
  intro ms n hread hn hfresh
  obtain ⟨item, _, htaken⟩ := parseLine_fresh D.isZero hhead (loads_object hin hread) hn hfresh
  obtain ⟨k, blurb, hsays, _⟩ : ∃ k blurb, Says D line k blurb ∧ Fresh items seen k := by
    by_contra hnone
    push Not at hnone
    rw [h.2 hnone] at htaken
    simp at htaken
  obtain ⟨ks, hplain, hk, hblurb⟩ := hsays
  obtain rfl := Value.obj.inj (read_same hread hplain)
  refine ⟨?_, ?_, (isTextOrNull_iff _).mpr ⟨blurb, hblurb⟩⟩
  · rw [hplain]
    rfl
  · rw [hk]
    simp

theorem reads_of_fits (h : Fits D beyond items seen line) : ReadsFormat D beyond items seen line := by
  constructor
  · rintro n blurb ⟨ms, hplain, hn, hblurb⟩ hfresh
    have hhead := head_of_read hplain
    have hload := loads_object (h hhead).1 ((pyDialect_plain D).read hplain)
    have hint : asInt (dictGet (ascii "n") ms) = some n := by
      rw [hn]
      rfl
    have htaken := parseLine_fresh D.isZero hhead hload hint hfresh
    rw [orEmpty_text hblurb] at htaken
    exact htaken
  · intro hnone
    by_cases hhead : (trimmed line).head? = some 0x7b
    · obtain ⟨hin, hgood⟩ := h hhead
      cases hread : Json.read (pyDialect D) (trimmed line) with
      | none =>
        unfold parseLine loadsWithin jsonLoads
        rw [if_neg (not_not_intro hhead), hin, hread]
        rfl
      | some v =>
        obtain ⟨ms, rfl⟩ := read_of_head hhead hread
        apply parseLine_stale hhead (loads_object hin hread)
        intro n hn hfresh
        obtain ⟨hplain, htrue, hblurb⟩ := hgood ms n hread hn hfresh
        obtain ⟨v, hv⟩ := Option.isSome_iff_exists.mp hplain
        obtain rfl := read_same hread hv
        obtain ⟨blurb, htext⟩ := (isTextOrNull_iff _).mp hblurb
        exact hnone n blurb ⟨ms, hv, asInt_number hn hfresh.1.1 htrue, htext⟩ hfresh
    · exact parseLine_no_brace hhead

theorem FitsThroughout.run {lines : List Text} (h : FitsThroughout D beyond items seen lines) :
    (∀ p ∈ (parseLines (loadsWithin D beyond) D.isZero items lines seen).1,
        ∃ blurb : Text, p.2 = .str blurb) ∧
      (parseLines (loadsWithin D beyond) D.isZero items lines seen).2.isSome := by
  induction lines generalizing seen with
  | nil => exact ⟨by simp [parseLines], rfl⟩
  | cons line lines ih =>
    obtain ⟨pair, after, hline, htexts⟩ :=
      (reads_of_fits (h [] line lines rfl [] seen rfl)).step
    have hrest : FitsThroughout D beyond items after lines := by
      intro first next rest hlines pairs last hfirst
      apply h (line :: first) next rest (by rw [hlines, List.cons_append]) (pair.toList ++ pairs) last
      rw [parseLines, hline]
      simp only [hfirst]
    obtain ⟨hpairs, hseen⟩ := ih hrest
    rw [parseLines, hline]
    refine ⟨?_, hseen⟩
    intro p hp
    obtain hhere | hlater := List.mem_append.mp hp
    · exact htexts p hhere
    · exact hpairs p hlater

end

theorem card_of_pair {β : Type} {items : List (Item φ)} {raises : Bool} {pairs : List (Item φ × β)}
    {item : Item φ} {blurb : β}
    (h : Event.card item (some blurb) ∈ rerankedCards items raises pairs []) : (item, blurb) ∈ pairs := by
  rw [rerankedCards_eq] at h
  obtain ⟨⟨shown, line⟩, hcard, heq⟩ := List.mem_map.mp h
  simp only [Event.ofCard, Event.card.injEq] at heq
  obtain ⟨rfl, rfl⟩ := heq
  obtain hyielded | hbare := List.mem_append.mp hcard
  · obtain ⟨p, hp, hsame⟩ := List.mem_map.mp hyielded
    simp only [Prod.mk.injEq, Option.some.injEq] at hsame
    obtain ⟨rfl, rfl⟩ := hsame
    exact hp
  · split at hbare
    next =>
      obtain ⟨item, _, hnone⟩ := List.mem_map.mp hbare
      simp at hnone
    next => simp at hbare

/-- `_parse_line` reads the format exactly on the lines that fit; in a run of such lines no line raises and
every blurb that reaches a card is a text. -/
theorem reads_format_iff (D : Doubles φ) (beyond : Text → Bool) (items : List (Item φ)) :
    (∀ seen line, ReadsFormat D beyond items seen line ↔ Fits D beyond items seen line) ∧
      ∀ m : ModelStream, FitsThroughout D beyond items [] (heardLines m) →
        ∀ run, rerankStream (loadsWithin D beyond) D.isZero items m = run →
          (run.2 = true → m.fails = true) ∧
            ∀ item blurb, Event.card item (some blurb) ∈ rerankedCards items run.2 run.1 [] →
              ∃ text : Text, blurb = .str text := by
  refine ⟨fun seen line => ⟨fits_of_reads, reads_of_fits⟩, ?_⟩
  rintro m hfits run rfl
  obtain ⟨htexts, hseen⟩ := hfits.run
  constructor
  · intro hraised
    by_cases hitems : items = []
    · subst hitems
      simp [rerankStream] at hraised
    · rw [rerankStream_heard hitems, Option.isNone_eq_false_iff.mpr hseen, Bool.or_false] at hraised
      exact hraised
  · intro item blurb hcard
    have hpair := card_of_pair hcard
    rw [rerankStream_pairs] at hpair
    exact htexts _ hpair

/-- A number where the pitch should stand. -/
def pricedLine : Text := ascii "\x7b\"n\": 1, \"blurb\": 49\x7d"

/-- The line is not in the format, and its card is shown with the blurb 49. -/
theorem priced_line_taken :
    ¬ ReadsFormat zeroDouble (fun _ => false) [namedItem 1 "Jazz"] [] pricedLine := by
  intro hformat
  obtain ⟨pair, after, hline, htexts⟩ := hformat.step
  have htaken : ((parseLine (loadsWithin zeroDouble fun _ => false) zeroDouble.isZero [namedItem 1 "Jazz"]
      pricedLine []).bind Prod.fst).map (fun p => blurbText p.2) = some none := by decide +kernel
  rw [hline] at htaken
  obtain ⟨p, hp, hblurb⟩ := Option.map_eq_some_iff.mp htaken
  obtain ⟨blurb, htext⟩ := htexts p (Option.mem_toList.mpr hp)
  rw [htext] at hblurb
  simp [blurbText] at hblurb

end WarsawEvents.Search
