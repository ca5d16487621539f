import WarsawEvents.Search.EventStream

/-! # The re-ranker reads lines, not chunks

The text of the model comes in pieces; what `rerank_stream` yields depends on their concatenation only, and
is what the lines of the whole text give one after the other.
-/

namespace WarsawEvents.Search
open Json (Text Value)
set_option autoImplicit false

variable {φ : Type} {loads : Text → Loaded φ} {isZero : φ → Bool} {items : List (Item φ)}

/-- `text.split("\n")`. -/
def wholeLines (text : Text) : List Text := text.splitOn 0x0a

/-- The lines that are parsed; a stream that breaks leaves its last one unread. -/
def heardLines (m : ModelStream) : List Text :=
  if m.fails then (wholeLines m.pieces.flatten).dropLast else wholeLines m.pieces.flatten

theorem parseLines_append (first rest : List Text) (seen : List ℤ) :
    parseLines loads isZero items (first ++ rest) seen =
      match parseLines loads isZero items first seen with
      | (pairs, none) => (pairs, none)
      | (pairs, some seen) =>
        (pairs ++ (parseLines loads isZero items rest seen).1,
          (parseLines loads isZero items rest seen).2) := by
  induction first generalizing seen with
  | nil => rfl
  | cons line first ih =>
    rw [List.cons_append, parseLines, parseLines]
    cases parseLine loads isZero items line seen with
    | none => rfl
    | some parsed =>
      obtain ⟨pair, after⟩ := parsed
      simp only [ih after]
      cases hfirst : parseLines loads isZero items first after with
      | mk pairs last =>
        cases last with
        | none => rfl
        | some last => simp only [List.append_assoc]

variable (loads isZero items) in
/-- The buffer never holds a line break between two pieces, so the loop over the pieces parses the lines that
the buffer and what is to come end with a line break. -/
theorem readPieces_frames (pieces : List Text) (buffer : Text) (seen : List ℤ)
    (hbuffer : Framing.cut [0x0a] buffer = none) :
    readPieces loads isZero items pieces buffer seen =
      match parseLines loads isZero items (Framing.frames [0x0a] (buffer ++ pieces.flatten)).1 seen with
      | (pairs, none) => (pairs, none)
      | (pairs, some seen) =>
        (pairs, some ((Framing.frames [0x0a] (buffer ++ pieces.flatten)).2, seen)) := by
  induction pieces generalizing buffer seen with
  | nil =>
    rw [List.flatten_nil, List.append_nil, Framing.frames_none hbuffer]
    rfl
  | cons piece pieces ih =>
    have hsep : ([0x0a] : Text) ≠ [] := List.cons_ne_nil _ _
    have hrest := Framing.cut_frames_rest hsep (buffer ++ piece)
    rw [List.flatten_cons, ← List.append_assoc, Framing.frames_append hsep, parseLines_append, readPieces]
    cases parseLines loads isZero items (Framing.frames [0x0a] (buffer ++ piece)).1 seen with
    | mk pairs after =>
      cases after with
      | none => rfl
      | some after =>
        simp only [ih (Framing.frames [0x0a] (buffer ++ piece)).2 after hrest]
        cases parseLines loads isZero items (Framing.frames [0x0a]
            ((Framing.frames [0x0a] (buffer ++ piece)).2 ++ pieces.flatten)).1 after with
        | mk more last =>
          cases last with
          | none => rfl
          | some last => rfl

/-- A run yields the pairs of the lines it hears, and raises only where the stream or a line does. -/
theorem rerankStream_heard {items : List (Item φ)} (hitems : items ≠ []) (m : ModelStream) :
    rerankStream loads isZero items m =
      ((parseLines loads isZero items (heardLines m) []).1,
        m.fails || (parseLines loads isZero items (heardLines m) []).2.isNone) := by
  have hread := readPieces_frames loads isZero items m.pieces [] [] rfl
  rw [List.nil_append] at hread
  have hlines : wholeLines m.pieces.flatten = (Framing.frames [0x0a] m.pieces.flatten).1 ++
      [(Framing.frames [0x0a] m.pieces.flatten).2] := Framing.splitOn_frames _ _
  have hsome : ¬ items.isEmpty = true := by simpa using hitems
  unfold rerankStream heardLines
  rw [if_neg hsome, hread, hlines]
  cases m.fails with
  | true =>
    simp only [if_true, List.dropLast_concat]
    cases parseLines loads isZero items (Framing.frames [0x0a] m.pieces.flatten).1 [] with
    | mk pairs after =>
      cases after with
      | none => rfl
      | some after => rfl
  | false =>
    simp only [Bool.false_eq_true, if_false, parseLines_append]
    cases parseLines loads isZero items (Framing.frames [0x0a] m.pieces.flatten).1 [] with
    | mk pairs after =>
      cases after with
      | none => rfl
      | some after => rfl

/-- Without candidates no line has a pair. -/
theorem parseLines_no_items (lines : List Text) (seen : List ℤ) :
    (parseLines loads isZero ([] : List (Item φ)) lines seen).1 = [] := by
  obtain ⟨ns, ⟨hpairs, _⟩, _⟩ := parseLines_picks loads isZero ([] : List (Item φ)) lines seen
  generalize (parseLines loads isZero ([] : List (Item φ)) lines seen).1 = pairs at hpairs
  cases hpairs with
  | nil => rfl
  | cons hhead _ => cases hhead

theorem rerankStream_pairs (loads : Text → Loaded φ) (isZero : φ → Bool) (items : List (Item φ))
    (m : ModelStream) :
    (rerankStream loads isZero items m).1 = (parseLines loads isZero items (heardLines m) []).1 := by
  cases items with
  | nil => exact (parseLines_no_items _ _).symm
  | cons item items => rw [rerankStream_heard (List.cons_ne_nil item items)]

/-- However the text is cut, the pairs are those of its lines. -/
theorem rerank_stream_by_lines (loads : Text → Loaded φ) (isZero : φ → Bool) (items : List (Item φ))
    (pieces : List Text) :
    (rerankStream loads isZero items ⟨pieces, false⟩).1 =
      (parseLines loads isZero items (wholeLines pieces.flatten) []).1 :=
  rerankStream_pairs loads isZero items ⟨pieces, false⟩

end WarsawEvents.Search
