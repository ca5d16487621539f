import Mathlib.Data.List.Basic
import Mathlib.Data.Nat.Notation

/-! # Reading frames off a growing buffer

A stream arrives in pieces; a reader appends each piece to its buffer and, as long as the buffer holds
the separator, takes off what stands before the first one.

* `frames_append`: what a piece adds is what the rest and the piece give on their own.
* `splitOn_frames`: with one character for a separator, the frames and the rest are the split of the text.
* `Clean`, `frames_clean`: a frame whose first separator is the one written after it comes off whole.
-/

namespace Framing
set_option autoImplicit false

variable {α : Type*} [DecidableEq α]

/-- The text before the first separator and the text after it. -/
def cut (sep : List α) : List α → Option (List α × List α)
  | [] => none
  | c :: rest =>
    if sep.isPrefixOf (c :: rest) then some ([], (c :: rest).drop sep.length)
    else (cut sep rest).map fun p => (c :: p.1, p.2)

/-- The frames taken off, and what is left in the buffer. -/
def drain (sep : List α) : ℕ → List α → List (List α) × List α
  | 0, buffer => ([], buffer)
  | fuel + 1, buffer =>
    match cut sep buffer with
    | none => ([], buffer)
    | some (frame, rest) => (frame :: (drain sep fuel rest).1, (drain sep fuel rest).2)

def frames (sep buffer : List α) : List (List α) × List α := drain sep buffer.length buffer

variable {sep : List α}

theorem cut_length {buffer frame rest : List α}
    (h : cut sep buffer = some (frame, rest)) :
    frame.length + sep.length + rest.length = buffer.length := by
  induction buffer generalizing frame with
  | nil => simp [cut] at h
  | cons c buffer ih =>
    rw [cut] at h
    split at h
    next hhead =>
      have hle := (List.isPrefixOf_iff_prefix.mp hhead).length_le
      simp only [Option.some.injEq, Prod.mk.injEq] at h
      obtain ⟨rfl, rfl⟩ := h
      rw [List.length_drop, List.length_nil]
      omega
    next =>
      cases hrest : cut sep buffer with
      | none => simp [hrest] at h
      | some p =>
        rw [hrest] at h
        simp only [Option.map_some, Option.some.injEq, Prod.mk.injEq] at h
        obtain ⟨rfl, rfl⟩ := h
        have hlen := ih hrest
        rw [List.length_cons, List.length_cons]
        omega

/-- Text without the separator's first character is passed over. -/
theorem cut_past {a : α} {t : List α} (ht : a ∉ t) (rest : List α) :
    cut (a :: sep) (t ++ rest) = (cut (a :: sep) rest).map fun p => (t ++ p.1, p.2) := by
  induction t with
  | nil => simp
  | cons c t ih =>
    rw [List.mem_cons, not_or] at ht
    have hhead : (a :: sep).isPrefixOf (c :: (t ++ rest)) = false := by
      simp [List.isPrefixOf, ht.1]
    rw [List.cons_append, cut, hhead, ih ht.2, Option.map_map]
    rfl

theorem cut_eq_none {a : α} {t : List α} (ht : a ∉ t) : cut (a :: sep) t = none := by
  have h : cut (a :: sep) (t ++ []) = _ := cut_past ht []
  simpa [cut] using h

/-- Each frame shortens the buffer, so the fuel of `frames` never runs out. -/
theorem drain_fuel (hsep : sep ≠ []) {fuel : ℕ} {buffer : List α} (h : buffer.length ≤ fuel) :
    drain sep fuel buffer = frames sep buffer := by
  have hpos : 0 < sep.length := List.length_pos_iff.mpr hsep
  have hmono : ∀ (n m : ℕ) (b : List α), b.length ≤ n → b.length ≤ m →
      drain sep n b = drain sep m b := by
    intro n
    induction n with
    | zero =>
      intro m b hn _
      obtain rfl := List.length_eq_zero_iff.mp (Nat.le_zero.mp hn)
      cases m <;> simp [drain, cut]
    | succ n ih =>
      intro m b hn hm
      cases m with
      | zero =>
        obtain rfl := List.length_eq_zero_iff.mp (Nat.le_zero.mp hm)
        simp [drain, cut]
      | succ m =>
        rw [drain, drain]
        cases hcut : cut sep b with
        | none => rfl
        | some p =>
          have hlen := cut_length hcut
          simp only
          rw [ih m p.2 (by omega) (by omega)]
  exact hmono fuel buffer.length buffer h (Nat.le_refl _)

theorem frames_none {buffer : List α} (h : cut sep buffer = none) :
    frames sep buffer = ([], buffer) := by
  unfold frames
  cases hlen : buffer.length with
  | zero => rw [drain]
  | succ n => rw [drain, h]

theorem frames_some (hsep : sep ≠ []) {buffer frame rest : List α}
    (h : cut sep buffer = some (frame, rest)) :
    frames sep buffer = (frame :: (frames sep rest).1, (frames sep rest).2) := by
  have hpos : 0 < sep.length := List.length_pos_iff.mpr hsep
  have hlen := cut_length h
  obtain ⟨n, hn⟩ : ∃ n, buffer.length = n + 1 := ⟨buffer.length - 1, by omega⟩
  have hrest : drain sep n rest = frames sep rest := drain_fuel hsep (by omega)
  unfold frames
  rw [hn, drain, h]
  simp only [hrest]
  rfl

theorem cut_append {buffer frame rest : List α}
    (h : cut sep buffer = some (frame, rest)) (more : List α) :
    cut sep (buffer ++ more) = some (frame, rest ++ more) := by
  induction buffer generalizing frame with
  | nil => simp [cut] at h
  | cons c buffer ih =>
    rw [List.cons_append, cut]
    rw [cut] at h
    split at h
    next hhead =>
      have hstart := List.isPrefixOf_iff_prefix.mp hhead
      have hle := hstart.length_le
      have hmore : sep.isPrefixOf (c :: (buffer ++ more)) = true :=
        List.isPrefixOf_iff_prefix.mpr (hstart.trans ⟨more, by simp⟩)
      simp only [Option.some.injEq, Prod.mk.injEq] at h
      obtain ⟨rfl, rfl⟩ := h
      rw [if_pos hmore, ← List.cons_append, List.drop_append_of_le_length hle]
    next hhead =>
      cases hrest : cut sep buffer with
      | none => simp [hrest] at h
      | some p =>
        rw [hrest] at h
        simp only [Option.map_some, Option.some.injEq, Prod.mk.injEq] at h
        obtain ⟨rfl, rfl⟩ := h
        -- the separator found further on leaves no room for one that `more` completes here
        have hlen := cut_length hrest
        have hmore : ¬ sep.isPrefixOf (c :: (buffer ++ more)) = true := by
          intro hpre
          apply hhead
          apply List.isPrefixOf_iff_prefix.mpr
          have hlong : sep <+: (c :: buffer) ++ more := by
            rw [List.cons_append]
            exact List.isPrefixOf_iff_prefix.mp hpre
          refine List.prefix_of_prefix_length_le hlong (List.prefix_append _ _) ?_
          rw [List.length_cons]
          omega
        rw [if_neg hmore, ih hrest, Option.map_some]

/-- A buffer is read the same whether the rest of it came at once or later. -/
theorem frames_append (hsep : sep ≠ []) (buffer more : List α) :
    frames sep (buffer ++ more)
      = ((frames sep buffer).1 ++ (frames sep ((frames sep buffer).2 ++ more)).1,
          (frames sep ((frames sep buffer).2 ++ more)).2) := by
  induction hlen : buffer.length using Nat.strongRecOn generalizing buffer with
  | ind n ih =>
    cases hcut : cut sep buffer with
    | none => simp [frames_none hcut]
    | some p =>
      obtain ⟨frame, rest⟩ := p
      have hpos : 0 < sep.length := List.length_pos_iff.mpr hsep
      have hshort := cut_length hcut
      have hrest := ih rest.length (by omega) rest rfl
      rw [frames_some hsep (cut_append hcut more), frames_some hsep hcut, hrest]
      simp

/-- What is left in the buffer holds no separator. -/
theorem cut_frames_rest (hsep : sep ≠ []) (buffer : List α) :
    cut sep (frames sep buffer).2 = none := by
  induction hlen : buffer.length using Nat.strongRecOn generalizing buffer with
  | ind n ih =>
    cases hcut : cut sep buffer with
    | none =>
      rw [frames_none hcut]
      exact hcut
    | some p =>
      obtain ⟨frame, rest⟩ := p
      have hpos : 0 < sep.length := List.length_pos_iff.mpr hsep
      have hshort := cut_length hcut
      rw [frames_some hsep hcut]
      exact ih rest.length (by omega) rest rfl

/-- Within the frame and the separator after it, the first separator is that one. -/
def Clean (sep frame : List α) : Prop := cut sep (frame ++ sep) = some (frame, [])

instance (sep frame : List α) : Decidable (Clean sep frame) :=
  inferInstanceAs (Decidable (_ = _))

theorem cut_clean {frame : List α} (h : Clean sep frame) (rest : List α) :
    cut sep (frame ++ sep ++ rest) = some (frame, rest) := by
  simpa using cut_append h rest

/-- Clean frames come off one by one. -/
theorem frames_clean (hsep : sep ≠ []) {fs : List (List α)} (h : ∀ f ∈ fs, Clean sep f) :
    frames sep (fs.flatMap fun f => f ++ sep) = (fs, []) := by
  induction fs with
  | nil => simp [frames, drain]
  | cons f fs ih =>
    rw [List.forall_mem_cons] at h
    rw [List.flatMap_cons, frames_some hsep (cut_clean h.1 _), ih h.2]

/-! ## One character for a separator -/

theorem cut_single {a : α} {buffer frame rest : List α} (h : cut [a] buffer = some (frame, rest)) :
    buffer = frame ++ a :: rest ∧ a ∉ frame := by
  induction buffer generalizing frame with
  | nil => simp [cut] at h
  | cons c buffer ih =>
    rw [cut] at h
    split at h
    next hhead =>
      simp only [Option.some.injEq, Prod.mk.injEq] at h
      obtain ⟨rfl, rfl⟩ := h
      obtain rfl : a = c := by simpa using hhead
      exact ⟨rfl, List.not_mem_nil⟩
    next hhead =>
      have hne : a ≠ c := by
        rintro rfl
        simp at hhead
      obtain ⟨⟨frame', rest'⟩, hrest, hpair⟩ := Option.map_eq_some_iff.mp h
      simp only [Prod.mk.injEq] at hpair
      obtain ⟨rfl, rfl⟩ := hpair
      obtain ⟨rfl, hnot⟩ := ih hrest
      refine ⟨rfl, ?_⟩
      rw [List.mem_cons, not_or]
      exact ⟨hne, hnot⟩

theorem not_mem_of_cut {a : α} {buffer : List α} (h : cut [a] buffer = none) : a ∉ buffer := by
  induction buffer with
  | nil => exact List.not_mem_nil
  | cons c buffer ih =>
    rw [cut] at h
    split at h
    next => cases h
    next hhead =>
      rw [List.mem_cons, not_or]
      refine ⟨?_, ih (Option.map_eq_none_iff.mp h)⟩
      rintro rfl
      simp at hhead

/-- The frames of a text and what is left of it are its pieces between the separators. -/
theorem splitOn_frames (a : α) (buffer : List α) :
    buffer.splitOn a = (frames [a] buffer).1 ++ [(frames [a] buffer).2] := by
  induction hlen : buffer.length using Nat.strongRecOn generalizing buffer with
  | ind n ih =>
    cases hcut : cut [a] buffer with
    | none =>
      rw [frames_none hcut, List.splitOn_eq_singleton (not_mem_of_cut hcut), List.nil_append]
    | some p =>
      obtain ⟨frame, rest⟩ := p
      have hlength := cut_length hcut
      obtain ⟨hsplit, hnot⟩ := cut_single hcut
      rw [List.length_singleton] at hlength
      rw [frames_some (List.cons_ne_nil a []) hcut, List.cons_append, ← ih rest.length (by omega) rest rfl]
      rw [hsplit, List.splitOn_append_cons_self_of_not_mem hnot]

end Framing
