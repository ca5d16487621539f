import Mathlib.Data.List.TakeWhile
import Mathlib.Tactic.Tauto
import WarsawEvents.Foundations.Json

/-! # What the JSON writer writes is read back

* `read_write`: a written document is read back when all its numbers are, and refused otherwise.
* `forall_mem_write`: what holds of printable ASCII holds of the text as soon as it holds of the other
  characters of its strings.
* `write_flatMap`: a recoding of the non-ASCII characters of the text recodes its strings.
-/

namespace Json
set_option autoImplicit false

/-! ## Strings -/

theorem hexValue_hexDigit {n : ℕ} (h : n < 16) : hexValue (hexDigit n) = some n := by
  have hall : ∀ k < 16, hexValue (hexDigit k) = some k := by decide
  exact hall n h

theorem readHex4_hex4 {n : ℕ} (h : n < 0x10000) (rest : Text) :
    readHex4 (hex4 n ++ rest) = some (n, rest) := by
  have hval : 4096 * (n / 4096 % 16) + 256 * (n / 256 % 16) + 16 * (n / 16 % 16) + n % 16 = n := by
    omega
  simp only [hex4, List.cons_append, List.nil_append, readHex4]
  rw [hexValue_hexDigit (by omega), hexValue_hexDigit (by omega), hexValue_hexDigit (by omega),
    hexValue_hexDigit (by omega)]
  simp only [hval]

/-- A written character is read back, and none of them starts with the closing mark. -/
theorem readChar_escape (joins : Bool) (c : ℕ) (rest : Text) :
    ∃ h t, escape c = h :: t ∧ h ≠ 0x22 ∧ readChar joins h (t ++ rest) = some (c, rest) := by
  by_cases hspecial : c ∈ [0x22, 0x5c, 0x08, 0x0c, 0x0a, 0x0d, 0x09]
  · simp only [List.mem_cons, List.not_mem_nil, or_false] at hspecial
    obtain rfl | rfl | rfl | rfl | rfl | rfl | rfl := hspecial <;>
      exact ⟨0x5c, _, rfl, by decide, rfl⟩
  simp only [List.mem_cons, List.not_mem_nil, or_false, not_or] at hspecial
  obtain ⟨hmark, hback, h8, hc, ha, hd, h9⟩ := hspecial
  by_cases hcontrol : c < 0x20
  · refine ⟨0x5c, 0x75 :: hex4 c, ?_, by decide, ?_⟩
    · simp [escape, hmark, hback, h8, hc, ha, hd, h9, hcontrol, ascii]
    · have hnot : ¬ 0xd800 ≤ c := by omega
      simp [readChar, readHex4_hex4 (show c < 0x10000 by omega), hnot]
  · refine ⟨c, [], ?_, hmark, ?_⟩
    · simp [escape, hmark, hback, h8, hc, ha, hd, h9, hcontrol]
    · simp [readChar, hback, hcontrol]

theorem readString_quote (joins : Bool) (s rest : Text) (fuel : ℕ) (h : s.length < fuel) :
    readString joins fuel (s.flatMap escape ++ 0x22 :: rest) = some (s, rest) := by
  induction s generalizing fuel with
  | nil =>
    cases fuel with
    | zero => simp at h
    | succ fuel => simp [readString]
  | cons c s ih =>
    cases fuel with
    | zero => simp at h
    | succ fuel =>
      obtain ⟨m, t, hesc, hmark, hread⟩ :=
        readChar_escape joins c (s.flatMap escape ++ 0x22 :: rest)
      rw [List.flatMap_cons, hesc, List.append_assoc]
      simp only [List.cons_append, readString, hmark, if_false, hread]
      rw [List.length_cons] at h
      simp [ih fuel (by omega)]

theorem length_le_flatMap_escape (s : Text) : s.length ≤ (s.flatMap escape).length := by
  induction s with
  | nil => simp
  | cons c s ih =>
    obtain ⟨m, t, hesc, _⟩ := readChar_escape false c []
    rw [List.flatMap_cons, hesc, List.length_append, List.length_cons, List.length_cons]
    omega

/-! ## Number tokens -/

theorem next_cons {c : ℕ} (h : isBlank c = false) (rest : Text) :
    next (c :: rest) = some (c, rest) := by
  simp [next, h]

theorem next_space (rest : Text) : next (0x20 :: rest) = next rest := by
  simp [next, isBlank]

theorem isNumberChar_of_isDigit {c : ℕ} (h : isDigit c = true) : isNumberChar c = true := by
  simp [isNumberChar, h]

theorem isNumberChar_of_all {t : Text} (h : t.all isDigit = true) :
    ∀ c ∈ t, isNumberChar c = true := by
  intro c hc
  exact isNumberChar_of_isDigit (List.all_eq_true.mp h c hc)

/-- A run of digits and what follows it. -/
theorem isNumberChar_split {t : Text} (h : ∀ c ∈ t.dropWhile isDigit, isNumberChar c = true) :
    ∀ c ∈ t, isNumberChar c = true := by
  intro c hc
  rw [← List.takeWhile_append_dropWhile (p := isDigit) (l := t)] at hc
  obtain hd | hr := List.mem_append.mp hc
  · exact isNumberChar_of_isDigit (List.mem_takeWhile_imp hd)
  · exact h c hr

theorem isNumberChar_of_isExponent {t : Text} (h : isExponent t = true) :
    ∀ c ∈ t, isNumberChar c = true := by
  cases t with
  | nil => simp
  | cons e rest =>
    cases rest with
    | nil => simp [isExponent] at h
    | cons s ds =>
      simp only [isExponent, Bool.and_eq_true, Bool.or_eq_true, beq_iff_eq] at h
      obtain ⟨he, hrest⟩ := h
      have hhead : isNumberChar e = true := by
        obtain rfl | rfl := he <;> decide
      have htail : ∀ c ∈ s :: ds, isNumberChar c = true := by
        split at hrest
        next hsign =>
          have hs : isNumberChar s = true := by
            obtain rfl | rfl := hsign <;> decide
          simp only [Bool.and_eq_true] at hrest
          exact List.forall_mem_cons.mpr ⟨hs, isNumberChar_of_all hrest.2⟩
        next => exact isNumberChar_of_all hrest
      exact List.forall_mem_cons.mpr ⟨hhead, htail⟩

theorem isNumberChar_of_isFraction {t : Text} (h : isFraction t = true) :
    ∀ c ∈ t, isNumberChar c = true := by
  unfold isFraction at h
  split at h
  next rest =>
    rw [Bool.and_eq_true] at h
    refine List.forall_mem_cons.mpr ⟨by decide, ?_⟩
    exact isNumberChar_split (isNumberChar_of_isExponent h.2)
  next => exact isNumberChar_of_isExponent h

/-- A number token starts with a digit or a minus and has no character of another kind. -/
theorem isUnsigned_spec {t : Text} (h : isUnsigned t = true) :
    (∃ c r, t = c :: r ∧ isDigit c = true) ∧ ∀ c ∈ t, isNumberChar c = true := by
  unfold isUnsigned at h
  split at h
  next => simp at h
  next d ds hd =>
    rw [Bool.and_eq_true] at h
    refine ⟨?_, isNumberChar_split (isNumberChar_of_isFraction h.2)⟩
    cases t with
    | nil => simp at hd
    | cons c r =>
      refine ⟨c, r, rfl, ?_⟩
      by_contra hnot
      rw [List.takeWhile_cons_of_neg hnot] at hd
      simp at hd

theorem isNumber_spec {t : Text} (h : isNumber t = true) :
    (∃ c r, t = c :: r ∧ (c = 0x2d ∨ isDigit c = true)) ∧ ∀ c ∈ t, isNumberChar c = true := by
  unfold isNumber at h
  split at h
  next rest =>
    exact ⟨⟨0x2d, rest, rfl, Or.inl rfl⟩,
      List.forall_mem_cons.mpr ⟨by decide, (isUnsigned_spec h).2⟩⟩
  next =>
    obtain ⟨⟨c, r, rfl, hc⟩, hall⟩ := isUnsigned_spec h
    exact ⟨⟨c, r, rfl, Or.inr hc⟩, hall⟩

/-- What follows a value does not go on with a number. -/
def Ends (rest : Text) : Prop := ∀ c ∈ rest.head?, isNumberChar c = false

theorem takeWhile_token {t rest : Text} (ht : ∀ c ∈ t, isNumberChar c = true) (hr : Ends rest) :
    (t ++ rest).takeWhile isNumberChar = t ∧ (t ++ rest).dropWhile isNumberChar = rest := by
  have hfirst : rest.takeWhile isNumberChar = [] ∧ rest.dropWhile isNumberChar = rest := by
    cases rest with
    | nil => simp
    | cons c r =>
      have hc : ¬ isNumberChar c = true := by
        rw [hr c (by simp)]
        decide
      exact ⟨List.takeWhile_cons_of_neg hc, List.dropWhile_cons_of_neg hc⟩
  rw [List.takeWhile_append_of_pos ht, List.dropWhile_append_of_pos ht, hfirst.1, hfirst.2]
  simp

section
variable {ν : Type}

theorem readScalar_number {d : Dialect ν} (hd : d.constants = []) {t rest : Text} {x : ν}
    (ht : isNumber t = true) (hx : d.number t = some x) (hr : Ends rest) :
    readScalar d (t ++ rest) = some (.num x, rest) := by
  obtain ⟨⟨c, r, hcr, hc⟩, hall⟩ := isNumber_spec ht
  obtain ⟨htake, hdrop⟩ := takeWhile_token hall hr
  have hword : (words d).find? (fun p => p.1.isPrefixOf (t ++ rest)) = none := by
    have hn : c ≠ 0x6e ∧ c ≠ 0x74 ∧ c ≠ 0x66 := by
      obtain rfl | hdigit := hc
      · decide
      · simp only [isDigit, Bool.and_eq_true, decide_eq_true_eq] at hdigit
        omega
    simp [words, hd, hcr, ascii, List.isPrefixOf, hn.1.symm, hn.2.1.symm, hn.2.2.symm]
  simp only [readScalar, hword, htake, hdrop, ht, hx, if_true, Option.map_some]

/-! ## Values -/

/-- A character that a value other than a string, an array or an object may start with. -/
def Opens (c : ℕ) : Prop :=
  isBlank c = false ∧ c ≠ 0x22 ∧ c ≠ 0x5b ∧ c ≠ 0x5d ∧ c ≠ 0x7b ∧ c ≠ 0x7d

/-- The reader reads the numbers that are `ok` and refuses the others. -/
structure Dialect.Knows (d : Dialect ν) (num : ν → Text) (ok : ν → Bool) : Prop where
  opens : ∀ x, ∃ c r, num x = c :: r ∧ Opens c
  reads : ∀ x rest, ok x = true → Ends rest →
    readScalar d (num x ++ rest) = some (.num x, rest)
  refuses : ∀ x rest, ok x = false → Ends rest → readScalar d (num x ++ rest) = none

mutual

def Value.allNumbers (ok : ν → Bool) : Value ν → Bool
  | .num x => ok x
  | .arr vs => allElems ok vs
  | .obj ms => allMembers ok ms
  | _ => true

def allElems (ok : ν → Bool) : List (Value ν) → Bool
  | [] => true
  | v :: vs => v.allNumbers ok && allElems ok vs

def allMembers (ok : ν → Bool) : List (Text × Value ν) → Bool
  | [] => true
  | (_, v) :: ms => v.allNumbers ok && allMembers ok ms

end

variable {d : Dialect ν} {num : ν → Text} {ok : ν → Bool}

/-- A written value starts with no blank and with no closing bracket. -/
theorem write_head (h : d.Knows num ok) (v : Value ν) :
    ∃ c r, write num v = c :: r ∧ isBlank c = false ∧ c ≠ 0x5d ∧ c ≠ 0x7d := by
  cases v with
  | null => exact ⟨0x6e, _, rfl, by decide⟩
  | bool b =>
    cases b with
    | true => exact ⟨0x74, _, rfl, by decide⟩
    | false => exact ⟨0x66, _, rfl, by decide⟩
  | num x =>
    obtain ⟨c, r, hx, hblank, _, _, h5d, _, h7d⟩ := h.opens x
    exact ⟨c, r, by rw [write, hx], hblank, h5d, h7d⟩
  | str s => exact ⟨0x22, _, by rw [write, quote], by decide⟩
  | arr vs => exact ⟨0x5b, _, by rw [write], by decide⟩
  | obj ms => exact ⟨0x7b, _, by rw [write], by decide⟩

theorem writeElems_head (h : d.Knows num ok) (v : Value ν) (vs : List (Value ν)) :
    ∃ c r, writeElems num (v :: vs) = c :: r ∧ isBlank c = false ∧ c ≠ 0x5d ∧ c ≠ 0x7d := by
  obtain ⟨c, r, hv, hc⟩ := write_head h v
  cases vs with
  | nil => exact ⟨c, r, by rw [writeElems, hv], hc⟩
  | cons w vs => exact ⟨c, _, by rw [writeElems, hv, List.cons_append], hc⟩

theorem writeMembers_head (num : ν → Text) (m : Text × Value ν) (ms : List (Text × Value ν)) :
    ∃ r, writeMembers num (m :: ms) = 0x22 :: r := by
  cases ms with
  | nil => exact ⟨_, by rw [writeMembers, quote, List.cons_append]⟩
  | cons m' ms => exact ⟨_, by rw [writeMembers, quote, List.cons_append]⟩

theorem write_length_pos (h : d.Knows num ok) (v : Value ν) : 0 < (write num v).length := by
  obtain ⟨c, r, hv, _⟩ := write_head h v
  rw [hv]
  simp

theorem ends_cons {c : ℕ} (h : isNumberChar c = false) (rest : Text) : Ends (c :: rest) := by
  intro c' hc'
  obtain rfl : c = c' := by simpa using hc'
  exact h

theorem readString_marked (joins : Bool) (s rest : Text) :
    readString joins ((s.flatMap escape ++ 0x22 :: rest).length + 1)
      (s.flatMap escape ++ 0x22 :: rest) = some (s, rest) := by
  apply readString_quote
  have hlen := length_le_flatMap_escape s
  rw [List.length_append]
  omega

theorem quote_append (s rest : Text) :
    quote s ++ rest = 0x22 :: (s.flatMap escape ++ 0x22 :: rest) := by
  simp [quote]

theorem comma_append (rest : Text) : ascii ", " ++ rest = 0x2c :: 0x20 :: rest := by
  simp [ascii]

theorem colon_append (rest : Text) : ascii ": " ++ rest = 0x3a :: 0x20 :: rest := by
  simp [ascii]

/-- A blank before a value is skipped. -/
theorem readValue_space (fuel : ℕ) (rest : Text) :
    readValue d fuel (0x20 :: rest) = readValue d fuel rest := by
  cases fuel with
  | zero => simp [readValue]
  | succ fuel => simp [readValue, next_space]

theorem readElems_space (fuel : ℕ) (rest : Text) :
    readElems d fuel (0x20 :: rest) = readElems d fuel rest := by
  cases fuel with
  | zero => simp [readElems]
  | succ fuel => simp [readElems, readValue_space]

theorem readMembers_space (fuel : ℕ) (rest : Text) :
    readMembers d fuel (0x20 :: rest) = readMembers d fuel rest := by
  cases fuel with
  | zero => simp [readMembers]
  | succ fuel => simp [readMembers, next_space]

/-! One equation for each way a value, an element or a member goes on. -/

theorem readValue_scalar {c : ℕ} (hc : Opens c) (fuel : ℕ) (rest : Text) :
    readValue d (fuel + 1) (c :: rest) = readScalar d (c :: rest) := by
  obtain ⟨hblank, hmark, h5b, _, h7b, _⟩ := hc
  simp [readValue, next_cons hblank, hmark, h5b, h7b]

theorem readValue_str (fuel : ℕ) (s rest : Text) :
    readValue d (fuel + 1) (quote s ++ rest) = some (.str s, rest) := by
  have hmark : next (quote s ++ rest) = some (0x22, s.flatMap escape ++ 0x22 :: rest) := by
    rw [quote_append, next_cons (by decide)]
  simp only [readValue, hmark, Option.bind_eq_bind, Option.bind_some, if_true, readString_marked]

theorem readValue_arr {rest r : Text} {c : ℕ} (hnext : next rest = some (c, r)) (hc : c ≠ 0x5d)
    (fuel : ℕ) : readValue d (fuel + 1) (0x5b :: rest)
      = (readElems d fuel rest).map fun p => (.arr p.1, p.2) := by
  have hopen : next (0x5b :: rest) = some (0x5b, rest) := next_cons (by decide) rest
  cases he : readElems d fuel rest with
  | none => simp [readValue, hopen, hnext, hc, he]
  | some p => simp [readValue, hopen, hnext, hc, he]

theorem readValue_obj {rest r : Text} {c : ℕ} (hnext : next rest = some (c, r)) (hc : c ≠ 0x7d)
    (fuel : ℕ) : readValue d (fuel + 1) (0x7b :: rest)
      = (readMembers d fuel rest).map fun p => (.obj p.1, p.2) := by
  have hopen : next (0x7b :: rest) = some (0x7b, rest) := next_cons (by decide) rest
  cases he : readMembers d fuel rest with
  | none => simp [readValue, hopen, hnext, hc, he]
  | some p => simp [readValue, hopen, hnext, hc, he]

theorem readElems_none {fuel : ℕ} {text : Text} (h : readValue d fuel text = none) :
    readElems d (fuel + 1) text = none := by
  simp [readElems, h]

theorem readElems_last {fuel : ℕ} {text rest : Text} {v : Value ν}
    (h : readValue d fuel text = some (v, 0x5d :: rest)) :
    readElems d (fuel + 1) text = some ([v], rest) := by
  have hclose : next (0x5d :: rest) = some (0x5d, rest) := next_cons (by decide) rest
  simp [readElems, h, hclose]

theorem readElems_more {fuel : ℕ} {text rest : Text} {v : Value ν}
    (h : readValue d fuel text = some (v, ascii ", " ++ rest)) :
    readElems d (fuel + 1) text = (readElems d fuel rest).map fun p => (v :: p.1, p.2) := by
  have hcomma : next (ascii ", " ++ rest) = some (0x2c, 0x20 :: rest) := by
    rw [comma_append, next_cons (by decide)]
  cases he : readElems d fuel rest with
  | none => simp [readElems, h, hcomma, readElems_space, he]
  | some p => simp [readElems, h, hcomma, readElems_space, he]

/-- The member up to its value. -/
theorem readMembers_key (fuel : ℕ) (k rest : Text) :
    readMembers d (fuel + 1) (quote k ++ (ascii ": " ++ rest))
      = (readValue d fuel rest).bind fun p => (next p.2).bind fun q =>
          if q.1 = 0x2c then (readMembers d fuel q.2).bind fun m => some ((k, p.1) :: m.1, m.2)
          else if q.1 = 0x7d then some ([(k, p.1)], q.2) else none := by
  have hmark : next (quote k ++ (ascii ": " ++ rest))
      = some (0x22, k.flatMap escape ++ 0x22 :: (ascii ": " ++ rest)) := by
    rw [quote_append, next_cons (by decide)]
  have hcolon : next (ascii ": " ++ rest) = some (0x3a, 0x20 :: rest) := by
    rw [colon_append, next_cons (by decide)]
  simp only [readMembers, hmark, Option.bind_eq_bind, Option.bind_some, readString_marked, hcolon,
    readValue_space, ne_eq, not_true_eq_false, if_false]

theorem readMembers_none {fuel : ℕ} {k rest : Text} (h : readValue d fuel rest = none) :
    readMembers d (fuel + 1) (quote k ++ (ascii ": " ++ rest)) = none := by
  rw [readMembers_key, h, Option.bind_none]

theorem readMembers_last {fuel : ℕ} {k text rest : Text} {v : Value ν}
    (h : readValue d fuel text = some (v, 0x7d :: rest)) :
    readMembers d (fuel + 1) (quote k ++ (ascii ": " ++ text)) = some ([(k, v)], rest) := by
  have hclose : next (0x7d :: rest) = some (0x7d, rest) := next_cons (by decide) rest
  simp [readMembers_key, h, hclose]

theorem readMembers_more {fuel : ℕ} {k text rest : Text} {v : Value ν}
    (h : readValue d fuel text = some (v, ascii ", " ++ rest)) :
    readMembers d (fuel + 1) (quote k ++ (ascii ": " ++ text))
      = (readMembers d fuel rest).map fun m => ((k, v) :: m.1, m.2) := by
  have hcomma : next (ascii ", " ++ rest) = some (0x2c, 0x20 :: rest) := by
    rw [comma_append, next_cons (by decide)]
  rw [readMembers_key, h]
  cases hm : readMembers d fuel rest with
  | none => simp [hcomma, readMembers_space, hm]
  | some p => simp [hcomma, readMembers_space, hm]

mutual

/-- The written value is read back when all its numbers are, and nothing is read otherwise. -/
theorem readValue_write (h : d.Knows num ok) : ∀ (v : Value ν) (fuel : ℕ) (rest : Text),
    (write num v).length < fuel → Ends rest →
    readValue d fuel (write num v ++ rest) = if v.allNumbers ok then some (v, rest) else none
  | _, 0, _, hfuel, _ => by omega
  | .null, fuel + 1, rest, _, _ => by
    have hword := readValue_scalar (d := d) (c := 0x6e) (by unfold Opens; decide) fuel
      (ascii "ull" ++ rest)
    exact hword.trans (by simp [readScalar, words, ascii, Value.allNumbers])
  | .bool true, fuel + 1, rest, _, _ => by
    have hword := readValue_scalar (d := d) (c := 0x74) (by unfold Opens; decide) fuel
      (ascii "rue" ++ rest)
    exact hword.trans (by simp [readScalar, words, ascii, Value.allNumbers])
  | .bool false, fuel + 1, rest, _, _ => by
    have hword := readValue_scalar (d := d) (c := 0x66) (by unfold Opens; decide) fuel
      (ascii "alse" ++ rest)
    exact hword.trans (by simp [readScalar, words, ascii, Value.allNumbers])
  | .num x, fuel + 1, rest, _, hr => by
    obtain ⟨c, r, hx, hc⟩ := h.opens x
    have hscalar : readValue d (fuel + 1) (num x ++ rest) = readScalar d (num x ++ rest) := by
      rw [hx, List.cons_append, readValue_scalar hc]
    rw [write, hscalar, Value.allNumbers]
    cases hok : ok x with
    | true => simp [h.reads x rest hok hr]
    | false => simp [h.refuses x rest hok hr]
  | .str s, fuel + 1, rest, _, _ => by
    rw [write, readValue_str, Value.allNumbers, if_pos rfl]
    all_goals simp
  | .arr [], fuel + 1, rest, _, _ => by
    simp [write, writeElems, readValue, next_cons (show isBlank 0x5b = false by decide),
      next_cons (show isBlank 0x5d = false by decide), Value.allNumbers, allElems]
  | .arr (v :: vs), fuel + 1, rest, hfuel, _ => by
    rw [write, List.length_cons, List.length_append, List.length_singleton] at hfuel
    have helems := readElems_write h v vs fuel rest (by omega)
    obtain ⟨c, r, hv, hblank, h5d, _⟩ := writeElems_head h v vs
    have hnext : next (writeElems num (v :: vs) ++ 0x5d :: rest)
        = some (c, r ++ 0x5d :: rest) := by
      rw [hv, List.cons_append, next_cons hblank]
    rw [write, List.cons_append, List.append_assoc, List.singleton_append,
      readValue_arr hnext h5d, helems, Value.allNumbers]
    cases allElems ok (v :: vs) <;> simp
  | .obj [], fuel + 1, rest, _, _ => by
    simp [write, writeMembers, readValue, next_cons (show isBlank 0x7b = false by decide),
      next_cons (show isBlank 0x7d = false by decide), Value.allNumbers, allMembers]
  | .obj (m :: ms), fuel + 1, rest, hfuel, _ => by
    rw [write, List.length_cons, List.length_append, List.length_singleton] at hfuel
    have hmembers := readMembers_write h m ms fuel rest (by omega)
    obtain ⟨r, hm⟩ := writeMembers_head num m ms
    have hnext : next (writeMembers num (m :: ms) ++ 0x7d :: rest)
        = some (0x22, r ++ 0x7d :: rest) := by
      rw [hm, List.cons_append, next_cons (by decide)]
    rw [write, List.cons_append, List.append_assoc, List.singleton_append,
      readValue_obj hnext (by decide), hmembers, Value.allNumbers]
    cases allMembers ok (m :: ms) <;> simp

theorem readElems_write (h : d.Knows num ok) : ∀ (v : Value ν) (vs : List (Value ν)) (fuel : ℕ)
    (rest : Text), (writeElems num (v :: vs)).length + 1 < fuel →
    readElems d fuel (writeElems num (v :: vs) ++ 0x5d :: rest)
      = if allElems ok (v :: vs) then some (v :: vs, rest) else none
  | _, _, 0, _, hfuel => by omega
  | v, [], fuel + 1, rest, hfuel => by
    rw [writeElems] at hfuel ⊢
    have hv := readValue_write h v fuel (0x5d :: rest) (by omega) (ends_cons (by decide) rest)
    simp only [allElems, Bool.and_true]
    cases hok : v.allNumbers ok with
    | true =>
      rw [hok, if_pos rfl] at hv
      rw [readElems_last hv, if_pos rfl]
    | false =>
      rw [hok] at hv
      rw [readElems_none (by simpa using hv)]
      simp
  | v, w :: vs, fuel + 1, rest, hfuel => by
    have hpos := write_length_pos h v
    have htwo : (ascii ", ").length = 2 := by simp [ascii]
    rw [writeElems, List.length_append, List.length_append, htwo] at hfuel
    have hends : Ends (ascii ", " ++ (writeElems num (w :: vs) ++ 0x5d :: rest)) := by
      rw [comma_append]
      exact ends_cons (by decide) _
    have hv := readValue_write h v fuel _ (by omega) hends
    have hvs := readElems_write h w vs fuel rest (by omega)
    rw [writeElems, List.append_assoc, List.append_assoc, allElems]
    cases hok : v.allNumbers ok with
    | true =>
      rw [hok, if_pos rfl] at hv
      rw [readElems_more hv, hvs, Bool.true_and]
      cases allElems ok (w :: vs) <;> simp
    | false =>
      rw [hok] at hv
      rw [readElems_none (by simpa using hv)]
      simp

theorem readMembers_write (h : d.Knows num ok) : ∀ (m : Text × Value ν)
    (ms : List (Text × Value ν)) (fuel : ℕ) (rest : Text),
    (writeMembers num (m :: ms)).length + 1 < fuel →
    readMembers d fuel (writeMembers num (m :: ms) ++ 0x7d :: rest)
      = if allMembers ok (m :: ms) then some (m :: ms, rest) else none
  | _, _, 0, _, hfuel => by omega
  | (k, v), [], fuel + 1, rest, hfuel => by
    have htwo : (ascii ": ").length = 2 := by simp [ascii]
    rw [writeMembers, List.length_append, List.length_append, htwo] at hfuel
    have hv := readValue_write h v fuel (0x7d :: rest) (by omega) (ends_cons (by decide) rest)
    rw [writeMembers, List.append_assoc, List.append_assoc]
    simp only [allMembers, Bool.and_true]
    cases hok : v.allNumbers ok with
    | true =>
      rw [hok, if_pos rfl] at hv
      rw [readMembers_last hv, if_pos rfl]
    | false =>
      rw [hok] at hv
      rw [readMembers_none (by simpa using hv)]
      simp
  | (k, v), m :: ms, fuel + 1, rest, hfuel => by
    have htwo : (ascii ": ").length = 2 := by simp [ascii]
    have htwo' : (ascii ", ").length = 2 := by simp [ascii]
    rw [writeMembers, List.length_append, List.length_append, List.length_append,
      List.length_append, htwo, htwo'] at hfuel
    have hends : Ends (ascii ", " ++ (writeMembers num (m :: ms) ++ 0x7d :: rest)) := by
      rw [comma_append]
      exact ends_cons (by decide) _
    have hv := readValue_write h v fuel _ (by omega) hends
    have hms := readMembers_write h m ms fuel rest (by omega)
    rw [writeMembers, List.append_assoc, List.append_assoc, List.append_assoc, List.append_assoc,
      allMembers]
    cases hok : v.allNumbers ok with
    | true =>
      rw [hok, if_pos rfl] at hv
      rw [readMembers_more hv, hms, Bool.true_and]
      cases allMembers ok (m :: ms) <;> simp
    | false =>
      rw [hok] at hv
      rw [readMembers_none (by simpa using hv)]
      simp

end

/-- The round trip of whole documents. -/
theorem read_write (h : d.Knows num ok) (v : Value ν) :
    read d (write num v) = if v.allNumbers ok then some v else none := by
  have hv := readValue_write h v ((write num v).length + 1) [] (by omega) (by simp [Ends])
  rw [List.append_nil] at hv
  unfold read
  rw [hv]
  cases v.allNumbers ok <;> simp [next]

/-! ## The characters of a written value -/

theorem escape_printable {c : ℕ} (h : c < 0x80) : ∀ x ∈ escape c, 0x20 ≤ x ∧ x < 0x80 := by
  have hall : ∀ k < 0x80, ∀ x ∈ escape k, 0x20 ≤ x ∧ x < 0x80 := by decide +kernel
  exact hall c h

theorem escape_other {c : ℕ} (h : 0x80 ≤ c) : escape c = [c] := by
  have hne : ∀ k < 0x80, c ≠ k := by
    intro k hk
    omega
  simp [escape, hne, show ¬ c < 0x20 by omega]

mutual

/-- The characters of all strings and keys. -/
def Value.chars : Value ν → Text
  | .str s => s
  | .arr vs => charsElems vs
  | .obj ms => charsMembers ms
  | _ => []

def charsElems : List (Value ν) → Text
  | [] => []
  | v :: vs => v.chars ++ charsElems vs

def charsMembers : List (Text × Value ν) → Text
  | [] => []
  | (k, v) :: ms => k ++ (v.chars ++ charsMembers ms)

end

section
variable {P : ℕ → Prop}

theorem forall_mem_quote (hP : ∀ c, 0x20 ≤ c → c < 0x80 → P c) (s : Text) :
    (∀ x ∈ quote s, P x) ↔ ∀ c ∈ s, 0x80 ≤ c → P c := by
  constructor
  · intro h c hc hother
    apply h c
    have hesc : c ∈ s.flatMap escape := List.mem_flatMap.mpr ⟨c, hc, by simp [escape_other hother]⟩
    simp [quote, hesc]
  · intro h x hx
    have hcases : x = 0x22 ∨ x ∈ s.flatMap escape := by
      simp only [quote, List.mem_cons, List.mem_append, List.not_mem_nil, or_false] at hx
      tauto
    obtain rfl | hbody := hcases
    · exact hP _ (by decide) (by decide)
    · obtain ⟨c, hc, hxc⟩ := List.mem_flatMap.mp hbody
      by_cases hother : 0x80 ≤ c
      · rw [escape_other hother, List.mem_singleton] at hxc
        rw [hxc]
        exact h c hc hother
      · obtain ⟨hlow, hhigh⟩ := escape_printable (by omega) x hxc
        exact hP x hlow hhigh

theorem forall_mem_ascii (hP : ∀ c, 0x20 ≤ c → c < 0x80 → P c) {t : Text}
    (ht : ∀ c ∈ t, 0x20 ≤ c ∧ c < 0x80) : ∀ c ∈ t, P c := by
  intro c hc
  exact hP c (ht c hc).1 (ht c hc).2

mutual

/-- What holds of the printable ASCII characters holds of a whole text as soon as it holds of the
other characters of its strings. -/
theorem forall_mem_write (hP : ∀ c, 0x20 ≤ c → c < 0x80 → P c)
    (hnum : ∀ x : ν, ∀ c ∈ num x, P c) :
    ∀ v : Value ν, (∀ x ∈ write num v, P x) ↔ ∀ c ∈ v.chars, 0x80 ≤ c → P c
  | .null => by
    simpa [write, Value.chars] using forall_mem_ascii hP (t := ascii "null") (by decide)
  | .bool true => by
    simpa [write, Value.chars] using forall_mem_ascii hP (t := ascii "true") (by decide)
  | .bool false => by
    simpa [write, Value.chars] using forall_mem_ascii hP (t := ascii "false") (by decide)
  | .num x => by
    simpa [write, Value.chars] using hnum x
  | .str s => by
    rw [write, Value.chars]
    exact forall_mem_quote hP s
  | .arr vs => by
    have hvs := forall_mem_writeElems hP hnum vs
    have hopen := hP 0x5b (by decide) (by decide)
    have hclose := hP 0x5d (by decide) (by decide)
    simp only [write, Value.chars, List.forall_mem_cons, List.forall_mem_append,
      hopen, hclose, hvs, List.not_mem_nil, false_implies, implies_true, true_and, and_true]
  | .obj ms => by
    have hms := forall_mem_writeMembers hP hnum ms
    have hopen := hP 0x7b (by decide) (by decide)
    have hclose := hP 0x7d (by decide) (by decide)
    simp only [write, Value.chars, List.forall_mem_cons, List.forall_mem_append,
      hopen, hclose, hms, List.not_mem_nil, false_implies, implies_true, true_and, and_true]

theorem forall_mem_writeElems (hP : ∀ c, 0x20 ≤ c → c < 0x80 → P c)
    (hnum : ∀ x : ν, ∀ c ∈ num x, P c) :
    ∀ vs : List (Value ν), (∀ x ∈ writeElems num vs, P x) ↔ ∀ c ∈ charsElems vs, 0x80 ≤ c → P c
  | [] => by simp [writeElems, charsElems]
  | [v] => by
    simpa [writeElems, charsElems] using forall_mem_write hP hnum v
  | v :: w :: vs => by
    have hcomma := forall_mem_ascii hP (t := ascii ", ") (by decide)
    rw [writeElems, charsElems, List.forall_mem_append, List.forall_mem_append,
      List.forall_mem_append, forall_mem_write hP hnum v, forall_mem_writeElems hP hnum (w :: vs)]
    tauto

theorem forall_mem_writeMembers (hP : ∀ c, 0x20 ≤ c → c < 0x80 → P c)
    (hnum : ∀ x : ν, ∀ c ∈ num x, P c) : ∀ ms : List (Text × Value ν),
    (∀ x ∈ writeMembers num ms, P x) ↔ ∀ c ∈ charsMembers ms, 0x80 ≤ c → P c
  | [] => by simp [writeMembers, charsMembers]
  | [(k, v)] => by
    have hcolon := forall_mem_ascii hP (t := ascii ": ") (by decide)
    rw [writeMembers, charsMembers, charsMembers, List.append_nil, List.forall_mem_append,
      List.forall_mem_append, List.forall_mem_append, forall_mem_quote hP,
      forall_mem_write hP hnum v]
    tauto
  | (k, v) :: m :: ms => by
    have hcolon := forall_mem_ascii hP (t := ascii ": ") (by decide)
    have hcomma := forall_mem_ascii hP (t := ascii ", ") (by decide)
    rw [writeMembers, charsMembers, List.forall_mem_append, List.forall_mem_append,
      List.forall_mem_append, List.forall_mem_append, List.forall_mem_append,
      List.forall_mem_append, forall_mem_quote hP, forall_mem_write hP hnum v,
      forall_mem_writeMembers hP hnum (m :: ms)]
    tauto

end

end

/-! ## Recoding -/

/-- A recoding that leaves ASCII alone and makes no ASCII of the rest. -/
structure Recodes (f : ℕ → Text) : Prop where
  ascii : ∀ c, c < 0x80 → f c = [c]
  other : ∀ c, 0x80 ≤ c → ∀ u ∈ f c, 0x80 ≤ u

mutual

def Value.recode (f : ℕ → Text) : Value ν → Value ν
  | .str s => .str (s.flatMap f)
  | .arr vs => .arr (recodeElems f vs)
  | .obj ms => .obj (recodeMembers f ms)
  | v => v

def recodeElems (f : ℕ → Text) : List (Value ν) → List (Value ν)
  | [] => []
  | v :: vs => v.recode f :: recodeElems f vs

def recodeMembers (f : ℕ → Text) : List (Text × Value ν) → List (Text × Value ν)
  | [] => []
  | (k, v) :: ms => (k.flatMap f, v.recode f) :: recodeMembers f ms

end

section
variable {f : ℕ → Text}

theorem Recodes.flatMap_ascii (hf : Recodes f) {t : Text} (ht : ∀ c ∈ t, c < 0x80) :
    t.flatMap f = t := by
  induction t with
  | nil => rfl
  | cons c t ih =>
    rw [List.forall_mem_cons] at ht
    rw [List.flatMap_cons, hf.ascii c ht.1, ih ht.2, List.singleton_append]

theorem flatMap_escape_other {t : Text} (ht : ∀ c ∈ t, 0x80 ≤ c) : t.flatMap escape = t := by
  induction t with
  | nil => rfl
  | cons c t ih =>
    rw [List.forall_mem_cons] at ht
    rw [List.flatMap_cons, escape_other ht.1, ih ht.2, List.singleton_append]

theorem Recodes.escape (hf : Recodes f) (c : ℕ) :
    (escape c).flatMap f = (f c).flatMap Json.escape := by
  by_cases hc : c < 0x80
  · rw [hf.ascii c hc, hf.flatMap_ascii fun x hx => (escape_printable hc x hx).2]
    simp
  · rw [escape_other (by omega), flatMap_escape_other (hf.other c (by omega))]
    simp

theorem Recodes.quote (hf : Recodes f) (s : Text) :
    (quote s).flatMap f = Json.quote (s.flatMap f) := by
  have hbody : (s.flatMap Json.escape).flatMap f = (s.flatMap f).flatMap Json.escape := by
    rw [List.flatMap_assoc, List.flatMap_assoc]
    congr 1
    funext c
    exact hf.escape c
  have hmark : f 0x22 = [0x22] := hf.ascii _ (by decide)
  simp only [Json.quote, List.flatMap_cons, List.flatMap_append, List.flatMap_nil, hbody, hmark]
  simp

theorem Recodes.text (hf : Recodes f) {s : String} (hs : ∀ c ∈ Json.ascii s, c < 0x80) :
    (Json.ascii s).flatMap f = Json.ascii s :=
  hf.flatMap_ascii hs

mutual

theorem write_flatMap (hf : Recodes f) (hnum : ∀ x : ν, ∀ c ∈ num x, c < 0x80) :
    ∀ v : Value ν, (write num v).flatMap f = write num (v.recode f)
  | .null => by simpa [write, Value.recode] using hf.text (by decide)
  | .bool true => by simpa [write, Value.recode] using hf.text (by decide)
  | .bool false => by simpa [write, Value.recode] using hf.text (by decide)
  | .num x => by simpa [write, Value.recode] using hf.flatMap_ascii (hnum x)
  | .str s => by simpa [write, Value.recode] using hf.quote s
  | .arr vs => by
    have hopen : f 0x5b = [0x5b] := hf.ascii _ (by decide)
    have hclose : f 0x5d = [0x5d] := hf.ascii _ (by decide)
    simp only [write, Value.recode, List.flatMap_cons, List.flatMap_append, List.flatMap_nil, hopen,
      hclose, writeElems_flatMap hf hnum vs]
    simp
  | .obj ms => by
    have hopen : f 0x7b = [0x7b] := hf.ascii _ (by decide)
    have hclose : f 0x7d = [0x7d] := hf.ascii _ (by decide)
    simp only [write, Value.recode, List.flatMap_cons, List.flatMap_append, List.flatMap_nil, hopen,
      hclose, writeMembers_flatMap hf hnum ms]
    simp

theorem writeElems_flatMap (hf : Recodes f) (hnum : ∀ x : ν, ∀ c ∈ num x, c < 0x80) :
    ∀ vs : List (Value ν), (writeElems num vs).flatMap f = writeElems num (recodeElems f vs)
  | [] => by simp [writeElems, recodeElems]
  | [v] => by simpa [writeElems, recodeElems] using write_flatMap hf hnum v
  | v :: w :: vs => by
    have htail := writeElems_flatMap hf hnum (w :: vs)
    rw [recodeElems] at htail
    rw [writeElems, recodeElems, recodeElems, writeElems, List.flatMap_append, List.flatMap_append,
      hf.text (by decide), write_flatMap hf hnum v, htail]

theorem writeMembers_flatMap (hf : Recodes f) (hnum : ∀ x : ν, ∀ c ∈ num x, c < 0x80) :
    ∀ ms : List (Text × Value ν),
      (writeMembers num ms).flatMap f = writeMembers num (recodeMembers f ms)
  | [] => by simp [writeMembers, recodeMembers]
  | [(k, v)] => by
    rw [writeMembers, recodeMembers, recodeMembers, writeMembers, List.flatMap_append,
      List.flatMap_append, hf.quote, hf.text (by decide), write_flatMap hf hnum v]
  | (k, v) :: (k', v') :: ms => by
    have htail := writeMembers_flatMap hf hnum ((k', v') :: ms)
    rw [recodeMembers] at htail
    rw [writeMembers, recodeMembers, recodeMembers, writeMembers, List.flatMap_append,
      List.flatMap_append, List.flatMap_append, List.flatMap_append, hf.quote,
      hf.text (by decide), hf.text (by decide), write_flatMap hf hnum v, htail]

end

mutual

theorem Value.allNumbers_recode : ∀ v : Value ν, (v.recode f).allNumbers ok = v.allNumbers ok
  | .null => rfl
  | .bool _ => rfl
  | .num _ => rfl
  | .str _ => rfl
  | .arr vs => by rw [Value.recode, Value.allNumbers, Value.allNumbers, allElems_recode vs]
  | .obj ms => by rw [Value.recode, Value.allNumbers, Value.allNumbers, allMembers_recode ms]

theorem allElems_recode : ∀ vs : List (Value ν), allElems ok (recodeElems f vs) = allElems ok vs
  | [] => rfl
  | v :: vs => by rw [recodeElems, allElems, allElems, Value.allNumbers_recode v, allElems_recode vs]

theorem allMembers_recode : ∀ ms : List (Text × Value ν),
    allMembers ok (recodeMembers f ms) = allMembers ok ms
  | [] => rfl
  | (_, v) :: ms => by
    rw [recodeMembers, allMembers, allMembers, Value.allNumbers_recode v, allMembers_recode ms]

end

end

end

end Json
