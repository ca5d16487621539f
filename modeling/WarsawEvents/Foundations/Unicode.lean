import WarsawEvents.Foundations.JsonRoundTrip

/-! # UTF-8 and UTF-16

`encode` is `str.encode("utf-8")`, which refuses surrogates; `decode` is the incremental decoder of
`TextDecoder`, one byte at a time; `utf16` are the units that a JavaScript string holds for a character.

* `encode_isSome_iff`: the texts that can be encoded.
* `decode_encode`: the bytes of a text decode to it, and `decode_append` cuts them anywhere.
-/

namespace Unicode
open Json (Text)
set_option autoImplicit false

abbrev Bytes := List ℕ

/-- A character that is no surrogate. -/
def IsScalar (c : ℕ) : Prop := c < 0xd800 ∨ (0xdfff < c ∧ c < 0x110000)

instance (c : ℕ) : Decidable (IsScalar c) := inferInstanceAs (Decidable (_ ∨ _))

/-! ## Encoding -/

def encodeChar (c : ℕ) : Option Bytes :=
  if c < 0x80 then some [c]
  else if c < 0x800 then some [0xc0 + c / 0x40, 0x80 + c % 0x40]
  else if 0xd800 ≤ c ∧ c ≤ 0xdfff then none
  else if c < 0x10000 then
    some [0xe0 + c / 0x1000, 0x80 + c / 0x40 % 0x40, 0x80 + c % 0x40]
  else if c < 0x110000 then
    some [0xf0 + c / 0x40000, 0x80 + c / 0x1000 % 0x40, 0x80 + c / 0x40 % 0x40, 0x80 + c % 0x40]
  else none

def encode : Text → Option Bytes
  | [] => some []
  | c :: rest => do
    let bytes ← encodeChar c
    let more ← encode rest
    some (bytes ++ more)

theorem encodeChar_isSome_iff (c : ℕ) : (encodeChar c).isSome = true ↔ IsScalar c := by
  unfold encodeChar IsScalar
  repeat' split
  all_goals simp
  all_goals omega

theorem encode_cons (c : ℕ) (rest : Text) :
    encode (c :: rest) = (encodeChar c).bind fun bytes => (encode rest).map fun more =>
      bytes ++ more := by
  cases h : encode rest with
  | none => simp [encode, h]
  | some more => simp [encode, h]

theorem encode_append (s t : Text) :
    encode (s ++ t) = (encode s).bind fun bytes => (encode t).map fun more => bytes ++ more := by
  induction s with
  | nil =>
    cases h : encode t with
    | none => simp [encode, h]
    | some more => simp [encode, h]
  | cons c s ih =>
    rw [List.cons_append, encode_cons, ih, encode_cons]
    cases encodeChar c with
    | none => rfl
    | some head =>
      cases encode s with
      | none => rfl
      | some bytes =>
        cases encode t with
        | none => rfl
        | some more => simp

theorem encode_isSome_iff (t : Text) : (encode t).isSome = true ↔ ∀ c ∈ t, IsScalar c := by
  induction t with
  | nil => simp [encode]
  | cons c rest ih =>
    rw [List.forall_mem_cons, ← encodeChar_isSome_iff, ← ih, encode_cons]
    cases encodeChar c with
    | none => simp
    | some bytes => simp

/-! ## Decoding -/

/-- Between two bytes: the bits so far, the bytes still owed and the bounds of the next one. -/
structure Decoder where
  point : ℕ
  owed : ℕ
  lower : ℕ
  upper : ℕ

def start : Decoder := ⟨0, 0, 0x80, 0xbf⟩

/-- A byte where a character begins; one that begins none is replaced. -/
def lead (b : ℕ) : Decoder × Text :=
  if b < 0x80 then (start, [b])
  else if 0xc2 ≤ b ∧ b ≤ 0xdf then (⟨b - 0xc0, 1, 0x80, 0xbf⟩, [])
  else if 0xe0 ≤ b ∧ b ≤ 0xef then
    (⟨b - 0xe0, 2, if b = 0xe0 then 0xa0 else 0x80, if b = 0xed then 0x9f else 0xbf⟩, [])
  else if 0xf0 ≤ b ∧ b ≤ 0xf4 then
    (⟨b - 0xf0, 3, if b = 0xf0 then 0x90 else 0x80, if b = 0xf4 then 0x8f else 0xbf⟩, [])
  else (start, [0xfffd])

/-- One byte. A byte out of bounds ends the character with a replacement and begins the next. -/
def feed (s : Decoder) (b : ℕ) : Decoder × Text :=
  if s.owed = 0 then lead b
  else if b < s.lower ∨ s.upper < b then ((lead b).1, 0xfffd :: (lead b).2)
  else if s.owed = 1 then (start, [s.point * 0x40 + (b - 0x80)])
  else (⟨s.point * 0x40 + (b - 0x80), s.owed - 1, 0x80, 0xbf⟩, [])

def decode (s : Decoder) : Bytes → Decoder × Text
  | [] => (s, [])
  | b :: bytes => ((decode (feed s b).1 bytes).1, (feed s b).2 ++ (decode (feed s b).1 bytes).2)

/-- The bytes may be cut anywhere, inside a character too. -/
theorem decode_append (s : Decoder) (a b : Bytes) :
    decode s (a ++ b)
      = ((decode (decode s a).1 b).1, (decode s a).2 ++ (decode (decode s a).1 b).2) := by
  induction a generalizing s with
  | nil => simp [decode]
  | cons x a ih => simp [decode, ih, List.append_assoc]

theorem feed_within {point owed lower upper b : ℕ} (howed : 1 < owed) (hlow : lower ≤ b)
    (hhigh : b ≤ upper) :
    feed ⟨point, owed, lower, upper⟩ b
      = (⟨point * 0x40 + (b - 0x80), owed - 1, 0x80, 0xbf⟩, []) := by
  simp only [feed]
  rw [if_neg (by omega), if_neg (by omega), if_neg (by omega)]

theorem feed_last {point lower upper b : ℕ} (hlow : lower ≤ b) (hhigh : b ≤ upper) :
    feed ⟨point, 1, lower, upper⟩ b = (start, [point * 0x40 + (b - 0x80)]) := by
  simp only [feed]
  rw [if_neg (by omega), if_neg (by omega)]
  simp

theorem feed_start (b : ℕ) : feed start b = lead b := by
  simp [feed, start]

/-- The bounds of the second byte rule out overlong forms and surrogates, so they hold here. -/
theorem decode_three {c : ℕ} (hlow : 0x800 ≤ c) (hhigh : c < 0x10000)
    (hscalar : ¬ (0xd800 ≤ c ∧ c ≤ 0xdfff)) :
    decode start [0xe0 + c / 0x1000, 0x80 + c / 0x40 % 0x40, 0x80 + c % 0x40]
      = (start, [c]) := by
  have hlead : lead (0xe0 + c / 0x1000)
      = (⟨c / 0x1000, 2, if 0xe0 + c / 0x1000 = 0xe0 then 0xa0 else 0x80,
          if 0xe0 + c / 0x1000 = 0xed then 0x9f else 0xbf⟩, []) := by
    unfold lead
    rw [if_neg (by omega), if_neg (by omega), if_pos (by omega), Nat.add_sub_cancel_left]
  have hlower : (if 0xe0 + c / 0x1000 = 0xe0 then 0xa0 else 0x80) ≤ 0x80 + c / 0x40 % 0x40 := by
    split <;> omega
  have hupper : 0x80 + c / 0x40 % 0x40 ≤ if 0xe0 + c / 0x1000 = 0xed then 0x9f else 0xbf := by
    split <;> omega
  simp only [decode, feed_start, hlead]
  rw [feed_within (by omega) hlower hupper]
  simp only [Nat.add_one_sub_one]
  rw [feed_last (by omega) (by omega)]
  simp only [List.nil_append, List.append_nil, Prod.mk.injEq, List.cons.injEq, true_and, and_true]
  omega

theorem decode_four {c : ℕ} (hlow : 0x10000 ≤ c) (hhigh : c < 0x110000) :
    decode start [0xf0 + c / 0x40000, 0x80 + c / 0x1000 % 0x40, 0x80 + c / 0x40 % 0x40,
        0x80 + c % 0x40]
      = (start, [c]) := by
  have hlead : lead (0xf0 + c / 0x40000)
      = (⟨c / 0x40000, 3, if 0xf0 + c / 0x40000 = 0xf0 then 0x90 else 0x80,
          if 0xf0 + c / 0x40000 = 0xf4 then 0x8f else 0xbf⟩, []) := by
    unfold lead
    rw [if_neg (by omega), if_neg (by omega), if_neg (by omega), if_pos (by omega),
      Nat.add_sub_cancel_left]
  have hlower : (if 0xf0 + c / 0x40000 = 0xf0 then 0x90 else 0x80) ≤ 0x80 + c / 0x1000 % 0x40 := by
    split <;> omega
  have hupper : 0x80 + c / 0x1000 % 0x40 ≤ if 0xf0 + c / 0x40000 = 0xf4 then 0x8f else 0xbf := by
    split <;> omega
  have hthird : ∀ p, feed ⟨p, 2, 0x80, 0xbf⟩ (0x80 + c / 0x40 % 0x40)
      = (⟨p * 0x40 + (0x80 + c / 0x40 % 0x40 - 0x80), 1, 0x80, 0xbf⟩, []) := by
    intro p
    exact feed_within (by omega) (by omega) (by omega)
  simp only [decode, feed_start, hlead]
  rw [feed_within (by omega) hlower hupper]
  simp only [Nat.add_one_sub_one]
  rw [hthird]
  rw [feed_last (by omega) (by omega)]
  simp only [List.nil_append, List.append_nil, Prod.mk.injEq, List.cons.injEq, true_and, and_true]
  omega

theorem decode_encodeChar {c : ℕ} {bytes : Bytes} (h : encodeChar c = some bytes) :
    decode start bytes = (start, [c]) := by
  unfold encodeChar at h
  split at h
  next h1 =>
    obtain rfl := Option.some.inj h
    simp [decode, feed_start, lead, h1]
  next h1 =>
    split at h
    next h2 =>
      obtain rfl := Option.some.inj h
      have hlead : lead (0xc0 + c / 0x40) = (⟨c / 0x40, 1, 0x80, 0xbf⟩, []) := by
        unfold lead
        rw [if_neg (by omega), if_pos (by omega)]
        simp
      simp only [decode, feed_start, hlead]
      rw [feed_last (by omega) (by omega)]
      simp
      omega
    next h2 =>
      split at h
      next => simp at h
      next hsurrogate =>
        split at h
        next h3 =>
          obtain rfl := Option.some.inj h
          exact decode_three (by omega) h3 hsurrogate
        next h3 =>
          split at h
          next h4 =>
            obtain rfl := Option.some.inj h
            exact decode_four (by omega) h4
          next => simp at h

theorem decode_encode {t : Text} {bytes : Bytes} (h : encode t = some bytes) :
    decode start bytes = (start, t) := by
  induction t generalizing bytes with
  | nil =>
    obtain rfl : [] = bytes := by simpa [encode] using h
    rfl
  | cons c rest ih =>
    rw [encode_cons] at h
    obtain ⟨head, hhead, htail⟩ := Option.bind_eq_some_iff.mp h
    obtain ⟨more, hmore, rfl⟩ := Option.map_eq_some_iff.mp htail
    rw [decode_append, decode_encodeChar hhead, ih hmore]
    rfl

/-! ## Bytes -/

theorem encodeChar_lt {c b : ℕ} {bytes : Bytes} (h : encodeChar c = some bytes) (hb : b ∈ bytes) :
    b < 0x100 := by
  unfold encodeChar at h
  split_ifs at h <;>
  · obtain rfl := Option.some.inj h
    simp only [List.mem_cons, List.not_mem_nil, or_false] at hb
    omega

/-- A byte below 0x80 stands for itself only. -/
theorem encodeChar_ascii {c b : ℕ} {bytes : Bytes} (h : encodeChar c = some bytes) (hb : b ∈ bytes)
    (hascii : b < 0x80) : b = c := by
  unfold encodeChar at h
  split_ifs at h <;>
  · obtain rfl := Option.some.inj h
    simp only [List.mem_cons, List.not_mem_nil, or_false] at hb
    omega

theorem mem_encode {t : Text} {bytes : Bytes} (h : encode t = some bytes) {b : ℕ} (hb : b ∈ bytes) :
    ∃ c ∈ t, ∃ head, encodeChar c = some head ∧ b ∈ head := by
  induction t generalizing bytes with
  | nil =>
    obtain rfl : [] = bytes := by simpa [encode] using h
    cases hb
  | cons c rest ih =>
    rw [encode_cons] at h
    obtain ⟨head, hhead, htail⟩ := Option.bind_eq_some_iff.mp h
    obtain ⟨more, hmore, rfl⟩ := Option.map_eq_some_iff.mp htail
    rcases List.mem_append.mp hb with hb | hb
    · exact ⟨c, List.mem_cons_self, head, hhead, hb⟩
    · obtain ⟨d, hd, found⟩ := ih hmore hb
      exact ⟨d, List.mem_cons_of_mem c hd, found⟩

/-! ## Strings -/

/-- The code points of a string. -/
def points (s : String) : Text := s.toList.map Char.toNat

theorem points_scalar (s : String) : ∀ c ∈ points s, IsScalar c := by
  intro c hc
  obtain ⟨char, -, rfl⟩ := List.mem_map.mp hc
  exact char.valid

theorem points_injective : Function.Injective points := by
  intro s t h
  have hchar : Function.Injective Char.toNat := fun a b hab => Char.toNat_inj.mp hab
  exact String.toList_inj.mp (List.map_injective_iff.mpr hchar h)

/-- `s.encode("utf-8")`, which a string without surrogates never refuses. -/
def utf8 (s : String) : Bytes := (encode (points s)).getD []

theorem encode_points (s : String) : encode (points s) = some (utf8 s) := by
  obtain ⟨bytes, hbytes⟩ := Option.isSome_iff_exists.mp ((encode_isSome_iff _).mpr (points_scalar s))
  rw [utf8, hbytes]
  rfl

theorem decode_utf8 (s : String) : decode start (utf8 s) = (start, points s) :=
  decode_encode (encode_points s)

theorem utf8_injective : Function.Injective utf8 := by
  intro s t h
  have hpoints : (start, points s) = (start, points t) := by
    rw [← decode_utf8 s, ← decode_utf8 t, h]
  exact points_injective (congrArg Prod.snd hpoints)

theorem utf8_lt {s : String} {b : ℕ} (hb : b ∈ utf8 s) : b < 0x100 := by
  obtain ⟨c, -, head, hhead, hmem⟩ := mem_encode (encode_points s) hb
  exact encodeChar_lt hhead hmem

theorem utf8_ascii {s : String} {b : ℕ} (hb : b ∈ utf8 s) (hascii : b < 0x80) : b ∈ points s := by
  obtain ⟨c, hc, head, hhead, hmem⟩ := mem_encode (encode_points s) hb
  rwa [encodeChar_ascii hhead hmem hascii]

theorem utf8_append (s t : String) : utf8 (s ++ t) = utf8 s ++ utf8 t := by
  have happend : encode (points (s ++ t)) = some (utf8 s ++ utf8 t) := by
    have hpoints : points (s ++ t) = points s ++ points t := by simp [points]
    rw [hpoints, encode_append, encode_points, encode_points]
    rfl
  exact Option.some.inj ((encode_points (s ++ t)).symm.trans happend)

theorem utf8_singleton {c : Char} {bytes : Bytes} (h : encodeChar c.toNat = some bytes) :
    utf8 (String.ofList [c]) = bytes := by
  have hpoints : points (String.ofList [c]) = [c.toNat] := by
    rw [points, String.toList_ofList]
    rfl
  rw [utf8, hpoints, encode_cons, h]
  simp [encode]

/-- A text whose bytes begin with those of another begins with it. -/
theorem points_of_prefix {s t : String} {rest : Bytes} (h : utf8 t = utf8 s ++ rest) :
    points t = points s ++ (decode start rest).2 := by
  have hdecode := decode_utf8 t
  rw [h, decode_append, decode_utf8] at hdecode
  exact (congrArg Prod.snd hdecode).symm

/-! ## Characters that differ in the last byte -/

theorem encodeChar_one {c : ℕ} (h : c < 0x80) : encodeChar c = some [c] := if_pos h

theorem encodeChar_two {c : ℕ} (hlow : 0x80 ≤ c) (hhigh : c < 0x800) :
    encodeChar c = some [0xc0 + c / 0x40, 0x80 + c % 0x40] := by
  rw [encodeChar, if_neg (by omega), if_pos hhigh]

theorem encodeChar_three {c : ℕ} (hlow : 0x800 ≤ c) (hhigh : c < 0x10000)
    (hscalar : ¬(0xd800 ≤ c ∧ c ≤ 0xdfff)) :
    encodeChar c = some [0xe0 + c / 0x1000, 0x80 + c / 0x40 % 0x40, 0x80 + c % 0x40] := by
  rw [encodeChar, if_neg (by omega), if_neg (by omega), if_neg hscalar, if_pos hhigh]

theorem encodeChar_four {c : ℕ} (hlow : 0x10000 ≤ c) (hhigh : c < 0x110000) :
    encodeChar c = some [0xf0 + c / 0x40000, 0x80 + c / 0x1000 % 0x40, 0x80 + c / 0x40 % 0x40,
      0x80 + c % 0x40] := by
  rw [encodeChar, if_neg (by omega), if_neg (by omega), if_neg (by omega), if_neg (by omega),
    if_pos hhigh]

def twin (c : ℕ) : ℕ := if c % 2 = 0 then c + 1 else c - 1

theorem twin_ne (c : ℕ) : twin c ≠ c := by
  unfold twin
  split <;> omega

theorem twin_scalar {c : ℕ} (h : IsScalar c) : IsScalar (twin c) := by
  unfold twin IsScalar at *
  split <;> omega

theorem encodeChar_twin {c : ℕ} (h : IsScalar c) : ∃ front b b',
    encodeChar c = some (front ++ [b]) ∧ encodeChar (twin c) = some (front ++ [b']) := by
  have hhalf : twin c / 2 = c / 2 := by
    unfold twin
    split <;> omega
  generalize htwin : twin c = t at hhalf
  have hscalar : IsScalar t := htwin ▸ twin_scalar h
  unfold IsScalar at h hscalar
  have h1 : t / 0x40 = c / 0x40 := by omega
  have h2 : t / 0x1000 = c / 0x1000 := by omega
  have h3 : t / 0x40000 = c / 0x40000 := by omega
  rcases Nat.lt_or_ge c 0x80 with hone | hone
  · exact ⟨[], c, t, encodeChar_one hone, encodeChar_one (by omega)⟩
  rcases Nat.lt_or_ge c 0x800 with htwo | htwo
  · refine ⟨[0xc0 + c / 0x40], 0x80 + c % 0x40, 0x80 + t % 0x40, encodeChar_two hone htwo, ?_⟩
    rw [← h1]
    exact encodeChar_two (by omega) (by omega)
  rcases Nat.lt_or_ge c 0x10000 with hthree | hthree
  · refine ⟨[0xe0 + c / 0x1000, 0x80 + c / 0x40 % 0x40], 0x80 + c % 0x40, 0x80 + t % 0x40,
      encodeChar_three htwo hthree (by omega), ?_⟩
    rw [← h1, ← h2]
    exact encodeChar_three (by omega) (by omega) (by omega)
  · refine ⟨[0xf0 + c / 0x40000, 0x80 + c / 0x1000 % 0x40, 0x80 + c / 0x40 % 0x40],
      0x80 + c % 0x40, 0x80 + t % 0x40, encodeChar_four hthree (by omega), ?_⟩
    rw [← h1, ← h2, ← h3]
    exact encodeChar_four (by omega) (by omega)

theorem toNat_ofNat {n : ℕ} (h : IsScalar n) : (Char.ofNat n).toNat = n := by
  have hvalid : n.isValidChar := h
  unfold Char.ofNat
  rw [dif_pos hvalid]
  rfl

/-! ## UTF-16 -/

def utf16 (c : ℕ) : Text :=
  if c < 0x10000 then [c]
  else [0xd800 + (c - 0x10000) / 0x400, 0xdc00 + (c - 0x10000) % 0x400]

theorem utf16_recodes : Json.Recodes utf16 where
  ascii := by
    intro c hc
    rw [utf16, if_pos (by omega)]
  other := by
    intro c hc u hu
    unfold utf16 at hu
    split at hu
    next =>
      obtain rfl := List.mem_singleton.mp hu
      exact hc
    next =>
      simp only [List.mem_cons, List.not_mem_nil, or_false] at hu
      omega

end Unicode
