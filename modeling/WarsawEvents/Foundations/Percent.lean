import Mathlib.Data.Nat.Notation
import Mathlib.Tactic.Common

/-! # Percent encoding

`quote` writes the safe bytes of a text as themselves and every other one as `%` and two digits, and
`unquote` reads them back. `ValueChars` is the syntax of an extended header parameter.
-/

namespace Percent
set_option autoImplicit false

/-! ## Digits -/

def digit (n : ℕ) : Char := Char.ofNat (if n < 10 then 0x30 + n else 0x37 + n)

def digitValue (c : Char) : Option ℕ :=
  if '0' ≤ c ∧ c ≤ '9' then some (c.toNat - 0x30)
  else if 'A' ≤ c ∧ c ≤ 'F' then some (c.toNat - 0x37)
  else if 'a' ≤ c ∧ c ≤ 'f' then some (c.toNat - 0x57)
  else none

theorem digitValue_digit : ∀ n < 16, digitValue (digit n) = some n := by decide

/-! ## Encoding and decoding -/

variable (safe : ℕ → Bool)

def quoteByte (b : ℕ) : List Char :=
  if safe b then [Char.ofNat b] else ['%', digit (b / 16), digit (b % 16)]

def quote (bytes : List ℕ) : List Char := bytes.flatMap (quoteByte safe)

def unquote : List Char → Option (List ℕ)
  | [] => some []
  | c :: rest =>
    if c = '%' then
      match rest with
      | high :: low :: rest =>
        (digitValue high).bind fun h => (digitValue low).bind fun l =>
          (unquote rest).map fun bytes => (h * 16 + l) :: bytes
      | _ => none
    else (unquote rest).map fun bytes => c.toNat :: bytes

variable {safe}

theorem toNat_ofNat_ascii {b : ℕ} (h : b < 0x80) : (Char.ofNat b).toNat = b := by
  have hvalid : b.isValidChar := Or.inl (by omega)
  unfold Char.ofNat
  rw [dif_pos hvalid]
  rfl

theorem unquote_plain {c : Char} (h : c ≠ '%') (rest : List Char) :
    unquote (c :: rest) = (unquote rest).map fun bytes => c.toNat :: bytes := by
  rw [unquote.eq_def]
  exact if_neg h

theorem unquote_escape {b : ℕ} (h : b < 0x100) (rest : List Char) :
    unquote ('%' :: digit (b / 16) :: digit (b % 16) :: rest)
      = (unquote rest).map fun bytes => b :: bytes := by
  have hhigh : digitValue (digit (b / 16)) = some (b / 16) := digitValue_digit _ (by omega)
  have hlow : digitValue (digit (b % 16)) = some (b % 16) := digitValue_digit _ (by omega)
  have hbyte : b / 16 * 16 + b % 16 = b := by omega
  rw [unquote, if_pos rfl, hhigh, hlow, Option.bind_some, Option.bind_some, hbyte]

theorem unquote_quoteByte {b : ℕ} (h : b < 0x100) (hsafe : safe b = true → b < 0x80 ∧ b ≠ 0x25)
    (rest : List Char) :
    unquote (quoteByte safe b ++ rest) = (unquote rest).map fun bytes => b :: bytes := by
  unfold quoteByte
  by_cases hb : safe b = true
  · obtain ⟨hascii, hne⟩ := hsafe hb
    have hchar : Char.ofNat b ≠ '%' := fun heq =>
      hne ((toNat_ofNat_ascii hascii).symm.trans (congrArg Char.toNat heq))
    rw [if_pos hb, List.singleton_append, unquote_plain hchar, toNat_ofNat_ascii hascii]
  · rw [if_neg hb]
    exact unquote_escape h rest

/-- Where the safe bytes are ASCII and `%` is none of them, what is quoted is read back. -/
theorem unquote_quote {bytes : List ℕ} (h : ∀ b ∈ bytes, b < 0x100)
    (hsafe : ∀ b ∈ bytes, safe b = true → b < 0x80 ∧ b ≠ 0x25) :
    unquote (quote safe bytes) = some bytes := by
  induction bytes with
  | nil => rfl
  | cons b bytes ih =>
    obtain ⟨hb, hbytes⟩ := List.forall_mem_cons.mp h
    obtain ⟨hsafeb, hsafes⟩ := List.forall_mem_cons.mp hsafe
    have hsplit : quote safe (b :: bytes) = quoteByte safe b ++ quote safe bytes := List.flatMap_cons
    rw [hsplit, unquote_quoteByte hb hsafeb, ih hbytes hsafes]
    rfl

/-! ## The syntax of a value -/

/-- `attr-char`: a letter, a digit or one of twelve marks. -/
def marks : List Char := "!#$&+-.^_`|~".toList

def attrChar (c : Char) : Bool := c.isAlphanum || marks.contains c

def hexDigit (c : Char) : Bool := c.isDigit || ('A' ≤ c && c ≤ 'F') || ('a' ≤ c && c ≤ 'f')

/-- `value-chars = *( pct-encoded / attr-char )`. -/
inductive ValueChars : List Char → Prop where
  | nil : ValueChars []
  | attr {c : Char} {rest : List Char} : attrChar c = true → ValueChars rest → ValueChars (c :: rest)
  | escape {high low : Char} {rest : List Char} : hexDigit high = true → hexDigit low = true →
      ValueChars rest → ValueChars ('%' :: high :: low :: rest)

/-- A visible character of ASCII, or the blank. -/
def Printable (c : Char) : Prop := 0x20 ≤ c.toNat ∧ c.toNat ≤ 0x7e

instance (c : Char) : Decidable (Printable c) := inferInstanceAs (Decidable (_ ∧ _))

theorem hexDigit_digit : ∀ n < 16, hexDigit (digit n) = true := by decide

theorem printable_alphanum {c : Char} (h : c.isAlphanum = true) : Printable c := by
  change ((decide ('A'.val ≤ c.val ∧ c.val ≤ 'Z'.val) || ('a'.val ≤ c.val && c.val ≤ 'z'.val))
    || ('0'.val ≤ c.val && c.val ≤ '9'.val)) = true at h
  simp only [Bool.or_eq_true, Bool.and_eq_true, decide_eq_true_eq, UInt32.le_iff_toNat_le] at h
  change ((65 ≤ c.toNat ∧ c.toNat ≤ 90) ∨ (97 ≤ c.toNat ∧ c.toNat ≤ 122)) ∨
    (48 ≤ c.toNat ∧ c.toNat ≤ 57) at h
  unfold Printable
  omega

theorem printable_hexDigit {c : Char} (h : hexDigit c = true) : Printable c := by
  simp only [hexDigit, Char.isDigit, Bool.or_eq_true, Bool.and_eq_true, decide_eq_true_eq,
    Char.le_def, UInt32.le_iff_toNat_le] at h
  change ((48 ≤ c.toNat ∧ c.toNat ≤ 57) ∨ (65 ≤ c.toNat ∧ c.toNat ≤ 70)) ∨
    (97 ≤ c.toNat ∧ c.toNat ≤ 102) at h
  unfold Printable
  omega

theorem printable_marks : ∀ c ∈ marks, Printable c := by
  have hall : marks.all (fun c => decide (Printable c)) = true := by decide
  exact fun c hc => of_decide_eq_true (List.all_eq_true.mp hall c hc)

theorem printable_attrChar {c : Char} (h : attrChar c = true) : Printable c := by
  rcases Bool.or_eq_true_iff.mp h with h | h
  · exact printable_alphanum h
  · exact printable_marks c (List.contains_iff_mem.mp h)

theorem ValueChars.printable {value : List Char} (h : ValueChars value) : ∀ c ∈ value, Printable c := by
  induction h with
  | nil => simp
  | attr hc _ ih => exact List.forall_mem_cons.mpr ⟨printable_attrChar hc, ih⟩
  | escape hhigh hlow _ ih =>
    have hpercent : Printable '%' := ⟨by decide, by decide⟩
    simp only [List.forall_mem_cons]
    exact ⟨hpercent, printable_hexDigit hhigh, printable_hexDigit hlow, ih⟩

theorem valueChars_quote {bytes : List ℕ} (h : ∀ b ∈ bytes, b < 0x100)
    (hsafe : ∀ b ∈ bytes, safe b = true → attrChar (Char.ofNat b) = true) :
    ValueChars (quote safe bytes) := by
  induction bytes with
  | nil => exact .nil
  | cons b bytes ih =>
    obtain ⟨hb, hbytes⟩ := List.forall_mem_cons.mp h
    obtain ⟨hsafeb, hsafes⟩ := List.forall_mem_cons.mp hsafe
    have hrest : ValueChars (quote safe bytes) := ih hbytes hsafes
    have hsplit : quote safe (b :: bytes) = quoteByte safe b ++ quote safe bytes := List.flatMap_cons
    rw [hsplit, quoteByte]
    by_cases hs : safe b = true
    · rw [if_pos hs]
      exact .attr (hsafeb hs) hrest
    · rw [if_neg hs]
      exact .escape (hexDigit_digit _ (by omega)) (hexDigit_digit _ (by omega)) hrest

end Percent
