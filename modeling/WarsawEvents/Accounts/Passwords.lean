import WarsawEvents.Accounts.Auth
import WarsawEvents.Foundations.Unicode

/-! # Passwords and their bytes

`RegisterRequest` bounds the characters of a password, bcrypt takes its UTF-8 bytes. Up to 72 bytes an
accepted password works, and no other accepted one does. Beyond, the locked bcrypt refuses to hash it,
and an older one takes every password with the same first 72 bytes for it.
-/

namespace WarsawEvents.Accounts
set_option autoImplicit false

open Unicode (utf8)

/-! ## bcrypt -/

/-- What bcrypt does with more than 72 bytes: 5.0.0 raises `ValueError`, older versions ignore the rest. -/
inductive LongInput where
  | raises
  | ignores
  deriving DecidableEq, Repr

def bcryptBytes : ℕ := 72

def IsBytes (a : Unicode.Bytes) : Prop := ∀ b ∈ a, b < 0x100

/-- bcrypt on byte strings that it takes whole. A hash carries its salt. -/
structure Bcrypt where
  core : String → Unicode.Bytes → Text
  saltOf : Text → Option String
  long : LongInput
  injective : ∀ salt a b, IsBytes a → IsBytes b → a.length ≤ bcryptBytes → b.length ≤ bcryptBytes →
    core salt a = core salt b → a = b
  saltOf_core : ∀ salt a, IsBytes a → a.length ≤ bcryptBytes → saltOf (core salt a) = some salt

/-- The bytes bcrypt looks at; none where it raises. -/
def LongInput.taken (long : LongInput) (password : Unicode.Bytes) : Option Unicode.Bytes :=
  if password.length ≤ bcryptBytes then some password
  else
    match long with
    | .raises => none
    | .ignores => some (password.take bcryptBytes)

variable (B : Bcrypt)

def Bcrypt.hashpw (password : Unicode.Bytes) (salt : String) : Option Text :=
  (B.long.taken password).map (B.core salt)

/-- `bcrypt.checkpw`, none where it raises: the password is hashed again with the salt of the hash. -/
def Bcrypt.checkpw (password : Unicode.Bytes) (hashed : Text) : Option Bool :=
  (B.saltOf hashed).bind fun salt => (B.hashpw password salt).map fun h => decide (h = hashed)

/-! ## `app.auth.passwords` -/

def hashPassword (salt password : String) : Option Text := B.hashpw (utf8 password) salt

def verifyPassword (password : String) (passwordHash : Text) : Bool :=
  (B.checkpw (utf8 password) passwordHash).getD false

/-- The endpoints with this bcrypt. -/
def Bcrypt.deps (d : Deps) : Deps :=
  { d with hashpw := hashPassword B, checkpw := verifyPassword B }

/-- The bounds of `RegisterRequest.password`. -/
def Accepted (password : String) : Prop := 8 ≤ password.length ∧ password.length ≤ maxPasswordBytes

def wrongPassword : Reply := .http 401 "Invalid email or password"

/-- `register` hashes the password, `login` takes it for every row with that hash, and
`verify_password` no other accepted one. -/
def WorksAlone (d : Deps) (salt : String) (req : RegisterRequest) : Prop :=
  ∃ h, d.hashpw salt req.password = some h ∧
    (∀ u : User, u.passwordHash = some h → ∀ amb c,
      (login d amb c req.password u).reply ≠ wrongPassword) ∧
    ∀ q, Accepted q → q ≠ req.password → d.checkpw q h = false

/-- The passwords that bcrypt tells from all other accepted ones. -/
def Fits : LongInput → String → Prop
  | .raises, p => (utf8 p).length ≤ bcryptBytes
  | .ignores, p => (utf8 p).length < bcryptBytes ∨
      ((utf8 p).length = bcryptBytes ∧ p.length = maxPasswordBytes)

/-! ## What bcrypt tells apart -/

variable {B} {a : Unicode.Bytes} {p q salt : String}

theorem isBytes_utf8 (s : String) : IsBytes (utf8 s) := fun _ => Unicode.utf8_lt

theorem taken_short {long : LongInput} (h : a.length ≤ bcryptBytes) : long.taken a = some a := if_pos h

theorem taken_ignores (a : Unicode.Bytes) : LongInput.ignores.taken a = some (a.take bcryptBytes) := by
  unfold LongInput.taken
  split
  next h => rw [List.take_of_length_le h]
  next => rfl

theorem taken_bytes {long : LongInput} {b : Unicode.Bytes} (ha : IsBytes a) (h : long.taken a = some b) :
    IsBytes b ∧ b.length ≤ bcryptBytes := by
  unfold LongInput.taken at h
  split at h
  next hshort =>
    obtain rfl := Option.some.inj h
    exact ⟨ha, hshort⟩
  next =>
    cases long with
    | raises => cases h
    | ignores =>
      obtain rfl := Option.some.inj h
      exact ⟨fun x hx => ha x (List.mem_of_mem_take hx), List.length_take_le _ _⟩

/-- A password opens the hash of what bcrypt took of another where it takes the same of it. -/
theorem verifyPassword_iff (ha : IsBytes a) (hshort : a.length ≤ bcryptBytes) :
    verifyPassword B q (B.core salt a) = true ↔ B.long.taken (utf8 q) = some a := by
  unfold verifyPassword Bcrypt.checkpw Bcrypt.hashpw
  rw [B.saltOf_core salt a ha hshort, Option.bind_some]
  cases htaken : B.long.taken (utf8 q) with
  | none => simp
  | some b =>
    obtain ⟨hb, hbshort⟩ := taken_bytes (isBytes_utf8 q) htaken
    simp only [Option.map_some, Option.getD_some, decide_eq_true_eq, Option.some.injEq]
    constructor
    · intro hsame
      exact B.injective salt b a hb ha hbshort hshort hsame
    · rintro rfl
      rfl

/-- The password is the first thing `login` looks at, and no later answer is that one. -/
theorem login_wrongPassword_iff {d : Deps} {amb : Ambient} {c : Cookie} {u : User} {h : Text}
    (hhash : u.passwordHash = some h) :
    (login d amb c p u).reply = wrongPassword ↔ d.checkpw p h = false := by
  have hok : passwordOk d u p = d.checkpw p h := by rw [passwordOk, hhash]
  unfold login
  rw [hok]
  cases d.checkpw p h with
  | false => exact ⟨fun _ => rfl, fun _ => rfl⟩
  | true =>
    refine ⟨fun hreply => ?_, fun hfalse => by cases hfalse⟩
    simp only [Bool.not_true, Bool.false_eq_true, if_false] at hreply
    split at hreply
    next => cases hreply
    next =>
      split at hreply
      next => cases hreply
      next => cases hreply

theorem worksAlone_iff (B : Bcrypt) (d : Deps) (salt : String) (req : RegisterRequest) :
    WorksAlone (B.deps d) salt req ↔ ∃ a, B.long.taken (utf8 req.password) = some a ∧
      ∀ q, Accepted q → q ≠ req.password → B.long.taken (utf8 q) ≠ some a := by
  have hcheck : ∀ q h, (B.deps d).checkpw q h = verifyPassword B q h := fun _ _ => rfl
  have hhash : (B.deps d).hashpw salt req.password
      = (B.long.taken (utf8 req.password)).map (B.core salt) := rfl
  unfold WorksAlone
  rw [hhash]
  constructor
  · rintro ⟨h, hh, -, hclosed⟩
    obtain ⟨a, ha, rfl⟩ := Option.map_eq_some_iff.mp hh
    obtain ⟨hbytes, hshort⟩ := taken_bytes (isBytes_utf8 _) ha
    refine ⟨a, ha, fun q hq hne htaken => ?_⟩
    have hrefused := hclosed q hq hne
    rw [hcheck, (verifyPassword_iff hbytes hshort).mpr htaken] at hrefused
    cases hrefused
  · rintro ⟨a, ha, hapart⟩
    obtain ⟨hbytes, hshort⟩ := taken_bytes (isBytes_utf8 _) ha
    refine ⟨B.core salt a, by rw [ha]; rfl, fun u hu amb c hreply => ?_, fun q hq hne => ?_⟩
    · have hrefused := (login_wrongPassword_iff hu).mp hreply
      rw [hcheck, (verifyPassword_iff hbytes hshort).mpr ha] at hrefused
      cases hrefused
    · rw [hcheck, Bool.eq_false_iff]
      exact fun hopen => hapart q hq hne ((verifyPassword_iff hbytes hshort).mp hopen)

/-! ## Passwords with the same first bytes -/

theorem points_length (s : String) : (Unicode.points s).length = s.length := by
  rw [Unicode.points, List.length_map, String.length_toList]

theorem same_of_short (hp : (utf8 p).length < bcryptBytes)
    (h : (utf8 q).take bcryptBytes = (utf8 p).take bcryptBytes) : q = p := by
  have hlen := congrArg List.length h
  simp only [List.length_take] at hlen
  rw [List.take_of_length_le (by omega), List.take_of_length_le (by omega)] at h
  exact Unicode.utf8_injective h

/-- 72 bytes in 72 characters leave no room for a character more. -/
theorem same_of_full (hbytes : (utf8 p).length = bcryptBytes) (hchars : p.length = maxPasswordBytes)
    (hq : q.length ≤ maxPasswordBytes)
    (h : (utf8 q).take bcryptBytes = (utf8 p).take bcryptBytes) : q = p := by
  rw [List.take_of_length_le hbytes.le] at h
  have hbegins : utf8 q = utf8 p ++ (utf8 q).drop bcryptBytes := by
    rw [← h, List.take_append_drop]
  have hpoints := Unicode.points_of_prefix hbegins
  have hlen := congrArg List.length hpoints
  rw [List.length_append, points_length, points_length] at hlen
  have hnil : (Unicode.decode Unicode.start ((utf8 q).drop bcryptBytes)).2 = [] :=
    List.eq_nil_of_length_eq_zero (by omega)
  rw [hnil, List.append_nil] at hpoints
  exact Unicode.points_injective hpoints

theorem other_of_full (hbytes : (utf8 p).length = bcryptBytes) :
    p ++ "a" ≠ p ∧ (utf8 (p ++ "a")).take bcryptBytes = (utf8 p).take bcryptBytes := by
  constructor
  · intro h
    have hlen := congrArg String.length h
    rw [String.length_append] at hlen
    exact absurd hlen (by simp)
  · rw [Unicode.utf8_append, List.take_append_of_le_length hbytes.ge]

/-- The last character reaches past the bytes that are read, so another one in its place is not seen. -/
theorem other_of_long (hbytes : bcryptBytes < (utf8 p).length) :
    ∃ q, q ≠ p ∧ q.length = p.length ∧
      (utf8 q).take bcryptBytes = (utf8 p).take bcryptBytes := by
  rcases List.eq_nil_or_concat p.toList with hnil | ⟨front, c, hlast⟩
  · obtain rfl : p = "" := String.toList_inj.mp hnil
    exact absurd hbytes (by decide)
  have hp : p = String.ofList front ++ String.ofList [c] := by
    rw [← String.ofList_append, ← List.concat_eq_append, ← hlast, String.ofList_toList]
  have htwin := Unicode.toNat_ofNat (Unicode.twin_scalar (c := c.toNat) c.valid)
  obtain ⟨head, b, b', hc, hc'⟩ := Unicode.encodeChar_twin (c := c.toNat) c.valid
  rw [← htwin] at hc'
  have hbytes_p : utf8 p = utf8 (String.ofList front) ++ head ++ [b] := by
    rw [hp, Unicode.utf8_append, Unicode.utf8_singleton hc, List.append_assoc]
  refine ⟨String.ofList front ++ String.ofList [Char.ofNat (Unicode.twin c.toNat)], ?_, ?_, ?_⟩
  · intro h
    rw [hp, ← String.ofList_append, ← String.ofList_append] at h
    have hchars := List.append_cancel_left (String.ofList_injective h)
    have hsame : Char.ofNat (Unicode.twin c.toNat) = c := List.head_eq_of_cons_eq hchars
    rw [hsame] at htwin
    exact Unicode.twin_ne c.toNat htwin.symm
  · rw [hp]
    simp
  · have hshort : bcryptBytes ≤ (utf8 (String.ofList front) ++ head).length := by
      rw [hbytes_p, List.length_append] at hbytes
      exact Nat.lt_succ_iff.mp hbytes
    rw [Unicode.utf8_append, Unicode.utf8_singleton hc', ← List.append_assoc, hbytes_p,
      List.take_append_of_le_length hshort, List.take_append_of_le_length hshort]

/-! ## The locked bcrypt and a password of 74 bytes -/

/-- Parts the bytes of the password, which are below it, from the salt. -/
def separator : Char := 'Ā'

def byteChars (a : Unicode.Bytes) : List Char := a.map Char.ofNat

def marked (salt : String) (a : Unicode.Bytes) : List Char := byteChars a ++ separator :: salt.toList

theorem byteChars_ne {a : Unicode.Bytes} (ha : IsBytes a) : ∀ c ∈ byteChars a, decide (c ≠ separator) = true := by
  intro c hc
  obtain ⟨b, hb, rfl⟩ := List.mem_map.mp hc
  rw [decide_eq_true_eq]
  intro hsep
  have hnat := congrArg Char.toNat hsep
  rw [Unicode.toNat_ofNat (Or.inl ((ha b hb).trans (by decide)))] at hnat
  exact absurd hnat (Nat.ne_of_lt (ha b hb))

theorem byteChars_injective {a b : Unicode.Bytes} (ha : IsBytes a) (hb : IsBytes b)
    (h : byteChars a = byteChars b) : a = b := by
  have hback : ∀ {l : Unicode.Bytes}, IsBytes l → (byteChars l).map Char.toNat = l := by
    intro l hl
    rw [byteChars, List.map_map]
    exact (List.map_congr_left fun x hx =>
      Unicode.toNat_ofNat (Or.inl ((hl x hx).trans (by decide)))).trans (List.map_id l)
  rw [← hback ha, ← hback hb, h]

/-- The locked version, with a core that only writes its arguments down. -/
def lockedBcrypt : Bcrypt where
  core salt a := ⟨String.ofList (marked salt a), fun h => by
    have hlen := congrArg String.length h
    simp [marked] at hlen⟩
  saltOf h := match h.val.toList.dropWhile fun c => c ≠ separator with
    | [] => none
    | _ :: salt => some (String.ofList salt)
  long := .raises
  injective salt a b ha hb _ _ h := by
    have hchars : marked salt a = marked salt b :=
      String.ofList_injective (congrArg Subtype.val h)
    exact byteChars_injective ha hb (List.append_cancel_right hchars)
  saltOf_core salt a ha _ := by
    simp only [String.toList_ofList, marked]
    rw [List.dropWhile_append_of_pos (byteChars_ne ha), List.dropWhile_cons_of_neg (by simp)]
    simp only [String.ofList_toList]

def times (n : ℕ) (c : Char) : String := String.ofList (List.replicate n c)

theorem times_length (n : ℕ) (c : Char) : (times n c).length = n := by
  rw [times, String.length_ofList, List.length_replicate]

theorem times_bytes {c : Char} {bytes : Unicode.Bytes} (hc : Unicode.encodeChar c.toNat = some bytes)
    (n : ℕ) : (utf8 (times n c)).length = n * bytes.length := by
  induction n with
  | zero => rw [Nat.zero_mul]; rfl
  | succ n ih =>
    have hsplit : times (n + 1) c = times n c ++ String.ofList [c] := by
      rw [times, List.replicate_succ', String.ofList_append]
      rfl
    rw [hsplit, Unicode.utf8_append, Unicode.utf8_singleton hc, List.length_append, ih,
      Nat.succ_mul]

def zetRequest : RegisterRequest where
  email := ⟨"a@b.pl", by decide⟩
  password := times 37 'ż'
  minLength := by rw [times_length]; decide
  maxLength := by rw [times_length]; decide

theorem accepted_password_crashes :
    (¬∀ (B : Bcrypt) d salt req, WorksAlone (B.deps d) salt req) ∧
      (register (lockedBcrypt.deps transparent) { now := 0 } {} {} zetRequest).reply
        = .serverError := by
  have hbytes : (utf8 (times 37 'ż')).length = 37 * 2 :=
    times_bytes (Unicode.encodeChar_two (by decide) (by decide)) 37
  have htaken : LongInput.raises.taken (utf8 (times 37 'ż')) = none :=
    if_neg (by rw [hbytes]; decide)
  constructor
  · intro hworks
    obtain ⟨a, ha, -⟩ := (worksAlone_iff _ _ _ _).mp (hworks lockedBcrypt transparent "" zetRequest)
    cases htaken.symm.trans ha
  · have hhash : hashPassword lockedBcrypt "" (times 37 'ż') = none := by
      rw [hashPassword, Bcrypt.hashpw]
      exact congrArg _ htaken
    simp [register, Bcrypt.deps, zetRequest, hhash, findByEmail]

/-- An accepted password works, and alone, where bcrypt tells it from every other accepted one. -/
theorem password_works_alone_iff (B : Bcrypt) (d : Deps) (salt : String) (req : RegisterRequest) :
    WorksAlone (B.deps d) salt req ↔ Fits B.long req.password := by
  rw [worksAlone_iff]
  generalize hpass : req.password = p
  have hmin : 8 ≤ p.length := hpass ▸ req.minLength
  have hmax : p.length ≤ maxPasswordBytes := hpass ▸ req.maxLength
  cases B.long with
  | raises =>
    constructor
    · rintro ⟨a, ha, -⟩
      unfold LongInput.taken at ha
      split at ha
      next hshort => exact hshort
      next => cases ha
    · intro hshort
      refine ⟨utf8 p, taken_short hshort, fun q _ hne htaken => hne ?_⟩
      unfold LongInput.taken at htaken
      split at htaken
      next => exact Unicode.utf8_injective (Option.some.inj htaken)
      next => cases htaken
  | ignores =>
    simp only [taken_ignores]
    constructor
    · rintro ⟨a, ha, hapart⟩
      obtain rfl := Option.some.inj ha
      rcases Nat.lt_trichotomy (utf8 p).length bcryptBytes with hshort | hfull | hlong
      · exact Or.inl hshort
      · refine Or.inr ⟨hfull, Nat.le_antisymm hmax (Nat.le_of_not_lt fun hroom => ?_)⟩
        obtain ⟨hne, hsame⟩ := other_of_full hfull
        refine hapart (p ++ "a") ⟨?_, ?_⟩ hne (congrArg some hsame)
        · rw [String.length_append]
          exact hmin.trans (Nat.le_add_right _ _)
        · rw [String.length_append]
          exact hroom
      · obtain ⟨q, hne, hchars, hsame⟩ := other_of_long hlong
        exact absurd (congrArg some hsame) (hapart q ⟨hchars ▸ hmin, hchars ▸ hmax⟩ hne)
    · intro hfits
      refine ⟨_, rfl, fun q hq hne htaken => hne ?_⟩
      have hsame := Option.some.inj htaken
      rcases hfits with hshort | ⟨hfull, hchars⟩
      · exact same_of_short hshort hsame
      · exact same_of_full hfull hchars hq.2 hsame

end WarsawEvents.Accounts
