import Mathlib.Data.List.Basic
import Mathlib.Data.Nat.Notation

/-! # JSON text: a writer, a reader and the round trip

Characters are numbers, so that one reader serves texts of code points and texts of UTF-16 units. The
writer is `json.dumps(…, ensure_ascii=False)`; the reader takes a `Dialect`, which says what a number
token is worth and where `json.loads` and `JSON.parse` part.

The fuel of a reader bounds its recursion; `read` hands it one unit more than the text has characters,
and two units are spent for each bracket at most. -/

namespace Json
set_option autoImplicit false

/-- A text as the numbers of its characters. -/
abbrev Text := List ℕ

def ascii (s : String) : Text := s.toList.map Char.toNat

inductive Value (ν : Type) where
  | null
  | bool (b : Bool)
  | num (x : ν)
  | str (s : Text)
  | arr (vs : List (Value ν))
  | obj (ms : List (Text × Value ν))

/-! ## Writing -/

/-- One of the sixteen lowercase digits. -/
def hexDigit (n : ℕ) : ℕ := if n < 10 then 0x30 + n else 0x57 + n

def hex4 (n : ℕ) : Text :=
  [hexDigit (n / 4096 % 16), hexDigit (n / 256 % 16), hexDigit (n / 16 % 16), hexDigit (n % 16)]

/-- The quotation mark, the backslash and the control characters are escaped, all else stands raw. -/
def escape (c : ℕ) : Text :=
  if c = 0x22 then ascii "\\\""
  else if c = 0x5c then ascii "\\\\"
  else if c = 0x08 then ascii "\\b"
  else if c = 0x0c then ascii "\\f"
  else if c = 0x0a then ascii "\\n"
  else if c = 0x0d then ascii "\\r"
  else if c = 0x09 then ascii "\\t"
  else if c < 0x20 then ascii "\\u" ++ hex4 c
  else [c]

def quote (s : Text) : Text := 0x22 :: (s.flatMap escape ++ [0x22])

section
variable {ν : Type}

mutual

def write (num : ν → Text) : Value ν → Text
  | .null => ascii "null"
  | .bool true => ascii "true"
  | .bool false => ascii "false"
  | .num x => num x
  | .str s => quote s
  | .arr vs => 0x5b :: (writeElems num vs ++ [0x5d])
  | .obj ms => 0x7b :: (writeMembers num ms ++ [0x7d])

def writeElems (num : ν → Text) : List (Value ν) → Text
  | [] => []
  | [v] => write num v
  | v :: w :: vs => write num v ++ (ascii ", " ++ writeElems num (w :: vs))

def writeMembers (num : ν → Text) : List (Text × Value ν) → Text
  | [] => []
  | [(k, v)] => quote k ++ (ascii ": " ++ write num v)
  | (k, v) :: m :: ms =>
    quote k ++ (ascii ": " ++ (write num v ++ (ascii ", " ++ writeMembers num (m :: ms))))

end

end

/-! ## Reading -/

structure Dialect (ν : Type) where
  /-- The worth of a number token. -/
  number : Text → Option ν
  /-- Words read as numbers, such as Python's `NaN`. -/
  constants : List (Text × ν)
  /-- Two `\u` escapes that spell a surrogate pair are read as one character. -/
  joinsPairs : Bool

def isBlank (c : ℕ) : Bool := c == 0x20 || c == 0x0a || c == 0x0d || c == 0x09

/-- The next character that is no blank, and what follows it. -/
def next (text : Text) : Option (ℕ × Text) :=
  match text.dropWhile isBlank with
  | [] => none
  | c :: rest => some (c, rest)

def isDigit (c : ℕ) : Bool := 0x30 ≤ c && c ≤ 0x39

/-- The number that digits spell. -/
def digitsValue (t : Text) : ℕ := t.foldl (fun n c => 10 * n + (c - 0x30)) 0

def hexValue (c : ℕ) : Option ℕ :=
  if 0x30 ≤ c ∧ c ≤ 0x39 then some (c - 0x30)
  else if 0x61 ≤ c ∧ c ≤ 0x66 then some (c - 0x57)
  else if 0x41 ≤ c ∧ c ≤ 0x46 then some (c - 0x37)
  else none

def readHex4 : Text → Option (ℕ × Text)
  | a :: b :: c :: d :: rest =>
    match hexValue a, hexValue b, hexValue c, hexValue d with
    | some w, some x, some y, some z => some (4096 * w + 256 * x + 16 * y + z, rest)
    | _, _, _, _ => none
  | _ => none

/-- The character that a `\` and one letter stand for. -/
def unescape (c : ℕ) : Option ℕ :=
  if c = 0x22 ∨ c = 0x5c ∨ c = 0x2f then some c
  else if c = 0x62 then some 0x08
  else if c = 0x66 then some 0x0c
  else if c = 0x6e then some 0x0a
  else if c = 0x72 then some 0x0d
  else if c = 0x74 then some 0x09
  else none

/-- The low surrogate spelled right after a high one. -/
def readLow : Text → Option (ℕ × Text)
  | 0x5c :: 0x75 :: rest =>
    (readHex4 rest).filter fun p => 0xdc00 ≤ p.1 ∧ p.1 ≤ 0xdfff
  | _ => none

/-- One character of a string, escaped or raw; a raw control character is refused. -/
def readChar (joins : Bool) (c : ℕ) (rest : Text) : Option (ℕ × Text) :=
  if c = 0x5c then
    match rest with
    | [] => none
    | e :: rest =>
      if e = 0x75 then do
        let (u, rest) ← readHex4 rest
        if joins ∧ 0xd800 ≤ u ∧ u ≤ 0xdbff then
          match readLow rest with
          | some (l, rest) => some (0x10000 + (u - 0xd800) * 0x400 + (l - 0xdc00), rest)
          | none => some (u, rest)
        else some (u, rest)
      else (unescape e).map fun c => (c, rest)
  else if c < 0x20 then none
  else some (c, rest)

/-- A string after its opening mark. -/
def readString (joins : Bool) : ℕ → Text → Option (Text × Text)
  | 0, _ => none
  | _ + 1, [] => none
  | fuel + 1, c :: rest =>
    if c = 0x22 then some ([], rest)
    else do
      let (x, rest) ← readChar joins c rest
      let (s, rest) ← readString joins fuel rest
      some (x :: s, rest)

/-- `.5`, `e-7` and their like, to the end of the token. -/
def isExponent : Text → Bool
  | [] => true
  | e :: rest =>
    (e == 0x65 || e == 0x45) &&
      match rest with
      | [] => false
      | s :: ds =>
        if s = 0x2b ∨ s = 0x2d then !ds.isEmpty && ds.all isDigit else (s :: ds).all isDigit

def isFraction : Text → Bool
  | 0x2e :: rest =>
    !(rest.takeWhile isDigit).isEmpty && isExponent (rest.dropWhile isDigit)
  | rest => isExponent rest

def isUnsigned (t : Text) : Bool :=
  match t.takeWhile isDigit with
  | [] => false
  | d :: ds => (d != 0x30 || ds.isEmpty) && isFraction (t.dropWhile isDigit)

/-- The number tokens of JSON: no leading zero, digits on both sides of the point. -/
def isNumber : Text → Bool
  | 0x2d :: rest => isUnsigned rest
  | t => isUnsigned t

/-- The characters that a number token is made of. -/
def isNumberChar (c : ℕ) : Bool :=
  isDigit c || c == 0x2b || c == 0x2d || c == 0x2e || c == 0x45 || c == 0x65

section
variable {ν : Type}

def words (d : Dialect ν) : List (Text × Value ν) :=
  [(ascii "null", .null), (ascii "true", .bool true), (ascii "false", .bool false)] ++
    d.constants.map fun p => (p.1, .num p.2)

def readScalar (d : Dialect ν) (text : Text) : Option (Value ν × Text) :=
  match (words d).find? fun p => p.1.isPrefixOf text with
  | some p => some (p.2, text.drop p.1.length)
  | none =>
    let token := text.takeWhile isNumberChar
    if isNumber token then
      (d.number token).map fun x => (.num x, text.dropWhile isNumberChar)
    else none

mutual

def readValue (d : Dialect ν) : ℕ → Text → Option (Value ν × Text)
  | 0, _ => none
  | fuel + 1, text => do
    let (c, rest) ← next text
    if c = 0x22 then
      let (s, rest) ← readString d.joinsPairs (rest.length + 1) rest
      some (.str s, rest)
    else if c = 0x5b then
      let (c', rest') ← next rest
      if c' = 0x5d then some (.arr [], rest')
      else
        let (vs, rest) ← readElems d fuel rest
        some (.arr vs, rest)
    else if c = 0x7b then
      let (c', rest') ← next rest
      if c' = 0x7d then some (.obj [], rest')
      else
        let (ms, rest) ← readMembers d fuel rest
        some (.obj ms, rest)
    else readScalar d (c :: rest)

/-- The elements of an array up to its closing bracket. -/
def readElems (d : Dialect ν) : ℕ → Text → Option (List (Value ν) × Text)
  | 0, _ => none
  | fuel + 1, text => do
    let (v, rest) ← readValue d fuel text
    let (c, rest) ← next rest
    if c = 0x2c then
      let (vs, rest) ← readElems d fuel rest
      some (v :: vs, rest)
    else if c = 0x5d then some ([v], rest)
    else none

def readMembers (d : Dialect ν) : ℕ → Text → Option (List (Text × Value ν) × Text)
  | 0, _ => none
  | fuel + 1, text => do
    let (c, rest) ← next text
    if c ≠ 0x22 then none
    else
      let (k, rest) ← readString d.joinsPairs (rest.length + 1) rest
      let (c, rest) ← next rest
      if c ≠ 0x3a then none
      else
        let (v, rest) ← readValue d fuel rest
        let (c, rest) ← next rest
        if c = 0x2c then
          let (ms, rest) ← readMembers d fuel rest
          some ((k, v) :: ms, rest)
        else if c = 0x7d then some ([(k, v)], rest)
        else none

end

/-- A whole document: one value with nothing but blanks around it. -/
def read (d : Dialect ν) (text : Text) : Option (Value ν) := do
  let (v, rest) ← readValue d (text.length + 1) text
  if (next rest).isNone then some v else none

end

end Json
