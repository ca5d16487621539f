import Mathlib.Algebra.Order.Field.Rat
import Mathlib.Order.WithBot
import WarsawEvents.Search.EventStream

/-! # Python on a value that `json.loads` returned

A third party's JSON has no types. What the adapters do with it is Python's: `get`, subscripts, the
truth test, comparisons and conversions, each of which raises on values it was not meant for.
-/

namespace WarsawEvents.Ingestion
open Json (Text Value ascii)
open Search (PyNum PyFloat)
set_option autoImplicit false

/-- A value of `response.json()`; a finite double is the rational it stands for. -/
abbrev PyValue := Value (PyNum ℚ)

inductive PyError where
  | attributeError
  | typeError
  | keyError
  | indexError
  | valueError
  | overflowError
  | osError
  | runtimeError
  | httpStatusError
  deriving DecidableEq

abbrev Py (α : Type) := Except PyError α

/-- The interpreter's conversions, and its datetimes `δ`, aware or naive. -/
structure Platform (δ : Type) where
  /-- The double nearest to a rational; none beyond the greatest. -/
  double : ℚ → Option ℚ
  /-- `float` of a text; none raises `ValueError`. -/
  floatOfText : Text → Option (PyFloat ℚ)
  /-- `str` of a value that is no text. -/
  repr : PyValue → Text
  /-- `datetime.fromisoformat`; none raises `ValueError`. -/
  fromIsoformat : Text → Option δ
  /-- `datetime.fromtimestamp(_).astimezone()`, on the clock of the host. -/
  fromTimestamp : PyNum ℚ → Py δ

/-! ## Truth and text -/

/-- `bool(_)`. -/
def truthy : PyValue → Bool
  | .null => false
  | .bool b => b
  | .num (.int z) => z ≠ 0
  | .num (.float (.finite x)) => x ≠ 0
  | .num (.float _) => true
  | .str s => !s.isEmpty
  | .arr vs => !vs.isEmpty
  | .obj ms => !ms.isEmpty

/-- `v or w`. -/
def orElse (v w : PyValue) : PyValue := if truthy v then v else w

/-- `(v or "").strip()`. -/
def stripped (v : PyValue) : Py Text :=
  match orElse v (.str []) with
  | .str s => .ok (PyText.trim s)
  | _ => .error .attributeError

/-- `text or None`. -/
def orNone (text : Text) : Option Text := if text.isEmpty then none else some text

/-- `str(v)`. -/
def str {δ : Type} (py : Platform δ) : PyValue → Text
  | .str s => s
  | v => py.repr v

/-- `text.replace("Z", "+00:00")`. -/
def replaceZ (text : Text) : Text :=
  text.flatMap fun c => if c = 0x5a then ascii "+00:00" else [c]

/-! ## Members and elements -/

/-- The value of a key. -/
def member (key : String) (ms : List (Text × PyValue)) : Option PyValue := Chase.dict ms (ascii key)

/-- `v.get(key, default)`. -/
def getD (v : PyValue) (key : String) (default : PyValue) : Py PyValue :=
  match v with
  | .obj ms => .ok ((member key ms).getD default)
  | _ => .error .attributeError

/-- `v.get(key)`. -/
def get (v : PyValue) (key : String) : Py PyValue := getD v key .null

/-- `v[key]`, of an object. -/
def subscript (ms : List (Text × PyValue)) (key : String) : Py PyValue :=
  match member key ms with
  | some v => .ok v
  | none => .error .keyError

/-- `v[0]`. -/
def first : PyValue → Py PyValue
  | .arr (v :: _) => .ok v
  | .str (c :: _) => .ok (.str [c])
  | .arr [] | .str [] => .error .indexError
  | .obj _ => .error .keyError
  | _ => .error .typeError

/-- What `for x in v` goes through. -/
def elements : PyValue → Py (List PyValue)
  | .arr vs => .ok vs
  | .str s => .ok (s.map fun c => .str [c])
  | .obj ms => .ok ((ms.map Prod.fst).eraseDups.map .str)
  | _ => .error .typeError

/-- `table.get(v)`: lists and dicts have no hash. -/
def lookup (table : List (String × String)) : PyValue → Py (Option Text)
  | .arr _ | .obj _ => .error .typeError
  | .str s => .ok ((table.find? fun entry => ascii entry.1 = s).map fun entry => ascii entry.2)
  | _ => .ok none

/-- `v == text`. -/
def isText (text : String) : PyValue → Bool
  | .str s => s = ascii text
  | _ => false

/-! ## Numbers -/

/-- The number that `v` is among ints and floats; `True` and `False` are 1 and 0. -/
def number : PyValue → Option (PyNum ℚ)
  | .num x => some x
  | .bool b => some (.int (if b then 1 else 0))
  | _ => none

/-- The place of a number among the infinities; none for `nan`. -/
def extended : PyNum ℚ → Option (WithBot (WithTop ℚ))
  | .int z => some ((z : ℚ) : WithTop ℚ)
  | .float (.finite x) => some ((x : WithTop ℚ))
  | .float .inf => some (⊤ : WithTop ℚ)
  | .float .negInf => some ⊥
  | .float .nan => none

def numLt (a b : PyNum ℚ) : Bool :=
  match extended a, extended b with
  | some x, some y => x < y
  | _, _ => false

def numLe (a b : PyNum ℚ) : Bool :=
  match extended a, extended b with
  | some x, some y => x ≤ y
  | _, _ => false

def numEq (a b : PyNum ℚ) : Bool :=
  match extended a, extended b with
  | some x, some y => x = y
  | _, _ => false

def absGt (a : PyFloat ℚ) (bound : ℚ) : Bool :=
  match a with
  | .finite x => bound < |x|
  | .inf | .negInf => true
  | .nan => false

section
variable {δ : Type} (py : Platform δ)

/-- `float(v)`. -/
def toFloat (v : PyValue) : Py (PyFloat ℚ) :=
  match v, number v with
  | _, some (.float x) => .ok x
  | _, some (.int z) =>
    match py.double z with
    | some x => .ok (.finite x)
    | none => .error .overflowError
  | .str s, none =>
    match py.floatOfText s with
    | some x => .ok x
    | none => .error .valueError
  | _, none => .error .typeError

/-- `x / n`, for a positive int `n`. -/
def divBy (x : PyNum ℚ) (n : ℕ) : Py (PyNum ℚ) :=
  let rounded (q : ℚ) : Py (PyNum ℚ) :=
    match py.double (q / n) with
    | some y => .ok (.float (.finite y))
    | none => .error .overflowError
  match x with
  | .int z => rounded z
  | .float (.finite q) => rounded q
  | .float y => .ok (.float y)

end

/-! ## Comparison of any two values -/

mutual

/-- `v is w or v == w`, as containers compare their elements; every `nan` of a text is one object. -/
def same : PyValue → PyValue → Bool
  | .arr vs, .arr ws => sameAll vs ws
  | .obj ms, .obj ns =>
    (ms.map Prod.fst).eraseDups.length == (ns.map Prod.fst).eraseDups.length && sameMembers ms ns
  | .str s, .str t => s == t
  | .null, .null => true
  | .num (.float .nan), .num (.float .nan) => true
  | v, w =>
    match number v, number w with
    | some x, some y => numEq x y
    | _, _ => false

def sameAll : List PyValue → List PyValue → Bool
  | [], [] => true
  | v :: vs, w :: ws => same v w && sameAll vs ws
  | _, _ => false

/-- The members of the first object, later ones before earlier ones of the same key, in the second. -/
def sameMembers : List (Text × PyValue) → List (Text × PyValue) → Bool
  | [], _ => true
  | (key, v) :: ms, ns =>
    (if ms.any fun m => m.1 == key then true
      else
        match ns.reverse.find? fun n => n.1 == key with
        | some n => same v n.2
        | none => false) && sameMembers ms ns

end

mutual

/-- `v > w`. -/
def greater : PyValue → PyValue → Py Bool
  | .arr vs, .arr ws => greaterAll vs ws
  | .str s, .str t => .ok (t < s)
  | v, w =>
    match number v, number w with
    | some x, some y => .ok (numLt y x)
    | _, _ => .error .typeError

/-- The first two elements that differ decide, else the lengths. -/
def greaterAll : List PyValue → List PyValue → Py Bool
  | [], _ => .ok false
  | _ :: _, [] => .ok true
  | v :: vs, w :: ws => if same v w then greaterAll vs ws else greater v w

end

/-! ## When a step raises -/

section Raising
variable {α β : Type} {v w : PyValue} {key : String}

@[simp] theorem ok_bind (a : α) (f : α → Py β) : ((Except.ok a : Py α) >>= f) = f a := rfl

@[simp] theorem pure_isOk (a : α) : (pure a : Py α).isOk = true := rfl

@[simp] theorem ok_isOk (a : α) : (Except.ok a : Py α).isOk = true := rfl

@[simp] theorem error_isOk (e : PyError) : (Except.error e : Py α).isOk = false := rfl

/-- A block raises nothing when none of its steps does. -/
theorem bind_isOk_iff {x : Py α} {f : α → Py β} :
    (x >>= f).isOk = true ↔ x.isOk = true ∧ ∀ a, x = .ok a → (f a).isOk = true := by
  cases x with
  | error e => simp [bind, Except.bind]
  | ok a => simp

theorem bind_eq_ok_iff {x : Py α} {f : α → Py β} {b : β} :
    (x >>= f) = .ok b ↔ ∃ a, x = .ok a ∧ f a = .ok b := by
  cases x with
  | error e => simp [bind, Except.bind]
  | ok a => simp

theorem isOk_iff_exists {x : Py α} : x.isOk = true ↔ ∃ a, x = .ok a := by
  cases x <;> simp

def isObject : PyValue → Bool
  | .obj _ => true
  | _ => false

/-- The value of `v.get(key, default)` where that does not raise. -/
def fieldD (v : PyValue) (key : String) (default : PyValue) : PyValue :=
  match v with
  | .obj ms => (member key ms).getD default
  | _ => default

def field (v : PyValue) (key : String) : PyValue := fieldD v key .null

theorem getD_eq (h : isObject v = true) (default : PyValue) :
    getD v key default = .ok (fieldD v key default) := by
  cases v with
  | obj ms => rfl
  | _ => cases h

theorem get_eq (h : isObject v = true) : get v key = .ok (field v key) := getD_eq h .null

@[simp] theorem getD_isOk (default : PyValue) : (getD v key default).isOk = isObject v := by
  cases v <;> rfl

@[simp] theorem get_isOk : (get v key).isOk = isObject v := getD_isOk .null

/-- A text, or a value that gives way to the empty one. -/
def Textual (v : PyValue) : Prop := truthy v = true → ∃ s, v = .str s

theorem stripped_isOk_iff : (stripped v).isOk = true ↔ Textual v := by
  unfold stripped orElse Textual
  cases htrue : truthy v with
  | false => simp
  | true =>
    cases v <;> simp

/-- A value that a dict takes as a key. -/
def hashable : PyValue → Bool
  | .arr _ | .obj _ => false
  | _ => true

theorem lookup_isOk (table : List (String × String)) : (lookup table v).isOk = hashable v := by
  cases v <;> rfl

end Raising

end WarsawEvents.Ingestion
