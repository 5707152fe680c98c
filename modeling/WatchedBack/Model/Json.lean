import WatchedBack.Library.Rounding

/-! JSON values as the JsonCpp accessors read them. -/

namespace WatchedBack

/-- What no handler of the collecting thread catches: an exception of JsonCpp or of a string, or an
element read outside the bounds of a vector. -/
inductive Fault
  | logicError
  | outOfBounds
  deriving DecidableEq, Repr

/-- A parsed JSON text. A number with a fraction or an exponent carries its value and
the text `asString` prints for it. -/
inductive Json
  | null
  | bool (b : Bool)
  | int (n : ℤ)
  | real (value : ℚ) (text : String)
  | str (s : String)
  | arr (elements : List Json)
  | obj (members : List (String × Json))
  deriving Repr

namespace Json

def isNull : Json → Bool
  | null => true
  | _ => false

/-- `operator[]` with a member name. The member that the non-const form creates is
null, so it reads the same as a missing one. -/
def member (v : Json) (key : String) : Except Fault Json :=
  match v with
  | null => .ok null
  | obj members => .ok ((members.lookup key).getD null)
  | _ => .error .logicError

def isMember (v : Json) (key : String) : Except Fault Bool :=
  match v with
  | null => .ok false
  | obj members => .ok (members.lookup key).isSome
  | _ => .error .logicError

/-- The member of a member, and so on. -/
def path (v : Json) (keys : List String) : Except Fault Json := keys.foldlM member v

/-- What `begin()` to `end()` visits: the key as `key().asString()` reads it, and the
value. A value that is no container has nothing to visit. -/
def entries : Json → List (String × Json)
  | arr elements => elements.zipIdx.map fun p => (toString p.2, p.1)
  | obj members => members
  | _ => []

/-- The values visited by a range-based loop. -/
def elements (v : Json) : List Json := v.entries.map Prod.snd

def keys (v : Json) : List String := v.entries.map Prod.fst

def asBool : Json → Except Fault Bool
  | null => .ok false
  | bool b => .ok b
  | int n => .ok (n ≠ 0)
  | real value _ => .ok (value ≠ 0)
  | _ => .error .logicError

/-- Conversion of an integer to `double`: 53 significant bits. -/
def asDouble : Json → Except Fault ℚ
  | null => .ok 0
  | bool b => .ok (if b then 1 else 0)
  | int n => .ok (Rounding.roundBits 53 n)
  | real value _ => .ok value
  | _ => .error .logicError

/-- Conversion to `float`: 24 significant bits. -/
def asFloat : Json → Except Fault ℚ
  | null => .ok 0
  | bool b => .ok (if b then 1 else 0)
  | int n => .ok (Rounding.roundBits 24 n)
  | real value _ => .ok (Rounding.roundBits 24 value)
  | _ => .error .logicError

/-- Conversion to an integer type with the given bounds. -/
def asInteger (lo hi : ℤ) : Json → Except Fault ℤ
  | null => .ok 0
  | bool b => .ok (if b then 1 else 0)
  | int n => if lo ≤ n ∧ n ≤ hi then .ok n else .error .logicError
  | real value _ =>
      if (lo : ℚ) ≤ value ∧ value ≤ hi then .ok (if 0 ≤ value then ⌊value⌋ else ⌈value⌉)
      else .error .logicError
  | _ => .error .logicError

def asUInt : Json → Except Fault ℤ := asInteger 0 (2 ^ 32 - 1)

def asInt : Json → Except Fault ℤ := asInteger (-2 ^ 31) (2 ^ 31 - 1)

def asString : Json → Except Fault String
  | null => .ok ""
  | bool b => .ok (if b then "true" else "false")
  | int n => .ok (toString n)
  | real _ text => .ok text
  | str s => .ok s
  | _ => .error .logicError

def asCString : Json → Except Fault String
  | str s => .ok s
  | _ => .error .logicError

end Json

end WatchedBack
