import Correlation.Interchange.Mismatch
import Correlation.Json.Reader

/-!
# Scalars, lists and names in JSON

Most values are read in the same way wherever they stand.  What is a part of a tagged record is read
once all of the record is there, and then an empty object is as good as null.

`decode` reads a value from its text, guided by the form of the value.
-/

namespace Correlation

namespace Json

/-! ## Scalars -/

/-- Reads a text. -/
def text : Json → Except Mismatch String
  | .string s => .ok s
  | j => j.mistyped "a string"

/-- Reads a truth value. -/
def flag : Json → Except Mismatch Bool
  | .bool b => .ok b
  | j => j.mistyped "a boolean"

/-- An integer that is out of range. -/
def outOfRange (n : Int) (wanted : String) : Except Mismatch α :=
  .error (.invalidValue (Json.integer n).described wanted)

/-- Reads a number of 32 bits without sign. -/
def word32 : Json → Except Mismatch UInt32
  | .integer n =>
    if 0 ≤ n ∧ n.toNat < UInt32.size then .ok (UInt32.ofNat n.toNat) else outOfRange n "u32"
  | j => j.mistyped "u32"

/-- Reads a number of 64 bits with sign. -/
def int64 : Json → Except Mismatch Int64
  | .integer n =>
    if Int64.minValue.toInt ≤ n ∧ n ≤ Int64.maxValue.toInt then .ok (Int64.ofInt n)
    else outOfRange n "i64"
  | j => j.mistyped "i64"

/-- The double nearest to an integer of 64 bits. -/
def realOfInteger (n : Int) : Float :=
  if n < 0 then -(UInt64.ofNat n.natAbs).toFloat else (UInt64.ofNat n.natAbs).toFloat

/-- Reads a real number. -/
def number : Json → Except Mismatch Float
  | .integer n => .ok (realOfInteger n)
  | .real x => .ok x
  | j => j.mistyped "f64"

/-- Reads a list, item by item. -/
def list (item : Json → Except Mismatch α) : Json → Except Mismatch (List α)
  | .array items => items.mapM item
  | j => j.mistyped "a sequence"

/-- A value that has to be null.  `inner` says whether it is a part of a tagged record. -/
def unit (inner : Bool) : Json → Except Mismatch Unit
  | .null => .ok ()
  | .object [] => if inner then .ok () else (Json.object []).mistyped "unit"
  | j => j.mistyped "unit"

/-! ## Names -/

/-- The one field of an object with a single field. -/
def singleField : List (String × Json) → Except Mismatch (String × Json)
  | [field] => .ok field
  | _ => .error (.invalidValue "map" "map with a single key")

/-- Looks a name up among the known ones. -/
def choose (known : List (String × α)) (name : String) : Except Mismatch α :=
  match known.lookup name with
  | some a => .ok a
  | none => .error (.unknownVariant name (known.map Prod.fst))

/-- Reads one of the known names: the name itself, or an object that maps it to null.  `inner` says
whether it is a part of a tagged record. -/
def oneOf (inner : Bool) (known : List (String × α)) : Json → Except Mismatch α
  | .string name => choose known name
  | .object fields => do
    let (name, value) ← singleField fields
    let a ← choose known name
    unit inner value
    return a
  | j => j.mistyped "string or map"

/-- The form of the known names. -/
def oneOfForm (known : List (String × α)) : Form Mismatch :=
  .of (.name (known.map fun (name, _) => (name, .of .scalar (unit false)))) (oneOf false known)

/-! ## Texts -/

/-- The form of texts. -/
def textForm : Form Mismatch := .of .scalar text

/-- The form of numbers of 32 bits. -/
def word32Form : Form Mismatch := .of .scalar word32

/-- The form of lists. -/
def listForm (item : Form Mismatch) (read : Json → Except Mismatch α) : Form Mismatch :=
  .of (.list item) (list read)

/-- How deeply the values of a text may be nested. -/
def nestingLimit : Nat := 127

/-- Reads a value from its text. -/
def decode (form : Form Mismatch) (read : Json → Except Mismatch α) (text : List Char) :
    Except (Refusal Mismatch) α :=
  match Json.read nestingLimit form text with
  | .error refusal => .error refusal
  | .ok j => (read j).mapError .misfit

end Json

end Correlation
