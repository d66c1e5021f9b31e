import Correlation.Json.Printer
import Correlation.Path.Grammar
import Correlation.Text.Quoted

/-!
# Mismatches

Why a JSON value is not what it should be.  The message says what is there and what is wanted.
-/

namespace Correlation

/-- Why a JSON value has the wrong form. -/
inductive Mismatch where
  | invalidType (got wanted : String)
  /-- A value of the right type that is not allowed. -/
  | invalidValue (got wanted : String)
  /-- A list with the wrong number of items. -/
  | invalidLength (got : Nat) (wanted : String)
  /-- An object without a field that it needs. -/
  | missingField (name : String)
  /-- An object with two fields of one name. -/
  | duplicateField (name : String)
  /-- A name that is none of the known ones. -/
  | unknownVariant (name : String) (known : List String)
  /-- A value that is no path, in whichever way paths are written. -/
  | noPath
  | path (error : PathError)
deriving DecidableEq, Repr

namespace Mismatch

/-- A name in a message. -/
def ticked (name : String) : String := "`" ++ name ++ "`"

/-- The names that are known, in a message. -/
def expectation : List String → String
  | [] => "there are no variants"
  | [a] => "expected " ++ ticked a
  | [a, b] => "expected " ++ ticked a ++ " or " ++ ticked b
  | names => "expected one of " ++ String.intercalate ", " (names.map ticked)

/-- The message of a mismatch. -/
def message : Mismatch → String
  | .invalidType got wanted => "invalid type: " ++ got ++ ", expected " ++ wanted
  | .invalidValue got wanted => "invalid value: " ++ got ++ ", expected " ++ wanted
  | .invalidLength got wanted => "invalid length " ++ toString got ++ ", expected " ++ wanted
  | .missingField name => "missing field " ++ ticked name
  | .duplicateField name => "duplicate field " ++ ticked name
  | .unknownVariant name known =>
      "unknown variant " ++ ticked name ++ ", " ++ expectation known
  | .noPath => "data did not match any variant of untagged enum PathRepr"
  | .path error => error.message

end Mismatch

/-- What a JSON value is, in a message. -/
def Json.described : Json → String
  | .null => "null"
  | .bool value => "boolean `" ++ toString value ++ "`"
  | .integer n => "integer `" ++ String.ofList (integerChars n) ++ "`"
  | .real x => "floating point `" ++ String.ofList (realText x) ++ "`"
  | .string text => "string " ++ shownText text
  | .array _ => "sequence"
  | .object _ => "map"

/-- A value of the wrong type. -/
def Json.mistyped (j : Json) (wanted : String) : Except Mismatch α :=
  .error (.invalidType j.described wanted)

end Correlation
