import Correlation.Interchange.Gathered
import Correlation.Interchange.Scalar

/-!
# Records in JSON

A record is an object with named fields, or else the list of its fields in their order.  Fields that
are not known are passed over.  A field that may be missing has a default, and one that is optional
may also be null.

The first mistake of a record is reported.  A field that is there twice is a mistake where it stands
for the second time.  A field that is missing is one at the end, and so is a list that is too long.
-/

namespace Correlation

namespace Json

/-- The fields of a record that are there. -/
structure Record where
  fields : List (String × Json)
  /-- What is wrong with the record itself, and where. -/
  flaw : Gathered Unit
  /-- What is wrong if a field is missing that has to be there. -/
  absent : String → Mismatch
  /-- Whether the record is tagged. -/
  isTagged : Bool

/-- The first name that occurs a second time, with the number of names before it. -/
def repeatedName? (before : List String) : List String → Option (Nat × String)
  | [] => none
  | name :: rest =>
    if before.contains name then some (before.length, name) else repeatedName? (name :: before) rest

/-- A number of things, in a message. -/
def counted (n : Nat) (thing : String) : String :=
  toString n ++ " " ++ thing ++ if n = 1 then "" else "s"

/-- The record of an object. -/
def recordOfObject (isTagged : Bool) (names : List String) (fields : List (String × Json)) :
    Record :=
  let present := fields.filter fun field => names.contains field.1
  let flaw := match repeatedName? [] (present.map Prod.fst) with
    | some (place, name) => .mistake place (.duplicateField name)
    | none => .value ()
  ⟨present, flaw, .missingField, isTagged⟩

/-- The record of a list.  A field that is missing is named by the number of fields before it. -/
def recordOfArray (isTagged : Bool) (wanted : String) (names : List String) (items : List Json) :
    Record :=
  let flaw := if names.length < items.length then
      .mistake names.length
        (.invalidLength items.length (counted names.length "element" ++ " in sequence"))
    else .value ()
  let absent name :=
    .invalidLength (names.idxOf name) (wanted ++ " with " ++ counted names.length "element")
  ⟨names.zip items, flaw, absent, isTagged⟩

namespace Record

/-- The first field of a name, with the number of fields before it. -/
def find? (name : String) (before : Nat) : List (String × Json) → Option (Nat × Json)
  | [] => none
  | (key, value) :: rest =>
    if key = name then some (before, value) else find? name (before + 1) rest

/-- Reads a field, unless it is missing. -/
def field (r : Record) (name : String) (missing : Gathered α) (read : Json → Except Mismatch α) :
    Gathered α :=
  match find? name 0 r.fields with
  | some (place, value) => .ofExcept place (read value)
  | none => missing

/-- Reads a field that has to be there. -/
def required (r : Record) (name : String) (read : Json → Except Mismatch α) : Gathered α :=
  r.field name (.mistake r.fields.length (r.absent name)) read

/-- Reads a field that has a default. -/
def withDefault (r : Record) (name : String) (default : α) (read : Json → Except Mismatch α) :
    Gathered α :=
  r.field name (.value default) read

/-- Reads a value that may be null. -/
def orNull (read : Json → Except Mismatch α) : Json → Except Mismatch (Option α)
  | .null => .ok none
  | j => (read j).map some

/-- Reads a field that may be missing or null. -/
def optional (r : Record) (name : String) (read : Json → Except Mismatch α) :
    Gathered (Option α) :=
  r.field name (.value none) (orNull read)

/-- Makes a value of the fields. -/
def build (r : Record) (make : Record → Gathered α) : Except Mismatch α :=
  (make r <* r.flaw).toExcept

end Record

/-- Reads a record with fields of the given names. -/
def record (wanted : String) (names : List String) (make : Record → Gathered α) :
    Json → Except Mismatch α
  | .object fields => (recordOfObject false names fields).build make
  | .array items => (recordOfArray false wanted names items).build make
  | j => j.mistyped wanted

/-! ## Tests -/

section Tests

/-- Reads a pair of texts. -/
def pairOfJson : Json → Except Mismatch (String × String) :=
  record "a pair" ["a", "b"] fun r => .mk <$> r.required "a" text <*> r.required "b" text

example : pairOfJson (.object [("c", .null), ("b", .string "y"), ("a", .string "x")])
    = .ok ("x", "y") := rfl
example : pairOfJson (.array [.string "x", .string "y"]) = .ok ("x", "y") := rfl
/-- The field that stands first is to blame, and not the one that is asked for first. -/
example : pairOfJson (.object [("b", .null), ("a", .bool true)])
    = .error (.invalidType "null" "a string") := rfl
/-- What is missing comes last. -/
example : pairOfJson (.object [("b", .null)]) = .error (.invalidType "null" "a string") := rfl
example : pairOfJson (.object [("b", .string "y"), ("b", .null)])
    = .error (.duplicateField "b") := rfl
example : pairOfJson (.array [.string "x"])
    = .error (.invalidLength 1 "a pair with 2 elements") := rfl

end Tests

end Json

end Correlation
