import Correlation.Interchange.Record

/-!
# Tagged records in JSON

A *tagged* record says of which kind it is: in the field `kind`, or in the first item.  The kind of
an inner tagged record, which is a part of another one, may be given by its number.

Tagged records of one type may be nested.  `readTagged` reads them by a table of their kinds.
-/

namespace Correlation

namespace Json

/-- The field that says of which kind a record is. -/
def kindField : String := "kind"

/-- A kind of tagged records. -/
structure Kind (α : Type) where
  name : String
  /-- The fields of the record, in their order. -/
  fields : List String
  /-- Makes a value of the record.  Inner values of the same type are read by the given reader. -/
  make : (Json → Except Mismatch α) → Record → Gathered α

/-- Looks up the kind of a tagged record.  Only an inner record may give it by number. -/
def readKind (kinds : List (Kind α)) (inner : Bool) : Json → Except Mismatch (Kind α)
  | .string name =>
    match kinds.find? fun kind => decide (kind.name = name) with
    | some kind => .ok kind
    | none => .error (.unknownVariant name (kinds.map Kind.name))
  | .integer n =>
    if inner && decide (0 ≤ n) then
      match kinds[n.toNat]? with
      | some kind => .ok kind
      | none =>
        .error (.invalidValue (Json.integer n).described
          ("variant index 0 <= i < " ++ toString kinds.length))
    else (Json.integer n).mistyped "variant identifier"
  | j => j.mistyped "variant identifier"

/-- The words of a name that is written with underscores, run together with capitals. -/
def capitalized (name : String) : String :=
  String.join ((name.splitOn "_").map String.capitalize)

/-- The kind and the record of a tagged record of some sort. -/
def tagged (sort : String) (kinds : List (Kind α)) (inner : Bool) :
    Json → Except Mismatch (Kind α × Record)
  | .object fields =>
    match fields.partition fun field => decide (field.1 = kindField) with
    | ([], _) => .error (.missingField kindField)
    | ((_, tag) :: more, rest) => do
      let kind ← readKind kinds inner tag
      if more.isEmpty then return (kind, recordOfObject true kind.fields rest)
      else .error (.duplicateField kindField)
  | .array [] => .error (.missingField kindField)
  | .array (tag :: items) => do
    let kind ← readKind kinds inner tag
    let wanted := "struct variant " ++ sort ++ "::" ++ capitalized kind.name
    return (kind, recordOfArray true wanted kind.fields items)
  | j => j.mistyped ("internally tagged enum " ++ sort)

/-- Reads a tagged record that is nested at most so deep.  On the last level there is no list and
no object any more, and so no tagged record. -/
def readTagged (sort : String) (kinds : List (Kind α)) : Nat → Bool → Json → Except Mismatch α
  | 0, _, j => j.mistyped ("internally tagged enum " ++ sort)
  | levels + 1, inner, j => do
    let (kind, record) ← tagged sort kinds inner j
    record.build (kind.make (readTagged sort kinds levels true))

/-- The form of tagged records. -/
def taggedForm (kinds : List (Kind α)) (read : Json → Except Mismatch α) : Form Mismatch :=
  .of (.tagged kindField (.of .scalar (readKind kinds false))) read

/-- A tagged record of a kind. -/
def ofKind (kind : String) (fields : List (String × Json)) : Json :=
  .object ((kindField, .string kind) :: fields)

/-! ## Depth -/

mutual

/-- How deeply lists and objects are nested in a value. -/
def depth : Json → Nat
  | .array items => itemsDepth items + 1
  | .object fields => fieldsDepth fields + 1
  | _ => 0

/-- How deeply the items of a list are nested. -/
def itemsDepth : List Json → Nat
  | [] => 0
  | item :: rest => max item.depth (itemsDepth rest)

/-- How deeply the fields of an object are nested. -/
def fieldsDepth : List (String × Json) → Nat
  | [] => 0
  | (_, value) :: rest => max value.depth (fieldsDepth rest)

end

end Json

end Correlation
