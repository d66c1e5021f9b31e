import Correlation.Interchange.Record

/-!
# Spans and paths in JSON

A span that is not known is the name `None`, and any other one is an object with the one field `At`.
A path is its text, or an object with its text and its span.  Unlike a record it is never a list.  A
path is judged as a whole.
-/

namespace Correlation

open Json

namespace Point

/-- Reads a point.  What is missing is zero. -/
def ofJson : Json → Except Mismatch Point :=
  record "struct Point" ["offset", "row", "column"] fun r =>
    .mk <$> r.withDefault "offset" 0 word32 <*> r.withDefault "row" 0 word32
      <*> r.withDefault "column" 0 word32

/-- The form of points. -/
def form : Form Mismatch :=
  .of (.record [("offset", word32Form), ("row", word32Form), ("column", word32Form)]) ofJson

/-- Writes a point. -/
def toJson (p : Point) : Json :=
  .object [("offset", .integer p.offset.toNat), ("row", .integer p.row.toNat),
    ("column", .integer p.column.toNat)]

end Point

namespace Span

/-- The names of the two sorts of span. -/
def sorts : List String := ["None", "At"]

/-- Reads a known span.  `inner` says whether it is a part of a tagged record. -/
def betweenOfJson (inner : Bool) (j : Json) : Except Mismatch Span :=
  if inner && j.isScalar then j.mistyped "struct variant"
  else
    j.record "struct variant Span::At" ["start", "end", "file"] fun r =>
      .between <$> r.withDefault "start" .start Point.ofJson
        <*> r.withDefault "end" .start Point.ofJson <*> r.required "file" text

/-- Reads a span.  `inner` says whether it is a part of a tagged record. -/
def ofJson (inner : Bool) : Json → Except Mismatch Span
  | .string name =>
    if name = "None" then .ok .unknown
    else if name = "At" then .error (.invalidType "unit variant" "struct variant")
    else .error (.unknownVariant name sorts)
  | .object fields => do
    let (name, value) ← singleField fields
    if name = "None" then
      unit inner value
      return .unknown
    else if name = "At" then betweenOfJson inner value
    else .error (.unknownVariant name sorts)
  | j => j.mistyped "string or map"

/-- The form of spans. -/
def form : Form Mismatch :=
  .of (.name [("None", .of .scalar (unit false)),
      ("At", .of (.record [("start", Point.form), ("end", Point.form), ("file", textForm)])
        (betweenOfJson false))])
    (ofJson false)

/-- Writes a span. -/
def toJson : Span → Json
  | .unknown => .string "None"
  | .between first last file =>
    .object [("At", .object [("start", first.toJson), ("end", last.toJson),
      ("file", .string file)])]

end Span

namespace Path

/-- Reads the text of a path and its span. -/
def partsOfFields (fields : List (String × Json)) : Except Mismatch (String × Span) :=
  (recordOfObject false ["path", "span"] fields).build fun r =>
    .mk <$> r.required "path" text <*> r.withDefault "span" .unknown (Span.ofJson false)

/-- Reads a path from its text. -/
def ofText (span : Span) (text : String) : Except Mismatch Path :=
  (parse span text).mapError .path

/-- Reads a path.  If it is no text, and its text or its span can not be read, it is no path. -/
def ofJson : Json → Except Mismatch Path
  | .string text => ofText .unknown text
  | .object fields =>
    match partsOfFields fields with
    | .ok (text, span) => ofText span text
    | .error _ => .error .noPath
  | _ => .error .noPath

/-- A list is no path, even if it has the parts of one. -/
example : ofJson (.array [.string "a", .string "None"]) = .error .noPath := rfl
/-- Whatever is wrong with a part, the whole is no path. -/
example : ofJson (.object [("path", .string "a"), ("span", .null)]) = .error .noPath := rfl

/-- The form of paths. -/
def form : Form Mismatch := .of .any ofJson

/-- Writes a path. -/
def toJson (p : Path) : Json :=
  if p.span = .unknown then .string p.display
  else .object [("path", .string p.display), ("span", p.span.toJson)]

end Path

/-- Reads the span of a record. -/
def Json.Record.span (r : Record) : Gathered Span :=
  r.withDefault "span" .unknown (Span.ofJson r.isTagged)

/-- Reads a path in a field. -/
def Json.Record.path (r : Record) (name : String) : Gathered Path :=
  r.required name Path.ofJson

/-- Reads a text in a field. -/
def Json.Record.text (r : Record) (name : String) : Gathered String :=
  r.required name Json.text

/-- Writes a value that may be missing. -/
def Json.ofOption (write : α → Json) : Option α → Json
  | some a => write a
  | none => .null

end Correlation
