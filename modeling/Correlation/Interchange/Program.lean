import Correlation.Interchange.Statement
import Correlation.Program.Basic

/-!
# Programs in JSON

A program is loaded from a text and printed as one.  A program that does not say from which file it
comes takes the name of the file that is given when it is loaded.

Loading fails at the first place where the text is not JSON or the value is not a program.  In the
first case the place is reported.  A statement is judged as a whole, where it ends.
-/

namespace Correlation

open Json

/-- The modes of execution, by name. -/
def ExecutionMode.names : List (String × ExecutionMode) :=
  [("single", .single), ("sequential", .sequential), ("concurrent", .concurrent)]

/-- Reads a mode of execution. -/
def ExecutionMode.ofJson (j : Json) : Except Mismatch ExecutionMode := oneOf false names j

/-- The form of modes of execution. -/
def ExecutionMode.form : Form Mismatch := oneOfForm names

/-- Writes a mode of execution. -/
def ExecutionMode.toJson : ExecutionMode → Json
  | .single => .string "single"
  | .sequential => .string "sequential"
  | .concurrent => .string "concurrent"

/-- Reads an alias. -/
def CorrelationAlias.ofJson : Json → Except Mismatch CorrelationAlias :=
  record "struct CorrelationAlias" ["operation", "path"] fun r =>
    .mk <$> r.text "operation" <*> r.path "path"

/-- The form of aliases. -/
def CorrelationAlias.form : Form Mismatch :=
  .of (.record [("operation", textForm), ("path", Path.form)]) ofJson

/-- Writes an alias. -/
def CorrelationAlias.toJson (a : CorrelationAlias) : Json :=
  .object [("operation", .string a.operation), ("path", a.path.toJson)]

/-- Reads a variable of a correlation set. -/
def CorrelationVariable.ofJson : Json → Except Mismatch CorrelationVariable :=
  record "struct CorrelationVariable" ["path", "aliases"] fun r =>
    .mk <$> r.path "path" <*> r.withDefault "aliases" [] (list CorrelationAlias.ofJson)

/-- The form of variables of correlation sets. -/
def CorrelationVariable.form : Form Mismatch :=
  .of (.record [("path", Path.form),
      ("aliases", listForm CorrelationAlias.form CorrelationAlias.ofJson)])
    ofJson

/-- Writes a variable of a correlation set. -/
def CorrelationVariable.toJson (v : CorrelationVariable) : Json :=
  .object [("path", v.path.toJson), ("aliases", .array (v.aliases.map CorrelationAlias.toJson))]

/-- Reads a correlation set. -/
def CorrelationSet.ofJson : Json → Except Mismatch CorrelationSet :=
  record "struct CorrelationSet" ["span", "name", "variables"] fun r =>
    .mk <$> r.span <*> r.text "name" <*> r.required "variables" (list CorrelationVariable.ofJson)

/-- The form of correlation sets. -/
def CorrelationSet.form : Form Mismatch :=
  .of (.record [("span", Span.form), ("name", textForm),
      ("variables", listForm CorrelationVariable.form CorrelationVariable.ofJson)])
    ofJson

/-- Writes a correlation set. -/
def CorrelationSet.toJson (s : CorrelationSet) : Json :=
  .object [("span", s.span.toJson), ("name", .string s.name),
    ("variables", .array (s.members.map CorrelationVariable.toJson))]

/-- Reads a definition. -/
def Definition.ofJson : Json → Except Mismatch Definition :=
  record "struct Definition" ["span", "name", "body"] fun r =>
    .mk <$> r.span <*> r.text "name" <*> r.required "body" (Statement.ofJson false)

/-- The form of definitions. -/
def Definition.form : Form Mismatch :=
  .of (.record [("span", Span.form), ("name", textForm), ("body", Statement.form)]) ofJson

/-- Writes a definition. -/
def Definition.toJson (d : Definition) : Json :=
  .object [("span", d.span.toJson), ("name", .string d.name), ("body", d.body.toJson)]

namespace Program

/-- Reads a program. -/
def ofJson : Json → Except Mismatch Program :=
  record "struct Program" ["file", "execution", "correlation_sets", "definitions"] fun r =>
    .mk <$> r.withDefault "file" unknownFile text
      <*> r.withDefault "execution" .concurrent ExecutionMode.ofJson
      <*> r.withDefault "correlation_sets" [] (list CorrelationSet.ofJson)
      <*> r.required "definitions" (list Definition.ofJson)

/-- The form of programs. -/
def form : Form Mismatch :=
  .of (.record [("file", textForm), ("execution", ExecutionMode.form),
      ("correlation_sets", listForm CorrelationSet.form CorrelationSet.ofJson),
      ("definitions", listForm Definition.form Definition.ofJson)])
    ofJson

/-- Writes a program. -/
def toJson (p : Program) : Json :=
  .object [("file", .string p.file), ("execution", p.execution.toJson),
    ("correlation_sets", .array (p.correlationSets.map CorrelationSet.toJson)),
    ("definitions", .array (p.definitions.map Definition.toJson))]

end Program

/-! ## Texts of programs -/

/-- Why a text is not a program. -/
inductive LoadError where
  /-- The text is not JSON. -/
  | malformed (file : String) (position : TextPosition) (fault : JsonFault)
  /-- The value is not a program. -/
  | mismatch (reason : Mismatch)
deriving DecidableEq, Repr

namespace LoadError

/-- The message of a text that is not a program. -/
def message : LoadError → String
  | .malformed file ⟨line, column⟩ fault =>
      file ++ ":" ++ toString line ++ ":" ++ toString column ++ ": " ++ fault.message
        ++ " at line " ++ toString line ++ " column " ++ toString column
  | .mismatch reason => reason.message

/-- The code under which a text that is not a program is reported. -/
def code : String := "load-error"

/-- The advice on a text that is not a program. -/
def help : String := "the program must be a statement tree in the JSON interchange format"

end LoadError

namespace Program

/-- Why the text of a program can not be read, if the text comes from a file. -/
def loadError (file : String) (text : List Char) : Refusal Mismatch → LoadError
  | .fault cause offset => .malformed file (.ofOffset text offset) cause
  | .misfit reason => .mismatch reason

/-- Reads the text of a program, which comes from a file unless it says otherwise. -/
def load (source file : String) : Except LoadError Program :=
  let text := source.toList
  match decode form ofJson text with
  | .ok p => .ok (if p.file = unknownFile then { p with file } else p)
  | .error refusal => .error (loadError file text refusal)

/-- The text of a program. -/
def print (p : Program) : String := p.toJson.pretty

/-! ### Tests -/

section Tests

/-- Why a text is not a program. -/
def loadError? (source : String) : Option LoadError :=
  match load source "f" with
  | .ok _ => none
  | .error e => some e

example : loadError? "[\"g\", \"single\", [], []]" = none := by decide +kernel
/-- A program has four fields. -/
example : loadError? "[\"g\", \"single\", [],\n[], 0]"
    = some (.malformed "f" ⟨2, 5⟩ .trailingCharacters) := by decide +kernel
/-- A mode of execution is a name, or an object with one field. -/
example : loadError? "[\"g\", 0"
    = some (.malformed "f" ⟨1, 7⟩ .expectedValue) := by decide +kernel
example : loadError? "[\"g\", \x7b\"single\": null, 0"
    = some (.malformed "f" ⟨1, 21⟩ .expectedValue) := by decide +kernel
/-- What nobody asks for is passed over. -/
example : loadError? "\x7b\"x\": [1e999], \"definitions\": []\x7d" = none := by decide +kernel
/-- A mismatch comes before a fault that stands after it. -/
example : loadError? "\x7b\"definitions\": [\x7b\"name\": 0, \"x\" 1"
    = some (.mismatch (.invalidType "integer `0`" "a string")) := by decide +kernel

end Tests

end Program

end Correlation
