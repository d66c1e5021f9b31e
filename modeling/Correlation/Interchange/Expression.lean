import Correlation.Interchange.Source
import Correlation.Interchange.Tagged
import Correlation.Program.Expression

/-!
# Expressions in JSON

One row of `Expression.kinds` per form of expression, and one equation of `Expression.toJson`.
-/

namespace Correlation

open Json

/-- The operators that count up or down, by name. -/
def UpdateOperator.names : List (String × UpdateOperator) :=
  [("pre_increment", .preIncrement), ("post_increment", .postIncrement),
   ("pre_decrement", .preDecrement), ("post_decrement", .postDecrement)]

/-- Writes an operator that counts up or down. -/
def UpdateOperator.toJson : UpdateOperator → Json
  | .preIncrement => .string "pre_increment"
  | .postIncrement => .string "post_increment"
  | .preDecrement => .string "pre_decrement"
  | .postDecrement => .string "post_decrement"

/-- The operators of compound assignments, by name. -/
def CompoundOperator.names : List (String × CompoundOperator) :=
  [("add", .add), ("subtract", .subtract), ("multiply", .multiply), ("divide", .divide)]

/-- Writes the operator of a compound assignment. -/
def CompoundOperator.toJson : CompoundOperator → Json
  | .add => .string "add"
  | .subtract => .string "subtract"
  | .multiply => .string "multiply"
  | .divide => .string "divide"

namespace Expression

/-- The kinds of expressions. -/
def kinds : List (Kind Expression) :=
  [⟨"int", ["value"], fun _ r => .int <$> r.required "value" int64⟩,
   ⟨"real", ["value"], fun _ r => .real <$> r.required "value" number⟩,
   ⟨"string", ["value"], fun _ r => .string <$> r.text "value"⟩,
   ⟨"bool", ["value"], fun _ r => .bool <$> r.required "value" flag⟩,
   ⟨"variable", ["path"], fun _ r => .variable <$> r.path "path"⟩,
   ⟨"fresh", [], fun _ _ => pure .fresh⟩,
   ⟨"update", ["path", "operator"], fun _ r =>
      .update <$> r.path "path" <*> r.required "operator" (oneOf true UpdateOperator.names)⟩,
   ⟨"sum", ["operands"], fun inner r => .sum <$> r.required "operands" (list inner)⟩,
   ⟨"product", ["operands"], fun inner r => .product <$> r.required "operands" (list inner)⟩,
   ⟨"compare", ["left", "right"], fun inner r =>
      .compare <$> r.required "left" inner <*> r.required "right" inner⟩,
   ⟨"and", ["operands"], fun inner r => .conjunction <$> r.required "operands" (list inner)⟩,
   ⟨"or", ["operands"], fun inner r => .disjunction <$> r.required "operands" (list inner)⟩,
   ⟨"not", ["operand"], fun inner r => .negation <$> r.required "operand" inner⟩,
   ⟨"vector_size", ["path"], fun _ r => .vectorSize <$> r.path "path"⟩,
   ⟨"is_type", ["path"], fun _ r => .isType <$> r.path "path"⟩,
   ⟨"cast", ["operand"], fun inner r => .cast <$> r.required "operand" inner⟩,
   ⟨"install_fixed", ["path"], fun _ r => .installFixed <$> r.path "path"⟩]

/-- Reads an expression.  `inner` says whether it is a part of another tagged record. -/
def ofJson (inner : Bool) (j : Json) : Except Mismatch Expression :=
  readTagged "Expression" kinds j.depth inner j

/-- The form of expressions. -/
def form : Form Mismatch := taggedForm kinds (ofJson false)

mutual

/-- Writes an expression. -/
def toJson : Expression → Json
  | .int value => ofKind "int" [("value", .integer value.toInt)]
  | .real value => ofKind "real" [("value", .real value)]
  | .string value => ofKind "string" [("value", .string value)]
  | .bool value => ofKind "bool" [("value", .bool value)]
  | .variable path => ofKind "variable" [("path", path.toJson)]
  | .fresh => ofKind "fresh" []
  | .update path operator =>
    ofKind "update" [("path", path.toJson), ("operator", operator.toJson)]
  | .sum operands => ofKind "sum" [("operands", .array (allToJson operands))]
  | .product operands => ofKind "product" [("operands", .array (allToJson operands))]
  | .compare left right =>
    ofKind "compare" [("left", left.toJson), ("right", right.toJson)]
  | .conjunction operands => ofKind "and" [("operands", .array (allToJson operands))]
  | .disjunction operands => ofKind "or" [("operands", .array (allToJson operands))]
  | .negation operand => ofKind "not" [("operand", operand.toJson)]
  | .vectorSize path => ofKind "vector_size" [("path", path.toJson)]
  | .isType path => ofKind "is_type" [("path", path.toJson)]
  | .cast operand => ofKind "cast" [("operand", operand.toJson)]
  | .installFixed path => ofKind "install_fixed" [("path", path.toJson)]

/-- Writes expressions. -/
def allToJson : List Expression → List Json
  | [] => []
  | e :: rest => e.toJson :: allToJson rest

end

end Expression

end Correlation
