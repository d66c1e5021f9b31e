import Correlation.Interchange.Expression
import Correlation.Program.Statement

/-!
# Statements in JSON

One row of `Statement.kinds` per form of statement, and one equation of `Statement.toJson`.
-/

namespace Correlation

open Json

/-- Reads a branch of a choice. -/
def Branch.ofJson (statement : Json → Except Mismatch Statement) :
    Json → Except Mismatch (Branch Statement) :=
  record "struct ChoiceBranch" ["guard", "body"] fun r =>
    .mk <$> r.required "guard" statement <*> r.required "body" statement

/-- Reads a conditional branch. -/
def Arm.ofJson (statement : Json → Except Mismatch Statement) :
    Json → Except Mismatch (Arm Statement) :=
  record "struct IfArm" ["condition", "body"] fun r =>
    .mk <$> r.required "condition" (Expression.ofJson true) <*> r.required "body" statement

/-- Reads a handler. -/
def Handler.ofJson (statement : Json → Except Mismatch Statement) :
    Json → Except Mismatch (Handler Statement) :=
  record "struct FaultHandler" ["fault", "body"] fun r =>
    .mk <$> r.text "fault" <*> r.required "body" statement

namespace Statement

/-- Reads an expression in a field. -/
def expression (r : Record) (name : String) : Gathered Expression :=
  r.required name (Expression.ofJson true)

/-- Reads an expression in a field that may be missing. -/
def expression? (r : Record) (name : String) : Gathered (Option Expression) :=
  r.optional name (Expression.ofJson true)

/-- Reads a path in a field that may be missing. -/
def path? (r : Record) (name : String) : Gathered (Option Path) :=
  r.optional name Path.ofJson

/-- The kinds of statements. -/
def kinds : List (Kind Statement) :=
  [⟨"sequence", ["span", "children"], fun inner r =>
      .sequence <$> r.span <*> r.required "children" (list inner)⟩,
   ⟨"parallel", ["span", "children"], fun inner r =>
      .parallel <$> r.span <*> r.required "children" (list inner)⟩,
   ⟨"choice", ["span", "branches"], fun inner r =>
      .choice <$> r.span <*> r.required "branches" (list (Branch.ofJson inner))⟩,
   ⟨"if", ["span", "arms", "else"], fun inner r =>
      .conditional <$> r.span <*> r.required "arms" (list (Arm.ofJson inner))
        <*> r.optional "else" inner⟩,
   ⟨"while", ["span", "condition", "body"], fun inner r =>
      .whileLoop <$> r.span <*> expression r "condition" <*> r.required "body" inner⟩,
   ⟨"for", ["span", "init", "condition", "step", "body"], fun inner r =>
      .forLoop <$> r.span <*> r.required "init" inner <*> expression r "condition"
        <*> r.required "step" inner <*> r.required "body" inner⟩,
   ⟨"for_each", ["span", "key", "target", "body"], fun inner r =>
      .forEach <$> r.span <*> r.path "key" <*> r.path "target" <*> r.required "body" inner⟩,
   ⟨"scope", ["span", "name", "body"], fun inner r =>
      .scope <$> r.span <*> r.text "name" <*> r.required "body" inner⟩,
   ⟨"synchronized", ["span", "id", "body"], fun inner r =>
      .synchronized <$> r.span <*> r.text "id" <*> r.required "body" inner⟩,
   ⟨"call", ["span", "name"], fun _ r => .call <$> r.span <*> r.text "name"⟩,
   ⟨"one_way", ["span", "operation", "receive"], fun _ r =>
      .oneWay <$> r.span <*> r.text "operation" <*> path? r "receive"⟩,
   ⟨"request_response", ["span", "operation", "receive", "reply", "body"], fun inner r =>
      .requestResponse <$> r.span <*> r.text "operation" <*> path? r "receive"
        <*> expression? r "reply" <*> r.required "body" inner⟩,
   ⟨"solicit_response", ["span", "operation", "port", "send", "receive"], fun _ r =>
      .solicitResponse <$> r.span <*> r.text "operation" <*> r.text "port" <*> expression? r "send"
        <*> path? r "receive"⟩,
   ⟨"notification", ["span", "operation", "port", "send"], fun _ r =>
      .notification <$> r.span <*> r.text "operation" <*> r.text "port" <*> expression? r "send"⟩,
   ⟨"assign", ["span", "target", "value"], fun _ r =>
      .assign <$> r.span <*> r.path "target" <*> expression r "value"⟩,
   ⟨"compound_assign", ["span", "target", "operator", "value"], fun _ r =>
      .compoundAssign <$> r.span <*> r.path "target"
        <*> r.required "operator" (oneOf true CompoundOperator.names) <*> expression r "value"⟩,
   ⟨"update", ["span", "path", "operator"], fun _ r =>
      .update <$> r.span <*> r.path "path"
        <*> r.required "operator" (oneOf true UpdateOperator.names)⟩,
   ⟨"pointer", ["span", "left", "right"], fun _ r =>
      .pointer <$> r.span <*> r.path "left" <*> r.path "right"⟩,
   ⟨"deep_copy", ["span", "left", "right"], fun _ r =>
      .deepCopy <$> r.span <*> r.path "left" <*> r.path "right"⟩,
   ⟨"undef", ["span", "path"], fun _ r => .undefine <$> r.span <*> r.path "path"⟩,
   ⟨"nothing", ["span"], fun _ r => .nothing <$> r.span⟩,
   ⟨"throw", ["span", "fault"], fun _ r => .throw <$> r.span <*> r.text "fault"⟩,
   ⟨"exit", ["span"], fun _ r => .exit <$> r.span⟩,
   ⟨"install", ["span", "handlers"], fun inner r =>
      .install <$> r.span <*> r.required "handlers" (list (Handler.ofJson inner))⟩,
   ⟨"compensate", ["span", "scope"], fun _ r => .compensate <$> r.span <*> r.text "scope"⟩,
   ⟨"spawn", ["span", "index", "upper_bound", "body"], fun inner r =>
      .spawn <$> r.span <*> r.path "index" <*> expression r "upper_bound"
        <*> r.required "body" inner⟩,
   ⟨"link_in", ["span", "link"], fun _ r => .linkIn <$> r.span <*> r.text "link"⟩,
   ⟨"link_out", ["span", "link"], fun _ r => .linkOut <$> r.span <*> r.text "link"⟩,
   ⟨"run", ["span", "code"], fun _ r => .run <$> r.span <*> expression r "code"⟩,
   ⟨"current_handler", ["span"], fun _ r => .currentHandler <$> r.span⟩]

/-- Reads a statement.  `inner` says whether it is a part of another tagged record. -/
def ofJson (inner : Bool) (j : Json) : Except Mismatch Statement :=
  readTagged "Statement" kinds j.depth inner j

/-- The form of statements. -/
def form : Form Mismatch := taggedForm kinds (ofJson false)

/-- A statement of a kind and a span. -/
def node (kind : String) (span : Span) (fields : List (String × Json)) : Json :=
  ofKind kind (("span", span.toJson) :: fields)

mutual

/-- Writes a statement. -/
def toJson : Statement → Json
  | .sequence span children => node "sequence" span [("children", .array (allToJson children))]
  | .parallel span children => node "parallel" span [("children", .array (allToJson children))]
  | .choice span branches => node "choice" span [("branches", .array (branchesToJson branches))]
  | .conditional span arms otherwise =>
    node "if" span [("arms", .array (armsToJson arms)), ("else", elseToJson otherwise)]
  | .whileLoop span condition body =>
    node "while" span [("condition", condition.toJson), ("body", body.toJson)]
  | .forLoop span init condition step body =>
    node "for" span
      [("init", init.toJson), ("condition", condition.toJson), ("step", step.toJson),
        ("body", body.toJson)]
  | .forEach span key target body =>
    node "for_each" span
      [("key", key.toJson), ("target", target.toJson), ("body", body.toJson)]
  | .scope span name body => node "scope" span [("name", .string name), ("body", body.toJson)]
  | .synchronized span id body =>
    node "synchronized" span [("id", .string id), ("body", body.toJson)]
  | .call span name => node "call" span [("name", .string name)]
  | .oneWay span operation receive =>
    node "one_way" span
      [("operation", .string operation), ("receive", ofOption Path.toJson receive)]
  | .requestResponse span operation receive reply body =>
    node "request_response" span
      [("operation", .string operation), ("receive", ofOption Path.toJson receive),
        ("reply", ofOption Expression.toJson reply), ("body", body.toJson)]
  | .solicitResponse span operation port send receive =>
    node "solicit_response" span
      [("operation", .string operation), ("port", .string port),
        ("send", ofOption Expression.toJson send), ("receive", ofOption Path.toJson receive)]
  | .notification span operation port send =>
    node "notification" span
      [("operation", .string operation), ("port", .string port),
        ("send", ofOption Expression.toJson send)]
  | .assign span target value =>
    node "assign" span [("target", target.toJson), ("value", value.toJson)]
  | .compoundAssign span target operator value =>
    node "compound_assign" span
      [("target", target.toJson), ("operator", operator.toJson), ("value", value.toJson)]
  | .update span path operator =>
    node "update" span [("path", path.toJson), ("operator", operator.toJson)]
  | .pointer span left right =>
    node "pointer" span [("left", left.toJson), ("right", right.toJson)]
  | .deepCopy span left right =>
    node "deep_copy" span [("left", left.toJson), ("right", right.toJson)]
  | .undefine span path => node "undef" span [("path", path.toJson)]
  | .nothing span => node "nothing" span []
  | .throw span fault => node "throw" span [("fault", .string fault)]
  | .exit span => node "exit" span []
  | .install span handlers =>
    node "install" span [("handlers", .array (handlersToJson handlers))]
  | .compensate span name => node "compensate" span [("scope", .string name)]
  | .spawn span index upperBound body =>
    node "spawn" span
      [("index", index.toJson), ("upper_bound", upperBound.toJson), ("body", body.toJson)]
  | .linkIn span link => node "link_in" span [("link", .string link)]
  | .linkOut span link => node "link_out" span [("link", .string link)]
  | .run span code => node "run" span [("code", code.toJson)]
  | .currentHandler span => node "current_handler" span []

/-- Writes statements. -/
def allToJson : List Statement → List Json
  | [] => []
  | s :: rest => s.toJson :: allToJson rest

/-- Writes the branches of a choice. -/
def branchesToJson : List (Branch Statement) → List Json
  | [] => []
  | ⟨guard, body⟩ :: rest =>
    .object [("guard", guard.toJson), ("body", body.toJson)] :: branchesToJson rest

/-- Writes conditional branches. -/
def armsToJson : List (Arm Statement) → List Json
  | [] => []
  | ⟨condition, body⟩ :: rest =>
    .object [("condition", condition.toJson), ("body", body.toJson)] :: armsToJson rest

/-- Writes the last branch. -/
def elseToJson : Option Statement → Json
  | none => .null
  | some s => s.toJson

/-- Writes handlers. -/
def handlersToJson : List (Handler Statement) → List Json
  | [] => []
  | ⟨fault, body⟩ :: rest =>
    .object [("fault", .string fault), ("body", body.toJson)] :: handlersToJson rest

end

end Statement

end Correlation
