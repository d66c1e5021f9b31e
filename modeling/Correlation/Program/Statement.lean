import Correlation.Program.Expression

/-!
# Statements

A program is a tree of statements.  Those that take messages in are `oneWay` and
`requestResponse`, and a `choice` waits for the first of several inputs.  `solicitResponse` and
`notification` send messages out.  Every statement carries the span where it stands.

The parts of a statement that hold further statements besides something else are records over the
type of statements, so that the tree is one inductive type.
-/

namespace Correlation

/-- A branch of a choice. -/
structure Branch (σ : Type) where
  /-- The input that selects the branch. -/
  guard : σ
  /-- What runs after the input. -/
  body : σ
deriving Inhabited

/-- A conditional branch. -/
structure Arm (σ : Type) where
  /-- When the branch is taken. -/
  condition : Expression
  /-- What runs then. -/
  body : σ
deriving Inhabited

/-- A handler of a fault. -/
structure Handler (σ : Type) where
  fault : String
  /-- What runs when the fault is thrown. -/
  body : σ
deriving Inhabited

/-- A statement. -/
inductive Statement where
  /-- One statement after the other. -/
  | sequence (span : Span) (children : List Statement)
  /-- Statements that run at the same time. -/
  | parallel (span : Span) (children : List Statement)
  /-- Waits for one of several inputs. -/
  | choice (span : Span) (branches : List (Branch Statement))
  /-- The first arm whose condition holds, or else the last statement. -/
  | conditional (span : Span) (arms : List (Arm Statement)) (otherwise : Option Statement)
  /-- Repeats its body as long as a condition holds. -/
  | whileLoop (span : Span) (condition : Expression) (body : Statement)
  /-- Repeats body and step as long as a condition holds, after a first statement. -/
  | forLoop (span : Span) (init : Statement) (condition : Expression) (step body : Statement)
  /-- Runs its body for every child of a node. -/
  | forEach (span : Span) (key target : Path) (body : Statement)
  /-- A named block, with handlers of its own. -/
  | scope (span : Span) (name : String) (body : Statement)
  /-- A block that only one session at a time may run. -/
  | synchronized (span : Span) (id : String) (body : Statement)
  /-- Runs a definition. -/
  | call (span : Span) (name : String)
  /-- Takes in a message. -/
  | oneWay (span : Span) (operation : String) (receive : Option Path)
  /-- Takes in a message and answers it after its body has run. -/
  | requestResponse (span : Span) (operation : String) (receive : Option Path)
      (reply : Option Expression) (body : Statement)
  /-- Sends a message and waits for the answer. -/
  | solicitResponse (span : Span) (operation port : String) (send : Option Expression)
      (receive : Option Path)
  /-- Sends a message. -/
  | notification (span : Span) (operation port : String) (send : Option Expression)
  /-- Gives a variable a value. -/
  | assign (span : Span) (target : Path) (value : Expression)
  /-- Combines the value of a variable with another one. -/
  | compoundAssign (span : Span) (target : Path) (operator : CompoundOperator)
      (value : Expression)
  /-- Counts a variable up or down. -/
  | update (span : Span) (path : Path) (operator : UpdateOperator)
  /-- Makes one variable stand for another. -/
  | pointer (span : Span) (left right : Path)
  /-- Copies the tree under a variable. -/
  | deepCopy (span : Span) (left right : Path)
  /-- Removes the tree under a variable. -/
  | undefine (span : Span) (path : Path)
  | nothing (span : Span)
  | throw (span : Span) (fault : String)
  | exit (span : Span)
  | install (span : Span) (handlers : List (Handler Statement))
  /-- Runs the compensation of a scope. -/
  | compensate (span : Span) (scope : String)
  /-- Runs its body many times at once. -/
  | spawn (span : Span) (index : Path) (upperBound : Expression) (body : Statement)
  | linkIn (span : Span) (link : String)
  | linkOut (span : Span) (link : String)
  /-- Runs code that is given as text. -/
  | run (span : Span) (code : Expression)
  /-- Runs the handler that was installed before. -/
  | currentHandler (span : Span)
deriving Inhabited

/-- Where a statement stands. -/
def Statement.span : Statement → Span
  | .sequence span _ | .parallel span _ | .choice span _ | .conditional span _ _
  | .whileLoop span _ _ | .forLoop span _ _ _ _ | .forEach span _ _ _ | .scope span _ _
  | .synchronized span _ _ | .call span _ | .oneWay span _ _ | .requestResponse span _ _ _ _
  | .solicitResponse span _ _ _ _ | .notification span _ _ _ | .assign span _ _
  | .compoundAssign span _ _ _ | .update span _ _ | .pointer span _ _ | .deepCopy span _ _
  | .undefine span _ | .nothing span | .throw span _ | .exit span | .install span _
  | .compensate span _ | .spawn span _ _ _ | .linkIn span _ | .linkOut span _ | .run span _
  | .currentHandler span => span

end Correlation
