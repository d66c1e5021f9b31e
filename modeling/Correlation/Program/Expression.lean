import Correlation.Path.Basic

/-!
# Expressions

The right-hand sides of assignments, the conditions of branches and loops, and what messages carry.
Checking looks at an expression only where it initialises a variable, and then only at its
outermost form: `Expression.initializer` sorts the forms into five kinds.
-/

namespace Correlation

/-- Counting up or down by one, with the old or the new value as the result. -/
inductive UpdateOperator where
  | preIncrement
  | postIncrement
  | preDecrement
  | postDecrement
deriving DecidableEq, Repr, Inhabited

/-- The operation of an assignment that also reads its target. -/
inductive CompoundOperator where
  | add
  | subtract
  | multiply
  | divide
deriving DecidableEq, Repr, Inhabited

/-- An expression. -/
inductive Expression where
  | int (value : Int64)
  | real (value : Float)
  | string (value : String)
  | bool (value : Bool)
  | variable (path : Path)
  /-- A generator of values that differ from session to session. -/
  | fresh
  /-- The value of a variable that is counted up or down. -/
  | update (path : Path) (operator : UpdateOperator)
  | sum (operands : List Expression)
  | product (operands : List Expression)
  | compare (left right : Expression)
  | conjunction (operands : List Expression)
  | disjunction (operands : List Expression)
  | negation (operand : Expression)
  /-- The number of nodes of one name. -/
  | vectorSize (path : Path)
  /-- A test of the type of a variable. -/
  | isType (path : Path)
  /-- A conversion to another type. -/
  | cast (operand : Expression)
  /-- The value that a variable had when a handler was installed. -/
  | installFixed (path : Path)
deriving Inhabited

/-- How an expression initialises the target of an assignment. -/
inductive Initializer where
  /-- By a value that is the same in every session. -/
  | constant
  /-- By counting a variable up or down. -/
  | update (path : Path)
  /-- By the value of a variable. -/
  | copy (path : Path)
  /-- By a value that differs from session to session. -/
  | fresh
  /-- By a value of which nothing is known. -/
  | other
deriving DecidableEq, Repr, Inhabited

/-- The kind of initialiser that an expression is. -/
def Expression.initializer : Expression → Initializer
  | .int _ | .real _ | .string _ | .bool _ => .constant
  | .variable path => .copy path
  | .fresh => .fresh
  | .update path _ => .update path
  | .sum _ | .product _ | .compare _ _ | .conjunction _ | .disjunction _ | .negation _
  | .vectorSize _ | .isType _ | .cast _ | .installFixed _ => .other

end Correlation
