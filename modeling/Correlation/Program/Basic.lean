import Correlation.Program.Statement

/-!
# Programs

A program has definitions and correlation sets.  A *correlation set* names the variables that
together identify a session.  Each variable says in which operations' messages its value is found:
an *alias* is an operation and the place in its message.  An operation with an alias is routed by
the set.

Two definitions have a role of their own: `main` is the behaviour of a session and `init` runs once
before any session starts.
-/

namespace Correlation

/-- How the sessions of a program run. -/
inductive ExecutionMode where
  /-- There are no sessions, so inputs need not be routed. -/
  | single
  /-- One session after the other. -/
  | sequential
  /-- All sessions at the same time. -/
  | concurrent
deriving DecidableEq, Repr, Inhabited

/-- A named statement. -/
structure Definition where
  span : Span
  /-- The name by which it is called. -/
  name : String
  body : Statement
deriving Inhabited

/-- Where the messages of an operation carry the value of a correlation variable. -/
structure CorrelationAlias where
  operation : String
  /-- The place in its messages. -/
  path : Path
deriving DecidableEq, Repr, Inhabited

/-- A variable of a correlation set. -/
structure CorrelationVariable where
  /-- The path below the correlation root. -/
  path : Path
  /-- Where its value is found in messages. -/
  aliases : List CorrelationAlias
deriving DecidableEq, Repr, Inhabited

/-- The path of the variable under the correlation root, as if it were written at a span. -/
def CorrelationVariable.rooted (v : CorrelationVariable) (span : Span) : Path :=
  v.path.underRoot span

/-- The variables that together identify a session. -/
structure CorrelationSet where
  span : Span
  name : String
  members : List CorrelationVariable
deriving DecidableEq, Repr, Inhabited

/-- The paths of the variables of a set, as if they were written at a span. -/
def CorrelationSet.paths (s : CorrelationSet) (span : Span) : List Path :=
  s.members.map (·.rooted span)

/-- A program. -/
structure Program where
  file : String
  execution : ExecutionMode
  /-- The correlation sets, as declared. -/
  correlationSets : List CorrelationSet
  /-- The definitions, as declared. -/
  definitions : List Definition
deriving Inhabited

/-- The name of the definition that runs before any session. -/
def initName : String := "init"

/-- The name of the definition that is the behaviour of a session. -/
def mainName : String := "main"

end Correlation
