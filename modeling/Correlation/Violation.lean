import Correlation.Path.Basic

/-!
# Violations

What checking finds wrong with a program: a *cause*, and the span to which it is reported.  Causes
fall into classes with a short code each.  Every cause has a message, and some have advice for the
reader.
-/

namespace Correlation

/-- The two statements that take one of several branches. -/
inductive BranchKind where
  | choice
  | conditional
deriving DecidableEq, Repr, Inhabited

/-- The two ways for a message to arrive. -/
inductive ReceiveKind where
  /-- As the input of an operation. -/
  | input
  /-- As the answer to a request. -/
  | answer
deriving DecidableEq, Repr, Inhabited

namespace Violation

/-- What is wrong. -/
inductive Cause where
  | mainNotFound
  /-- A definition that is called does not exist. -/
  | definitionNotFound (name : String)
  /-- Definitions call each other in a circle, which ends where it starts. -/
  | definitionCycle (names : List String)
  /-- A correlation variable gets a value twice. -/
  | definedMoreThanOnce (path : Path)
  /-- A correlation variable gets a value before any session starts. -/
  | initializedInInit (path : Path)
  /-- A correlation variable is used before it has a value. -/
  | notInitialized (path : Path)
  /-- A data variable without a value initialises a correlation variable. -/
  | variableNotInitialized (path : Path)
  /-- A correlation variable gets a value in some branches only. -/
  | notInitializedInEveryBranch (path : Path) (kind : BranchKind)
  /-- A correlation variable gets a fresh value in some branches and another one elsewhere. -/
  | freshnessDiffers (path : Path)
  /-- An operation starts a session and is also an input of a running one. -/
  | starterUsedInSession (operation : String)
  /-- A correlation variable gets a value in a loop. -/
  | initializedInLoop (path : Path)
  /-- An input of a running session has no correlation set. -/
  | noCorrelationSet (operation : String)
  /-- A message is stored in a correlation variable. -/
  | receiveOnCorrelation (path : Path) (kind : ReceiveKind)
  /-- A correlation variable is initialised by an unsuitable expression. -/
  | invalidInitializer (path : Path)
  /-- A correlation variable is initialised by a path that is known only at run time. -/
  | mayBeUndefined (source target : Path)
  /-- No variable of a correlation set gets a fresh value. -/
  | noFreshValue (set : String)
  /-- Two correlation sets claim an operation. -/
  | operationInManySets (operation first second : String)
  /-- A correlation set is declared again. -/
  | setAlreadyDeclared (previous : Span) (name : String)
deriving DecidableEq, Repr, Inhabited

/-- The code of the class of a cause. -/
def Cause.code : Cause → String
  | .mainNotFound | .definitionNotFound _ => "missing-definition"
  | .definitionCycle _ => "definition-cycle"
  | .definedMoreThanOnce _ | .initializedInInit _ => "double-definition"
  | .notInitialized _ | .variableNotInitialized _ => "uninitialized-use"
  | .notInitializedInEveryBranch _ _ | .freshnessDiffers _ => "branch-inconsistency"
  | .starterUsedInSession _ => "starter-conflict"
  | .initializedInLoop _ => "loop-definition"
  | .noCorrelationSet _ | .operationInManySets _ _ _ => "unroutable-operation"
  | .receiveOnCorrelation _ _ => "receive-on-correlation"
  | .invalidInitializer _ | .mayBeUndefined _ _ => "invalid-initializer"
  | .noFreshValue _ => "no-fresh-value"
  | .setAlreadyDeclared _ _ => "duplicate-correlation-set"

/-- Advice on how to mend a cause. -/
def Cause.help : Cause → Option String
  | .noFreshValue _ =>
      some "assign one of its variables a fresh value (`new`) when the session starts"
  | .invalidInitializer _ =>
      some "use a constant, an increment of itself, a defined variable or a fresh value"
  | .initializedInLoop _ => some "move the initialisation before the loop"
  | .noCorrelationSet _ => some "add an alias for this operation to a correlation set"
  | _ => none

/-- The message of a cause. -/
def Cause.message : Cause → String
  | .mainNotFound => "Can not find the main entry point."
  | .definitionNotFound name => "Can not find definition `" ++ name ++ "`."
  | .definitionCycle names =>
      "There is a definition cycle:\n\n  " ++ String.intercalate " -> " names
        ++ "\n\nDefinitions can not call themselves."
  | .definedMoreThanOnce path =>
      "Correlation variable `" ++ path.display ++ "` can not be defined more than one time."
  | .initializedInInit path =>
      "Correlation variable `" ++ path.display ++ "` can not be initialised in the init procedure."
  | .notInitialized path =>
      "Correlation path `" ++ path.display ++ "` is not initialised before usage."
  | .variableNotInitialized path =>
      "Variable `" ++ path.display
        ++ "` is not initialised before using it to initialise a correlation variable."
  | .notInitializedInEveryBranch path .choice =>
      "Correlation variable `" ++ path.display ++ "` must be initialised in every branch."
  | .notInitializedInEveryBranch path .conditional =>
      "Correlation variable `" ++ path.display
        ++ "` must be initialised in every if-then-else branch."
  | .freshnessDiffers path =>
      "Correlation variable `" ++ path.display
        ++ "` is initialised with a fresh value in some branches but not in others."
  | .starterUsedInSession operation =>
      "Operation `" ++ operation
        ++ "` can not be used both as a starter and in the body of another session branch."
  | .initializedInLoop path =>
      "Initialising correlation variables in loops is forbidden (`" ++ path.display ++ "`)."
  | .noCorrelationSet operation =>
      "No correlation set defined for operation `" ++ operation ++ "`."
  | .receiveOnCorrelation path .input =>
      "Input operations can not receive on correlation variable `" ++ path.display ++ "`."
  | .receiveOnCorrelation path .answer =>
      "Solicit-response statements can not receive on correlation variable `" ++ path.display
        ++ "`."
  | .invalidInitializer path =>
      "Correlation variable `" ++ path.display
        ++ "` must either be initialised with a fresh value, a variable, a constant or an "
        ++ "increment of itself."
  | .mayBeUndefined source target =>
      "Variable `" ++ source.display
        ++ "` may be undefined before being used for defining correlation variable `"
        ++ target.display ++ "`."
  | .noFreshValue set =>
      "Every correlation set must have at least one fresh value, but `" ++ set ++ "` has none."
  | .operationInManySets operation first second =>
      "Operation `" ++ operation ++ "` is correlated by more than one correlation set (`" ++ first
        ++ "` and `" ++ second ++ "`)."
  | .setAlreadyDeclared previous name =>
      "Correlation set `" ++ name ++ "` is already declared at " ++ previous.display ++ "."

end Violation

/-- Something wrong with a program. -/
structure Violation where
  span : Span
  cause : Violation.Cause
deriving DecidableEq, Repr, Inhabited

namespace Violation

/-- The code of a violation. -/
def code (v : Violation) : String := v.cause.code

/-- The message of a violation. -/
def message (v : Violation) : String := v.cause.message

/-- The advice on a violation. -/
def help (v : Violation) : Option String := v.cause.help

/-- The report of a violation: the place and the message. -/
def report (v : Violation) : String := v.span.display ++ ": " ++ v.message

/-- The violation, reported elsewhere. -/
def moveTo (v : Violation) (span : Span) : Violation := { v with span }

end Violation

/-- A violation as it is handed to other tools. -/
structure Diagnostic where
  file : String
  line : Option Nat
  code : String
  message : String
deriving DecidableEq, Repr, Inhabited

/-- The diagnostic of a violation.  One that is not known to be elsewhere is in the given file. -/
def Violation.diagnostic (v : Violation) (file : String) : Diagnostic :=
  ⟨v.span.file?.getD file, v.span.line?, v.code, v.message⟩

/-! ## Tests -/

example : (Violation.Cause.definitionCycle ["a", "b", "a"]).message
    = "There is a definition cycle:\n\n  a -> b -> a\n\nDefinitions can not call themselves." := by
  decide +kernel

end Correlation
