import Correlation.Violation

/-!
# Typings

The typing of a statement says what has to be defined before the statement runs, and what is
defined, undefined and received once it has run.  Correlation variables and data are kept apart,
since their rules differ: a correlation variable is defined at most once and never undefined.

* What is *needed* is used before the statement itself defines it.
* What is *provided* is defined on every run of the statement.
* What is *invalidated* may be undefined afterwards.
* The *session operations* are the inputs of a running session, the *starting operation* is the
  input that begins one.
-/

namespace Correlation

/-- What a statement asks for and what it brings about. -/
structure Typing where
  /-- Correlation variables that must have a value. -/
  neededCorrelation : PathSet
  /-- Data that must have a value. -/
  neededData : PathSet
  /-- Correlation variables that get a value. -/
  providedCorrelation : ProvidedSet
  /-- Data that gets a value. -/
  providedData : PathSet
  /-- Data that may have no value any more. -/
  invalidatedData : PathSet
  /-- Inputs that do not start a session. -/
  sessionOperations : NameSet
  /-- The input that starts the session. -/
  startingOperation : Option String
deriving DecidableEq

namespace Typing

/-- The typing of a statement without any effect. -/
def empty : Typing := ⟨.empty, .empty, .empty, .empty, .empty, .empty, none⟩

instance : Inhabited Typing := ⟨empty⟩

/-- Only what is provided.  This is how a statement enters the one after it. -/
def provisions (t : Typing) : Typing :=
  { empty with providedCorrelation := t.providedCorrelation, providedData := t.providedData }

/-- Needs a path.  The span of its first need is kept. -/
def need (t : Typing) (p : Path) : Typing :=
  if p.isCorrelation then { t with neededCorrelation := t.neededCorrelation.insertNew p }
  else { t with neededData := t.neededData.insertNew p }

/-- Needs all that another typing needs. -/
def needAllOf (t other : Typing) : Typing :=
  (other.neededCorrelation.toList ++ other.neededData.toList).foldl need t

/-- Provides a path.  Of a correlation variable the last provision is kept, of data the first. -/
def provide (t : Typing) (p : Path) (fresh : Bool) : Typing :=
  if p.isCorrelation then
    { t with providedCorrelation := t.providedCorrelation.insert ⟨p, fresh⟩ }
  else { t with providedData := t.providedData.insertNew p }

/-- Takes the value of a path away.  Correlation variables keep theirs. -/
def invalidate (t : Typing) (p : Path) : Typing :=
  if p.isCorrelation then t
  else
    { t with
      providedData := t.providedData.erase p.location
      invalidatedData := t.invalidatedData.insertNew p }

/-- Whether a location is provided. -/
def provides (t : Typing) (l : Location) : Bool :=
  t.providedData.contains l || t.providedCorrelation.contains l

/-- Notes an input, which starts a session or belongs to a running one. -/
def noteInput (t : Typing) (operation : String) (starter : Bool) : Typing :=
  if starter then { t with startingOperation := some operation }
  else { t with sessionOperations := t.sessionOperations.insertNew operation }

/-- Notes the inputs of another typing.  The first starting operation stays. -/
def noteInputsOf (t other : Typing) : Typing :=
  { t with
    startingOperation := t.startingOperation.or other.startingOperation
    sessionOperations := t.sessionOperations.union other.sessionOperations }

/-- The typing of a body that runs any number of times, perhaps never: its data can not be relied
on, and it must not define correlation variables. -/
def repeated (t : Typing) (span : Span) : Typing × List Violation :=
  ({ t with providedData := .empty },
    match t.providedCorrelation.toList with
    | [] => []
    | p :: _ => [⟨span, .initializedInLoop p.path⟩])

end Typing

end Correlation
