import Correlation.Program.Basic
import Correlation.Violation

/-!
# Routing

Which correlation set finds the session of a message.  The sets are indexed by name, and operations
by the set that has an alias for them.  The first declaration wins in both tables: a second set of
the same name is left out with all its aliases, and an operation stays with its first set.  Either
is a violation.
-/

namespace Correlation

/-- The correlation sets of a program, and the set of each operation. -/
structure Routing where
  /-- The sets, in order of declaration. -/
  sets : OrderedSet CorrelationSet.name
  /-- The name of the set that routes an operation. -/
  owners : NameTable String
deriving DecidableEq

namespace Routing

/-- No sets. -/
def empty : Routing := ⟨.empty, .empty⟩

instance : Inhabited Routing := ⟨empty⟩

/-- Lets a set route an operation.  It is refused if another set does so already. -/
def claim (r : Routing) (operation set : String) : Except Violation.Cause Routing :=
  match r.owners.get? operation with
  | some owner =>
    if owner = set then .ok r else .error (.operationInManySets operation owner set)
  | none => .ok { r with owners := r.owners.insert (operation, set) }

/-- The set that routes an operation. -/
def setFor (r : Routing) (operation : String) : Option CorrelationSet :=
  (r.owners.get? operation).bind r.sets.find?

/-- Adds an alias of a set. -/
def addAlias (set : CorrelationSet) (acc : Routing × List Violation) (entry : CorrelationAlias) :
    Routing × List Violation :=
  match acc.1.claim entry.operation set.name with
  | .ok r => (r, acc.2)
  | .error cause => (acc.1, acc.2 ++ [⟨entry.path.span.or set.span, cause⟩])

/-- Adds a set and its aliases, in the order of its variables. -/
def addSet (acc : Routing × List Violation) (set : CorrelationSet) : Routing × List Violation :=
  match acc.1.sets.find? set.name with
  | some previous =>
    (acc.1, acc.2 ++ [⟨set.span, .setAlreadyDeclared previous.span set.name⟩])
  | none =>
    (set.members.flatMap CorrelationVariable.aliases).foldl (addAlias set)
      ({ acc.1 with sets := acc.1.sets.insert set }, acc.2)

/-- The routing that correlation sets declare, and what is wrong with them. -/
def ofSets (sets : List CorrelationSet) : Routing × List Violation :=
  sets.foldl addSet (empty, [])

end Routing

end Correlation
