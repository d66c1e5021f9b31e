import Correlation.Typing.Basic

/-!
# Branches

Two ways to join the typings of several statements.

Statements that run *at the same time* do not see what the others define.  Together they need what
any of them needs and provide what any of them provides, and a correlation variable belongs to one
of them only.

Of *alternatives* exactly one runs.  Data is provided if every alternative provides it.  The same is
demanded of correlation variables, with the same freshness, unless the alternatives start sessions:
then each may define keys of its own, but the operation that selects one must not be an input of a
session that another has started.
-/

namespace Correlation

namespace Typing

/-! ## At the same time -/

/-- Defines a correlation variable beside those of other statements. -/
def defineBeside (acc : Typing × List Violation) (p : ProvidedPath) : Typing × List Violation :=
  if acc.1.providedCorrelation.contains p.location then
    (acc.1, acc.2 ++ [⟨p.path.span, .definedMoreThanOnce p.path⟩])
  else
    ({ acc.1 with providedCorrelation := acc.1.providedCorrelation.insert p }, acc.2)

/-- A typing together with that of a statement that runs at the same time. -/
def beside (t next : Typing) : Typing × List Violation :=
  let noted := (t.noteInputsOf next).needAllOf next
  let (defined, violations) := next.providedCorrelation.toList.foldl defineBeside (noted, [])
  let provided := { defined with providedData := defined.providedData.union next.providedData }
  (next.invalidatedData.toList.foldl invalidate provided, violations)

/-- The typing of statements that run at the same time. -/
def parallel (branches : List Typing) : Typing × List Violation :=
  branches.foldl
    (fun acc next =>
      let (joined, violations) := acc.1.beside next
      (joined, acc.2 ++ violations))
    (empty, [])

/-! ## Alternatives -/

/-- Joins a provision of one alternative to those of the alternatives before it. -/
def joinProvision (combine : Bool → Bool → Bool) (acc : ProvidedSet) (p : ProvidedPath) :
    ProvidedSet :=
  match acc.find? p.location with
  | some before => acc.mark p.location (combine before.fresh p.fresh)
  | none => acc.insert p

/-- The correlation variables that some alternative provides.  If the alternatives start sessions,
a variable is fresh when one of them makes it fresh, or else when all that provide it do. -/
def joinedProvisions (branches : List Typing) (sessionStart : Bool) : ProvidedSet :=
  (branches.flatMap fun b => b.providedCorrelation.toList).foldl
    (joinProvision (if sessionStart then (· || ·) else (· && ·))) .empty

/-- The data that every alternative provides, as the first one does. -/
def commonData : List Typing → PathSet
  | [] => .empty
  | first :: rest =>
    first.providedData.retain fun p => rest.all fun b => b.providedData.contains p.location

/-- Joins the needs, the inputs and the invalidated data of an alternative. -/
def joinEffects (t branch : Typing) : Typing :=
  branch.invalidatedData.toList.foldl invalidate ((t.needAllOf branch).noteInputsOf branch)

/-- The typing of alternatives. -/
def alternatives (branches : List Typing) (sessionStart : Bool) : Typing :=
  { branches.foldl joinEffects empty with
    providedData := commonData branches
    providedCorrelation := joinedProvisions branches sessionStart }

/-- The operations that start a session in one alternative and belong to a session in another. -/
def starterConflicts (branches : List Typing) : List String :=
  branches.zipIdx.filterMap fun (top, i) =>
    top.startingOperation.filter fun operation =>
      branches.zipIdx.any fun (other, j) =>
        !decide (i = j) && other.sessionOperations.contains operation

/-- What is wrong with a correlation variable that some alternative provides. -/
def provisionViolations (span : Span) (kind : BranchKind) (branches : List Typing)
    (p : ProvidedPath) : List Violation :=
  let place := p.path.span.or span
  let missing := branches.filter fun b => !b.providedCorrelation.contains p.location
  let freshness := branches.filterMap fun b =>
    (b.providedCorrelation.find? p.location).map ProvidedPath.fresh
  missing.map (fun _ => ⟨place, .notInitializedInEveryBranch p.path kind⟩)
    ++ if freshness.contains true && freshness.contains false then
        [⟨place, .freshnessDiffers p.path⟩]
      else []

/-- The typing of alternatives, and what is wrong with them. -/
def choice (span : Span) (kind : BranchKind) (sessionStart : Bool) (branches : List Typing) :
    Typing × List Violation :=
  let joined := alternatives branches sessionStart
  (joined,
    if sessionStart then
      (starterConflicts branches).map fun operation => ⟨span, .starterUsedInSession operation⟩
    else joined.providedCorrelation.toList.flatMap (provisionViolations span kind branches))

end Typing

end Correlation
