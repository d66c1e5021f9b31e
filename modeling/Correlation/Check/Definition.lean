import Correlation.Check.Statement

/-!
# The check of definitions

A definition is checked when it is first called, or when its turn comes.  Its typing is then kept,
so no body is checked twice.  While a body is being checked its definition is in progress, and a
call of a definition in progress closes a circle.

Definitions in progress are declared and different from each other, so there are never more of them
than declared names.  That bounds the nesting of calls, and `visitWithin` recurses on how many
definitions may still be entered.

The body of `main` is entered with what `init` provides.  It is the only body that may start a
session.  `init` must not define correlation variables.
-/

namespace Correlation

namespace Context

/-- The context of a program, and what is wrong with its correlation sets.  A mode that is given
takes precedence over that of the program. -/
def ofProgram (program : Program) (mode : Option ExecutionMode) : Context × List Violation :=
  let (routing, violations) := Routing.ofSets program.correlationSets
  (⟨mode.getD program.execution, routing, .firsts program.definitions⟩, violations)

/-- A definition that calls itself, by way of the definitions that are in progress since. -/
def circle (inProgress : List String) (name : String) : List String :=
  inProgress.dropWhile (fun other => !decide (other = name)) ++ [name]

/-- The violations of a typing of `init`. -/
def initViolations (d : Definition) (typing : Typing) : List Violation :=
  typing.providedCorrelation.toList.map fun p =>
    ⟨p.path.span.or d.span, .initializedInInit p.path⟩

/-- The typing of a definition.  It is checked if that has not been done, provided that so many
more definitions may be entered. -/
def visitWithin (ctx : Context) : Nat → Span → String → Progress → Typing × Progress
  | bound, span, name, g =>
    match g.typings.get? name with
    | some typing => (typing, g)
    | none =>
      match ctx.definitions.find? name with
      | none => (.empty, g.report [⟨span, .definitionNotFound name⟩])
      | some d =>
        if g.inProgress.contains name then
          (.empty, g.report [⟨span, .definitionCycle (circle g.inProgress name)⟩])
        else
          match bound with
          | 0 => (.empty, g)
          | bound + 1 =>
            let visit := visitWithin ctx bound
            let isMain := decide (name = mainName)
            let isInit := decide (name = initName)
            let g := { g with inProgress := g.inProgress ++ [name] }
            let (entry, g) :=
              if isMain && ctx.definitions.contains initName then
                let (typing, g) := visit d.span initName g
                (typing.provisions, g)
              else (.empty, g)
            let outside := g.insideInit
            let starter := isMain && !decide (ctx.execution = .single)
            let o := d.body.check ctx visit entry starter { g with insideInit := isInit }
            let g := o.progress.report (if isInit then initViolations d o.typing else [])
            (o.typing,
              { g with
                insideInit := outside
                inProgress := g.inProgress.erase name
                typings := g.typings.insert (name, o.typing) })

/-- The typing of a definition.  No more definitions can be entered than are declared. -/
def visit (ctx : Context) : Span → String → Progress → Typing × Progress :=
  ctx.visitWithin ctx.definitions.size

/-- The names of the definitions in the order of their turns: `init`, the others as declared, and
`main`. -/
def turns (ctx : Context) : List String :=
  let names := ctx.definitions.keys
  names.filter (fun name => decide (name = initName))
    ++ names.filter (fun name => !decide (name = initName) && !decide (name = mainName))
    ++ names.filter (fun name => decide (name = mainName))

/-- Types every definition, in turn. -/
def typeDefinitions (ctx : Context) (g : Progress) : Progress :=
  ctx.turns.foldl (fun g name => (ctx.visit .unknown name g).2) g

end Context

end Correlation
