import Correlation.Check.Definition

/-!
# The verdict on a program

A session is `init` followed by `main`.  When all definitions are typed, the typing of a session
must need nothing that is still undefined, and every correlation set that it uses must have a
variable with a fresh value.  A program is valid if nothing is wrong with it.
-/

namespace Correlation

/-- The result of checking a program. -/
structure Verdict where
  file : String
  /-- What is wrong with the program, in the order in which it was found. -/
  violations : List Violation
  /-- The typings of the definitions, in the order in which they were completed. -/
  typings : NameTable Typing
  /-- The typing of a session, if there is a main definition. -/
  session : Option Typing
deriving DecidableEq

namespace Verdict

/-- Whether nothing is wrong with the program. -/
def isValid (v : Verdict) : Bool := v.violations.isEmpty

/-- The violations as they are handed to other tools. -/
def diagnostics (v : Verdict) : List Diagnostic := v.violations.map (·.diagnostic v.file)

/-- The violations as they are reported. -/
def reports (v : Verdict) : List String := v.violations.map Violation.report

/-- The typing of a session, and the violations of putting its parts together. -/
def sessionTyping (init? : Option Typing) (main : Typing) : Typing × List Violation :=
  match init? with
  | some init =>
    let s := (Sequel.mk init init.provisions []).append main
    (s.result, s.violations)
  | none => (main, [])

/-- The violations of needs that a session leaves open. -/
def needViolations (session : Typing) : List Violation :=
  session.neededCorrelation.toList.map (fun p => ⟨p.span, .notInitialized p⟩)
    ++ session.neededData.toList.map (fun p => ⟨p.span, .variableNotInitialized p⟩)

/-- Whether a set that is used in a session has a variable with a fresh value.  A set of which no
variable is ever defined is not used. -/
def hasFreshValue (set : CorrelationSet) (session : Typing) : Bool :=
  let provided := set.members.filterMap fun v =>
    session.providedCorrelation.find? v.path.location.underRoot
  provided.any ProvidedPath.fresh || provided.isEmpty

/-- The violations of correlation sets without a fresh value. -/
def freshnessViolations (sets : List CorrelationSet) (session : Typing) : List Violation :=
  (sets.filter fun set => !hasFreshValue set session).map fun set =>
    ⟨set.span, .noFreshValue set.name⟩

/-- The typing of a session of a program in which all definitions are typed, and what is wrong with
it. -/
def ofTypings (file : String) (routing : Routing) (typings : NameTable Typing) :
    Option Typing × List Violation :=
  match typings.get? mainName with
  | none => (none, [⟨Span.atLine file 1, .mainNotFound⟩])
  | some main =>
    let (session, violations) := sessionTyping (typings.get? initName) main
    (some session,
      violations ++ needViolations session ++ freshnessViolations routing.sets.toList session)

end Verdict

/-- Checks a program.  A mode that is given takes precedence over that of the program. -/
def Program.check (program : Program) (mode : Option ExecutionMode) : Verdict :=
  let (ctx, violations) := Context.ofProgram program mode
  let g := ctx.typeDefinitions (Progress.start.report violations)
  let (session, found) := Verdict.ofTypings program.file ctx.routing g.typings
  ⟨program.file, g.violations ++ found, g.typings, session⟩

/-! ## Tests -/

section Tests

/-- A program with these definitions and the correlation set `session`, which routes `checkout` by
`sid`. -/
def sampleProgram (definitions : List (String × Statement)) : Program :=
  let sid : Path := ⟨⟨false, [.named "sid"]⟩, .unknown⟩
  ⟨"shop.ol", .concurrent, [⟨.unknown, "session", [⟨sid, [⟨"checkout", sid⟩]⟩]⟩],
    definitions.map fun (name, body) => ⟨.unknown, name, body⟩⟩

/-- The correlation variable `sid`. -/
def sampleKey : Path := ⟨⟨false, [.named "csets", .named "sid"]⟩, .unknown⟩

/-- What is wrong with a program. -/
def sampleCauses (definitions : List (String × Statement)) : List Violation.Cause :=
  ((sampleProgram definitions).check none).violations.map Violation.cause

/-- The session gets its key after its first input, and before the input that needs it. -/
example : sampleCauses [("main", .sequence .unknown
    [.oneWay .unknown "login" none, .assign .unknown sampleKey .fresh,
      .oneWay .unknown "checkout" none])] = [] := by decide +kernel

/-- An input that is routed starts the session with a fresh key. -/
example : sampleCauses [("main", .oneWay .unknown "checkout" none)] = [] := by decide +kernel

/-- The key is used without a value. -/
example : sampleCauses [("main", .sequence .unknown
    [.oneWay .unknown "login" none, .oneWay .unknown "checkout" none])]
    = [.notInitialized sampleKey] := by decide +kernel

/-- The key is the same in every session. -/
example : sampleCauses [("main", .assign .unknown sampleKey (.int 1))]
    = [.noFreshValue "session"] := by decide +kernel

/-- Definitions that call each other. -/
example : sampleCauses [("ping", .call .unknown "pong"), ("pong", .call .unknown "ping"),
    ("main", .nothing .unknown)] = [.definitionCycle ["ping", "pong", "ping"]] := by
  decide +kernel

/-- Without a main definition there is no session. -/
example : ((sampleProgram []).check none).session = none := by decide +kernel

end Tests

end Correlation
