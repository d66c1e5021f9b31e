import Correlation.Check.Basic

/-!
# Inputs and assignments

The statements with a rule of their own.

An *input* belongs to a session.  The first input of a session starts it and defines the variables
of the correlation set that routes its operation, with fresh values.  Every later input needs them,
and has to be routed by some set, except before any session starts.  In single mode inputs have no
effect at all.

An *assignment* provides its target, if the target is known before the program runs.  A correlation
variable is more particular about what initialises it than data is.
-/

namespace Correlation

namespace Check

/-- The violation of storing a message in a correlation variable. -/
def receiveViolations (span : Span) (kind : ReceiveKind) : Option Path → List Violation
  | some p => if p.isCorrelation then [⟨p.span.or span, .receiveOnCorrelation p kind⟩] else []
  | none => []

/-- What an input does to the variables of its correlation set.  It defines them if it starts the
session, and needs them if not. -/
def inputTyping (keys : List Path) (starter : Bool) : Typing :=
  keys.foldl (fun t p => if starter then t.provide p true else t.need p) Typing.empty

/-- The check of an input. -/
def input (ctx : Context) (span : Span) (operation : String) (receive : Option Path) : Check :=
  fun _ starter progress =>
    if ctx.execution = .single then ⟨.empty, starter, progress⟩
    else
      let keys := match ctx.routing.setFor operation with
        | some set => set.paths span
        | none => []
      let unroutable :=
        if !starter && !progress.insideInit && keys.isEmpty then
          [⟨span, .noCorrelationSet operation⟩]
        else []
      ⟨(inputTyping keys starter).noteInput operation starter, false,
        progress.report (receiveViolations span .input receive ++ unroutable)⟩

/-- The check of a message that is sent and answered. -/
def request (span : Span) (receive : Option Path) : Check :=
  .pure .empty (receiveViolations span .answer receive)

/-- The typing and the violations of initialising a target that is known before the program
runs.  `entry` is what is defined before. -/
def initialTyping (span : Span) (target : Path) (value : Initializer) (entry : Typing) :
    Typing × List Violation :=
  let provided (fresh : Bool) := (Typing.empty.provide target fresh, [])
  let refused (cause : Violation.Cause) :=
    (Typing.empty, if target.isCorrelation then [⟨span, cause⟩] else [])
  match value with
  | .constant => provided false
  | .fresh => provided true
  | .update path =>
    if target.isCorrelation && !decide (path.location = target.location) then
      refused (.invalidInitializer target)
    else provided false
  | .copy source =>
    if source.isStatic then
      if entry.provides source.location then provided false
      else if target.isCorrelation then
        ((Typing.empty.need (source.locatedIn span)).provide target false, [])
      else (.empty, [])
    else refused (.mayBeUndefined source target)
  | .other => refused (.invalidInitializer target)

/-- The check of an assignment. -/
def assignment (span : Span) (target : Path) (value : Expression) : Check :=
  fun entry starter progress =>
    if target.isStatic then
      let (typing, violations) :=
        initialTyping span (target.locatedIn span) value.initializer entry
      ⟨typing, starter, progress.report violations⟩
    else ⟨.empty, starter, progress⟩

/-- The check of a statement after which the given paths may have no value. -/
def invalidation (span : Span) (paths : List Path) : Check :=
  .pure (paths.foldl (fun t p => t.invalidate (p.locatedIn span)) .empty) []

end Check

end Correlation
