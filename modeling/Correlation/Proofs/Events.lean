import Correlation.Check.Definition

/-!
# Events

What happens in a run, as far as correlation variables are concerned.  An event may give a
correlation variable a value, which is fresh or not, and it may need a variable to have one.

* The input that starts a session gives the variables of the set that routes its operation fresh
  values.  Every other input needs these variables.  In single mode inputs do neither.
* An assignment gives a value to its target, if the target is known before the program runs and the
  value is accepted.  A copy of another correlation variable needs that one.
-/

namespace Correlation

/-- Whether the value that a variable is initialised with is fresh, if the value is accepted for a
correlation variable. -/
def Initializer.freshFor (target : Path) : Initializer → Option Bool
  | .constant => some false
  | .fresh => some true
  | .update path => if path.location = target.location then some false else none
  | .copy source => if source.isStatic then some false else none
  | .other => none

/-- Whether a variable is initialised with the value at a location that is known before the program
runs. -/
def Initializer.copies (l : Location) : Initializer → Bool
  | .copy source => source.isStatic && decide (source.location = l)
  | _ => false

/-- Whether the set that routes an operation has the correlation variable. -/
def Context.routes (ctx : Context) (operation : String) (l : Location) : Bool :=
  match ctx.routing.setFor operation with
  | some set => set.members.any fun v => decide (v.path.location.underRoot = l)
  | none => false

/-- Something that happens in a run. -/
inductive Event where
  /-- A message is taken in, perhaps as the first input of the session. -/
  | input (operation : String) (starter : Bool)
  /-- A variable gets a value. -/
  | assign (target : Path) (value : Initializer)
  /-- The given paths may have no value any more. -/
  | invalidate (paths : List Path)
  /-- Anything else. -/
  | silent
deriving DecidableEq

namespace Event

variable (ctx : Context) (l : Location)

/-- Whether the value of a correlation variable is fresh, if the event gives it a value. -/
def freshness : Event → Option Bool
  | .input operation starter =>
    if starter && !decide (ctx.execution = .single) && ctx.routes operation l then some true
    else none
  | .assign target value =>
    if target.isStatic && target.isCorrelation && decide (target.location = l) then
      value.freshFor target
    else none
  | .invalidate _ | .silent => none

/-- Whether the event gives a correlation variable a value. -/
def defines (e : Event) : Bool := (e.freshness ctx l).isSome

/-- Whether the event needs a correlation variable to have a value. -/
def needs : Event → Bool
  | .input operation starter =>
    !starter && !decide (ctx.execution = .single) && ctx.routes operation l
  | .assign target value =>
    target.isStatic && target.isCorrelation && l.isCorrelation && value.copies l
  | .invalidate _ | .silent => false

end Event

end Correlation
