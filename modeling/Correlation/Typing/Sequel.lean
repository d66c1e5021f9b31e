import Correlation.Typing.Basic

/-!
# Sequences

The typing of a sequence grows statement by statement.  Two typings are carried along: the result
so far, and the *running* typing, which also knows what was defined before the sequence.  The
running typing is what the next statement enters with, and it settles the needs of that statement.

A statement takes part in four steps: its needs, its correlation variables, its data, and what it
invalidates.  A correlation variable that the sequence has already defined is a violation, and its
second definition is dropped.
-/

namespace Correlation

/-- A sequence up to a point. -/
structure Sequel where
  /-- The typing of the statements so far. -/
  result : Typing
  /-- What is defined at this point. -/
  running : Typing
  /-- What is wrong with the statements so far. -/
  violations : List Violation
deriving DecidableEq

namespace Sequel

/-- The start of a sequence that is entered with a typing. -/
def start (entry : Typing) : Sequel := ⟨.empty, entry.provisions, []⟩

/-- Takes over the needs of a statement, unless they are settled at this point. -/
def addNeeds (s : Sequel) (next : Typing) : Sequel :=
  let openKeys := next.neededCorrelation.toList.filter fun p =>
    !s.running.providedCorrelation.contains p.location
  let openData := next.neededData.toList.filter fun p =>
    !s.running.providedData.contains p.location
  { s with result := (openKeys ++ openData).foldl Typing.need s.result }

/-- Defines a correlation variable, unless the sequence has done so already. -/
def define (s : Sequel) (p : ProvidedPath) : Sequel :=
  if s.result.providedCorrelation.contains p.location then
    { s with violations := s.violations ++ [⟨p.path.span, .definedMoreThanOnce p.path⟩] }
  else
    { s with
      running :=
        { s.running with providedCorrelation := s.running.providedCorrelation.insert p }
      result := { s.result with providedCorrelation := s.result.providedCorrelation.insert p } }

/-- Provides data, which is then no longer invalid. -/
def provideData (s : Sequel) (p : Path) : Sequel :=
  { s with
    running := s.running.provide p false
    result :=
      { s.result with invalidatedData := s.result.invalidatedData.erase p.location }.provide p
        false }

/-- Invalidates data. -/
def invalidate (s : Sequel) (p : Path) : Sequel :=
  { s with running := s.running.invalidate p, result := s.result.invalidate p }

/-- A sequence with one more statement. -/
def append (s : Sequel) (next : Typing) : Sequel :=
  let noted : Sequel := { s with result := s.result.noteInputsOf next }
  let needed := noted.addNeeds next
  let defined := next.providedCorrelation.toList.foldl define needed
  let provided := next.providedData.toList.foldl provideData defined
  next.invalidatedData.toList.foldl invalidate provided

end Sequel

end Correlation
