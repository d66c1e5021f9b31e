import Correlation.Routing
import Correlation.Typing.Branches
import Correlation.Typing.Sequel

/-!
# Checks

Checking a program is one run over its statements.  What never changes in it is the `Context`.
What does change is the `Progress`: the violations found, the definitions that are typed, and the
definitions that are being typed right now.

The *check* of a statement is a function of three things.  The first is its *entry*, the typing of
what has run before it in the same definition.  The second is the *starter flag*, which is set as
long as no input of the session has been met.  The third is the progress.  It gives a typing, the
flag and the progress afterwards.

Checks are put together by four combinators, one for each way in which statements are combined.
They know nothing of the statements themselves, so what they keep can be shown for any checks.
-/

namespace Correlation

/-- What is fixed while a program is checked. -/
structure Context where
  /-- How the sessions of the program run. -/
  execution : ExecutionMode
  /-- Which correlation sets route which operations. -/
  routing : Routing
  /-- The first definition of every name. -/
  definitions : OrderedSet Definition.name

/-- How far checking has come. -/
structure Progress where
  /-- The violations, oldest first. -/
  violations : List Violation
  /-- The typings of the definitions that have been checked, oldest first. -/
  typings : NameTable Typing
  /-- The definitions that are being checked, outermost first. -/
  inProgress : List String
  /-- Whether the innermost of them is the one that runs before any session. -/
  insideInit : Bool
deriving DecidableEq

namespace Progress

/-- Nothing has been checked. -/
def start : Progress := ⟨[], .empty, [], false⟩

/-- Adds violations. -/
def report (g : Progress) (vs : List Violation) : Progress :=
  { g with violations := g.violations ++ vs }

@[simp] theorem report_nil (g : Progress) : g.report [] = g := by simp [report]

end Progress

/-- What checking a statement gives. -/
structure Outcome where
  typing : Typing
  /-- Whether the session still waits for its first input. -/
  starter : Bool
  progress : Progress

/-- The check of a statement, given its entry, the starter flag and the progress so far. -/
abbrev Check := Typing → Bool → Progress → Outcome

namespace Check

/-- The check of a statement with a known typing, and with known violations. -/
def pure (typing : Typing) (violations : List Violation) : Check := fun _ starter progress =>
  ⟨typing, starter, progress.report violations⟩

/-- The check of a statement without any effect. -/
def idle : Check := pure .empty []

/-- Continues a sequence by a check, which is entered with what is defined at that point. -/
def followedBy (acc : Sequel × Bool × Progress) (check : Check) : Sequel × Bool × Progress :=
  let (sequel, starter, progress) := acc
  let o := check sequel.running starter progress
  (sequel.append o.typing, o.starter, o.progress)

/-- One check after the other.  The violations of the sequence itself come after those of its
parts. -/
def sequence (checks : List Check) : Check := fun entry starter progress =>
  let (sequel, starter, progress) := checks.foldl followedBy (.start entry, starter, progress)
  ⟨sequel.result, starter, progress.report sequel.violations⟩

/-- Performs checks with one entry, and collects their typings.  The starter flag goes through all
of them. -/
def collect (entry : Typing) : List Check → Bool → Progress → List Typing × Bool × Progress
  | [], starter, progress => ([], starter, progress)
  | check :: rest, starter, progress =>
    let o := check entry starter progress
    let (typings, starter, progress) := collect entry rest o.starter o.progress
    (o.typing :: typings, starter, progress)

/-- Performs checks with one entry and joins their typings. -/
def joined (join : List Typing → Typing × List Violation) (checks : List Check) : Check :=
  fun entry starter progress =>
    let (typings, starter, progress) := collect entry checks starter progress
    let (typing, violations) := join typings
    ⟨typing, starter, progress.report violations⟩

/-- Checks of statements that run at the same time. -/
def parallel (checks : List Check) : Check := joined Typing.parallel checks

/-- Checks of the branches of which a condition selects one. -/
def conditional (span : Span) (checks : List Check) : Check :=
  joined (Typing.choice span .conditional false) checks

/-- A check with another starter flag. -/
def withStarter (starter : Bool) (check : Check) : Check := fun entry _ progress =>
  check entry starter progress

/-- Checks of the branches of which an input selects one.  Each of them may start the session, and
after them it has started. -/
def choice (span : Span) (checks : List Check) : Check := fun entry starter progress =>
  let branches := checks.map (withStarter starter)
  { joined (Typing.choice span .choice starter) branches entry starter progress with
    starter := false }

/-- The check of a body that runs any number of times. -/
def repeated (span : Span) (check : Check) : Check := fun entry starter progress =>
  let o := check entry starter progress
  let (typing, violations) := o.typing.repeated span
  ⟨typing, o.starter, o.progress.report violations⟩

end Check

end Correlation
