/-!
# Places in a source text

A statement, a path or a correlation set may know where it stands in its source: a *span* has a
file and two points in it.  Rows and columns count from zero, the lines that are shown to a reader
count from one.  Whatever has no span of its own can take that of the thing around it
(`Span.or`).
-/

namespace Correlation

/-- A point in a source file. -/
structure Point where
  /-- Bytes before the point. -/
  offset : UInt32
  /-- Rows above the point. -/
  row : UInt32
  /-- Columns to the left of the point. -/
  column : UInt32
deriving DecidableEq, Repr, Inhabited

/-- The first point of a file. -/
def Point.start : Point := ⟨0, 0, 0⟩

/-- The name of a file of which nothing is known. -/
def unknownFile : String := "<unknown>"

/-- A stretch of a source file, if known. -/
inductive Span where
  /-- Nothing is known. -/
  | unknown
  /-- From one point of a file to another. -/
  | between (first last : Point) (file : String)
deriving DecidableEq, Repr, Inhabited

namespace Span

/-- The empty span at the start of a line.  The first line is line 1, and line 0 counts as it. -/
def atLine (file : String) (line : UInt32) : Span :=
  let point : Point := ⟨0, if line = 0 then 0 else line - 1, 0⟩
  .between point point file

/-- The two points of a span. -/
def points? : Span → Option (Point × Point)
  | .unknown => none
  | .between first last _ => some (first, last)

/-- The file of a span. -/
def file? : Span → Option String
  | .unknown => none
  | .between _ _ file => some file

/-- The line on which a span starts.  It is counted in the width of rows, so the line of the last
row is 0. -/
def line? : Span → Option Nat
  | .unknown => none
  | .between first _ _ => some (first.row + 1).toNat

/-- The span itself if it is known, or else the other one. -/
def or : Span → Span → Span
  | .unknown, other => other
  | .between first last file, _ => .between first last file

/-- How a span is shown: its file and the line on which it starts. -/
def display : Span → String
  | .unknown => "<unknown>"
  | .between first _ file => file ++ ":" ++ toString (first.row + 1)

end Span

/-! ## Tests -/

example : (Span.atLine "shop.ol" 12).display = "shop.ol:12" := by decide +kernel

example : (Span.atLine "shop.ol" 0).display = "shop.ol:1" := by decide +kernel

example : Span.unknown.display = "<unknown>" := rfl

end Correlation
