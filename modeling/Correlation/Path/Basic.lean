import Correlation.OrderedSet
import Correlation.Source

/-!
# Paths

The variables of a program form a tree.  A *location* names a node of it by the segments on the way
there.  Each segment has a name and an index, and either may be *dynamic*: computed when the
program runs, and known here only by the text of its expression.  A location is *global*, or local
to a session.  Global and local locations are never the same.

Under the reserved root `csets` live the correlation variables of a session, the keys by which a
message finds its session.  Everything else is data.

A *path* is a location together with the place in the source where it was written.  Two paths with
one location are the same variable, so sets of paths are keyed by location.
-/

namespace Correlation

/-- The name of a segment. -/
inductive SegmentName where
  /-- A name as it stands. -/
  | literal (name : String)
  /-- An expression that gives the name. -/
  | dynamic (expression : String)
deriving DecidableEq, Repr, Inhabited

/-- The index of a segment, which chooses among nodes of one name. -/
inductive SegmentIndex where
  /-- A position, counted from zero. -/
  | literal (position : UInt32)
  /-- An expression that gives the position. -/
  | dynamic (expression : String)
deriving DecidableEq, Repr, Inhabited

/-- One step down the tree of variables. -/
structure Segment where
  name : SegmentName
  /-- Which of the nodes of that name. -/
  index : SegmentIndex
deriving DecidableEq, Repr, Inhabited

/-- The segment of a plain name. -/
def Segment.named (name : String) : Segment := ⟨.literal name, .literal 0⟩

/-- Whether a segment is fully known before the program runs. -/
def Segment.isStatic : Segment → Bool
  | ⟨.literal _, .literal _⟩ => true
  | _ => false

/-- A node in the tree of variables. -/
structure Location where
  /-- Whether the variable is shared by all sessions. -/
  isGlobal : Bool
  /-- The way down from the root. -/
  segments : List Segment
deriving DecidableEq, Repr, Inhabited

/-- The root under which the correlation variables live. -/
def correlationRoot : String := "csets"

/-- The word in front of a global location. -/
def globalWord : String := "global"

namespace Location

/-- Whether a location is that of a correlation variable: local, and under the root by name.  The
index of the root does not matter. -/
def isCorrelation : Location → Bool
  | ⟨false, ⟨.literal name, _⟩ :: _⟩ => decide (name = correlationRoot)
  | _ => false

/-- Whether every segment is known before the program runs. -/
def isStatic (l : Location) : Bool := l.segments.all Segment.isStatic

/-- The correlation variable of a target, which stands under the root with all its segments. -/
def underRoot (target : Location) : Location :=
  ⟨false, Segment.named correlationRoot :: target.segments⟩

end Location

/-! ## Display -/

/-- The text of a name. -/
def SegmentName.chars : SegmentName → List Char
  | .literal name => name.toList
  | .dynamic expression => '(' :: expression.toList ++ [')']

/-- The text of an index.  Position zero is not shown. -/
def SegmentIndex.chars : SegmentIndex → List Char
  | .literal position =>
      if position = 0 then [] else '[' :: Nat.toDigits 10 position.toNat ++ [']']
  | .dynamic expression => '[' :: expression.toList ++ [']']

/-- The text of a segment. -/
def Segment.chars (s : Segment) : List Char := s.name.chars ++ s.index.chars

/-- The text of segments, with points between them. -/
def Segment.joined : List Segment → List Char
  | [] => []
  | [s] => s.chars
  | s :: rest => s.chars ++ '.' :: joined rest

/-- The text of a location. -/
def Location.chars (l : Location) : List Char :=
  (if l.isGlobal then globalWord.toList ++ ['.'] else []) ++ Segment.joined l.segments

/-- How a location is shown. -/
def Location.display (l : Location) : String := String.ofList l.chars

/-! ## Paths -/

/-- A location, and where it was written. -/
structure Path where
  /-- The variable that is meant. -/
  location : Location
  /-- Where the path stands in the source. -/
  span : Span
deriving DecidableEq, Repr, Inhabited

namespace Path

/-- Whether a path is that of a correlation variable. -/
def isCorrelation (p : Path) : Bool := p.location.isCorrelation

/-- Whether a path is fully known before the program runs. -/
def isStatic (p : Path) : Bool := p.location.isStatic

/-- How a path is shown. -/
def display (p : Path) : String := p.location.display

/-- The path with its own span, or that of the statement around it. -/
def locatedIn (p : Path) (statement : Span) : Path := { p with span := p.span.or statement }

/-- The correlation variable of a target. -/
def underRoot (target : Path) (span : Span) : Path := ⟨target.location.underRoot, span⟩

@[simp] theorem location_locatedIn (p : Path) (s : Span) :
    (p.locatedIn s).location = p.location := rfl

end Path

/-- A path that has got a value, and whether the value is fresh: made by a generator that gives
every session another one. -/
structure ProvidedPath where
  /-- The path that has a value. -/
  path : Path
  /-- Whether no other session has the same value. -/
  fresh : Bool
deriving DecidableEq, Repr, Inhabited

/-- The location of the path. -/
def ProvidedPath.location (p : ProvidedPath) : Location := p.path.location

/-- Paths by location. -/
abbrev PathSet := OrderedSet Path.location

/-- Provided paths by location. -/
abbrev ProvidedSet := OrderedSet ProvidedPath.location

/-- Sets the freshness of the element of a location, if there is one. -/
def ProvidedSet.mark (s : ProvidedSet) (l : Location) (fresh : Bool) : ProvidedSet :=
  s.modify (fun p => if p.location = l then { p with fresh } else p) fun p => by
    by_cases h : p.location = l
    · simp only [h, if_true]
      exact h
    · simp [h]

/-! ## Tests -/

example : (Location.mk false [.named "csets", .named "sid"]).isCorrelation = true := by decide

example : (Location.mk true [.named "csets", .named "sid"]).isCorrelation = false := by decide

example : (Location.mk false [⟨.dynamic "csets", .literal 0⟩]).isCorrelation = false := by decide

example : (Location.mk true [⟨.literal "a", .literal 12⟩, ⟨.dynamic "x.y", .dynamic "i"⟩]).display
    = "global.a[12].(x.y)[i]" := by decide +kernel

end Correlation
