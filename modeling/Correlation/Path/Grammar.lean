import Correlation.Path.Basic
import Correlation.Text.Alphanumeric
import Correlation.Text.Blank
import Correlation.Text.Bytes

/-!
# The grammar of paths

    path    = [ "global." ] segment { "." segment }
    segment = ( word | "(" text ")" ) [ "[" text "]" ]

A word is a run of alphanumeric characters and underscores, as long as it can be.  The text between
parentheses holds no `)` and the text between brackets no `]`; neither is empty, and both are
trimmed.  An index that then consists of digits alone is a position, and has to fit in 32 bits.

A text is read by a machine that takes one character after the other.  It says where a text stops
being a path: at an offset in bytes, with a reason (`PathFault`).  A point with no segment after it
is itself left over, so the offset of that fault is the offset of the point.

`scan_append` says that reading goes on from where it stands, which is how texts are taken apart.
-/

namespace Correlation

/-- Why a text is not a path. -/
inductive PathFault where
  /-- A segment is missing, or a dynamic name is empty or not closed. -/
  | segment
  /-- An index is empty. -/
  | index
  /-- An index has only blanks. -/
  | indexBlank
  /-- An index does not fit in 32 bits. -/
  | indexTooLarge
  /-- An index is not closed. -/
  | indexUnclosed
  /-- A path has ended before the end of the text. -/
  | leftover
deriving DecidableEq, Repr

/-- The wording of a fault. -/
def PathFault.reason : PathFault → String
  | .segment => "invalid segment"
  | .index => "invalid index"
  | .indexBlank => "invalid index\ncannot parse integer from empty string"
  | .indexTooLarge => "invalid index\nnumber too large to fit in target type"
  | .indexUnclosed => "expected `]`"
  | .leftover => "unexpected input"

/-- A text that is not a path. -/
structure PathError where
  text : String
  /-- The bytes before the place of the fault. -/
  offset : Nat
  fault : PathFault
deriving DecidableEq, Repr

/-- The message of a text that is not a path. -/
def PathError.message (e : PathError) : String :=
  "invalid variable path `" ++ e.text ++ "` at offset " ++ toString e.offset ++ ": "
    ++ e.fault.reason

/-- Whether a character may stand in a word. -/
def isWordChar (c : Char) : Bool := isAlphanumeric c || decide (c = '_')

/-- The index that stands between brackets. -/
def readIndex (text : List Char) : Except PathFault SegmentIndex :=
  let trimmed := trim text
  if text.isEmpty then .error .index
  else if trimmed.all Char.isDigit then
    if trimmed.isEmpty then .error .indexBlank
    else
      let position := Nat.ofDigitChars 10 trimmed 0
      if position < UInt32.size then .ok (.literal (UInt32.ofNat position))
      else .error .indexTooLarge
  else .ok (.dynamic (String.ofList trimmed))

namespace Path

/-! ## The machine -/

/-- What the machine has read of the segment at hand.  Characters are kept newest first. -/
inductive Reading where
  /-- Nothing yet, at the start of the path. -/
  | first
  /-- The point before it. -/
  | next
  /-- A part of a dynamic name, and the parenthesis that opens it. -/
  | dynamic (taken : List Char)
  /-- A word, which may go on. -/
  | word (taken : List Char)
  /-- A closed dynamic name. -/
  | named (name : SegmentName)
  /-- A name and a part of an index, and the bracket that opens it. -/
  | index (name : SegmentName) (taken : List Char)
  /-- The whole of it, with a closed index. -/
  | closed (segment : Segment)
deriving DecidableEq, Repr

/-- The machine between two characters. -/
structure Scanner where
  /-- The segments that are complete, newest first. -/
  done : List Segment
  /-- The segment at hand. -/
  reading : Reading
deriving DecidableEq, Repr

/-- The machine before the first character. -/
def Scanner.start : Scanner := ⟨[], .first⟩

/-- A fault, so many bytes before the character at hand. -/
structure Halt where
  fault : PathFault
  /-- How far back. -/
  back : Nat
deriving DecidableEq, Repr

/-- The first character of a segment. -/
def open? (done : List Segment) (c : Char) (otherwise : Halt) : Except Halt Scanner :=
  if c = '(' then .ok ⟨done, .dynamic []⟩
  else if isWordChar c then .ok ⟨done, .word [c]⟩
  else .error otherwise

/-- The first character after a name. -/
def afterName (done : List Segment) (name : SegmentName) (c : Char) : Except Halt Scanner :=
  if c = '[' then .ok ⟨done, .index name []⟩
  else if c = '.' then .ok ⟨⟨name, .literal 0⟩ :: done, .next⟩
  else .error ⟨.leftover, 0⟩

/-- The word of characters that were taken newest first. -/
def wordOf (taken : List Char) : SegmentName := .literal (String.ofList taken.reverse)

/-- The index of characters that were taken newest first.  The fault of a number stands where the
index starts. -/
def indexOf (taken : List Char) : Except Halt SegmentIndex :=
  (readIndex taken.reverse).mapError fun fault => ⟨fault, bytes taken⟩

/-- One character. -/
def step : Scanner → Char → Except Halt Scanner
  | ⟨done, .first⟩, c => open? done c ⟨.segment, 0⟩
  | ⟨done, .next⟩, c => open? done c ⟨.leftover, 1⟩
  | ⟨done, .dynamic taken⟩, c =>
      if c = ')' then
        if taken.isEmpty then .error ⟨.segment, 0⟩
        else .ok ⟨done, .named (.dynamic (String.ofList (trim taken.reverse)))⟩
      else .ok ⟨done, .dynamic (c :: taken)⟩
  | ⟨done, .word taken⟩, c =>
      if isWordChar c then .ok ⟨done, .word (c :: taken)⟩ else afterName done (wordOf taken) c
  | ⟨done, .named name⟩, c => afterName done name c
  | ⟨done, .index name taken⟩, c =>
      if c = ']' then (indexOf taken).map fun index => ⟨done, .closed ⟨name, index⟩⟩
      else .ok ⟨done, .index name (c :: taken)⟩
  | ⟨done, .closed segment⟩, c =>
      if c = '.' then .ok ⟨segment :: done, .next⟩ else .error ⟨.leftover, 0⟩

/-- The segments of a text that ends here, newest first.  An index is converted before its bracket
is missed. -/
def finish : Scanner → Except Halt (List Segment)
  | ⟨_, .first⟩ => .error ⟨.segment, 0⟩
  | ⟨_, .next⟩ => .error ⟨.leftover, 1⟩
  | ⟨_, .dynamic _⟩ => .error ⟨.segment, 0⟩
  | ⟨done, .word taken⟩ => .ok (⟨wordOf taken, .literal 0⟩ :: done)
  | ⟨done, .named name⟩ => .ok (⟨name, .literal 0⟩ :: done)
  | ⟨_, .index _ taken⟩ => (indexOf taken).bind fun _ => .error ⟨.indexUnclosed, 0⟩
  | ⟨done, .closed segment⟩ => .ok (segment :: done)

/-- Reads a text that starts at an offset.  A fault comes with its own offset. -/
def scan (offset : Nat) (s : Scanner) : List Char → Except (PathFault × Nat) (List Segment)
  | [] =>
    match finish s with
    | .error halt => .error (halt.fault, offset - halt.back)
    | .ok segments => .ok segments.reverse
  | c :: rest =>
    match step s c with
    | .error halt => .error (halt.fault, offset - halt.back)
    | .ok t => scan (offset + c.utf8Size) t rest

/-- The machine after a text, if there was no fault. -/
def steps (s : Scanner) (text : List Char) : Except Halt Scanner := text.foldlM step s

@[simp] theorem steps_nil (s : Scanner) : steps s [] = .ok s := rfl

theorem steps_cons (s : Scanner) (c : Char) (text : List Char) :
    steps s (c :: text) = (step s c).bind fun t => steps t text := rfl

/-- After a text without a fault, reading goes on with what follows it. -/
theorem scan_append {s t : Scanner} {text : List Char} (h : steps s text = .ok t) (offset : Nat)
    (rest : List Char) : scan offset s (text ++ rest) = scan (offset + bytes text) t rest := by
  induction text generalizing s offset with
  | nil => cases h; rfl
  | cons c text ih =>
    rw [steps_cons] at h
    cases hc : step s c with
    | error halt => rw [hc] at h; cases h
    | ok u =>
      rw [hc] at h
      rw [List.cons_append, scan, hc]
      simp only
      rw [ih h, bytes_cons, Nat.add_assoc]

/-! ## Reading a path -/

/-- Takes the word for global locations off a text, with the point after it. -/
def splitGlobal : List Char → Bool × List Char
  | 'g' :: 'l' :: 'o' :: 'b' :: 'a' :: 'l' :: '.' :: rest => (true, rest)
  | text => (false, text)

/-- The location that a text names, or else a fault and its offset. -/
def location? (text : List Char) : Except (PathFault × Nat) Location :=
  match splitGlobal text with
  | (isGlobal, rest) =>
    (scan (if isGlobal then 7 else 0) .start rest).map fun segments => ⟨isGlobal, segments⟩

/-- Reads a path that stands at a span. -/
def parse (span : Span) (text : String) : Except PathError Path :=
  match location? text.toList with
  | .ok location => .ok ⟨location, span⟩
  | .error (fault, offset) => .error ⟨text, offset, fault⟩

end Path

/-! ## Tests -/

section Tests

/-- The display of what a text names, or else the reason and the offset of its fault. -/
def readBack (text : String) : String × Nat :=
  match Path.parse .unknown text with
  | .ok p => (p.display, 0)
  | .error e => (e.fault.reason, e.offset)

example : readBack "a[0].( x )[ i ].b[007]" = ("a.(x)[i].b[7]", 0) := by decide +kernel

example : readBack "global.a" = ("global.a", 0) := by decide +kernel

example : readBack "global" = ("global", 0) := by decide +kernel

example : readBack "global." = ("invalid segment", 7) := by decide +kernel

example : readBack "a..b" = ("unexpected input", 1) := by decide +kernel

example : readBack "é()" = ("unexpected input", 2) := by decide +kernel

example : readBack "a.()" = ("invalid segment", 3) := by decide +kernel

example : readBack "a[4294967296" =
    ("invalid index\nnumber too large to fit in target type", 2) := by decide +kernel

example : readBack "a[é" = ("expected `]`", 4) := by decide +kernel

end Tests

end Correlation
