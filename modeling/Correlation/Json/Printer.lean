import Correlation.Json.Basic
import Correlation.Real.Shortest

/-!
# Printing JSON

The text of a value.  A `Layout` says where it has line breaks: nowhere in the compact layout, and
before every item and field in the pretty one.

A string escapes what has to be escaped and nothing else.  An integer is written in decimal.  A
real number is written with the fewest digits that read back, positionally if its first digit
stands for a power of ten from `-5` to `15`.
-/

namespace Correlation

namespace Json

/-! ## Scalars -/

/-- The text of an escape for a character that has no shorter one. -/
def numberedEscape (c : Char) : List Char :=
  ['\\', 'u', '0', '0', Nat.digitChar (c.toNat / 16), Nat.digitChar (c.toNat % 16)]

/-- A character inside a string. -/
def escaped (c : Char) : List Char :=
  match c with
  | '"' => ['\\', '"']
  | '\\' => ['\\', '\\']
  | '\x08' => ['\\', 'b']
  | '\x0c' => ['\\', 'f']
  | '\n' => ['\\', 'n']
  | '\r' => ['\\', 'r']
  | '\t' => ['\\', 't']
  | c => if c.toNat < 0x20 then numberedEscape c else [c]

/-- A string with its quotes. -/
def quoted (text : String) : List Char := '"' :: text.toList.flatMap escaped ++ ['"']

/-- The text of an integer. -/
def integerChars (n : Int) : List Char :=
  if n < 0 then '-' :: Nat.toDigits 10 n.natAbs else Nat.toDigits 10 n.natAbs

/-- The powers of ten at which a real number is written positionally. -/
def isPlain (power : Int) : Bool := decide (-5 ≤ power) && decide (power ≤ 15)

/-- The text of a real number.  What is not a number is null. -/
def realText (x : Float) : List Char :=
  if x.isFinite then realChars isPlain x else ['n', 'u', 'l', 'l']

/-! ## Layouts -/

/-- Where a text has line breaks and spaces. -/
structure Layout where
  /-- What stands before something at a depth. -/
  newline : Nat → List Char
  /-- What stands after a colon. -/
  space : List Char

/-- A text without line breaks and spaces. -/
def Layout.compact : Layout := ⟨fun _ => [], []⟩

/-- A text with one item or field per line, indented by two spaces per level. -/
def Layout.pretty : Layout := ⟨fun depth => '\n' :: List.replicate (2 * depth) ' ', [' ']⟩

mutual

/-- The text of a value at a depth. -/
def chars (layout : Layout) (depth : Nat) : Json → List Char
  | .null => ['n', 'u', 'l', 'l']
  | .bool true => ['t', 'r', 'u', 'e']
  | .bool false => ['f', 'a', 'l', 's', 'e']
  | .integer n => integerChars n
  | .real x => realText x
  | .string text => quoted text
  | .array [] => ['[', ']']
  | .array (item :: rest) =>
    '[' :: layout.newline (depth + 1) ++ chars layout (depth + 1) item
      ++ itemsChars layout (depth + 1) rest ++ layout.newline depth ++ [']']
  | .object [] => ['{', '}']
  | .object ((key, value) :: rest) =>
    '{' :: layout.newline (depth + 1) ++ quoted key ++ ':' :: layout.space
      ++ chars layout (depth + 1) value ++ fieldsChars layout (depth + 1) rest
      ++ layout.newline depth ++ ['}']

/-- The items of a list after the first. -/
def itemsChars (layout : Layout) (depth : Nat) : List Json → List Char
  | [] => []
  | item :: rest =>
    ',' :: layout.newline depth ++ chars layout depth item ++ itemsChars layout depth rest

/-- The fields of an object after the first. -/
def fieldsChars (layout : Layout) (depth : Nat) : List (String × Json) → List Char
  | [] => []
  | (key, value) :: rest =>
    ',' :: layout.newline depth ++ quoted key ++ ':' :: layout.space
      ++ chars layout depth value ++ fieldsChars layout depth rest

end

/-- The text of a value without line breaks and spaces. -/
def compact (j : Json) : String := String.ofList (j.chars .compact 0)

/-- The text of a value with one item or field per line. -/
def pretty (j : Json) : String := String.ofList (j.chars .pretty 0)

/-! ## Tests -/

example : (Json.object [("a", .array [.integer (-3), .null]), ("b", .array [])]).compact
    = "\x7b\"a\":[-3,null],\"b\":[]\x7d" := by decide +kernel

example : (Json.object [("a", .array [.bool true])]).pretty
    = "\x7b\n  \"a\": [\n    true\n  ]\n\x7d" := by decide +kernel

example : (Json.string "\"\\\n\x01é").compact = "\"\\\"\\\\\\n\\u0001é\"" := by decide +kernel

end Json

end Correlation
