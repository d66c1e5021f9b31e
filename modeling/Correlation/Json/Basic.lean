/-!
# JSON values

Integers and real numbers are told apart, and objects keep their fields as they come: in order, and
with duplicates.
-/

namespace Correlation

/-- A JSON value. -/
inductive Json where
  | null
  | bool (value : Bool)
  /-- A number without fraction and exponent that fits in 64 bits. -/
  | integer (value : Int)
  /-- Any other number. -/
  | real (value : Float)
  | string (value : String)
  | array (items : List Json)
  | object (fields : List (String × Json))
deriving Inhabited

/-- Whether a value is neither a list nor an object. -/
def Json.isScalar : Json → Bool
  | .array _ | .object _ => false
  | _ => true

/-- What is wrong with a text that is not JSON. -/
inductive JsonFault where
  /-- The text ends before a value. -/
  | endInValue
  | endInString
  | endInList
  | endInObject
  | expectedValue
  /-- A word is none of `true`, `false` and `null`. -/
  | expectedWord
  | expectedColon
  /-- An item is not followed by another one or the end of the list. -/
  | expectedItemEnd
  /-- A field is not followed by another one or the end of the object. -/
  | expectedFieldEnd
  /-- The last item or field has a comma. -/
  | trailingComma
  | trailingCharacters
  | keyNotString
  /-- A number is not complete, or starts with a zero too many. -/
  | invalidNumber
  /-- A number is too large for a double. -/
  | numberOutOfRange
  /-- A backslash is not followed by a known escape. -/
  | invalidEscape
  /-- One half of a surrogate pair stands alone. -/
  | loneSurrogate
  /-- The first half of a surrogate pair is not followed by an escape. -/
  | expectedSurrogate
  /-- A string has a control character. -/
  | controlCharacter
  /-- Values are nested too deeply. -/
  | tooDeep
deriving DecidableEq, Repr

namespace JsonFault

/-- The wording of a fault. -/
def message : JsonFault → String
  | .endInValue => "EOF while parsing a value"
  | .endInString => "EOF while parsing a string"
  | .endInList => "EOF while parsing a list"
  | .endInObject => "EOF while parsing an object"
  | .expectedValue => "expected value"
  | .expectedWord => "expected ident"
  | .expectedColon => "expected `:`"
  | .expectedItemEnd => "expected `,` or `]`"
  | .expectedFieldEnd => "expected `,` or `\x7d`"
  | .trailingComma => "trailing comma"
  | .trailingCharacters => "trailing characters"
  | .keyNotString => "key must be a string"
  | .invalidNumber => "invalid number"
  | .numberOutOfRange => "number out of range"
  | .invalidEscape => "invalid escape"
  | .loneSurrogate => "lone leading surrogate in hex escape"
  | .expectedSurrogate => "unexpected end of hex escape"
  | .controlCharacter => "control character (\\u0000-\\u001F) found while parsing a string"
  | .tooDeep => "recursion limit exceeded"

/-- Whether the fault is that the text ends. -/
def isEnd : JsonFault → Bool
  | .endInValue | .endInString | .endInList | .endInObject => true
  | _ => false

end JsonFault

end Correlation
