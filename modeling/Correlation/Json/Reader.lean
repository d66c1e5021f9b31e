import Correlation.Json.Form
import Correlation.Json.Numeral
import Correlation.Text.Bytes

/-!
# Reading JSON

A text is read by a machine that takes one character after the other.  Values that are not complete
are kept on a stack, so the machine needs no recursion over the nesting of values.  The machine
says what it expects next (`Reading`), and of which form that is.

A fault has a place, counted in bytes.  It stands after the first byte of the character that is
refused, or at the end of a text that ends too early.  The four characters of a numbered escape are
taken together, and a fault in them stands after all four.

Three forms have rules of their own.

* A value that nobody asks for may be nested at any depth.  Its numbers may be out of range, and its
  numbered escapes need not be characters.  A control character is refused where it stands.
* A record that is written as a list ends after its last field.
* An object that stands for a name ends after its first field.

`read_eq_of_steps` says that the value of a text is what the machine ends with.
-/

namespace Correlation

namespace Json

/-- Why a text can not be read. -/
inductive Refusal (ε : Type) where
  /-- The text has a fault.  Its place counts from the start of what is being read, which is one
  character or the whole text. -/
  | fault (cause : JsonFault) (place : Nat)
  | misfit (reason : ε)
deriving DecidableEq, Repr

/-- The same refusal, with places that count from so many bytes before. -/
def Refusal.move (offset : Nat) : Refusal ε → Refusal ε
  | .fault cause place => .fault cause (offset + place)
  | .misfit reason => .misfit reason

/-- The fault of a character that is refused. -/
def refuse (fault : JsonFault) : Except (Refusal ε) α := .error (.fault fault 1)

/-! ## Strings -/

/-- What a string needs next. -/
inductive Escape where
  /-- A character of the text, or the end. -/
  | plain
  /-- The letter of an escape. -/
  | letter
  /-- The rest of four hexadecimal digits, which are kept newest first.  A half of a surrogate pair
  may have come before. -/
  | digits (taken : List Char) (half : Option Nat)
  /-- The backslash of the second half. -/
  | halfBackslash (half : Nat)
  /-- The letter of the second half. -/
  | halfLetter (half : Nat)
deriving DecidableEq, Repr

/-- A string up to a character.  Characters are kept newest first. -/
structure StringPart where
  taken : List Char
  /-- What comes next. -/
  escape : Escape
deriving DecidableEq, Repr

/-- A string after its opening quote. -/
def StringPart.start : StringPart := ⟨[], .plain⟩

/-- The value of a hexadecimal digit. -/
def hexValue? (c : Char) : Option Nat :=
  if '0' ≤ c ∧ c ≤ '9' then some (c.toNat - '0'.toNat)
  else if 'a' ≤ c ∧ c ≤ 'f' then some (c.toNat - 'a'.toNat + 10)
  else if 'A' ≤ c ∧ c ≤ 'F' then some (c.toNat - 'A'.toNat + 10)
  else none

/-- The value of hexadecimal digits, most significant first. -/
def hexNumber? (digits : List Char) : Option Nat :=
  digits.foldlM (fun acc c => (hexValue? c).map fun d => 16 * acc + d) 0

/-- The character of a letter after a backslash. -/
def simpleEscape? (c : Char) : Option Char :=
  match c with
  | '"' => some '"'
  | '\\' => some '\\'
  | '/' => some '/'
  | 'b' => some '\x08'
  | 'f' => some '\x0c'
  | 'n' => some '\n'
  | 'r' => some '\r'
  | 't' => some '\t'
  | _ => none

/-- A number that is the first half of a surrogate pair. -/
def isHighHalf (n : Nat) : Bool := decide (0xd800 ≤ n) && decide (n < 0xdc00)

/-- A number that is the second half of a surrogate pair. -/
def isLowHalf (n : Nat) : Bool := decide (0xdc00 ≤ n) && decide (n < 0xe000)

/-- Takes over the number of a numbered escape. -/
def StringPart.number (s : StringPart) (half : Option Nat) (n : Nat) :
    Except (Refusal ε) StringPart :=
  match half with
  | some high =>
    if isLowHalf n then
      let code := 0x10000 + (high - 0xd800) * 0x400 + (n - 0xdc00)
      .ok ⟨Char.ofNat code :: s.taken, .plain⟩
    else refuse .loneSurrogate
  | none =>
    if isLowHalf n then refuse .loneSurrogate
    else if isHighHalf n then .ok { s with escape := .halfBackslash n }
    else .ok ⟨Char.ofNat n :: s.taken, .plain⟩

/-- One more character of a string, or nothing if it is the closing quote.  In a string that is only
passed over, a numbered escape counts as the character with that number, if there is one. -/
def StringPart.push? (strict : Bool) (s : StringPart) (c : Char) :
    Except (Refusal ε) (Option StringPart) :=
  match s.escape with
  | .plain =>
    if c = '"' then .ok none
    else if c = '\\' then .ok (some { s with escape := .letter })
    else if c.toNat < 0x20 then .error (.fault .controlCharacter (if strict then 1 else 0))
    else .ok (some { s with taken := c :: s.taken })
  | .letter =>
    if c = 'u' then .ok (some { s with escape := .digits [] none })
    else
      match simpleEscape? c with
      | some d => .ok (some ⟨d :: s.taken, .plain⟩)
      | none => refuse .invalidEscape
  | .digits taken half =>
    if bytes (c :: taken) < 4 then .ok (some { s with escape := .digits (c :: taken) half })
    else
      match hexNumber? (c :: taken).reverse with
      | some n =>
        if strict then (s.number half n).map some
        else .ok (some ⟨Char.ofNat n :: s.taken, .plain⟩)
      | none => .error (.fault .invalidEscape (4 - bytes taken))
  | .halfBackslash half =>
    if c = '\\' then .ok (some { s with escape := .halfLetter half })
    else refuse .expectedSurrogate
  | .halfLetter half =>
    if c = 'u' then .ok (some { s with escape := .digits [] (some half) })
    else refuse .expectedSurrogate

/-- The text of a string. -/
def StringPart.text (s : StringPart) : String := String.ofList s.taken.reverse

/-! ## The machine -/

/-- A list or an object that is not complete.  What it holds is kept newest first. -/
inductive Container (ε : Type) where
  /-- The items so far. -/
  | array (form : Form ε) (items : List Json)
  /-- The fields so far, and the key of the one at hand. -/
  | object (form : Form ε) (fields : List (String × Json)) (key : String)

/-- What the machine is reading. -/
inductive Reading (ε : Type) where
  | value (form : Form ε)
  /-- The first item of a list, or the end of the list. -/
  | firstItem (form : Form ε)
  /-- An item after a comma.  The items so far go with it. -/
  | nextItem (form : Form ε) (items : List Json)
  /-- The first key of an object, or the end of the object. -/
  | firstKey (form : Form ε)
  /-- A key after a comma.  The fields so far go with it. -/
  | nextKey (form : Form ε) (fields : List (String × Json))
  | key (form : Form ε) (fields : List (String × Json)) (part : StringPart)
  | colon (form : Form ε) (fields : List (String × Json)) (key : String)
  | string (form : Form ε) (part : StringPart)
  | numeral (form : Form ε) (part : Numeral)
  /-- The next character of a word, and the rest of it.  The word means a value. -/
  | word (form : Form ε) (next : Char) (rest : List Char) (meaning : Json)
  /-- What follows a complete value. -/
  | after (value : Json)

/-- The machine between two characters. -/
structure Reader (ε : Type) where
  /-- The lists and objects around the place, innermost first. -/
  stack : List (Container ε)
  reading : Reading ε

/-- The machine before the first character of a value of a form. -/
def Reader.start (form : Form ε) : Reader ε := ⟨[], .value form⟩

/-- Whether a character may stand between the parts of a text. -/
def isSpace (c : Char) : Bool := c = ' ' || c = '\n' || c = '\t' || c = '\r'

/-- Heeds an objection to a value.  Without one, something is done. -/
def heed (objection : Option ε) (a : Except (Refusal ε) α) : Except (Refusal ε) α :=
  match objection with
  | some reason => .error (.misfit reason)
  | none => a

/-- What is left of a complete value. -/
def settle (form : Form ε) (value : Json) : Except (Refusal ε) Json :=
  heed (form.objection? value) (.ok (form.kept value))

/-- The end of a value. -/
def complete (stack : List (Container ε)) (form : Form ε) (value : Json) :
    Except (Refusal ε) (Reader ε) :=
  (settle form value).map fun value => ⟨stack, .after value⟩

/-- The start of a list or an object.  There are at most `limit` around a place, apart from those
that nobody asks for. -/
def descend (limit : Nat) (stack : List (Container ε)) (form : Form ε) (reading : Reading ε) :
    Except (Refusal ε) (Reader ε) :=
  if form.isSkipped || decide (stack.length < limit) then .ok ⟨stack, reading⟩
  else refuse .tooDeep

/-- The first character of a value. -/
def startValue (limit : Nat) (stack : List (Container ε)) (form : Form ε) (c : Char) :
    Except (Refusal ε) (Reader ε) :=
  if c = '"' then .ok ⟨stack, .string form .start⟩
  else if c = '{' then heed form.objectObjection? (descend limit stack form (.firstKey form))
  else if form.isName then refuse .expectedValue
  else if c = '[' then heed form.listObjection? (descend limit stack form (.firstItem form))
  else if c = '-' then .ok ⟨stack, .numeral form .minus⟩
  else if c.isDigit then .ok ⟨stack, .numeral form (.ofDigit false c)⟩
  else if c = 't' then .ok ⟨stack, .word form 'r' ['u', 'e'] (.bool true)⟩
  else if c = 'f' then .ok ⟨stack, .word form 'a' ['l', 's', 'e'] (.bool false)⟩
  else if c = 'n' then .ok ⟨stack, .word form 'u' ['l', 'l'] .null⟩
  else refuse .expectedValue

/-- The first character of an item. -/
def startItem (limit : Nat) (stack : List (Container ε)) (form : Form ε) (items : List Json)
    (c : Char) : Except (Refusal ε) (Reader ε) :=
  match form.item? items with
  | some item => startValue limit (.array form items :: stack) item c
  | none => refuse .trailingCharacters

/-- The first character of a key. -/
def startKey (stack : List (Container ε)) (form : Form ε) (fields : List (String × Json))
    (c : Char) : Except (Refusal ε) (Reader ε) :=
  if c = '"' then .ok ⟨stack, .key form fields .start⟩ else refuse .keyNotString

/-- The end of a key. -/
def endKey (stack : List (Container ε)) (form : Form ε) (fields : List (String × Json))
    (key : String) : Except (Refusal ε) (Reader ε) :=
  heed (form.keyObjection? fields key) (.ok ⟨stack, .colon form fields key⟩)

/-- A character after a complete item of a list, which is the newest one. -/
def afterItem (stack : List (Container ε)) (form : Form ε) (items : List Json) (c : Char) :
    Except (Refusal ε) (Reader ε) :=
  if c = ',' then .ok ⟨stack, .nextItem form items⟩
  else if c = ']' then complete stack form (.array items.reverse)
  else refuse (if (form.item? items).isSome then .expectedItemEnd else .trailingCharacters)

/-- A character after a complete field of an object, which is the newest one. -/
def afterField (stack : List (Container ε)) (form : Form ε) (fields : List (String × Json))
    (c : Char) : Except (Refusal ε) (Reader ε) :=
  if c = '}' then complete stack form (.object fields.reverse)
  else if form.isName then .error (.fault .expectedValue 0)
  else if c = ',' then .ok ⟨stack, .nextKey form fields⟩
  else refuse .expectedFieldEnd

/-- A character after a complete value. -/
def afterValue (stack : List (Container ε)) (value : Json) (c : Char) :
    Except (Refusal ε) (Reader ε) :=
  if isSpace c then .ok ⟨stack, .after value⟩
  else
    match stack with
    | [] => refuse .trailingCharacters
    | .array form items :: outer => afterItem outer form (value :: items) c
    | .object form fields key :: outer => afterField outer form ((key, value) :: fields) c

/-- What is left of a complete numeral. -/
def settleNumeral (form : Form ε) (part : Numeral) : Except (Refusal ε) Json :=
  if form.isSkipped then settle form .null
  else
    match part.value with
    | .error fault => .error (.fault fault 0)
    | .ok value => settle form value

/-- One character. -/
def step (limit : Nat) : Reader ε → Char → Except (Refusal ε) (Reader ε)
  | ⟨stack, .value form⟩, c =>
    if isSpace c then .ok ⟨stack, .value form⟩ else startValue limit stack form c
  | ⟨stack, .firstItem form⟩, c =>
    if isSpace c then .ok ⟨stack, .firstItem form⟩
    else if c = ']' then complete stack form (.array [])
    else startItem limit stack form [] c
  | ⟨stack, .nextItem form items⟩, c =>
    if isSpace c then .ok ⟨stack, .nextItem form items⟩
    else if c = ']' then refuse (if form.isSkipped then .expectedValue else .trailingComma)
    else startItem limit stack form items c
  | ⟨stack, .firstKey form⟩, c =>
    if isSpace c then .ok ⟨stack, .firstKey form⟩
    else if c = '}' then
      if form.isName then refuse .expectedValue else complete stack form (.object [])
    else startKey stack form [] c
  | ⟨stack, .nextKey form fields⟩, c =>
    if isSpace c then .ok ⟨stack, .nextKey form fields⟩
    else if c = '}' then refuse (if form.isSkipped then .keyNotString else .trailingComma)
    else startKey stack form fields c
  | ⟨stack, .key form fields part⟩, c =>
    (part.push? (!form.isSkipped) c).bind fun
      | some part => .ok ⟨stack, .key form fields part⟩
      | none => endKey stack form fields part.text
  | ⟨stack, .colon form fields key⟩, c =>
    if isSpace c then .ok ⟨stack, .colon form fields key⟩
    else if c = ':' then .ok ⟨.object form fields key :: stack, .value (form.field key)⟩
    else refuse .expectedColon
  | ⟨stack, .string form part⟩, c =>
    (part.push? (!form.isSkipped) c).bind fun
      | some part => .ok ⟨stack, .string form part⟩
      | none => complete stack form (.string part.text)
  | ⟨stack, .numeral form part⟩, c =>
    match part.push? (!form.isSkipped) c with
    | .error fault => refuse fault
    | .ok (some part) => .ok ⟨stack, .numeral form part⟩
    | .ok none => (settleNumeral form part).bind fun value => afterValue stack value c
  | ⟨stack, .word form next rest meaning⟩, c =>
    if c = next then
      match rest with
      | [] => complete stack form meaning
      | d :: rest => .ok ⟨stack, .word form d rest meaning⟩
    else refuse .expectedWord
  | ⟨stack, .after value⟩, c => afterValue stack value c

/-- The fault of a text that ends too early. -/
def endEarly (fault : JsonFault) : Except (Refusal ε) α := .error (.fault fault 0)

/-- The value of a text that ends after a complete value. -/
def finishValue (stack : List (Container ε)) (value : Json) : Except (Refusal ε) Json :=
  match stack with
  | [] => .ok value
  | .array _ _ :: _ => endEarly .endInList
  | .object _ _ _ :: _ => endEarly .endInObject

/-- The value of a text that ends here. -/
def finish : Reader ε → Except (Refusal ε) Json
  | ⟨_, .value _⟩ => endEarly .endInValue
  | ⟨_, .firstItem _⟩ => endEarly .endInList
  | ⟨_, .nextItem form items⟩ =>
    endEarly (if (form.item? items).isSome then .endInValue else .trailingCharacters)
  | ⟨_, .firstKey _⟩ => endEarly .endInObject
  | ⟨_, .nextKey form _⟩ => endEarly (if form.isSkipped then .endInObject else .endInValue)
  | ⟨_, .key _ _ _⟩ => endEarly .endInString
  | ⟨_, .colon _ _ _⟩ => endEarly .endInObject
  | ⟨_, .string _ _⟩ => endEarly .endInString
  | ⟨stack, .numeral form part⟩ =>
    if part.isComplete then (settleNumeral form part).bind (finishValue stack)
    else endEarly (if form.isSkipped then .invalidNumber else .endInValue)
  | ⟨_, .word _ _ _ _⟩ => endEarly .endInValue
  | ⟨stack, .after value⟩ => finishValue stack value

/-- Reads a text that starts at an offset. -/
def scan (limit offset : Nat) (r : Reader ε) : List Char → Except (Refusal ε) Json
  | [] => (finish r).mapError (.move offset)
  | c :: rest =>
    match step limit r c with
    | .error refusal => .error (refusal.move offset)
    | .ok next => scan limit (offset + c.utf8Size) next rest

/-- Reads a text in which a value of a form stands, nested at most `limit` deep. -/
def read (limit : Nat) (form : Form ε) (text : List Char) : Except (Refusal ε) Json :=
  scan limit 0 (.start form) text

/-! ## Texts taken apart -/

/-- The machine after a text, if it was not refused. -/
def steps (limit : Nat) (r : Reader ε) (text : List Char) : Except (Refusal ε) (Reader ε) :=
  text.foldlM (step limit) r

theorem steps_cons (limit : Nat) (r : Reader ε) (c : Char) (text : List Char) :
    steps limit r (c :: text) = (step limit r c).bind fun s => steps limit s text := rfl

/-- After a text that is not refused, reading ends as the machine does. -/
theorem scan_eq_of_steps {limit : Nat} {r s : Reader ε} {text : List Char}
    (h : steps limit r text = .ok s) (offset : Nat) :
    scan limit offset r text = (finish s).mapError (.move (offset + bytes text)) := by
  induction text generalizing r offset with
  | nil => cases h; rfl
  | cons c text ih =>
    rw [steps_cons] at h
    cases hc : step limit r c with
    | error refusal => rw [hc] at h; cases h
    | ok u =>
      rw [hc] at h
      rw [scan, hc]
      simp only
      rw [ih h]
      simp [Nat.add_assoc]

/-- The value of a text is what the machine ends with. -/
theorem read_eq_of_steps {limit : Nat} {form : Form ε} {s : Reader ε} {text : List Char}
    {value : Json} (h : steps limit (.start form) text = .ok s) (hv : finish s = .ok value) :
    read limit form text = .ok value := by
  rw [read, scan_eq_of_steps h, hv]
  rfl

/-! ## Tests -/

section Tests

/-- A pair of words, of which the second one may be missing.  Nothing else is asked for. -/
def pairForm : Form String :=
  .judged (.record [("a", .judged .scalar wordsOnly), ("b", .judged .scalar wordsOnly)]) fun
    | .object fields => if (fields.lookup "a").isSome then none else some "no a"
    | .array [] => some "no a"
    | .array _ => none
    | _ => some "no pair"
where
  wordsOnly : Json → Option String
    | .string _ => none
    | _ => some "no word"

/-- What is wrong with a text. -/
def refusal? (form : Form ε) (text : String) : Option (Refusal ε) :=
  match read 2 form text.toList with
  | .ok _ => none
  | .error refusal => some refusal

example : refusal? pairForm "[\"x\", \"y\"]" = none := by decide +kernel
/-- There is no third field. -/
example : refusal? pairForm "[\"x\", \"y\", " = some (.fault .trailingCharacters 11) := by
  decide +kernel
/-- The first thing that is wrong is reported. -/
example : refusal? pairForm "[\"x\", 5, 01" = some (.misfit "no word") := by decide +kernel
example : refusal? pairForm "[[01" = some (.misfit "no word") := by decide +kernel
/-- Fields that nobody asks for are passed over. -/
example : refusal? pairForm "\x7b\"a\": \"x\", \"c\": [[[1e999, \"\\ud800\"]]]\x7d" = none := by
  decide +kernel
example : refusal? (Form.any : Form String) "[[[" = some (.fault .tooDeep 3) := by decide +kernel
example : refusal? (Form.any : Form String) "1e999" = some (.fault .numberOutOfRange 5) := by
  decide +kernel

end Tests

end Json

/-! ## Lines and columns -/

/-- A place in a text.  Lines count from one.  The column is the number of bytes of the line up to
the place. -/
structure TextPosition where
  line : Nat
  column : Nat
deriving DecidableEq, Repr

namespace TextPosition

/-- Moves over so many bytes of a text. -/
def move (p : TextPosition) : List Char → Nat → TextPosition
  | [], left => { p with column := p.column + left }
  | c :: rest, left =>
    if left = 0 then p
    else if c = '\n' then move ⟨p.line + 1, 0⟩ rest (left - 1)
    else if left < c.utf8Size then { p with column := p.column + left }
    else move { p with column := p.column + c.utf8Size } rest (left - c.utf8Size)

/-- The place after so many bytes of a text. -/
def ofOffset (text : List Char) (offset : Nat) : TextPosition := move ⟨1, 0⟩ text offset

end TextPosition

end Correlation
