import Correlation.Json.Basic
import Correlation.Real.Scaling

/-!
# Numerals

    numeral = [ "-" ] ( "0" | digit without zero { digit } ) [ "." digits ] [ "e" [ sign ] digits ]

A numeral is read character by character.  Without a fraction and an exponent it is an integer, as
long as it fits in 64 bits, with or without sign.  Minus zero is a real number, for there is no
such integer.

A real number is made of the leading digits that fit in 64 bits, fraction included, and the power
of ten that goes with them.
-/

namespace Correlation

/-- Where in a numeral its last character stands. -/
inductive NumeralPhase where
  | sign
  /-- A zero, which can not be followed by digits. -/
  | zero
  /-- A digit before the point. -/
  | whole
  | point
  /-- A digit after the point. -/
  | fraction
  /-- The mark of an exponent. -/
  | mark
  /-- The sign of an exponent. -/
  | markSign
  /-- A digit of an exponent. -/
  | exponent
deriving DecidableEq, Repr

/-- A numeral up to a character.  Digits are kept newest first. -/
structure Numeral where
  /-- Where the last character stands. -/
  phase : NumeralPhase
  /-- Whether there is a minus sign. -/
  negative : Bool
  /-- The digits before the point. -/
  whole : List Char
  /-- The digits after the point. -/
  fraction : List Char
  /-- Whether the exponent has a minus sign. -/
  exponentNegative : Bool
  /-- The digits of the exponent. -/
  exponent : List Char
  /-- Whether there is a point or an exponent. -/
  isReal : Bool
deriving DecidableEq, Repr

namespace Numeral

/-- The bound of 64 bits without sign. -/
def wordBound : Nat := Nat.pow 2 64

/-- The bound of the digits of an exponent. -/
def exponentBound : Nat := Nat.pow 2 31

/-- The numeral of a minus sign. -/
def minus : Numeral := ⟨.sign, true, [], [], false, [], false⟩

/-- The numeral of a digit, with or without a minus sign before it. -/
def ofDigit (negative : Bool) (c : Char) : Numeral :=
  ⟨if c = '0' then .zero else .whole, negative, [c], [], false, [], false⟩

/-- The leading digits that fit in 64 bits, and the number of digits that are left out. -/
def leadingDigits (acc : Nat) : List Char → Nat × Nat
  | [] => (acc, 0)
  | c :: rest =>
    let next := Nat.ofDigitChars 10 [c] acc
    if next < wordBound then leadingDigits next rest else (acc, rest.length + 1)

/-- The significand and its power of ten, apart from the exponent that is written. -/
def significand (n : Numeral) : Nat × Int :=
  let (acc, dropped) := leadingDigits 0 n.whole.reverse
  let (acc, unread) := leadingDigits acc n.fraction.reverse
  (acc, (dropped : Int) - ((n.fraction.length - unread : Nat) : Int))

/-- The exponent that is written. -/
def writtenExponent (n : Numeral) : Nat := Nat.ofDigitChars 10 n.exponent.reverse 0

/-- Whether an exponent is too large for any number but zero. -/
def overflows (n : Numeral) : Bool :=
  decide (exponentBound ≤ n.writtenExponent) && !n.exponentNegative
    && !decide (n.significand.1 = 0)

/-- The real number of a numeral. -/
def real? (n : Numeral) : Option Float :=
  let (acc, power) := n.significand
  let magnitude :=
    if exponentBound ≤ n.writtenExponent then
      if n.overflows then none else some 0.0
    else
      scaled? (UInt64.ofNat acc)
        (if n.exponentNegative then power - n.writtenExponent else power + n.writtenExponent)
  magnitude.map fun x => if n.negative then -x else x

/-- The value of a complete numeral. -/
def value (n : Numeral) : Except JsonFault Json :=
  let whole := Nat.ofDigitChars 10 n.whole.reverse 0
  if !n.isReal && !n.negative && decide (whole < wordBound) then .ok (.integer whole)
  else if !n.isReal && n.negative && decide (whole ≠ 0) && decide (whole ≤ Nat.pow 2 63) then
    .ok (.integer (-whole))
  else
    match n.real? with
    | some x => .ok (.real x)
    | none => .error .numberOutOfRange

/-- Whether a numeral may end at this point. -/
def isComplete (n : Numeral) : Bool :=
  match n.phase with
  | .zero | .whole | .fraction | .exponent => true
  | .sign | .point | .mark | .markSign => false

/-- Begins the fraction or the exponent of a numeral, if the character asks for it. -/
def extend? (n : Numeral) (fractionAllowed : Bool) (c : Char) : Option Numeral :=
  if fractionAllowed && decide (c = '.') then some { n with phase := .point, isReal := true }
  else if c = 'e' ∨ c = 'E' then some { n with phase := .mark, isReal := true }
  else none

/-- Adds a digit of the exponent.  A numeral that is only passed over may be too large. -/
def pushExponent (strict : Bool) (n : Numeral) (c : Char) : Except JsonFault Numeral :=
  let next := { n with phase := .exponent, exponent := c :: n.exponent }
  if strict && next.overflows then .error .numberOutOfRange else .ok next

/-- One more character, or nothing if the numeral ends before it. -/
def push? (strict : Bool) (n : Numeral) (c : Char) : Except JsonFault (Option Numeral) :=
  match n.phase with
  | .sign => if c.isDigit then .ok (some (ofDigit n.negative c)) else .error .invalidNumber
  | .zero => if c.isDigit then .error .invalidNumber else .ok (n.extend? true c)
  | .whole =>
    if c.isDigit then .ok (some { n with whole := c :: n.whole }) else .ok (n.extend? true c)
  | .point =>
    if c.isDigit then .ok (some { n with phase := .fraction, fraction := [c] })
    else .error .invalidNumber
  | .fraction =>
    if c.isDigit then .ok (some { n with fraction := c :: n.fraction })
    else .ok (n.extend? false c)
  | .mark =>
    if c = '+' then .ok (some { n with phase := .markSign })
    else if c = '-' then .ok (some { n with phase := .markSign, exponentNegative := true })
    else if c.isDigit then (n.pushExponent strict c).map some
    else .error .invalidNumber
  | .markSign =>
    if c.isDigit then (n.pushExponent strict c).map some else .error .invalidNumber
  | .exponent => if c.isDigit then (n.pushExponent strict c).map some else .ok none

end Numeral

end Correlation
