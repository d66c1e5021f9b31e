/-!
# Shortest decimals

A double stands for all the reals that round to it.  Of the decimals among those, the shortest one
names the double without doubt.  It is found in exact arithmetic: on the grid of decimals with one
digit, then two, and so on, the two neighbours of the double are tried.  The first grid with a
neighbour that rounds to the double wins, and of two such neighbours the nearer.  Seventeen digits
are always enough.
-/

namespace Correlation

/-- The number `digits * 10 ^ exponent`. -/
structure Decimal where
  /-- A whole number. -/
  digits : Nat
  exponent : Int
deriving DecidableEq, Repr

/-- Numbers around a double, as fractions with one denominator. -/
structure Around where
  /-- The midpoint to the double below. -/
  low : Nat
  /-- The double itself. -/
  value : Nat
  /-- The midpoint to the double above. -/
  high : Nat
  denominator : Nat
  /-- Whether the midpoints round to the double. -/
  inclusive : Bool
deriving DecidableEq, Repr

namespace Around

/-- What is around a positive double, given by its bits without the sign. -/
def ofBits (bits : Nat) : Around :=
  let hidden := Nat.pow 2 52
  let fraction := bits % hidden
  let biased := bits / hidden
  let mantissa := if biased = 0 then fraction else fraction + hidden
  let gap := if fraction = 0 ∧ 1 < biased then 1 else 2
  let inclusive := mantissa % 2 == 0
  let raised := max biased 1
  if 1077 ≤ raised then
    let unit := Nat.pow 2 (raised - 1077)
    ⟨(4 * mantissa - gap) * unit, 4 * mantissa * unit, (4 * mantissa + 2) * unit, 1, inclusive⟩
  else
    ⟨4 * mantissa - gap, 4 * mantissa, 4 * mantissa + 2, Nat.pow 2 (1077 - raised), inclusive⟩

/-- The exponent of the first decimal digit of the double. -/
def leading (a : Around) : Int :=
  if a.denominator ≤ a.value then
    ((Nat.toDigits 10 (a.value / a.denominator)).length : Int) - 1
  else
    let quotient := (a.denominator + a.value - 1) / a.value
    Int.negOfNat (Nat.toDigits 10 (quotient - 1)).length

/-- Measures everything in units of `10 ^ exponent`. -/
def inUnits (a : Around) (exponent : Int) : Around :=
  if 0 ≤ exponent then { a with denominator := a.denominator * Nat.pow 10 exponent.toNat }
  else
    let factor := Nat.pow 10 (-exponent).toNat
    { a with low := a.low * factor, value := a.value * factor, high := a.high * factor }

/-- The whole number that rounds to the double, if there is one, and the nearest of them if there
are two.  Of two that are equally near, the even one is taken. -/
def whole? (a : Around) : Option Nat :=
  let below := a.value / a.denominator
  let downGap := a.value - below * a.denominator
  let upGap := (below + 1) * a.denominator - a.value
  let down := a.low < below * a.denominator ∨ a.inclusive ∧ a.low = below * a.denominator
  let up :=
    (below + 1) * a.denominator < a.high ∨ a.inclusive ∧ (below + 1) * a.denominator = a.high
  if down ∧ up then
    some (if downGap < upGap ∨ downGap = upGap ∧ below % 2 = 0 then below else below + 1)
  else if down then some below
  else if up then some (below + 1)
  else none

/-- The shortest decimal, starting with so many digits, in at most `tries` attempts. -/
def search (a : Around) (leading : Int) : Nat → Nat → Decimal
  | _, 0 => ⟨0, 0⟩
  | digits, tries + 1 =>
    let exponent := leading - digits + 1
    match (a.inUnits exponent).whole? with
    | some n => ⟨n, exponent⟩
    | none => search a leading (digits + 1) tries

end Around

/-- The shortest decimal of a positive double, given by its bits without the sign. -/
def shortestDecimal (bits : Nat) : Decimal :=
  let around := Around.ofBits bits
  around.search around.leading 1 17

/-- The digits of a decimal without zeros at the end, and the power of ten of the last digit. -/
def Decimal.trimmed (d : Decimal) : List Char × Int :=
  let digits := Nat.toDigits 10 d.digits
  let kept := (digits.reverse.dropWhile fun c => decide (c = '0')).reverse
  (kept, d.exponent + (digits.length - kept.length : Nat))

/-! ## Positional and scientific texts -/

/-- Digits with a point among them, and at least one digit on either side of it. -/
def positional (digits : List Char) (exponent : Int) : List Char :=
  let point := digits.length + exponent
  if 0 ≤ exponent then digits ++ List.replicate exponent.toNat '0' ++ ['.', '0']
  else if 0 < point then digits.take point.toNat ++ '.' :: digits.drop point.toNat
  else '0' :: '.' :: List.replicate (-point).toNat '0' ++ digits

/-- Digits with a point after the first of them, if there are more, and a power of ten. -/
def scientific (digits : List Char) (exponent : Int) : List Char :=
  let power := digits.length + exponent - 1
  let mantissa := match digits with
    | first :: second :: rest => first :: '.' :: second :: rest
    | short => short
  let mark := if 0 ≤ power then ['e', '+'] else ['e', '-']
  mantissa ++ mark ++ Nat.toDigits 10 power.natAbs

/-- The text of a finite double.  `plain` says for which powers of ten of the first digit it is
positional. -/
def realChars (plain : Int → Bool) (x : Float) : List Char :=
  let bits := x.toBits.toNat
  let signBit := Nat.pow 2 63
  let magnitude := bits % signBit
  let sign := if bits < signBit then [] else ['-']
  if magnitude = 0 then sign ++ ['0', '.', '0']
  else
    let (digits, exponent) := (shortestDecimal magnitude).trimmed
    sign ++
      if plain (digits.length + exponent - 1) then positional digits exponent
      else scientific digits exponent

/-! ## Tests -/

section Tests

/-- The shortest decimal of the double with the given bits. -/
def shortestText (bits : Nat) : String × Int :=
  let (digits, exponent) := (shortestDecimal bits).trimmed
  (String.ofList digits, exponent)

/-- The least positive double. -/
example : shortestText 1 = ("5", -324) := by decide +kernel

/-- The sum of a tenth and two tenths. -/
example : shortestText 0x3fd3333333333334 = ("30000000000000004", -17) := by decide +kernel

/-- One, and the greatest double. -/
example : shortestText 0x3ff0000000000000 = ("1", 0) := by decide +kernel
example : shortestText 0x7fefffffffffffff = ("17976931348623157", 292) := by decide +kernel

/-- A power of two, where the gap below is half the gap above. -/
example : shortestText 0x4340000000000000 = ("9007199254740992", 0) := by decide +kernel

example : positional ['1', '2'] (-1) = ['1', '.', '2'] := rfl
example : positional ['1', '2'] (-3) = ['0', '.', '0', '1', '2'] := rfl
example : positional ['1', '2'] 2 = ['1', '2', '0', '0', '.', '0'] := rfl
example : scientific ['1', '2'] 20 = ['1', '.', '2', 'e', '+', '2', '1'] := rfl
example : scientific ['3'] (-10) = ['3', 'e', '-', '1', '0'] := rfl

end Tests

end Correlation
