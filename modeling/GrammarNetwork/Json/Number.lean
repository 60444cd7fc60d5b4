/-! Numbers of JSON texts. A number is an integer if it is written without fraction and exponent; `-0` is
none. A number must fit a binary floating point number of 64 bits, computed from its leading digits. -/

namespace GrammarNetwork.Json

/-- A number as it is written. -/
structure Numeral where
  negative : Bool
  whole : List Nat
  fraction : Option (List Nat)
  exponent : Option Int
deriving DecidableEq, Repr

/-- The number that decimal digits denote. -/
def digitsValue (digits : List Nat) : Nat :=
  digits.foldl (fun sum digit => sum * 10 + digit) 0

/-- The nearest number with at most 53 significant bits; of two nearest ones the even one. -/
def round53 (value : Nat) : Nat :=
  let shift := value.log2 - 52
  let unit := Nat.pow 2 shift
  let quotient := value / unit
  let twice := 2 * (value % unit)
  if unit < twice ∨ (unit = twice ∧ quotient % 2 = 1) then (quotient + 1) * unit else quotient * unit

/-- The leading digits of a numeral as a number below 2^64, and the power of ten that scales it. -/
structure Scaled where
  significand : Nat := 0
  exponent : Int := 0
deriving DecidableEq, Repr

namespace Scaled

/-- The numbers below are those of 64 bits. -/
def capacity : Nat := 18446744073709551616

/-- Takes digits before the point. Once a digit does not fit, it and all later ones only scale. -/
def pushWhole : Scaled → List Nat → Scaled
  | scaled, [] => scaled
  | scaled, digit :: rest =>
      if scaled.significand * 10 + digit < capacity then
        pushWhole { scaled with significand := scaled.significand * 10 + digit } rest
      else
        { scaled with exponent := scaled.exponent + (rest.length + 1) }

/-- Takes digits behind the point, up to the first that does not fit. -/
def pushFraction : Scaled → List Nat → Scaled
  | scaled, [] => scaled
  | scaled, digit :: rest =>
      if scaled.significand * 10 + digit < capacity then
        pushFraction ⟨scaled.significand * 10 + digit, scaled.exponent - 1⟩ rest
      else
        scaled

/-- Whether significand times power of ten, both rounded to 53 bits, is finite as a floating point
number. -/
def isFinite (scaled : Scaled) : Bool :=
  scaled.significand == 0 || decide (scaled.exponent < 0) ||
    (decide (scaled.exponent ≤ 308) &&
      decide (round53 scaled.significand * round53 (Nat.pow 10 scaled.exponent.toNat) <
        Nat.pow 2 1024 - Nat.pow 2 970))

end Scaled

namespace Numeral

def scaled (numeral : Numeral) : Scaled :=
  let digits := (Scaled.pushWhole {} numeral.whole).pushFraction (numeral.fraction.getD [])
  { digits with exponent := digits.exponent + numeral.exponent.getD 0 }

def isFinite (numeral : Numeral) : Bool :=
  numeral.scaled.isFinite

/-- The integer that the numeral is written as. -/
def integer? (numeral : Numeral) : Option Int :=
  let value := digitsValue numeral.whole
  if numeral.fraction.isSome || numeral.exponent.isSome then none
  else if numeral.negative then if value = 0 then none else some (-value)
  else some value

end Numeral

end GrammarNetwork.Json
