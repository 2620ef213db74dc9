import TypeOnly.Double
import TypeOnly.Text.Character

/-!
The values of written numbers.
-/

namespace TypeOnly.Source

set_option autoImplicit false

open Text (digitValue? isDigit)

/-- The number that digits of a base spell; separators count for nothing. -/
def natOfDigits (base : Nat) (digits : List Char) : Nat :=
  digits.foldl (fun n c => match digitValue? c with | some d => n * base + d | none => n) 0

/-- The base that a written number is marked with, and its digits. -/
def markedBase? : List Char → Option (Nat × List Char)
  | '0' :: c :: rest =>
    if c = 'x' || c = 'X' then some (16, rest)
    else if c = 'o' || c = 'O' then some (8, rest)
    else if c = 'b' || c = 'B' then some (2, rest)
    else none
  | _ => none

/-- Integers from here on are beyond all finite numbers. -/
def infiniteFrom : Nat := Nat.pow 2 1024 - Nat.pow 2 970

/-- Whether a number is octal by its leading zero alone. One that is infinite as a decimal is
not. -/
def isOldOctal : List Char → Bool
  | '0' :: c :: rest =>
    (c :: rest).all (fun d => d = '_' || ('0' ≤ d && d ≤ '7'))
      && natOfDigits 10 (c :: rest) < infiniteFrom
  | _ => false

/-- The number of decimal digits of a number; none for zero. -/
def digitCount (n : Nat) : Nat := if n = 0 then 0 else (Nat.toDigits 10 n).length

/-- The value of a decimal with a point and an exponent. One far beyond the exponents of all numbers
is not computed. -/
def decimalValue (digits : List Char) : Double :=
  let isMark (c : Char) : Bool := c = 'e' || c = 'E'
  let mantissa := digits.takeWhile fun c => !isMark c
  let exponent := (digits.dropWhile fun c => !isMark c).drop 1
  let whole := mantissa.takeWhile (· ≠ '.')
  let fraction := ((mantissa.dropWhile (· ≠ '.')).drop 1).filter isDigit
  let power : Int := natOfDigits 10 exponent
  let e := (if exponent.head? = some '-' then -power else power) - fraction.length
  let n := natOfDigits 10 (whole ++ fraction)
  let first := digitCount n + e
  if n = 0 || first < -400 then .ofRatio 0 1
  else if 400 < first then .ofRatio infiniteFrom 1
  else .ofRatio (n * Nat.pow 10 e.toNat) (Nat.pow 10 (-e).toNat)

def numberValue (raw : String) : Double :=
  match markedBase? raw.toList with
  | some (base, digits) => .ofRatio (natOfDigits base digits) 1
  | none =>
    if isOldOctal raw.toList then .ofRatio (natOfDigits 8 raw.toList) 1
    else decimalValue raw.toList

def integerValue (raw : String) : Nat :=
  let digits := raw.toList.filter (· ≠ 'n')
  let (base, digits) := (markedBase? digits).getD (10, digits)
  natOfDigits base digits

end TypeOnly.Source
