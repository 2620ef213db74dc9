/-!
Binary floating point numbers by their bits, and the shortest decimal that reads back as one.
-/

namespace TypeOnly

set_option autoImplicit false

structure Double where
  bits : UInt64
deriving DecidableEq, Repr

namespace Double

def ofFloat (f : Float) : Double := ⟨f.toBits⟩

def toFloat (d : Double) : Float := Float.ofBits d.bits

def isNegative (d : Double) : Bool := d.bits.toNat ≥ Nat.pow 2 63

/-- Whether the number is beyond all finite ones. -/
def isInfinite (d : Double) : Bool := d.bits.toNat % Nat.pow 2 63 = 2047 * Nat.pow 2 52

/-- The number without its sign as `mantissa * 2 ^ exponent`. -/
def parts (d : Double) : Nat × Int :=
  let bits := d.bits.toNat % Nat.pow 2 63
  let biased : Nat := bits / Nat.pow 2 52
  let fraction : Nat := bits % Nat.pow 2 52
  if biased = 0 then (fraction, -1074) else (fraction + Nat.pow 2 52, (biased : Int) - 1075)

/-- The number without its sign that is nearest to a fraction; of two that are equally near, the one
with the even mantissa. A fraction beyond all finite numbers gives the infinite one. -/
def ofRatio (num den : Nat) : Double :=
  let top : Int := (num.log2 : Int) - den.log2 - 52
  let quotient (e : Int) : Nat := num * Nat.pow 2 (-e).toNat / (den * Nat.pow 2 e.toNat)
  let e := max (if quotient top < Nat.pow 2 52 then top - 1 else top) (-1074)
  let unit := den * Nat.pow 2 e.toNat
  let scaled := num * Nat.pow 2 (-e).toNat
  let q := scaled / unit
  let rest := scaled % unit
  let mantissa := if 2 * rest < unit || (2 * rest = unit && q % 2 = 0) then q else q + 1
  if num = 0 then ⟨0⟩
  else ⟨.ofNat (min ((e + 1074).toNat * Nat.pow 2 52 + mantissa) (2047 * Nat.pow 2 52))⟩

/-! ### The shortest decimal -/

/-- The numbers that read as one double, between two bounds, all over one denominator. -/
structure Interval where
  low : Nat
  value : Nat
  high : Nat
  denominator : Nat
  closed : Bool

/-- The numbers closer to `mantissa * 2 ^ exponent` than to its neighbours. The lower neighbour is
only half as far away when the mantissa is a power of two. -/
def interval (mantissa : Nat) (exponent : Int) : Interval :=
  let below := if mantissa = Nat.pow 2 52 && exponent > -1074 then 1 else 2
  let up := Nat.pow 2 (exponent - 2).toNat
  let down := Nat.pow 2 (2 - exponent).toNat
  ⟨(4 * mantissa - below) * up, 4 * mantissa * up, (4 * mantissa + 2) * up, down,
    mantissa % 2 = 0⟩

namespace Interval

def holds (i : Interval) (n : Nat) (e : Int) : Bool :=
  let x := n * Nat.pow 10 e.toNat * i.denominator
  let scale := Nat.pow 10 (-e).toNat
  if i.closed then i.low * scale ≤ x && x ≤ i.high * scale
  else i.low * scale < x && x < i.high * scale

/-- The two multiples of `10 ^ e` around the value, the nearer one first. -/
def neighbours (i : Interval) (e : Int) : List Nat :=
  let unit := Nat.pow 10 e.toNat * i.denominator
  let scaled := i.value * Nat.pow 10 (-e).toNat
  let n := scaled / unit
  let rest := scaled % unit
  if 2 * rest < unit || (2 * rest = unit && n % 2 = 0) then [n, n + 1] else [n + 1, n]

/-- The first multiple of `10 ^ e`, for `e` from `top` downwards, that is in the interval. -/
def search (i : Interval) : Nat → Int → Nat × Int
  | 0, e => (i.value * Nat.pow 10 (-e).toNat / (Nat.pow 10 e.toNat * i.denominator), e)
  | steps + 1, e =>
    match (i.neighbours e).find? fun n => n > 0 && i.holds n e with
    | some n => (n, e)
    | none => search i steps (e - 1)

end Interval

def dropZeros : Nat → Nat → Int → Nat × Int
  | 0, n, e => (n, e)
  | steps + 1, n, e => if n > 0 && n % 10 = 0 then dropZeros steps (n / 10) (e + 1) else (n, e)

/-- The decimal exponent from which the search starts: no multiple of its power of ten can be
short of the value by more digits than there are steps. -/
def topExponent (mantissa : Nat) (exponent : Int) : Int :=
  ((mantissa.log2 : Int) + exponent) * 30103 / 100000 + 1

/-- The digits and decimal exponent of the shortest decimal in the interval of a double. -/
def shortest (d : Double) : Nat × Int :=
  let (m, q) := d.parts
  if m = 0 then (0, 0)
  else
    let (n, e) := (interval m q).search 20 (topExponent m q)
    dropZeros 20 n e

/-! ### Texts -/

def zeros (n : Nat) : String := String.ofList (List.replicate n '0')

/-- The text of digits with a decimal point after the first `point` of them. -/
def pointed (digits : String) (point : Nat) : String :=
  String.ofList (digits.toList.take point) ++ "." ++ String.ofList (digits.toList.drop point)

/-- The text of a number in a JSON document: positional between `1e-5` and `1e16`, always with a
point or an exponent. -/
def jsonText (d : Double) : String :=
  let (n, k) := d.shortest
  let sign := if d.isNegative then "-" else ""
  if n = 0 then sign ++ "0.0"
  else
    let digits := toString n
    let length : Int := digits.length
    let point := length + k
    sign ++
      if 0 ≤ k && point ≤ 16 then digits ++ zeros k.toNat ++ ".0"
      else if 0 < point && point ≤ 16 then pointed digits point.toNat
      else if -5 < point && point ≤ 0 then "0." ++ zeros (-point).toNat ++ digits
      else
        let mantissa := if length = 1 then digits else pointed digits 1
        mantissa ++ "e" ++ toString (point - 1)

def plainText (d : Double) : String :=
  let (n, k) := d.shortest
  let sign := if d.isNegative then "-" else ""
  if d.isInfinite then sign ++ "inf"
  else if n = 0 then sign ++ "0"
  else
    let digits := toString n
    let point : Int := digits.length + k
    sign ++
      if 0 ≤ k then digits ++ zeros k.toNat
      else if 0 < point then pointed digits point.toNat
      else "0." ++ zeros (-point).toNat ++ digits

end Double

end TypeOnly
