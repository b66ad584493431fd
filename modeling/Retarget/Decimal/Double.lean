import Retarget.Encoding.Word
import Retarget.Text.Token

/-!
# Doubles

A double is kept as its IEEE-754 bits. An operation without a result for numbers gives the negative
quiet value, and otherwise the first operand that is not a number wins.
-/

namespace Retarget

/-- An IEEE-754 double, as its bits. -/
structure Double where
  bits : UInt64
  deriving DecidableEq

namespace Double
variable (x : Double)

def isNegative : Bool := x.bits >>> 63 == 1
def exponentField : Nat := ((x.bits >>> 52) &&& 0x7ff).toNat
def mantissaField : Nat := (x.bits &&& 0xfffffffffffff).toNat
def isNaN : Bool := x.exponentField == 0x7ff && x.mantissaField != 0
def isInfinite : Bool := x.exponentField == 0x7ff && x.mantissaField == 0
def isZero : Bool := x.exponentField == 0 && x.mantissaField == 0
def significand : Nat := if x.exponentField == 0 then x.mantissaField else x.mantissaField + span 52
def scale : Int := if x.exponentField == 0 then -1074 else (x.exponentField : Int) - 1075
def toFloat : Float := Float.ofBits x.bits
def ofFloat (f : Float) : Double := ⟨f.toBits⟩
def zero : Double := ⟨0⟩

variable (neg : Bool)

def withSign (x : Double) : Double :=
  ⟨(x.bits &&& 0x7fffffffffffffff) ||| (if neg then 0x8000000000000000 else 0)⟩

def infinite : Double := withSign neg ⟨0x7ff0000000000000⟩
def notANum : Double := withSign neg ⟨0x7ff8000000000000⟩

def ofDecimal (digits : Nat) (exponent : Int) : Double :=
  let magnitude := (Nat.toDigits 10 digits).length + exponent
  if digits = 0 || magnitude < -400 then withSign neg zero
  else if magnitude > 400 then infinite neg
  else withSign neg (ofFloat (Float.ofScientific digits (exponent < 0) exponent.natAbs))

def ofFraction : Text.Fraction → Double
  | .finite neg digits e => ofDecimal neg digits e
  | .infinite neg => infinite neg
  | .notANum neg => notANum neg

def read? (s : String) : Option Double := (Text.fraction? s).map ofFraction
def read (s : String) : Res Double := orFault (.malformed s) (read? s)

def lift2 (op : Float → Float → Float) (x y : Double) : Double :=
  if x.isNaN then x
  else if y.isNaN then y
  else
    let r := op x.toFloat y.toFloat
    if r.isNaN then notANum true else ofFloat r

def add : Double → Double → Double := lift2 (· + ·)
def sub : Double → Double → Double := lift2 (· - ·)
def mul : Double → Double → Double := lift2 (· * ·)
def ofInt (n : Int) : Double := ofDecimal (n < 0) n.natAbs 0

variable (x y : Double)

def eq : Bool := x.toFloat == y.toFloat
def lt : Bool := x.toFloat < y.toFloat
def le : Bool := x.toFloat ≤ y.toFloat

def ofScaled (n : Nat) (e : Int) : Float :=
  let surplus := Nat.log2 n - 60
  Float.scaleB (Float.ofNat (n >>> surplus)) (e + surplus)

def truncRem : Double :=
  if x.isNaN then x
  else if y.isNaN then y
  else if x.isInfinite || y.isZero then notANum true
  else if y.isInfinite then x
  else
    let e := min x.scale y.scale
    let a := x.significand * span (x.scale - e).toNat
    let b := y.significand * span (y.scale - e).toNat
    withSign x.isNegative (ofFloat (ofScaled (a % b) e))

/-- The quotient rounded down: exact remainder first, then the nearest whole quotient. -/
def floorDiv : Double :=
  let r := truncRem x y
  let q := lift2 (· / ·) (sub x r) y
  let q := if !r.isZero && !r.isNaN && (y.isNegative != r.isNegative) then sub q (ofInt 1) else q
  if q.isNaN then q
  else if q.isZero then withSign (lift2 (· / ·) x y).isNegative zero
  else
    let f := q.toFloat.floor
    ofFloat (if q.toFloat - f > 0.5 then f + 1.0 else f)

def ofSingleBits (b : UInt32) : Double :=
  let s := Float32.ofBits b
  if s.isNaN then
    let payload := (b &&& 0x007fffff).toUInt64 <<< 29
    withSign (b >>> 31 == 1) ⟨0x7ff8000000000000 ||| payload⟩
  else ofFloat s.toFloat

def toSingleBits? : Option UInt32 :=
  if x.isNaN then
    let sign : UInt32 := if x.isNegative then 0xffc00000 else 0x7fc00000
    some (sign ||| ((x.bits >>> 29).toUInt32 &&& 0x003fffff))
  else
    let s := x.toFloat.toFloat32
    if s.isInf && !x.isInfinite then none else some s.toBits

end Double
end Retarget

/-!
## Shortest decimal text

Of the decimals that read back as the given double, the fewest digits, and then the nearest. For a
growing number of digits the two neighbours on the decimal grid are tested against the interval of
the reals that round to `m · 2 ^ q`.
-/

namespace Retarget.Decimal

/-- The reals that round to one double, in units of `2 ^ scale`: the value and the two ends. -/
structure Interval where
  low : Nat
  value : Nat
  high : Nat
  scale : Int
  closed : Bool

def Interval.of (x : Double) : Interval :=
  let m := x.significand
  let low := if x.mantissaField == 0 && x.exponentField > 1 then 4 * m - 1 else 4 * m - 2
  ⟨low, 4 * m, 4 * m + 2, x.scale - 2, m % 2 == 0⟩

def unitFactor (scale place : Int) : Nat × Nat :=
  (span scale.toNat * Nat.pow 10 (-place).toNat, span (-scale).toNat * Nat.pow 10 place.toNat)

def Interval.holds (i : Interval) (place : Int) (n : Nat) : Bool :=
  let (num, den) := unitFactor i.scale place
  if i.closed then i.low * num ≤ n * den && n * den ≤ i.high * num
  else i.low * num < n * den && n * den < i.high * num

def Interval.magnitude (i : Interval) : Int :=
  let guess := ((Nat.log2 i.value : Int) + i.scale) * 30103 / 100000
  let reached k : Bool :=
    let (num, den) := unitFactor i.scale k
    den ≤ i.value * num
  if reached (guess + 1) then guess + 1 else if reached guess then guess else guess - 1

/-- The nearest grid point inside the interval at the given place, if one of the two neighbours of
the value is inside; an exact tie goes to the even one. -/
def Interval.nearest? (i : Interval) (place : Int) : Option Nat :=
  let (num, den) := unitFactor i.scale place
  let down := i.value * num / den
  let rest := i.value * num % den
  match i.holds place down, i.holds place (down + 1) with
  | true, true =>
    if 2 * rest < den || (2 * rest == den && down % 2 == 0) then some down else some (down + 1)
  | true, false => some down
  | false, true => some (down + 1)
  | false, false => none

def Interval.search (i : Interval) (magnitude : Int) : Nat → Nat → Nat × Int
  | 0, digits =>
    let place := magnitude - digits
    let (num, den) := unitFactor i.scale place
    (i.value * num / den, place)
  | more + 1, digits =>
    let place := magnitude - digits
    match i.nearest? place with
    | some n => (n, place)
    | none => i.search magnitude more (digits + 1)

def shortest (x : Double) : Nat × Int :=
  let i := Interval.of x
  i.search i.magnitude 17 0

def trimZeros (ds : List Char) : List Char :=
  match ds.reverse.dropWhile (· == '0') with
  | [] => ['0']
  | r => r.reverse

/-- Digits `d₁d₂…` of a number `d₁.d₂… · 10 ^ exponent`: positional from `10 ^ -4` up to below
`10 ^ limit`, where `whole` ends a number without a fraction; otherwise with an exponent of at least
two digits. -/
def layout (limit : Int) (whole : String) (ds : List Char) (exponent : Int) : String :=
  let fraction (ds : List Char) (none : String) :=
    if ds.isEmpty then none else "." ++ String.ofList ds
  if -4 ≤ exponent && exponent < limit then
    if exponent < 0 then "0." ++ String.ofList (List.replicate (-exponent - 1).toNat '0' ++ ds)
    else
      let n := exponent.toNat + 1
      String.ofList (ds.take n ++ List.replicate (n - ds.length) '0') ++ fraction (ds.drop n) whole
  else
    let e := Nat.toDigits 10 exponent.natAbs
    String.ofList (ds.take 1) ++ fraction (ds.drop 1) "" ++ "e" ++
      (if exponent < 0 then "-" else "+") ++ String.ofList (List.replicate (2 - e.length) '0' ++ e)

/-! ## Six significant digits

An exact half is rounded to the even neighbour, and trailing zeros are dropped. -/

def roundDiv (num den : Nat) : Nat :=
  let q := num / den
  let r := num % den
  if 2 * r < den || (2 * r == den && q % 2 == 0) then q else q + 1

def sixDigits (x : Double) : List Char × Int :=
  let i := Interval.of x
  let magnitude := i.magnitude
  let (num, den) := unitFactor i.scale (magnitude - 5)
  let n := roundDiv (i.value * num) den
  if n == 1000000 then (['1'], magnitude + 1) else (trimZeros (Nat.toDigits 10 n), magnitude)

end Retarget.Decimal

namespace Retarget.Double

def renderWith (zero : String) (digits : Double → String) (x : Double) : String :=
  if x.isNaN then "nan"
  else (if x.isNegative then "-" else "") ++
    if x.isInfinite then "inf" else if x.isZero then zero else digits (x.withSign false)

def render : Double → String := renderWith "0.0" fun x =>
  let (n, place) := Decimal.shortest x
  let ds := Nat.toDigits 10 n
  Decimal.layout 16 ".0" (Decimal.trimZeros ds) (place + (ds.length - 1 : Nat))

def renderGeneral : Double → String := renderWith "0" fun x =>
  let (ds, e) := Decimal.sixDigits x
  Decimal.layout 6 "" ds e

end Retarget.Double
