/-! Numbers as whole multiples of powers of two. A finite number is `m · 2 ^ e` with a sign, and every
quotient of whole numbers has a nearest such number, a tie going to the even one. All arithmetic here is exact,
on whole numbers, and powers are named as `Nat.pow`, which no instance of `^` in scope can change. -/

namespace CheckedScript.Decimal

/-- A finite number: `magnitude · 2 ^ exponent`, negated if `negative`. -/
structure Binary where
  negative : Bool
  magnitude : Nat
  exponent : Int
deriving DecidableEq, Repr

namespace Binary

/-- The parts of a number; those of an infinity or of no number mean nothing. -/
def ofFloat (x : Float) : Binary :=
  let bits := x.toBits.toNat
  let fraction := bits % Nat.pow 2 52
  let biased := bits / Nat.pow 2 52 % Nat.pow 2 11
  { negative := bits / Nat.pow 2 63 = 1
    magnitude := if biased = 0 then fraction else Nat.pow 2 52 + fraction
    exponent := (max biased 1 : Nat) - 1075 }

/-- Numerator of the magnitude as a quotient. -/
def num (b : Binary) : Nat := b.magnitude * Nat.pow 2 b.exponent.toNat

/-- Denominator of the magnitude as a quotient. -/
def den (b : Binary) : Nat := Nat.pow 2 (-b.exponent).toNat

end Binary

/-- The quotient rounded to the nearest whole number, a tie to the even one. -/
def roundDiv (num den : Nat) : Nat :=
  let q := num / den
  let twice := 2 * (num % den)
  if den < twice ∨ (twice = den ∧ q % 2 = 1) then q + 1 else q

/-- The greatest `e` with `2 ^ e ≤ num / den`, for `num` and `den` above zero. -/
def log2Quotient (num den : Nat) : Int :=
  let e : Int := (num.log2 : Int) - den.log2
  if den * Nat.pow 2 e.toNat ≤ num * Nat.pow 2 (-e).toNat then e else e - 1

/-- The bits of the number nearest to the quotient; those of infinity if it is out of range. -/
def nearestBits (num den : Nat) : Nat :=
  if num = 0 then 0 else
    let exponent := max (log2Quotient num den - 52) (-1074)
    let fraction := roundDiv (num * Nat.pow 2 (-exponent).toNat) (den * Nat.pow 2 exponent.toNat)
    min ((exponent + 1074).toNat * Nat.pow 2 52 + fraction) (0x7ff * Nat.pow 2 52)

/-- The number nearest to a quotient with a sign. -/
def nearest (negative : Bool) (num den : Nat) : Float :=
  Float.ofBits (UInt64.ofNat ((if negative then Nat.pow 2 63 else 0) + nearestBits num den))

/-- The number nearest to `m · 10 ^ e`. Far outside the range of numbers the power is not computed. -/
def ofDecimal (negative : Bool) (m : Nat) (e : Int) : Float :=
  if m = 0 ∨ m.log2 + 3 * e < -1100 then nearest negative 0 1
  else if 400 < e then nearest negative (Nat.pow 2 1024) 1
  else nearest negative (m * Nat.pow 10 e.toNat) (Nat.pow 10 (-e).toNat)

/-- The remainder of the division of `x` by `y`, rounded toward zero: exact, and with the sign of `x`. It is
`x` itself if `y` is infinite, and no number if either is none, if `y` is zero or `x` infinite. -/
def remainder (x y : Float) : Float :=
  if x.isNaN || y.isNaN || x.isInf || y == 0.0 then 0.0 / 0.0
  else if y.isInf then x
  else
    let a := Binary.ofFloat x
    let b := Binary.ofFloat y
    nearest a.negative ((a.num * b.den) % (b.num * a.den)) (a.den * b.den)

/-- The whole number that a number is, if it is one. -/
def whole? (x : Float) : Option Int :=
  let b := Binary.ofFloat x
  if x.isFinite && b.num % b.den == 0 then
    some (if b.negative then -((b.num / b.den : Nat) : Int) else (b.num / b.den : Nat))
  else none

end CheckedScript.Decimal
