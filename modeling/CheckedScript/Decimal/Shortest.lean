import CheckedScript.Decimal.Binary

/-! The shortest decimal that reads back. Among the decimals of one length, 1, 2, … 17 digits, only the two next
to the number can be nearest to it; the first length at which one of them reads back as the number is taken, the
nearer one if both do, and the one with the even last digit if they are equally near. -/

namespace CheckedScript.Decimal

/-- The decimal `digits · 10 ^ exponent`. -/
structure Shortest where
  digits : Nat
  exponent : Int
deriving DecidableEq, Repr

/-- How many decimal digits a number has; zero has none. -/
def digitCount (n : Nat) : Nat := if n = 0 then 0 else (Nat.toDigits 10 n).length

/-- The `k` with `10 ^ (k - 1) ≤ num / den < 10 ^ k`, for `num` and `den` above zero. -/
def log10Quotient (num den : Nat) : Int :=
  if den ≤ num then digitCount (num / den)
  else 1 - digitCount ((den + num - 1) / num - 1)

namespace Shortest

/-- Does the decimal read back as the number with these bits? -/
def readsAs (bits : Nat) (d : Shortest) : Bool :=
  nearestBits (d.digits * Nat.pow 10 d.exponent.toNat) (Nat.pow 10 (-d.exponent).toNat) == bits

/-- The decimal on the grid of `10 ^ unit` that reads back as the quotient's number and is nearest to it. -/
def onGrid? (bits num den : Nat) (unit : Int) : Option Shortest :=
  let n := num * Nat.pow 10 (-unit).toNat
  let d := den * Nat.pow 10 unit.toNat
  let below : Shortest := ⟨n / d, unit⟩
  let above : Shortest := ⟨n / d + 1, unit⟩
  match readsAs bits below, readsAs bits above with
  | true, false => some below
  | false, true => some above
  | false, false => none
  | true, true => some ⟨roundDiv n d, unit⟩

/-- The decimal without zeros at its end; `fuel` bounds how many are dropped. -/
def dropZeros : (fuel : Nat) → Shortest → Shortest
  | 0, d => d
  | fuel + 1, d =>
    if d.digits ≠ 0 ∧ d.digits % 10 = 0 then dropZeros fuel ⟨d.digits / 10, d.exponent + 1⟩ else d

/-- The shortest decimal for the magnitude of a finite number. -/
def ofBinary (b : Binary) : Shortest :=
  if b.magnitude = 0 then ⟨0, 0⟩ else
    let bits := nearestBits b.num b.den
    let k := log10Quotient b.num b.den
    let found := (List.range 17).findSome? fun (i : Nat) => onGrid? bits b.num b.den (k - (i + 1))
    let d := found.getD ⟨b.num * Nat.pow 10 (-b.exponent).toNat / b.den, -((-b.exponent).toNat : Int)⟩
    dropZeros (digitCount d.digits) d

end Shortest
end CheckedScript.Decimal
