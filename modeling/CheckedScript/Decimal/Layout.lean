import CheckedScript.Decimal.Shortest

/-! Decimal numbers as text. Numbers whose first digit stands for `10 ^ k` with `-4 ≤ k < 16` are written with all
their places and at least one after the point, all others with an exponent of a sign and at least two digits. -/

namespace CheckedScript.Decimal

/-- How a decimal is laid out, and the texts for what is no decimal. -/
structure Layout where
  leastPositional : Int
  beyondPositional : Int
  exponentWidth : Nat
  infinity : String
  undefined : String

/-- The layout of numbers in output and messages. -/
def Layout.plain : Layout := ⟨-4, 16, 2, "inf", "nan"⟩

/-- The layout of numbers in data files. -/
def Layout.data : Layout := ⟨-4, 16, 2, "Infinity", "NaN"⟩

/-- The digits as text, filled up with zeros in front to a width. -/
def padded (width n : Nat) : List Char :=
  let digits := Nat.toDigits 10 n
  List.replicate (width - digits.length) '0' ++ digits

/-- The text of a decimal. -/
def Shortest.text (layout : Layout) (d : Shortest) : List Char :=
  let digits := Nat.toDigits 10 d.digits
  let first : Int := digits.length + d.exponent - 1
  if layout.leastPositional ≤ first ∧ first < layout.beyondPositional then
    if first < 0 then '0' :: '.' :: (List.replicate (-first - 1).toNat '0' ++ digits)
    else
      let whole := digits.take (first + 1).toNat ++ List.replicate d.exponent.toNat '0'
      let fraction := digits.drop (first + 1).toNat
      whole ++ '.' :: (if fraction.isEmpty then ['0'] else fraction)
  else
    let fraction := digits.drop 1
    digits.take 1 ++ (if fraction.isEmpty then [] else '.' :: fraction) ++
      'e' :: (if first < 0 then '-' else '+') :: padded layout.exponentWidth first.natAbs

/-- The text of a number. -/
def render (layout : Layout) (x : Float) : String :=
  if x.isNaN then layout.undefined
  else
    let b := Binary.ofFloat x
    let sign := if b.negative then "-" else ""
    if x.isInf then sign ++ layout.infinity
    else sign ++ String.ofList ((Shortest.ofBinary b).text layout)

/-- The text of a number that leaves out the point of a whole one. -/
def renderWhole (layout : Layout) (x : Float) : String :=
  match whole? x with
  | some i => toString i
  | none => render layout x

end CheckedScript.Decimal
