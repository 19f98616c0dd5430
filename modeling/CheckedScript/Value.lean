import CheckedScript.Decimal.Layout

/-! Values. Numbers are doubles, texts hold no quotes of their own, and `nothing` stands where a value is
missing: it has no type, and every operator refuses it. -/

namespace CheckedScript

inductive Value where
  | number (x : Float)
  | boolean (b : Bool)
  | text (s : String)
  | nothing
deriving Repr, Inhabited

namespace Value

/-- The text that is printed: whole numbers without a point, texts without quotes. -/
def shown? : Value → Option String
  | number x => some (Decimal.renderWhole .plain x)
  | boolean b => some (if b then "true" else "false")
  | text s => some s
  | nothing => none

/-- The text of a value in messages. -/
def shown (v : Value) : String := v.shown?.getD "None"

/-- Equality of two values; no number equals what is no number, and the two zeros are equal. -/
def equal : Value → Value → Bool
  | number x, number y => x == y
  | boolean a, boolean b => a == b
  | text s, text t => s == t
  | nothing, nothing => true
  | _, _ => false

/-- Does a condition with this value hold? Zero, false and the empty text do not. -/
def holds : Value → Bool
  | number x => x != 0.0
  | boolean b => b
  | text s => !s.isEmpty
  | nothing => false

end Value

end CheckedScript
