import CheckedScript.Operator
import CheckedScript.Text.Digit

/-! Literals as text: quoted texts of harmless characters, decimal numbers with or without a sign, `true` and
`false`. Digits after the first may be those of any script. -/

namespace CheckedScript.Literal

/-- May this character stand in a quoted text? -/
def isSafe (c : Char) : Bool :=
  c.isAlphanum || " _,.();:/+-*!?=%\t\r\n\x0c".toList.contains c

/-- A lower-case letter or underscore, as names start with. -/
def isNameStart (c : Char) : Bool := c.isLower || c == '_'

def isString : List Char → Bool
  | '\'' :: rest => rest.getLast? == some '\'' && rest.dropLast.all isSafe
  | _ => false

/-- Digits, and possibly a point with more digits after it. -/
def isUnsigned : List Char → Bool
  | c :: rest => c.isDigit &&
    match rest.dropWhile Text.isDigit with
    | [] => true
    | '.' :: fraction => !fraction.isEmpty && fraction.all Text.isDigit
    | _ => false
  | [] => false

def isNumber : List Char → Bool
  | '-' :: rest => isUnsigned rest
  | cs => isUnsigned cs

def isName (cs : List Char) : Bool :=
  !(cs.takeWhile isNameStart).isEmpty && (cs.dropWhile isNameStart).all Char.isDigit

/-- The number that digits with or without a point stand for. -/
def unsigned (negative : Bool) (cs : List Char) : Float :=
  let whole := cs.takeWhile (· ≠ '.')
  let fraction := (cs.dropWhile (· ≠ '.')).drop 1
  Decimal.ofDecimal negative (Text.digitsValue (whole ++ fraction)) (-(fraction.length : Int))

/-- The number of a number literal. -/
def number : List Char → Float
  | '-' :: rest => unsigned true rest
  | cs => unsigned false cs

/-- The type of a literal; that of a name is not known yet. -/
def classify (text : String) : Except Failure Ty :=
  let cs := text.toList
  if isString cs then .ok .string
  else if isNumber cs then .ok .number
  else if text = "true" ∨ text = "false" then .ok .boolean
  else if isName cs then .ok .unresolved
  else .error (Problem.located (.unknownLiteral text) .zero)

/-- The value of a literal. -/
def parse (text : String) : Except Failure Value := do
  let cs := text.toList
  match ← classify text with
  | .string => return .text (String.ofList (cs.drop 1).dropLast)
  | .number => return .number (number cs)
  | .boolean => return .boolean (text == "true")
  | .other _ => throw (Problem.located (.notALiteral text) .zero)

/-- The type that a type keyword names. -/
def typeNamed (name : String) : Except Failure Ty :=
  match Ty.ofKeyword? name with
  | some t => .ok t
  | none => .error (Problem.located (.unknownTypeName name) .zero)

/-- The value of a variable of the type that was never assigned. -/
def defaultFor (t : Ty) : Except Failure Value :=
  match t.default? with
  | some v => .ok v
  | none => .error (Problem.located (.noDefault t) .zero)

end CheckedScript.Literal
