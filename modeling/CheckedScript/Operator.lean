import CheckedScript.Problem

/-! Operators and what they do to values. An operator whose text the language does not know is kept, so that it can be
refused where it is applied. Every number that an operator computes must be finite, the sign change apart. -/

namespace CheckedScript

inductive ArithOp where
  | add | sub | mul | div | mod
deriving DecidableEq, Repr, Inhabited

def ArithOp.text : ArithOp → String
  | add => "+"
  | sub => "-"
  | mul => "*"
  | div => "/"
  | mod => "%"

inductive BinaryOp where
  | arith (op : ArithOp)
  | eq | ne | gt | ge | lt | le | and | or
  | unknown (text : String)
deriving DecidableEq, Repr, Inhabited

inductive UnaryOp where
  | not | neg | inc | dec
  | unknown (text : String)
deriving DecidableEq, Repr, Inhabited

inductive AssignOp where
  | set
  | compound (op : ArithOp)
  | unknown (text : String)
deriving DecidableEq, Repr, Inhabited

namespace BinaryOp

def text : BinaryOp → String
  | arith op => op.text
  | eq => "=="
  | ne => "!="
  | gt => ">"
  | ge => ">="
  | lt => "<"
  | le => "<="
  | and => "&&"
  | or => "||"
  | unknown s => s

/-- Every operator that the language knows. -/
def known : List BinaryOp :=
  [arith .add, arith .sub, arith .mul, arith .div, arith .mod, eq, ne, gt, ge, lt, le, and, or]

def ofText (s : String) : BinaryOp := (known.find? (·.text = s)).getD (unknown s)

/-- The operator that data in its place stand for. -/
def ofData : Data → BinaryOp
  | .text s => ofText s
  | d => unknown d.quoted

/-- Compares numbers by size. -/
def isRelational : BinaryOp → Bool
  | gt | ge | lt | le => true
  | _ => false

/-- Joins truth values. -/
def isLogical : BinaryOp → Bool
  | and | or => true
  | _ => false

end BinaryOp

namespace UnaryOp

def text : UnaryOp → String
  | not => "!"
  | neg => "-"
  | inc => "++"
  | dec => "--"
  | unknown s => s

def known : List UnaryOp := [not, neg, inc, dec]

def ofText (s : String) : UnaryOp := (known.find? (·.text = s)).getD (unknown s)

def ofData : Data → UnaryOp
  | .text s => ofText s
  | d => unknown d.quoted

end UnaryOp

namespace AssignOp

def text : AssignOp → String
  | set => "="
  | compound op => op.text ++ "="
  | unknown s => s

def known : List AssignOp :=
  [set, compound .add, compound .sub, compound .mul, compound .div, compound .mod]

def ofText (s : String) : AssignOp := (known.find? (·.text = s)).getD (unknown s)

def ofData : Data → AssignOp
  | .text s => ofText s
  | d => unknown d.quoted

end AssignOp

namespace Value

/-- The number that a value is, for an operator that needs one. -/
def asNumber (op : String) : Value → Except Failure Float
  | number x => .ok x
  | v => .error (Problem.located (.needsNumber op v) .zero)

/-- The truth value that a value is, for an operator that needs one. -/
def asBoolean (op : String) : Value → Except Failure Bool
  | boolean b => .ok b
  | v => .error (Problem.located (.needsBoolean op v) .zero)

/-- The type of a value that has one. -/
def typeOf (v : Value) : Except Failure Ty :=
  match v.type? with
  | some t => .ok t
  | none => .error (Problem.located (.untyped "NoneType") .zero)

/-- The number, if it is finite. -/
def ofResult (op : String) (x : Float) : Except Failure Value :=
  if x.isFinite then .ok (number x) else .error (Problem.located (.notFinite op) .zero)

/-- The texts of two values one after the other; each of them must have one. -/
def concat (a b : Value) : Except Failure Value :=
  match a.shown?, b.shown? with
  | some s, some t => .ok (text (s ++ t))
  | some _, none => .error (.escape .textPlusNothing)
  | none, _ => .error (.escape .nothingPlusText)

/-- Are the two values of one type and equal? -/
def sameAs (a b : Value) : Except Failure Bool := do
  let s ← a.typeOf
  let t ← b.typeOf
  return s.same t && a.equal b

end Value

namespace ArithOp

open Value in
/-- Applies the operator. A text on either side of `+` makes it join texts. A divisor is looked at before the
dividend. -/
def apply (op : ArithOp) (a b : Value) : Except Failure Value :=
  match op, a, b with
  | add, .text _, _ => concat a b
  | add, _, .text _ => concat a b
  | add, _, _ => do
    let x ← a.asNumber op.text
    let y ← b.asNumber op.text
    ofResult op.text (x + y)
  | sub, _, _ => do
    let x ← a.asNumber op.text
    let y ← b.asNumber op.text
    ofResult op.text (x - y)
  | mul, _, _ => do
    let x ← a.asNumber op.text
    let y ← b.asNumber op.text
    ofResult op.text (x * y)
  | div, _, _ => do
    let y ← b.asNumber op.text
    if y == 0.0 then throw (Problem.located .divisionByZero .zero)
    let x ← a.asNumber op.text
    ofResult op.text (x / y)
  | mod, _, _ => do
    let y ← b.asNumber op.text
    if y == 0.0 then throw (Problem.located .moduloByZero .zero)
    let x ← a.asNumber op.text
    if x.isInf && !y.isNaN then throw (.escape .infiniteDividend)
    ofResult op.text (Decimal.remainder x y)

end ArithOp

/-- Applies the operator. The right side of `&&` and `||` is looked at only if the left one does not decide. -/
def BinaryOp.apply (op : BinaryOp) (a b : Value) : Except Failure Value :=
  match op with
  | arith o => o.apply a b
  | eq => do return .boolean (← a.sameAs b)
  | ne => do return .boolean !(← a.sameAs b)
  | gt => do return .boolean (decide ((← a.asNumber op.text) > (← b.asNumber op.text)))
  | ge => do return .boolean (decide ((← a.asNumber op.text) ≥ (← b.asNumber op.text)))
  | lt => do return .boolean (decide ((← a.asNumber op.text) < (← b.asNumber op.text)))
  | le => do return .boolean (decide ((← a.asNumber op.text) ≤ (← b.asNumber op.text)))
  | and => do
    let left ← a.asBoolean op.text
    if left then return .boolean (← b.asBoolean op.text) else return .boolean false
  | or => do
    let left ← a.asBoolean op.text
    if left then return .boolean true else return .boolean (← b.asBoolean op.text)
  | unknown s => throw (Problem.located (.unknownBinary s) .zero)

def UnaryOp.apply (op : UnaryOp) (v : Value) : Except Failure Value :=
  match op with
  | not => do return .boolean !(← v.asBoolean op.text)
  | neg => do return .number (-(← v.asNumber op.text))
  | inc => do
    let x ← v.asNumber op.text
    Value.ofResult op.text (x + 1.0)
  | dec => do
    let x ← v.asNumber op.text
    Value.ofResult op.text (x - 1.0)
  | unknown s => throw (Problem.located (.unknownUnary s) .zero)

/-- The text with that of a value behind it, which must have one. -/
def Value.appended (s : String) (v : Value) : Except Failure Value :=
  match v.shown? with
  | some t => .ok (text (s ++ t))
  | none => .error (.escape .textPlusNothing)

/-- The new value of a variable whose value is `current`. A text takes the text of any value at its end. -/
def AssignOp.apply (op : AssignOp) (current v : Value) : Except Failure Value :=
  match op, current with
  | set, _ => .ok v
  | compound .add, .text s => v.appended s
  | compound o, _ => o.apply current v
  | unknown s, _ => throw (Problem.located (.unknownAssignment s) .zero)

end CheckedScript
