import CheckedScript.Literal
import CheckedScript.Parse.Parser

/-! Reading expressions and conditions. Arithmetic has no parentheses: they stand around a binary condition. One function
reads each part of an expression. All of them count down `fuel`, and one count is lost in each call; since no call gets
back to itself without taking a token, eight counts for each token are enough. -/

namespace CheckedScript.Parse

open Token.Kind

/-- Where a value stands: alone, or at a side of a condition. -/
inductive Place where
  | alone
  | side
deriving DecidableEq, Repr

def Place.ends : Place → List Token.Kind
  | alone => valueEnd
  | side => sideEnd

/-- A minus before a number makes a negative literal. -/
def negate (span : Span) : Expr → Expr
  | .literal _ (.number x) => .literal span (.number (-x))
  | e => .unary .expression span .neg e

/-- The text between the quotes of a token. -/
def unquote (text : String) : String := String.ofList (text.toList.drop 1).dropLast

mutual

def operandWith : (fuel : Nat) → Place → Parser Expr
  | 0, _ => refuse []
  | fuel + 1, place => do
    expect valueFirst
    if (← next) ∈ conditionFirst then
      let e ← conditionWith fuel
      expect place.ends
      return e
    else
      let e ← sumWith fuel
      expect (addOps ++ place.ends)
      return e

def conditionWith : (fuel : Nat) → Parser Expr
  | 0 => refuse []
  | fuel + 1 => do
    let first ← take conditionFirst
    if first.kind = bang then
      expect negatedFirst
      let e ← if (← next) ∈ conditionFirst then conditionWith fuel else atomWith fuel
      expect conditionEnd
      return .unary .condition (first.span.join e.span) .not e
    else
      let left ← operandWith fuel .side
      let op ← take conditionOps
      let right ← operandWith fuel .side
      let last ← take [rpar]
      expect conditionEnd
      return .binary .condition (first.span.join last.span) (.ofText op.text) left right

def sumWith : (fuel : Nat) → Parser Expr
  | 0 => refuse []
  | fuel + 1 => do
    let e ← productWith fuel
    sumRestWith fuel e

/-- The rest of a sum that starts with `left`. -/
def sumRestWith : (fuel : Nat) → (left : Expr) → Parser Expr
  | 0, _ => refuse []
  | fuel + 1, left => do
    if (← next) ∈ addOps then
      let op ← take addOps
      let right ← productWith fuel
      sumRestWith fuel (.binary .expression (left.span.join right.span) (.ofText op.text) left right)
    else return left

def productWith : (fuel : Nat) → Parser Expr
  | 0 => refuse []
  | fuel + 1 => do
    let e ← factorWith fuel
    productRestWith fuel e

/-- The rest of a product that starts with `left`. -/
def productRestWith : (fuel : Nat) → (left : Expr) → Parser Expr
  | 0, _ => refuse []
  | fuel + 1, left => do
    if (← next) ∈ mulOps then
      let op ← take mulOps
      let right ← factorWith fuel
      productRestWith fuel (.binary .expression (left.span.join right.span) (.ofText op.text) left right)
    else return left

def factorWith : (fuel : Nat) → Parser Expr
  | 0 => refuse []
  | fuel + 1 => do
    expect factorFirst
    if (← next) = minus then
      let first ← take [minus]
      let e ← factorWith fuel
      return negate (first.span.join e.span) e
    else atomWith fuel

def atomWith : (fuel : Nat) → Parser Expr
  | 0 => refuse []
  | fuel + 1 => do
    let t ← take atomFirst
    if t.kind = name then
      expect (lpar :: atomEnd)
      if (← next) = lpar then
        let (args, last) ← argumentsWith fuel
        return .call (t.span.join last.span) (.text t.text) args
      else return .identifier t.span (.text t.text)
    else
      expect atomEnd
      match t.kind with
      | numberLit => return .literal t.span (.number (Literal.number t.text.toList))
      | stringLit => return .literal t.span (.text (unquote t.text))
      | _ => return .literal t.span (.boolean (t.kind == trueWord))

/-- The arguments of a call in their parentheses, with the closing one. -/
def argumentsWith : (fuel : Nat) → Parser (List Expr × Token)
  | 0 => refuse []
  | fuel + 1 => do
    let _ ← take [lpar]
    expect (rpar :: valueFirst)
    let args ← if (← next) = rpar then pure [] else argumentListWith fuel
    let last ← take [rpar]
    expect atomEnd
    return (args, last)

def argumentListWith : (fuel : Nat) → Parser (List Expr)
  | 0 => refuse []
  | fuel + 1 => do
    let e ← operandWith fuel .alone
    expect [comma, rpar]
    if (← next) = comma then
      let _ ← take [comma]
      let rest ← argumentListWith fuel
      return e :: rest
    else return [e]

end

/-- Enough for the expressions in a list of tokens. -/
def exprFuel (ts : List Token) : Nat := 8 * ts.length + 8

def value : Parser Expr := fun ts => operandWith (exprFuel ts) .alone ts

def side : Parser Expr := fun ts => operandWith (exprFuel ts) .side ts

def arguments : Parser (List Expr × Token) := fun ts => argumentsWith (exprFuel ts) ts

/-- The condition of an `if` or a `while`, which needs no parentheses of its own. -/
def header : Parser Expr := do
  let left ← side
  expect (rpar :: conditionOps)
  if (← next) = rpar then return left
  else
    let op ← take conditionOps
    let right ← side
    expect [rpar]
    return .binary .condition (left.span.join right.span) (.ofText op.text) left right

end CheckedScript.Parse
