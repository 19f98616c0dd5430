import CheckedScript.Parse.Expr

/-! Reading statements, function definitions and programs. `x++;` is read as `x = x++;`. Functions are defined at the
outermost level only, and a body ends in the one `return` of its function. -/

namespace CheckedScript.Parse

open Token.Kind

/-- A type keyword, and the name that must follow it. -/
def typedName : Parser (Ty × Token × Token) := do
  let first ← take typeWords
  let last ← take [name]
  return (Ty.ofKind first.text, first, last)

/-- A statement that starts with the type keyword `first`. -/
def declaration (first : Token) : Parser Stmt := do
  let target ← take [name]
  expect [equal, semicolon]
  let init ← if (← next) = equal then do
      let _ ← take [equal]
      let e ← value
      pure (some e)
    else pure none
  let last ← take [semicolon]
  return .declare (first.span.join last.span) (Ty.ofKind first.text) (.text target.text) init

/-- A statement that starts with the name `first`: an assignment, a step or a call. -/
def named (first : Token) : Parser Stmt := do
  expect (lpar :: assignOps ++ stepOps)
  let kind ← next
  if kind = lpar then
    let (args, close) ← arguments
    let _ ← take [semicolon]
    return .call (first.span.join close.span) (.text first.text) args
  else if kind ∈ stepOps then
    let op ← take stepOps
    let last ← take [semicolon]
    let span := first.span.join last.span
    return .assign span (.text first.text) .set
      (.unary .expression span (.ofText op.text) (.identifier first.span (.text first.text)))
  else
    let op ← take assignOps
    let e ← value
    let last ← take [semicolon]
    return .assign (first.span.join last.span) (.text first.text) (.ofText op.text) e

def printing (first : Token) : Parser Stmt := do
  let _ ← take [lpar]
  expect (rpar :: valueFirst)
  let operand ← if (← next) = rpar then pure none else do
      let e ← value
      pure (some e)
  let _ ← take [rpar]
  let last ← take [semicolon]
  return .print (first.span.join last.span) operand

/-- The header of an `if` or a `while` in its parentheses. -/
def enclosedHeader : Parser Expr := do
  let _ ← take [lpar]
  let condition ← header
  let _ ← take [rpar]
  return condition

mutual

def statementWith : (fuel : Nat) → Parser Stmt
  | 0 => refuse []
  | fuel + 1 => do
    let first ← take statementFirst
    let s ← match first.kind with
      | print => printing first
      | ifWord => do
        let condition ← enclosedHeader
        let (thenBlock, close) ← blockWith fuel
        if (← next) = elseWord then
          let _ ← take [elseWord]
          let (elseBlock, last) ← blockWith fuel
          pure (.branch (first.span.join last.span) condition thenBlock (some elseBlock))
        else pure (.branch (first.span.join close.span) condition thenBlock none)
      | whileWord => do
        let condition ← enclosedHeader
        let (body, last) ← blockWith fuel
        pure (.loop (first.span.join last.span) condition (some body))
      | breakWord => do
        let last ← take [semicolon]
        pure (.breakOut (first.span.join last.span))
      | name => named first
      | _ => declaration first
    expect statementEnd
    return s

/-- Statements in braces, with the closing one. -/
def blockWith : (fuel : Nat) → Parser (List Stmt × Token)
  | 0 => refuse []
  | fuel + 1 => do
    let _ ← take [lbrace]
    let body ← statementsWith fuel rbrace
    let last ← take [rbrace]
    expect blockEnd
    return (body, last)

/-- The statements before a token of the kind `closing`. -/
def statementsWith : (fuel : Nat) → (closing : Token.Kind) → Parser (List Stmt)
  | 0, _ => refuse []
  | fuel + 1, closing => do
    expect (closing :: statementFirst)
    if (← next) = closing then return []
    else
      let s ← statementWith fuel
      expect blockNext
      let rest ← statementsWith fuel closing
      return s :: rest

end

/-- Enough for the statements in a list of tokens. -/
def stmtFuel (ts : List Token) : Nat := 4 * ts.length + 4

def statement : Parser Stmt := fun ts => statementWith (stmtFuel ts) ts

def statements (closing : Token.Kind) : Parser (List Stmt) := fun ts => statementsWith (stmtFuel ts) closing ts

/-- The rest of a list of parameters. -/
def parametersWith : (fuel : Nat) → Parser (List Stmt)
  | 0 => refuse []
  | fuel + 1 => do
    let (type, first, last) ← typedName
    expect [comma, rpar]
    let p := .param (first.span.join last.span) type (.text last.text)
    if (← next) = comma then
      let _ ← take [comma]
      let rest ← parametersWith fuel
      return p :: rest
    else return [p]

def parameters : Parser (List Stmt) := fun ts => parametersWith (ts.length + 1) ts

def definition : Parser Stmt := do
  let first ← take [define]
  let (result, _, target) ← typedName
  let _ ← take [lpar]
  expect (rpar :: typeWords)
  let params ← if (← next) = rpar then pure [] else parameters
  let _ ← take [rpar]
  let _ ← take [lbrace]
  let body ← statements returnWord
  let _ ← take [returnWord]
  let e ← value
  let _ ← take [semicolon]
  let last ← take [rbrace]
  return .define (first.span.join last.span) result (.text target.text) params (some body) e

/-- The statements up to the end of the tokens. -/
def programWith : (fuel : Nat) → Parser (List Stmt)
  | 0 => refuse []
  | fuel + 1 => do
    expect programNext
    if (← next) = ending then return []
    else
      let s ← if (← next) = define then definition else statement
      let rest ← programWith fuel
      return s :: rest

/-- The statements that a list of tokens consists of. -/
def program (ts : List Token) : Except Refusal (List Stmt) :=
  (programWith (ts.length + 1) ts).map Prod.fst

end CheckedScript.Parse
