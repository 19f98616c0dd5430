import CheckedScript.Scope

/-! The static rules of the language, on the scopes that are open. Each rule names the first thing that breaks it. -/

namespace CheckedScript

/-- The type of a unary operation from that of its operand. -/
def UnaryOp.type (op : UnaryOp) (form : Form) (span : Span) (operand : Ty) : Except Failure Ty :=
  match form with
  | .expression =>
    if operand.same (if op = .not then .boolean else .number) then .ok operand
    else .error (Problem.located (.unaryOperand op.text operand) span)
  | .condition =>
    if operand.same .boolean then .ok .boolean
    else .error (Problem.located (.negatedOperand op.text operand) span)

/-- The type of a binary operation from those of its operands. -/
def BinaryOp.type (op : BinaryOp) (form : Form) (span : Span) (left right : Ty) : Except Failure Ty :=
  match form with
  | .expression =>
    if left.same .string || right.same .string then
      if op = .arith .add then .ok .string else .error (Problem.located (.stringOperands op.text) span)
    else if !left.same right then .error (Problem.located (.expressionTypes left right) span)
    else if left.same .boolean then .error (Problem.located (.booleanOperands op.text) span)
    else .ok left
  | .condition =>
    if !left.same right then .error (Problem.located (.conditionTypes left right) span)
    else if op.isRelational && !left.same .number then .error (Problem.located (.nonNumeric op.text) span)
    else if op.isLogical && !left.same .boolean then .error (Problem.located (.nonBoolean op.text) span)
    else .ok .boolean

/-- What a node without a type is refused with. -/
def Misfit.noType : Misfit → Failure
  | node k span => Problem.located (.noType k) span
  | bare => .escape .notANode

namespace Scopes

mutual

/-- The type of an expression. -/
def infer (s : Scopes) : Expr → Except Failure Ty
  | .literal _ v => v.typeOf
  | .untyped _ what => .error (Problem.located (.untyped what) .zero)
  | .identifier span name => do
    let d ← s.lookup name span
    return d.type
  | .binary form span op left right => do
    let a ← s.infer left
    let b ← s.infer right
    op.type form span a b
  | .unary form span op operand => do
    let a ← s.infer operand
    op.type form span a
  | .call span name args => do
    let f ← s.resolve name args.length span
    s.checkArguments f.signature span args f.signature.params
    return f.signature.result
  | .missing => .error (Problem.located .missingOperand .zero)
  | .misfit what => .error what.noType

/-- Each argument has the type of its parameter. -/
def checkArguments (s : Scopes) (f : Signature) (span : Span) : List Expr → List Ty → Except Failure Unit
  | e :: rest, t :: types => do
    let effective ← s.infer e
    if effective.same t then s.checkArguments f span rest types
    else throw (Problem.located (.arguments f) span)
  | _, _ => .ok ()

end

/-- The function that a call means, with arguments that it takes. -/
def checkCall (s : Scopes) (span : Span) (name : Data) (args : List Expr) : Except Failure Function := do
  let f ← s.resolve name args.length span
  s.checkArguments f.signature span args f.signature.params
  return f

def checkCondition (s : Scopes) (e : Expr) : Except Failure Unit := do
  let t ← s.infer e
  if t.same .boolean then return () else throw (Problem.located (.conditionType t) e.span)

/-- A declared variable can hold its first value. -/
def checkDeclaration (s : Scopes) (span : Span) (type : Ty) (name : Data) (init : Option Expr) :
    Except Failure Unit := do
  match init with
  | none => return ()
  | some e =>
    let effective ← s.infer e
    if effective.same type then return () else throw (Problem.located (.initialValue name type effective) span)

/-- The variable that an assignment changes, which can hold the new value. A text takes any value at its end. -/
def checkAssignment (s : Scopes) (span : Span) (name : Data) (op : AssignOp) (e : Expr) :
    Except Failure Declaration := do
  let d ← s.lookup name span
  let effective ← s.infer e
  match op with
  | .set =>
    if effective.same d.type then return d
    else throw (Problem.located (.assignedValue name d.type effective) span)
  | _ =>
    if op = .compound .add && d.type.same .string then return d
    else if d.type.same .number && effective.same .number then return d
    else throw (Problem.located (.compoundValue name op.text effective) span)

def checkPrint (s : Scopes) (operand : Option Expr) : Except Failure Unit :=
  match operand with
  | none => .ok ()
  | some e => do
    let _ ← s.infer e
    return ()

/-- The returned value has the result type of its function. -/
def checkReturn (s : Scopes) (d : Definition) : Except Failure Unit := do
  let effective ← s.infer d.value
  if effective.same d.result then return ()
  else throw (Problem.located (.returnedValue effective d.name d.result) d.span)

/-- Adds a definition to the table of functions. -/
def register (s : Scopes) (d : Definition) : Except Failure Scopes :=
  match d.signature? with
  | some f => s.declareFunction ⟨f, some d⟩ d.span
  | none => .error (.escape .notANode)

end Scopes

/-- The loop that a statement stands in: how many breaks the pass over its body may still contain, and how many breaks were
executed and not yet heeded. -/
structure Loop where
  budget : Int
  pending : Int
deriving DecidableEq, Repr, Inhabited

namespace Loop

def fresh : Loop := ⟨1, 0⟩

/-- A break needs a loop with budget left, and ends its list of statements. -/
def checkBreak (loop : Option Loop) (isLast : Bool) (span : Span) : Except Failure Unit :=
  match loop with
  | none => .error (Problem.located .breakOutsideLoop span)
  | some l =>
    if l.budget ≤ 0 then .error (Problem.located .breakAfterBreak span)
    else if !isLast then .error (Problem.located .breakNotLast span)
    else .ok ()

/-- Takes one from the budget, if there is any. -/
def consume (l : Loop) : Loop := if 0 < l.budget then { l with budget := l.budget - 1 } else l

end Loop
end CheckedScript
