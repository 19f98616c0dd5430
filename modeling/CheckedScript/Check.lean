import CheckedScript.Walk

/-! Checking statements without running them: the walk over the branch of an `if` that is not taken, over the body of a
function when it is defined, over that of a loop before it runs, and over a whole program that is only to be checked.
The loop that a statement stands in is handed on from one statement to the next. -/

namespace CheckedScript.Walk

/-- What a statement that is none is refused with. -/
def refuseStatement : Misfit → Failure
  | .node k span => Problem.located (.unexpectedStatement k) span
  | .bare => .escape .notANode

/-- An `if` that breaks on both sides uses up the budget of its loop. -/
def afterBranch (thenBlock : List Stmt) (elseBlock : Option (List Stmt)) (loop : Option Loop) : Option Loop :=
  if endsInBreak thenBlock && elseBlock.any endsInBreak then loop.map Loop.consume else loop

mutual

def check (settings : Settings) (loop : Option Loop) (isLast : Bool) : Stmt → Walk (Option Loop)
  | .declare span type name init => do
    judge fun s => s.checkDeclaration span type name init
    judge fun s => s.ensureUndeclared name span
    let _ ← declare span type name none
    return loop
  | .param span type name => do
    let _ ← declare span type name none
    return loop
  | .assign span name op e => do
    let _ ← judge fun s => s.checkAssignment span name op e
    return loop
  | .call span name args => do
    let _ ← judge fun s => s.checkCall span name args
    return loop
  | .define span result name params body value => do
    define settings ⟨span, result, name, params, body, value⟩ (checkBlock settings loop params)
      (checkBody settings none body)
    return loop
  | .print _ operand => do
    judge fun s => s.checkPrint operand
    return loop
  | .branch _ condition thenBlock elseBlock => do
    judge fun s => s.checkCondition condition
    let loop ← inScope (checkBlock settings loop thenBlock)
    let loop ← checkElse settings loop elseBlock
    return afterBranch thenBlock elseBlock loop
  | .loop _ condition body => do
    judge fun s => s.checkCondition condition
    let _ ← inScope (checkBody settings (some .fresh) body)
    return loop
  | .breakOut span => do
    judge fun _ => Loop.checkBreak loop isLast span
    return loop
  | .misfit what => throw (refuseStatement what)

def checkBlock (settings : Settings) (loop : Option Loop) : List Stmt → Walk (Option Loop)
  | [] => return loop
  | stmt :: rest => do
    let loop ← check settings loop rest.isEmpty stmt
    checkBlock settings loop rest

/-- Checks the body of a function or a loop, which must be there. -/
def checkBody (settings : Settings) (loop : Option Loop) : Option (List Stmt) → Walk (Option Loop)
  | none => throw (.escape .noStatements)
  | some block => checkBlock settings loop block

/-- Checks the second branch of an `if`, if there is one. -/
def checkElse (settings : Settings) (loop : Option Loop) : Option (List Stmt) → Walk (Option Loop)
  | none => return loop
  | some block => inScope (checkBlock settings loop block)

end
end CheckedScript.Walk
