import CheckedScript.Check

/-! Running statements. Each statement is checked before it runs. A call recurses on the number of calls that may still be
made inside it, and a loop on the number of passes that are left, so that both limits end every run. -/

namespace CheckedScript.Walk

/-- What a call at a place and by a name does, once its function is known and its arguments have values. -/
abbrev Caller := Span → Data → Function → List Value → Walk Value

/-- What a node without a value is refused with. -/
def refuseValue : Misfit → Failure
  | .node k span => Problem.located (.noValue k) span
  | .bare => .escape .notANode

mutual

/-- The value of an expression. -/
def evaluate (call : Caller) : Expr → Walk Value
  | .literal _ v => return v
  | .untyped _ what => throw (Problem.located (.untyped what) .zero)
  | .identifier span name => do
    let d ← judge fun s => s.lookup name span
    return d.value
  | .binary _ span op left right => do
    let a ← evaluate call left
    let b ← evaluate call right
    compute span (op.apply a b)
  | .unary _ span op operand => do
    let a ← evaluate call operand
    compute span (op.apply a)
  | .call span name args => do
    let f ← judge fun s => s.resolve name args.length span
    let values ← evaluateAll call args
    call span name f values
  | .missing => throw (.escape .notANode)
  | .misfit what => throw (refuseValue what)

def evaluateAll (call : Caller) : List Expr → Walk (List Value)
  | [] => return []
  | e :: rest => do
    let v ← evaluate call e
    let values ← evaluateAll call rest
    return v :: values

end

/-- Runs a loop that may go over its body `left` more times and has done so `done` times. An executed break is heeded when
the condition has been found to hold again. -/
def iterate (settings : Settings) (span : Span) (test : Walk Bool) (pass : Option Loop → Walk (Option Loop)) :
    (left done : Nat) → Option Loop → Walk Unit
  | left, done, loop => do
    if ← test then
      if loop.any (0 < ·.pending) then record settings 3 "while loop left by break"
      else
        match left with
        | 0 => throw (Problem.located (.tooManyIterations settings.maxIterations) span)
        | left + 1 =>
          record settings 3 s!"while iteration {done + 1}"
          let loop ← pass (loop.map ({ · with budget := 1 }))
          iterate settings span test pass left (done + 1) loop
    else return ()

mutual

/-- Runs a statement; `printing` says whether it may print. -/
def run (settings : Settings) (call : Caller) (printing : Bool) (loop : Option Loop) (isLast : Bool) :
    Stmt → Walk (Option Loop)
  | .declare span type name init => do
    judge fun s => s.checkDeclaration span type name init
    judge fun s => s.ensureUndeclared name span
    let value ← match init with
      | none => pure none
      | some e => do
        let v ← evaluate call e
        pure (some v)
    let d ← declare span type name value
    record settings 2 s!"declare {name.shown}: {type.text} = {d.value.shown}"
    return loop
  | .assign span name op e => do
    let _ ← judge fun s => s.checkAssignment span name op e
    let v ← evaluate call e
    let d ← judge fun s => s.lookup name span
    let new ← compute span (op.apply d.value v)
    change fun s => .ok (s.assign name new)
    record settings 2 s!"assign {name.shown} {op.text} {new.shown}"
    return loop
  | .call span name args => do
    let _ ← judge fun s => s.checkCall span name args
    let _ ← evaluate call (.call span name args)
    return loop
  | .print _ operand => do
    judge fun s => s.checkPrint operand
    if printing then
      match operand with
      | none => print ""
      | some e => do
        let v ← evaluate call e
        print v.shown
    return loop
  | .branch _ condition thenBlock elseBlock => do
    judge fun s => s.checkCondition condition
    let taken ← evaluate call condition
    record settings 3 s!"if condition -> {taken.shown}"
    let loop ← if taken.holds then do
        let loop ← checkElse settings loop elseBlock
        inScope (runBlock settings call printing loop thenBlock)
      else do
        let loop ← inScope (checkBlock settings loop thenBlock)
        runElse settings call printing loop elseBlock
    return afterBranch thenBlock elseBlock loop
  | .loop span condition body => do
    judge fun s => s.checkCondition condition
    let _ ← inScope (checkBody settings (some .fresh) body)
    let test : Walk Bool := do
      let v ← evaluate call condition
      return v.holds
    iterate settings span test (fun inner => inScope (runBody settings call printing inner body))
      settings.maxIterations.toNat 0 (some .fresh)
    return loop
  | .breakOut span => do
    judge fun _ => Loop.checkBreak loop isLast span
    return loop.map fun l => { l with pending := l.pending + 1 }
  | .param span type name => check settings loop isLast (.param span type name)
  | .define span result name params body value => do
    define settings ⟨span, result, name, params, body, value⟩ (runBlock settings call printing loop params)
      (checkBody settings none body)
    return loop
  | .misfit what => check settings loop isLast (.misfit what)

def runBlock (settings : Settings) (call : Caller) (printing : Bool) (loop : Option Loop) :
    List Stmt → Walk (Option Loop)
  | [] => return loop
  | stmt :: rest => do
    let loop ← run settings call printing loop rest.isEmpty stmt
    runBlock settings call printing loop rest

/-- Runs the body of a function or a loop, which must be there. -/
def runBody (settings : Settings) (call : Caller) (printing : Bool) (loop : Option Loop) :
    Option (List Stmt) → Walk (Option Loop)
  | none => throw (.escape .noStatements)
  | some block => runBlock settings call printing loop block

/-- Runs the second branch of an `if`, if there is one. -/
def runElse (settings : Settings) (call : Caller) (printing : Bool) (loop : Option Loop) :
    Option (List Stmt) → Walk (Option Loop)
  | none => return loop
  | some block => inScope (runBlock settings call printing loop block)

end

/-- Gives the parameters of a function their values. -/
def bindParams : List Stmt → List Value → Walk Unit
  | .param span type name :: params, v :: values
  | .declare span type name _ :: params, v :: values => do
    let _ ← declare span type name (some v)
    bindParams params values
  | _ :: _, _ :: _ => throw (.escape .notANode)
  | _, _ => return ()

/-- Runs a call inside of which `left - 1` more calls may be under way at a time. -/
def callWith (settings : Settings) (printing : Bool) : (left : Nat) → Caller
  | 0 => fun span name _ _ => throw (Problem.located (.tooManyCalls settings.maxCallDepth name) span)
  | left + 1 => fun _ name f values => do
    record settings 3 (s!"call {name.shown}(" ++ ", ".intercalate (values.map Value.shown) ++ ")")
    inCall do
      match f.definition with
      | none => throw (.escape .notANode)
      | some d =>
        bindParams d.params values
        let _ ← runBody settings (callWith settings printing left) printing none d.body
        judge fun s => s.checkReturn d
        evaluate (callWith settings printing left) d.value

/-- What a call does where no call is under way yet. -/
def caller (settings : Settings) (printing : Bool) : Caller :=
  callWith settings printing settings.maxCallDepth.toNat

end CheckedScript.Walk
