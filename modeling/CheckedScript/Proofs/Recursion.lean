import CheckedScript.Proofs.Steps

/-! How the interpreter recurses. A run performs activities that perform others: it runs and checks statements and blocks, goes
over the body of a loop again, evaluates expressions and calls functions, whose bodies come from a table and not from the tree
that is being walked. A plan says what one activity does, with the activities that it performs left as they are. Nothing in a
plan counts down: a call is refused when the calls under way have reached their limit, and a pass when the passes that were
made have. `EndsIn` says that performing them all comes to an end, and to which one; it is given by finite derivations, so
an activity that goes on for ever ends in nothing. -/

namespace CheckedScript

open Walk (judge change record print compute declare bindParams refuseStatement refuseValue afterBranch)

/-- What can be performed, by the type of what comes out. -/
inductive Activity : Type → Type where
  | check (loop : Option Loop) (isLast : Bool) (s : Stmt) : Activity (Option Loop)
  | checkBlock (loop : Option Loop) (block : List Stmt) : Activity (Option Loop)
  | run (printing : Bool) (loop : Option Loop) (isLast : Bool) (s : Stmt) : Activity (Option Loop)
  | runBlock (printing : Bool) (loop : Option Loop) (block : List Stmt) : Activity (Option Loop)
  | passes (printing : Bool) (span : Span) (condition : Expr) (body : Option (List Stmt)) (done : Nat)
      (loop : Option Loop) : Activity Unit
  | evaluate (printing : Bool) (e : Expr) : Activity Value
  | evaluateAll (printing : Bool) (args : List Expr) : Activity (List Value)
  | call (printing : Bool) (span : Span) (name : Data) (f : Function) (values : List Value) : Activity Value
  | statements (block : List Stmt) : Activity Unit

/-- Steps, and activities to perform, one after the other and between changes that are made however they end. -/
inductive Plan : Type → Type 1 where
  | step {α : Type} (w : Walk α) : Plan α
  | perform {α : Type} (t : Activity α) : Plan α
  | bind {α β : Type} (c : Plan α) (k : α → Plan β) : Plan β
  | bracket {α : Type} (before after : Machine → Machine) (c : Plan α) : Plan α

namespace Plan

instance : Monad Plan where
  pure a := .step (pure a)
  bind := .bind

def fail {α : Type} (e : Failure) : Plan α := step (throw e)

def inScope {α : Type} (c : Plan α) : Plan α :=
  bracket (fun m => { m with scopes := m.scopes.enter }) (fun m => { m with scopes := m.scopes.leave }) c

def inBody {α : Type} (c : Plan α) : Plan α :=
  bracket (fun m => { m with scopes := m.scopes.enterCall }) (fun m => { m with scopes := m.scopes.leaveCall }) c

def inCall {α : Type} (c : Plan α) : Plan α :=
  bracket (fun m => { m with callDepth := m.callDepth + 1 }) (fun m => { m with callDepth := m.callDepth - 1 })
    (inBody c)

/-- A body that must be there. -/
def needed (block : Option (List Stmt)) (c : List Stmt → Plan (Option Loop)) : Plan (Option Loop) :=
  match block with
  | none => fail (.escape .noStatements)
  | some block => c block

/-- A second branch, in a frame of its own, if there is one. -/
def second (loop : Option Loop) (block : Option (List Stmt)) (c : List Stmt → Plan (Option Loop)) : Plan (Option Loop) :=
  match block with
  | none => return loop
  | some block => inScope (c block)

def define (settings : Settings) (d : Definition) (params body : Plan (Option Loop)) : Plan Unit := do
  step (change fun s => s.register d)
  inBody do
    let _ ← params
    let _ ← body
    step (judge fun s => s.checkReturn d)
  step (record settings 2 s!"define function {d.name.shown}/{d.params.length}")

def check (settings : Settings) (loop : Option Loop) (isLast : Bool) : Stmt → Plan (Option Loop)
  | .declare span type name init => do
    step (judge fun s => s.checkDeclaration span type name init)
    step (judge fun s => s.ensureUndeclared name span)
    let _ ← step (declare span type name none)
    return loop
  | .param span type name => do
    let _ ← step (declare span type name none)
    return loop
  | .assign span name op e => do
    let _ ← step (judge fun s => s.checkAssignment span name op e)
    return loop
  | .call span name args => do
    let _ ← step (judge fun s => s.checkCall span name args)
    return loop
  | .define span result name params body value => do
    define settings ⟨span, result, name, params, body, value⟩ (perform (.checkBlock loop params))
      (needed body fun block => perform (.checkBlock none block))
    return loop
  | .print _ operand => do
    step (judge fun s => s.checkPrint operand)
    return loop
  | .branch _ condition thenBlock elseBlock => do
    step (judge fun s => s.checkCondition condition)
    let loop ← inScope (perform (.checkBlock loop thenBlock))
    let loop ← second loop elseBlock fun block => perform (.checkBlock loop block)
    return afterBranch thenBlock elseBlock loop
  | .loop _ condition body => do
    step (judge fun s => s.checkCondition condition)
    let _ ← inScope (needed body fun block => perform (.checkBlock (some .fresh) block))
    return loop
  | .breakOut span => do
    step (judge fun _ => Loop.checkBreak loop isLast span)
    return loop
  | .misfit what => fail (refuseStatement what)

def run (settings : Settings) (printing : Bool) (loop : Option Loop) (isLast : Bool) : Stmt → Plan (Option Loop)
  | .declare span type name init => do
    step (judge fun s => s.checkDeclaration span type name init)
    step (judge fun s => s.ensureUndeclared name span)
    let value ← match init with
      | none => pure none
      | some e => do
        let v ← perform (.evaluate printing e)
        pure (some v)
    let d ← step (declare span type name value)
    step (record settings 2 s!"declare {name.shown}: {type.text} = {d.value.shown}")
    return loop
  | .assign span name op e => do
    let _ ← step (judge fun s => s.checkAssignment span name op e)
    let v ← perform (.evaluate printing e)
    let d ← step (judge fun s => s.lookup name span)
    let new ← step (compute span (op.apply d.value v))
    step (change fun s => .ok (s.assign name new))
    step (record settings 2 s!"assign {name.shown} {op.text} {new.shown}")
    return loop
  | .call span name args => do
    let _ ← step (judge fun s => s.checkCall span name args)
    let _ ← perform (.evaluate printing (.call span name args))
    return loop
  | .print _ operand => do
    step (judge fun s => s.checkPrint operand)
    if printing then
      match operand with
      | none => step (print "")
      | some e => do
        let v ← perform (.evaluate printing e)
        step (print v.shown)
    return loop
  | .branch _ condition thenBlock elseBlock => do
    step (judge fun s => s.checkCondition condition)
    let taken ← perform (.evaluate printing condition)
    step (record settings 3 s!"if condition -> {taken.shown}")
    let loop ← if taken.holds then do
        let loop ← second loop elseBlock fun block => perform (.checkBlock loop block)
        inScope (perform (.runBlock printing loop thenBlock))
      else do
        let loop ← inScope (perform (.checkBlock loop thenBlock))
        second loop elseBlock fun block => perform (.runBlock printing loop block)
    return afterBranch thenBlock elseBlock loop
  | .loop span condition body => do
    step (judge fun s => s.checkCondition condition)
    let _ ← inScope (needed body fun block => perform (.checkBlock (some .fresh) block))
    perform (.passes printing span condition body 0 (some .fresh))
    return loop
  | .breakOut span => do
    step (judge fun _ => Loop.checkBreak loop isLast span)
    return loop.map fun l => { l with pending := l.pending + 1 }
  | .param span type name => perform (.check loop isLast (.param span type name))
  | .define span result name params body value => do
    define settings ⟨span, result, name, params, body, value⟩ (perform (.runBlock printing loop params))
      (needed body fun block => perform (.checkBlock none block))
    return loop
  | .misfit what => perform (.check loop isLast (.misfit what))

def test (printing : Bool) (condition : Expr) : Plan Bool := do
  let v ← perform (.evaluate printing condition)
  return v.holds

/-- One test of a loop and, if it holds and the limit has not been reached, one pass and the rest of the loop. -/
def passes (settings : Settings) (printing : Bool) (span : Span) (condition : Expr) (body : Option (List Stmt))
    (done : Nat) (loop : Option Loop) : Plan Unit := do
  if ← test printing condition then
    if loop.any (0 < ·.pending) then step (record settings 3 "while loop left by break")
    else if settings.maxIterations < done + 1 then
      fail (Problem.located (.tooManyIterations settings.maxIterations) span)
    else do
      step (record settings 3 s!"while iteration {done + 1}")
      let loop ← inScope (needed body fun block =>
        perform (.runBlock printing (loop.map ({ · with budget := 1 })) block))
      perform (.passes printing span condition body (done + 1) loop)
  else return ()

def evaluate (printing : Bool) : Expr → Plan Value
  | .literal _ v => return v
  | .untyped _ what => fail (Problem.located (.untyped what) .zero)
  | .identifier span name => do
    let d ← step (judge fun s => s.lookup name span)
    return d.value
  | .binary _ span op left right => do
    let a ← perform (.evaluate printing left)
    let b ← perform (.evaluate printing right)
    step (compute span (op.apply a b))
  | .unary _ span op operand => do
    let a ← perform (.evaluate printing operand)
    step (compute span (op.apply a))
  | .call span name args => do
    let f ← step (judge fun s => s.resolve name args.length span)
    let values ← perform (.evaluateAll printing args)
    perform (.call printing span name f values)
  | .missing => fail (.escape .notANode)
  | .misfit what => fail (refuseValue what)

/-- What runs in the frame of a call. -/
def called (printing : Bool) (f : Function) (values : List Value) : Plan Value := do
  match f.definition with
  | none => fail (.escape .notANode)
  | some d =>
    step (bindParams d.params values)
    let _ ← needed d.body fun block => perform (.runBlock printing none block)
    step (judge fun s => s.checkReturn d)
    perform (.evaluate printing d.value)

/-- A call is made if the calls under way have not reached their limit. -/
def call (settings : Settings) (printing : Bool) (span : Span) (name : Data) (f : Function) (values : List Value) :
    Plan Value := do
  let underWay ← step (modifyGet fun m => (m.callDepth, m))
  if settings.maxCallDepth ≤ underWay then
    fail (Problem.located (.tooManyCalls settings.maxCallDepth name) span)
  else do
    step (record settings 3 (s!"call {name.shown}(" ++ ", ".intercalate (values.map Value.shown) ++ ")"))
    inCall (called printing f values)

def statement (settings : Settings) (s : Stmt) (rest : List Stmt) : Plan Unit := do
  match s.kind? with
  | none => fail (.escape .notANode)
  | some k => step (record settings 1 s!"statement {k.label} at {s.span.text}")
  let _ ← perform (.run (!settings.script || rest.isEmpty) none rest.isEmpty s)
  perform (.statements rest)

/-- The statements of a program, in a frame of their own. -/
def program (p : Program) : Plan Unit := inScope (perform (.statements p.statements))

end Plan

/-- What an activity does. -/
def Activity.plan (settings : Settings) : {α : Type} → Activity α → Plan α
  | _, .check loop isLast s => .check settings loop isLast s
  | _, .checkBlock loop [] => return loop
  | _, .checkBlock loop (s :: rest) => do
    let loop ← .perform (.check loop rest.isEmpty s)
    .perform (.checkBlock loop rest)
  | _, .run printing loop isLast s => .run settings printing loop isLast s
  | _, .runBlock _ loop [] => return loop
  | _, .runBlock printing loop (s :: rest) => do
    let loop ← .perform (.run printing loop rest.isEmpty s)
    .perform (.runBlock printing loop rest)
  | _, .passes printing span condition body done loop => .passes settings printing span condition body done loop
  | _, .evaluate printing e => .evaluate printing e
  | _, .evaluateAll _ [] => return []
  | _, .evaluateAll printing (e :: rest) => do
    let v ← .perform (.evaluate printing e)
    let values ← .perform (.evaluateAll printing rest)
    return v :: values
  | _, .call printing span name f values => .call settings printing span name f values
  | _, .statements [] => return ()
  | _, .statements (s :: rest) => .statement settings s rest

namespace Plan

/-- The end of what stood between two changes. -/
def close {α : Type} (after : Machine → Machine) :
    EStateM.Result Failure Machine α → EStateM.Result Failure Machine α
  | .ok a m => .ok a (after m)
  | .error e m => .error e (after m)

/-- From the state `m` the plan comes to the end `r`. -/
inductive EndsIn (settings : Settings) :
    {α : Type} → Plan α → Machine → EStateM.Result Failure Machine α → Prop where
  | step {α : Type} (w : Walk α) (m : Machine) : EndsIn settings (.step w) m (w m)
  | perform {α : Type} {t : Activity α} {m r} (h : EndsIn settings (t.plan settings) m r) :
      EndsIn settings (.perform t) m r
  | next {α β : Type} {c : Plan α} {k : α → Plan β} {m a m₁ r} (h : EndsIn settings c m (.ok a m₁))
      (hk : EndsIn settings (k a) m₁ r) : EndsIn settings (.bind c k) m r
  | stop {α β : Type} {c : Plan α} {k : α → Plan β} {m e m₁} (h : EndsIn settings c m (.error e m₁)) :
      EndsIn settings (.bind c k) m (.error e m₁)
  | bracket {α : Type} {before after : Machine → Machine} {c : Plan α} {m r} (h : EndsIn settings c (before m) r) :
      EndsIn settings (.bracket before after c) m (close after r)

/-- A plan ends in one way at most. -/
theorem EndsIn.unique {settings : Settings} {α : Type} {c : Plan α} {m : Machine}
    {r r' : EStateM.Result Failure Machine α} (h : EndsIn settings c m r) (h' : EndsIn settings c m r') : r' = r := by
  induction h with
  | step w m => cases h'; rfl
  | perform h ih =>
    cases h' with
    | perform h' => exact ih h'
  | next h hk ih ihk =>
    cases h' with
    | next h' hk' =>
      injection ih h' with ha hm
      subst ha hm
      exact ihk hk'
    | stop h' => exact nomatch ih h'
  | stop h ih =>
    cases h' with
    | next h' hk' => exact nomatch ih h'
    | stop h' =>
      injection ih h' with he hm
      rw [he, hm]
  | bracket h ih =>
    cases h' with
    | bracket h' => rw [ih h']

end Plan

/-- An activity and the state in which it is begun. -/
structure Begun where
  {α : Type}
  activity : Activity α
  state : Machine

namespace Plan

/-- On its way from the state `m`, the plan begins an activity of its own. -/
inductive Begins (settings : Settings) : {α : Type} → Plan α → Machine → Begun → Prop where
  | perform {α : Type} {t : Activity α} {m} : Begins settings (.perform t) m ⟨t, m⟩
  | first {α β : Type} {c : Plan α} {k : α → Plan β} {m x} (h : Begins settings c m x) : Begins settings (.bind c k) m x
  | next {α β : Type} {c : Plan α} {k : α → Plan β} {m a m₁ x} (hc : EndsIn settings c m (.ok a m₁))
      (h : Begins settings (k a) m₁ x) : Begins settings (.bind c k) m x
  | bracket {α : Type} {before after : Machine → Machine} {c : Plan α} {m x} (h : Begins settings c (before m) x) :
      Begins settings (.bracket before after c) m x

/-- The recursion: one activity is begun by another. -/
def Inside (settings : Settings) (y x : Begun) : Prop := Begins settings (x.activity.plan settings) x.state y

/-- Where a plan ends, the recursion is well founded below all that it begins. -/
theorem EndsIn.acc {settings : Settings} {α : Type} {c : Plan α} {m : Machine} {r : EStateM.Result Failure Machine α}
    (h : EndsIn settings c m r) {x : Begun} (hx : Begins settings c m x) : Acc (Inside settings) x := by
  induction h generalizing x with
  | step w m => cases hx
  | perform h ih =>
    cases hx with
    | perform => exact Acc.intro _ fun y hy => ih hy
  | next h hk ih ihk =>
    cases hx with
    | first hx => exact ih hx
    | next hc hx =>
      injection h.unique hc with ha hm
      subst ha hm
      exact ihk hx
  | stop h ih =>
    cases hx with
    | first hx => exact ih hx
    | next hc hx => exact nomatch h.unique hc
  | bracket h ih =>
    cases hx with
    | bracket hx => exact ih hx

end Plan
end CheckedScript
