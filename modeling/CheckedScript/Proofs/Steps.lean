import CheckedScript.Proofs.Outcome

/-! The steps that walks are made of. Every walk over a tree, whether it checks or runs, is put together from a few steps: it
asks a rule, changes the scopes, adds a line to the trace or to the output, walks inside a frame, a body or a call, and goes
on with what came out, or fails. So what all steps have and what is kept by doing one after the other, all walks have. The
inductions over trees, over the passes of a loop and over the calls that are left are done here, once. -/

namespace CheckedScript.Walk

/-- The rules that walks ask. -/
inductive Rule : {α : Type} → (Scopes → Except Failure α) → Prop where
  | make (name : Data) (type : Ty) (value : Option Value) : Rule fun _ => Declaration.make name type value none
  | declaration (span : Span) (type : Ty) (name : Data) (init : Option Expr) :
      Rule fun s => s.checkDeclaration span type name init
  | undeclared (name : Data) (span : Span) : Rule fun s => s.ensureUndeclared name span
  | assignment (span : Span) (name : Data) (op : AssignOp) (e : Expr) : Rule fun s => s.checkAssignment span name op e
  | call (span : Span) (name : Data) (args : List Expr) : Rule fun s => s.checkCall span name args
  | print (operand : Option Expr) : Rule fun s => s.checkPrint operand
  | condition (e : Expr) : Rule fun s => s.checkCondition e
  | result (d : Definition) : Rule fun s => s.checkReturn d
  | breakOut (loop : Option Loop) (isLast : Bool) (span : Span) : Rule fun _ => Loop.checkBreak loop isLast span
  | lookup (name : Data) (span : Span) : Rule fun s => s.lookup name span
  | resolve (name : Data) (arity : Int) (span : Span) : Rule fun s => s.resolve name arity span

/-- The changes that walks make to the scopes. -/
inductive Change : (Scopes → Except Failure Scopes) → Prop where
  | declare (d : Declaration) (span : Span) : Change fun s => s.declare d span
  | assign (name : Data) (v : Value) : Change fun s => .ok (s.assign name v)
  | register (d : Definition) : Change fun s => s.register d

/-- What runs in the frame of a call: the parameters get their values, the statements run, and the result is checked and
evaluated. -/
def callBody (settings : Settings) (call : Caller) (printing : Bool) (f : Function) (values : List Value) :
    Walk Value := do
  match f.definition with
  | none => throw (.escape .notANode)
  | some d =>
    bindParams d.params values
    let _ ← runBody settings call printing none d.body
    judge fun s => s.checkReturn d
    evaluate call d.value

theorem callWith_succ (settings : Settings) (printing : Bool) (left : Nat) (span : Span) (name : Data) (f : Function)
    (values : List Value) : callWith settings printing (left + 1) span name f values = (do
      record settings 3 (s!"call {name.shown}(" ++ ", ".intercalate (values.map Value.shown) ++ ")")
      inCall (callBody settings (callWith settings printing left) printing f values)) := rfl

/-- All steps that print nothing have the property, and doing one after the other keeps it. -/
structure OfSilentSteps (P : {α : Type} → Walk α → Prop) : Prop where
  pure {α : Type} (a : α) : P (pure a)
  throw {α : Type} (e : Failure) : P (throw e : Walk α)
  bind {α β : Type} {w : Walk α} {k : α → Walk β} (hw : P w) (hk : ∀ a, P (k a)) : P (w >>= k)
  judge {α : Type} {rule : Scopes → Except Failure α} (h : Rule rule) : P (judge rule)
  change {f : Scopes → Except Failure Scopes} (h : Change f) : P (change f)
  record (settings : Settings) (level : Int) (line : String) : P (record settings level line)
  inScope {α : Type} {w : Walk α} (hw : P w) : P (inScope w)
  inBody {α : Type} {w : Walk α} (hw : P w) : P (inBody w)
  inCall {α : Type} {w : Walk α} (hw : P w) : P (inCall w)

/-- All steps have the property. -/
structure OfSteps (P : {α : Type} → Walk α → Prop) : Prop extends OfSilentSteps P where
  print (line : String) : P (print line)

namespace OfSilentSteps

variable {P : {α : Type} → Walk α → Prop} {settings : Settings} {call : Caller}

theorem compute (h : OfSilentSteps P) (span : Span) (r : Except Failure Value) : P (compute span r) := by
  cases r with
  | ok v => exact h.pure v
  | error e => exact h.throw (e.orAt span)

theorem declare (h : OfSilentSteps P) (span : Span) (type : Ty) (name : Data) (value : Option Value) :
    P (declare span type name value) := by
  refine h.bind (h.judge (.make name type value)) fun d => ?_
  exact h.bind (h.change (.declare d span)) fun _ => h.pure d

theorem define (h : OfSilentSteps P) (d : Definition) {params body : Walk (Option Loop)} (hp : P params) (hb : P body) :
    P (define settings d params body) := by
  refine h.bind (h.change (.register d)) fun _ => h.bind (h.inBody ?_) fun _ => h.record _ _ _
  exact h.bind hp fun _ => h.bind hb fun _ => h.judge (.result d)

theorem iterate (h : OfSilentSteps P) (span : Span) {test : Walk Bool} {pass : Option Loop → Walk (Option Loop)}
    (htest : P test) (hpass : ∀ inner, P (pass inner)) (left done : Nat) (loop : Option Loop) :
    P (iterate settings span test pass left done loop) := by
  induction left generalizing done loop with
  | zero =>
    rw [iterate_zero]
    refine h.bind htest fun holds => ?_
    split
    · split
      · exact h.record _ _ _
      · exact h.throw _
    · exact h.pure ()
  | succ left ih =>
    rw [iterate_succ]
    refine h.bind htest fun holds => ?_
    split
    · split
      · exact h.record _ _ _
      · exact h.bind (h.record _ _ _) fun _ => h.bind (hpass _) fun inner => ih (done + 1) inner
    · exact h.pure ()

mutual

theorem check (h : OfSilentSteps P) (loop : Option Loop) (isLast : Bool) (s : Stmt) : P (check settings loop isLast s) := by
  cases s with
  | declare span type name init =>
    refine h.bind (h.judge (.declaration span type name init)) fun _ => ?_
    refine h.bind (h.judge (.undeclared name span)) fun _ => ?_
    exact h.bind (h.declare span type name none) fun _ => h.pure loop
  | param span type name => exact h.bind (h.declare span type name none) fun _ => h.pure loop
  | assign span name op e => exact h.bind (h.judge (.assignment span name op e)) fun _ => h.pure loop
  | call span name args => exact h.bind (h.judge (.call span name args)) fun _ => h.pure loop
  | define span result name params body value =>
    simp only [Walk.check]
    exact h.bind (h.define _ (h.checkBlock loop params) (h.checkBody none body)) fun _ => h.pure loop
  | print span operand => exact h.bind (h.judge (.print operand)) fun _ => h.pure loop
  | branch span condition thenBlock elseBlock =>
    simp only [Walk.check]
    refine h.bind (h.judge (.condition condition)) fun _ => ?_
    refine h.bind (h.inScope (h.checkBlock loop thenBlock)) fun l => ?_
    exact h.bind (h.checkElse l elseBlock) fun _ => h.pure _
  | loop span condition body =>
    simp only [Walk.check]
    refine h.bind (h.judge (.condition condition)) fun _ => ?_
    exact h.bind (h.inScope (h.checkBody (some .fresh) body)) fun _ => h.pure loop
  | breakOut span => exact h.bind (h.judge (.breakOut loop isLast span)) fun _ => h.pure loop
  | misfit what => exact h.throw _
termination_by structural s

theorem checkBlock (h : OfSilentSteps P) (loop : Option Loop) (block : List Stmt) : P (checkBlock settings loop block) := by
  cases block with
  | nil => exact h.pure loop
  | cons s rest =>
    simp only [Walk.checkBlock]
    exact h.bind (h.check loop rest.isEmpty s) fun l => h.checkBlock l rest
termination_by structural block

theorem checkBody (h : OfSilentSteps P) (loop : Option Loop) (body : Option (List Stmt)) :
    P (checkBody settings loop body) := by
  cases body with
  | none => exact h.throw _
  | some block => exact h.checkBlock loop block
termination_by structural body

theorem checkElse (h : OfSilentSteps P) (loop : Option Loop) (block : Option (List Stmt)) :
    P (checkElse settings loop block) := by
  cases block with
  | none => exact h.pure loop
  | some block => exact h.inScope (h.checkBlock loop block)
termination_by structural block

end

mutual

theorem evaluate (h : OfSilentSteps P) (hc : ∀ span name f values, P (call span name f values)) (e : Expr) :
    P (evaluate call e) := by
  cases e with
  | literal span v => exact h.pure v
  | untyped span what => exact h.throw _
  | identifier span name => exact h.bind (h.judge (.lookup name span)) fun _ => h.pure _
  | binary form span op left right =>
    simp only [Walk.evaluate]
    exact h.bind (h.evaluate hc left) fun _ => h.bind (h.evaluate hc right) fun _ => h.compute _ _
  | unary form span op operand =>
    simp only [Walk.evaluate]
    exact h.bind (h.evaluate hc operand) fun _ => h.compute _ _
  | call span name args =>
    simp only [Walk.evaluate]
    refine h.bind (h.judge (.resolve name args.length span)) fun f => ?_
    exact h.bind (h.evaluateAll hc args) fun values => hc span name f values
  | missing => exact h.throw _
  | misfit what => exact h.throw _
termination_by structural e

theorem evaluateAll (h : OfSilentSteps P) (hc : ∀ span name f values, P (call span name f values)) (args : List Expr) :
    P (evaluateAll call args) := by
  cases args with
  | nil => exact h.pure []
  | cons e rest =>
    simp only [Walk.evaluateAll]
    exact h.bind (h.evaluate hc e) fun _ => h.bind (h.evaluateAll hc rest) fun _ => h.pure _
termination_by structural args

end

mutual

theorem run (h : OfSilentSteps P) (hc : ∀ span name f values, P (call span name f values)) (printing : Bool)
    (hp : printing = true → ∀ line, P (Walk.print line)) (loop : Option Loop) (isLast : Bool) (s : Stmt) :
    P (run settings call printing loop isLast s) := by
  cases s with
  | declare span type name init =>
    simp only [Walk.run]
    refine h.bind (h.judge (.declaration span type name init)) fun _ => ?_
    refine h.bind (h.judge (.undeclared name span)) fun _ => ?_
    cases init with
    | none =>
      refine h.bind (h.pure none) fun _ => h.bind (h.declare _ _ _ _) fun _ => ?_
      exact h.bind (h.record _ _ _) fun _ => h.pure loop
    | some e =>
      refine h.bind (h.evaluate hc e) fun v => h.bind (h.pure (some v)) fun _ => h.bind (h.declare _ _ _ _) fun _ => ?_
      exact h.bind (h.record _ _ _) fun _ => h.pure loop
  | param span type name => exact @check P settings h loop isLast (.param span type name)
  | assign span name op e =>
    simp only [Walk.run]
    refine h.bind (h.judge (.assignment span name op e)) fun _ => h.bind (h.evaluate hc e) fun _ => ?_
    refine h.bind (h.judge (.lookup name span)) fun _ => h.bind (h.compute _ _) fun new => ?_
    exact h.bind (h.change (.assign name new)) fun _ => h.bind (h.record _ _ _) fun _ => h.pure loop
  | call span name args =>
    simp only [Walk.run]
    exact h.bind (h.judge (.call span name args)) fun _ => h.bind (h.evaluate hc _) fun _ => h.pure loop
  | define span result name params body value =>
    simp only [Walk.run]
    exact h.bind (h.define _ (h.runBlock hc printing hp loop params) (h.checkBody none body)) fun _ => h.pure loop
  | print span operand =>
    simp only [Walk.run]
    refine h.bind (h.judge (.print operand)) fun _ => ?_
    cases printing with
    | false => exact h.pure loop
    | true =>
      cases operand with
      | none => exact h.bind (hp rfl _) fun _ => h.pure loop
      | some e => exact h.bind (h.evaluate hc e) fun _ => h.bind (hp rfl _) fun _ => h.pure loop
  | branch span condition thenBlock elseBlock =>
    simp only [Walk.run]
    refine h.bind (h.judge (.condition condition)) fun _ => h.bind (h.evaluate hc condition) fun v => ?_
    refine h.bind (h.record _ _ _) fun _ => ?_
    split
    · refine h.bind (h.checkElse loop elseBlock) fun l => ?_
      exact h.bind (h.inScope (h.runBlock hc printing hp l thenBlock)) fun _ => h.pure _
    · refine h.bind (h.inScope (h.checkBlock loop thenBlock)) fun l => ?_
      exact h.bind (h.runElse hc printing hp l elseBlock) fun _ => h.pure _
  | loop span condition body =>
    simp only [Walk.run]
    refine h.bind (h.judge (.condition condition)) fun _ => ?_
    refine h.bind (h.inScope (h.checkBody (some .fresh) body)) fun _ => ?_
    refine h.bind (h.iterate span ?_ (fun inner => ?_) _ _ _) fun _ => h.pure loop
    · exact h.bind (h.evaluate hc condition) fun _ => h.pure _
    · exact h.inScope (h.runBody hc printing hp inner body)
  | breakOut span => exact h.bind (h.judge (.breakOut loop isLast span)) fun _ => h.pure _
  | misfit what => exact h.throw _
termination_by structural s

theorem runBlock (h : OfSilentSteps P) (hc : ∀ span name f values, P (call span name f values)) (printing : Bool)
    (hp : printing = true → ∀ line, P (Walk.print line)) (loop : Option Loop) (block : List Stmt) :
    P (runBlock settings call printing loop block) := by
  cases block with
  | nil => exact h.pure loop
  | cons s rest =>
    simp only [Walk.runBlock]
    exact h.bind (h.run hc printing hp loop rest.isEmpty s) fun l => h.runBlock hc printing hp l rest
termination_by structural block

theorem runBody (h : OfSilentSteps P) (hc : ∀ span name f values, P (call span name f values)) (printing : Bool)
    (hp : printing = true → ∀ line, P (Walk.print line)) (loop : Option Loop) (body : Option (List Stmt)) :
    P (runBody settings call printing loop body) := by
  cases body with
  | none => exact h.throw _
  | some block => exact h.runBlock hc printing hp loop block
termination_by structural body

theorem runElse (h : OfSilentSteps P) (hc : ∀ span name f values, P (call span name f values)) (printing : Bool)
    (hp : printing = true → ∀ line, P (Walk.print line)) (loop : Option Loop) (block : Option (List Stmt)) :
    P (runElse settings call printing loop block) := by
  cases block with
  | none => exact h.pure loop
  | some block => exact h.inScope (h.runBlock hc printing hp loop block)
termination_by structural block

end

theorem bindParams (h : OfSilentSteps P) (params : List Stmt) (values : List Value) : P (bindParams params values) := by
  fun_induction Walk.bindParams params values with
  | case1 span type name params v values ih => exact h.bind (h.declare _ _ _ _) fun _ => ih
  | case2 span type name init params v values ih => exact h.bind (h.declare _ _ _ _) fun _ => ih
  | case3 => exact h.throw _
  | case4 => exact h.pure ()

theorem callBody (h : OfSilentSteps P) (hc : ∀ span name f values, P (call span name f values)) (printing : Bool)
    (hp : printing = true → ∀ line, P (Walk.print line)) (f : Function) (values : List Value) :
    P (callBody settings call printing f values) := by
  unfold Walk.callBody
  cases f.definition with
  | none => exact h.throw _
  | some d =>
    refine h.bind (h.bindParams d.params values) fun _ => h.bind (h.runBody hc printing hp none d.body) fun _ => ?_
    exact h.bind (h.judge (.result d)) fun _ => h.evaluate hc d.value

/-- The induction is on the calls that may still be made; a call makes its own with one less. -/
theorem callWith (h : OfSilentSteps P) (settings : Settings) (printing : Bool)
    (hp : printing = true → ∀ line, P (Walk.print line)) (left : Nat) (span : Span) (name : Data) (f : Function)
    (values : List Value) : P (callWith settings printing left span name f values) := by
  induction left generalizing span name f values with
  | zero => exact h.throw _
  | succ left ih =>
    rw [callWith_succ]
    exact h.bind (h.record _ _ _) fun _ => h.inCall (h.callBody ih printing hp f values)

end OfSilentSteps

namespace OfSteps

variable {P : {α : Type} → Walk α → Prop} {settings : Settings} {call : Caller}

theorem callBody (h : OfSteps P) (hc : ∀ span name f values, P (call span name f values)) (printing : Bool)
    (f : Function) (values : List Value) : P (callBody settings call printing f values) :=
  h.toOfSilentSteps.callBody hc printing (fun _ => h.print) f values

theorem callWith (h : OfSteps P) (settings : Settings) (printing : Bool) (left : Nat) (span : Span) (name : Data)
    (f : Function) (values : List Value) : P (callWith settings printing left span name f values) :=
  h.toOfSilentSteps.callWith settings printing (fun _ => h.print) left span name f values

theorem statements (h : OfSteps P) (settings : Settings) (execute : Bool) (block : List Stmt) :
    P (statements settings execute block) := by
  induction block with
  | nil => exact h.pure ()
  | cons s rest ih =>
    have hwalk (printing : Bool) : P (if execute = true then do
        let _ ← Walk.run settings (caller settings printing) printing none rest.isEmpty s
        Walk.statements settings execute rest
        else do
        let _ ← Walk.check settings none rest.isEmpty s
        Walk.statements settings execute rest) := by
      split
      · exact h.bind (h.run (h.callWith settings printing _) printing (fun _ => h.print) none rest.isEmpty s) fun _ => ih
      · exact h.bind (h.check none rest.isEmpty s) fun _ => ih
    simp only [Walk.statements]
    cases s.kind? with
    | none => exact h.bind (h.throw _) fun _ => hwalk _
    | some k => exact h.bind (h.record _ _ _) fun _ => hwalk _

end OfSteps
end CheckedScript.Walk
