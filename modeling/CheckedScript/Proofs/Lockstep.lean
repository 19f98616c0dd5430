import CheckedScript.Proofs.Outcome
import CheckedScript.Proofs.RelocatedScopes

/-! Walks that keep step. Of two walks one may go over the tree of the other with its places changed, and it may trace less or
more. Neither a place nor the trace is ever looked at: both walks have the same variables and the same output all along, they
know the same functions, and they end alike. What differs is where their errors are, what their traces hold, and the places
that the messages show of nodes which stand for types. -/

namespace CheckedScript

/-- The settings with another level of tracing. -/
def Settings.atLevel (s : Settings) (level : Int) : Settings := { s with traceLevel := level }

/-- The lines that walks add to the trace: the level of each, and the line that is added in its place by the walk over the
relocated tree. -/
inductive TraceLine (r : Relocation) : (level : Int) → (line line' : String) → Prop where
  | statement (kind : NodeKind) (span : Span) :
      TraceLine r 1 s!"statement {kind.label} at {span.text}" s!"statement {kind.label} at {(r.node span).text}"
  | declared (name : Data) (type : Ty) (v : Value) :
      TraceLine r 2 s!"declare {name.shown}: {type.text} = {v.shown}"
        s!"declare {name.shown}: {(type.relocate r).text} = {v.shown}"
  | assigned (name : Data) (op : AssignOp) (v : Value) :
      TraceLine r 2 s!"assign {name.shown} {op.text} {v.shown}" s!"assign {name.shown} {op.text} {v.shown}"
  | defined (name : Data) (arity : Nat) :
      TraceLine r 2 s!"define function {name.shown}/{arity}" s!"define function {name.shown}/{arity}"
  | condition (v : Value) : TraceLine r 3 s!"if condition -> {v.shown}" s!"if condition -> {v.shown}"
  | broken : TraceLine r 3 "while loop left by break" "while loop left by break"
  | iteration (n : Nat) : TraceLine r 3 s!"while iteration {n}" s!"while iteration {n}"
  | called (name : Data) (values : List Value) :
      TraceLine r 3 (s!"call {name.shown}(" ++ ", ".intercalate (values.map Value.shown) ++ ")")
        (s!"call {name.shown}(" ++ ", ".intercalate (values.map Value.shown) ++ ")")

/-- Two walks side by side: the settings of the first, the level at which the second traces, how its tree is relocated, and how
the traces compare, which every line that is added must keep. -/
structure Pairing where
  settings : Settings
  level : Int
  relocation : Relocation
  traces : Array String → Array String → Prop
  record {l : Int} {line line' : String} {t t' : Array String} (h : TraceLine relocation l line line') (ht : traces t t') :
    traces (if l ≤ settings.traceLevel then t.push line else t) (if l ≤ level then t'.push line' else t')

/-- The settings of the second walk. -/
def Pairing.others (c : Pairing) : Settings := c.settings.atLevel c.level

/-- The second state is the first one relocated, apart from the trace. -/
structure Machine.Paired (c : Pairing) (m n : Machine) : Prop where
  scopes : n.scopes = m.scopes.relocate c.relocation
  output : n.output = m.output
  callDepth : n.callDepth = m.callDepth
  trace : c.traces m.trace n.trace

namespace Walk

/-- Two ends in states that are paired, with a result that is changed by `g` or with a failure that is relocated. -/
inductive SameEnd (c : Pairing) {α : Type} (g : α → α) :
    EStateM.Result Failure Machine α → EStateM.Result Failure Machine α → Prop where
  | ok (a : α) {m n : Machine} (h : m.Paired c n) : SameEnd c g (.ok a m) (.ok (g a) n)
  | error {e f : Failure} {m n : Machine} (he : e.Relocated c.relocation f) (h : m.Paired c n) :
    SameEnd c g (.error e m) (.error f n)

/-- From paired states both walks come to such ends. -/
def InStep (c : Pairing) {α : Type} (g : α → α) (w w' : Walk α) : Prop :=
  ∀ m n, m.Paired c n → SameEnd c g (w m) (w' n)

section Rules

variable {c : Pairing} {α β : Type} {g : α → α} {h : β → β} {w w' v v' : Walk α} {k k' : α → Walk β}

theorem InStep.bind (hw : InStep c g w w') (hk : ∀ a, InStep c h (k a) (k' (g a))) :
    InStep c h (w >>= k) (w' >>= k') := by
  intro m n hmn
  have hend := hw m n hmn
  simp only [Bind.bind, EStateM.bind]
  generalize w m = result, w' n = result' at hend ⊢
  cases hend with
  | ok a h₁ => exact hk a _ _ h₁
  | error he h₁ => exact .error he h₁

theorem inStep_pure (a : α) : InStep c g (pure a) (pure (g a)) := fun _ _ h => .ok a h

theorem inStep_throw {e f : Failure} (he : e.Relocated c.relocation f) : InStep c g (throw e) (throw f) :=
  fun _ _ h => .error he h

theorem inStep_ite {p : Prop} [Decidable p] (hw : InStep c g w w') (hv : InStep c g v v') :
    InStep c g (if p then w else v) (if p then w' else v') := by
  split
  · exact hw
  · exact hv

theorem inStep_judge {rule rule' : Scopes → Except Failure α}
    (hr : ∀ s, SameVerdict c.relocation g (rule s) (rule' (s.relocate c.relocation))) :
    InStep c g (judge rule) (judge rule') := by
  intro m n hmn
  have h := hr m.scopes
  rw [judge, judge, hmn.scopes]
  generalize rule m.scopes = verdict, rule' (m.scopes.relocate c.relocation) = verdict' at h ⊢
  cases h with
  | ok a => exact .ok a hmn
  | error he => exact .error he hmn

theorem inStep_change {f f' : Scopes → Except Failure Scopes}
    (hf : ∀ s, SameVerdict c.relocation (Scopes.relocate c.relocation) (f s) (f' (s.relocate c.relocation))) :
    InStep c (fun u => u) (change f) (change f') := by
  intro m n hmn
  have h := hf m.scopes
  rw [change, change, hmn.scopes]
  generalize f m.scopes = verdict, f' (m.scopes.relocate c.relocation) = verdict' at h ⊢
  cases h with
  | ok s => exact .ok () ⟨rfl, hmn.output, hmn.callDepth, hmn.trace⟩
  | error he => exact .error he hmn

theorem inStep_compute (span : Span) (result : Except Failure Value) :
    InStep c (fun v => v) (compute span result) (compute (c.relocation.node span) result) := by
  cases result with
  | ok v => exact inStep_pure v
  | error e => exact inStep_throw (.orAt e span)

/-- Each walk adds the line if its own level allows it. -/
theorem inStep_record {level : Int} {line line' : String} (h : TraceLine c.relocation level line line') :
    InStep c (fun u => u) (record c.settings level line) (record c.others level line') := by
  intro m n hmn
  rw [record_apply, record_apply]
  exact .ok () ⟨hmn.scopes, hmn.output, hmn.callDepth, c.record h hmn.trace⟩

theorem inStep_print (line : String) : InStep c (fun u => u) (print line) (print line) := fun _ _ h =>
  .ok () ⟨h.scopes, congrArg (Array.push · line) h.output, h.callDepth, h.trace⟩

theorem inStep_bracket {before after : Machine → Machine} (hbefore : ∀ m n, m.Paired c n → (before m).Paired c (before n))
    (hafter : ∀ m n, m.Paired c n → (after m).Paired c (after n)) (hw : InStep c g w w') :
    InStep c g (bracket before after w) (bracket before after w') := by
  intro m n hmn
  have hend := hw _ _ (hbefore m n hmn)
  rw [bracket, bracket]
  generalize w (before m) = result, w' (before n) = result' at hend ⊢
  cases hend with
  | ok a h => exact .ok a (hafter _ _ h)
  | error he h => exact .error he (hafter _ _ h)

theorem paired_scopes {f : Scopes → Scopes} (hf : ∀ s, f (s.relocate c.relocation) = (f s).relocate c.relocation)
    (m n : Machine) (h : m.Paired c n) :
    Machine.Paired c { m with scopes := f m.scopes } { n with scopes := f n.scopes } :=
  ⟨by simp only [h.scopes, hf], h.output, h.callDepth, h.trace⟩

theorem inStep_inScope (hw : InStep c g w w') : InStep c g (inScope w) (inScope w') :=
  inStep_bracket (paired_scopes (Scopes.enter_relocate _)) (paired_scopes (Scopes.leave_relocate _)) hw

theorem inStep_inBody (hw : InStep c g w w') : InStep c g (inBody w) (inBody w') :=
  inStep_bracket (paired_scopes (Scopes.enterCall_relocate _)) (paired_scopes (Scopes.leaveCall_relocate _)) hw

theorem inStep_inCall (hw : InStep c g w w') : InStep c g (inCall w) (inCall w') :=
  inStep_bracket (fun _ _ h => ⟨h.scopes, h.output, congrArg (· + 1) h.callDepth, h.trace⟩)
    (fun _ _ h => ⟨h.scopes, h.output, congrArg (· - 1) h.callDepth, h.trace⟩) (inStep_inBody hw)

end Rules

section Steps

variable (c : Pairing)

theorem inStep_declare (span : Span) (type : Ty) (name : Data) (value : Option Value) :
    InStep c (Declaration.relocate c.relocation) (declare span type name value)
      (declare (c.relocation.node span) (type.relocate c.relocation) name value) := by
  refine (inStep_judge fun _ => Declaration.make_relocate _ name type value).bind fun d => ?_
  exact (inStep_change fun s => s.declare_relocate _ d span).bind fun _ => inStep_pure d

theorem inStep_define (d : Definition) {params params' body body' : Walk (Option Loop)}
    (hparams : InStep c (fun l => l) params params') (hbody : InStep c (fun l => l) body body') :
    InStep c (fun u => u) (define c.settings d params body) (define c.others (d.relocate c.relocation) params' body') := by
  have hinner : InStep c (fun u => u) (do let _ ← params; let _ ← body; judge fun s => s.checkReturn d)
      (do let _ ← params'; let _ ← body'; judge fun s => s.checkReturn (d.relocate c.relocation)) :=
    hparams.bind fun _ => hbody.bind fun _ => inStep_judge fun s => s.checkReturn_relocate _ d
  have hline : TraceLine c.relocation 2 s!"define function {d.name.shown}/{d.params.length}"
      s!"define function {(d.relocate c.relocation).name.shown}/{(d.relocate c.relocation).params.length}" := by
    have hlength : (d.relocate c.relocation).params.length = d.params.length := by
      rw [Definition.relocate, Stmt.relocateAll_eq, List.length_map]
    rw [hlength]
    exact .defined d.name d.params.length
  refine (inStep_change fun s => s.register_relocate _ d).bind fun _ => ?_
  exact (inStep_inBody hinner).bind fun _ => inStep_record hline

theorem refuseStatement_relocate (r : Relocation) (what : Misfit) :
    (refuseStatement what).Relocated r (refuseStatement (what.relocate r)) := by
  cases what with
  | node kind s => exact .located (.unexpectedStatement kind) (.self s)
  | bare => exact .escape _

theorem refuseValue_relocate (r : Relocation) (what : Misfit) :
    (refuseValue what).Relocated r (refuseValue (what.relocate r)) := by
  cases what with
  | node kind s => exact .located (.noValue kind) (.self s)
  | bare => exact .escape _

theorem afterBranch_relocate (r : Relocation) (thenBlock : List Stmt) (elseBlock : Option (List Stmt)) (loop : Option Loop) :
    afterBranch (Stmt.relocateAll r thenBlock) (Stmt.relocateBody r elseBlock) loop =
      afterBranch thenBlock elseBlock loop := by
  cases elseBlock <;> simp [afterBranch, Stmt.relocateBody]

theorem inStep_afterBranch (thenBlock : List Stmt) (elseBlock : Option (List Stmt)) (loop : Option Loop) :
    InStep c (fun l => l) (pure (afterBranch thenBlock elseBlock loop))
      (pure (afterBranch (Stmt.relocateAll c.relocation thenBlock) (Stmt.relocateBody c.relocation elseBlock) loop)) := by
  rw [afterBranch_relocate]
  exact inStep_pure _

end Steps

section Check

variable (c : Pairing)

mutual

theorem check_inStep (loop : Option Loop) (isLast : Bool) (s : Stmt) :
    InStep c (fun l => l) (check c.settings loop isLast s) (check c.others loop isLast (s.relocate c.relocation)) := by
  cases s with
  | declare span type name init =>
    refine (inStep_judge fun s => s.checkDeclaration_relocate _ span type name init).bind fun _ => ?_
    refine (inStep_judge fun s => s.ensureUndeclared_relocate _ name span).bind fun _ => ?_
    exact (inStep_declare c span type name none).bind fun _ => inStep_pure loop
  | param span type name => exact (inStep_declare c span type name none).bind fun _ => inStep_pure loop
  | assign span name op e =>
    exact (inStep_judge fun s => s.checkAssignment_relocate _ span name op e).bind fun _ => inStep_pure loop
  | call span name args =>
    exact (inStep_judge fun s => s.checkCall_relocate _ span name args).bind fun _ => inStep_pure loop
  | define span result name params body value =>
    have hdefine := inStep_define c ⟨span, result, name, params, body, value⟩ (checkBlock_inStep loop params)
      (checkBody_inStep none body)
    exact hdefine.bind fun _ => inStep_pure loop
  | print span operand => exact (inStep_judge fun s => s.checkPrint_relocate _ operand).bind fun _ => inStep_pure loop
  | branch span condition thenBlock elseBlock =>
    refine (inStep_judge fun s => s.checkCondition_relocate _ condition).bind fun _ => ?_
    refine (inStep_inScope (checkBlock_inStep loop thenBlock)).bind fun l₁ => ?_
    exact (checkElse_inStep l₁ elseBlock).bind fun l₂ => inStep_afterBranch c thenBlock elseBlock l₂
  | loop span condition body =>
    refine (inStep_judge fun s => s.checkCondition_relocate _ condition).bind fun _ => ?_
    exact (inStep_inScope (checkBody_inStep (some .fresh) body)).bind fun _ => inStep_pure loop
  | breakOut span =>
    exact (inStep_judge fun _ => Loop.checkBreak_relocate _ loop isLast span).bind fun _ => inStep_pure loop
  | misfit what => exact inStep_throw (refuseStatement_relocate _ what)
termination_by structural s

theorem checkBlock_inStep (loop : Option Loop) (block : List Stmt) :
    InStep c (fun l => l) (checkBlock c.settings loop block)
      (checkBlock c.others loop (Stmt.relocateAll c.relocation block)) := by
  cases block with
  | nil => exact inStep_pure loop
  | cons s rest =>
    rw [Stmt.relocateAll, checkBlock, checkBlock, Stmt.isEmpty_relocateAll]
    exact (check_inStep loop rest.isEmpty s).bind fun l₁ => checkBlock_inStep l₁ rest
termination_by structural block

theorem checkBody_inStep (loop : Option Loop) (body : Option (List Stmt)) :
    InStep c (fun l => l) (checkBody c.settings loop body)
      (checkBody c.others loop (Stmt.relocateBody c.relocation body)) := by
  cases body with
  | none => exact inStep_throw (.escape _)
  | some block => exact checkBlock_inStep loop block
termination_by structural body

theorem checkElse_inStep (loop : Option Loop) (block : Option (List Stmt)) :
    InStep c (fun l => l) (checkElse c.settings loop block)
      (checkElse c.others loop (Stmt.relocateBody c.relocation block)) := by
  cases block with
  | none => exact inStep_pure loop
  | some block => exact inStep_inScope (checkBlock_inStep loop block)
termination_by structural block

end

end Check

/-- Calls of functions that are relocated keep step. -/
def CallsInStep (c : Pairing) (call call' : Caller) : Prop :=
  ∀ span name f values, InStep c (fun v => v) (call span name f values)
    (call' (c.relocation.node span) name (f.relocate c.relocation) values)

section Run

variable {c : Pairing} {call call' : Caller}

mutual

theorem evaluate_inStep (hcall : CallsInStep c call call') (e : Expr) :
    InStep c (fun v => v) (evaluate call e) (evaluate call' (e.relocate c.relocation)) := by
  cases e with
  | literal span v => exact inStep_pure v
  | untyped span what => exact inStep_throw (.refl _)
  | identifier span name =>
    refine (inStep_judge fun s => s.lookup_relocate _ name span).bind fun d => ?_
    exact inStep_pure d.value
  | binary form span op left right =>
    exact (evaluate_inStep hcall left).bind fun a => (evaluate_inStep hcall right).bind fun b => inStep_compute span _
  | unary form span op operand => exact (evaluate_inStep hcall operand).bind fun a => inStep_compute span _
  | call span name args =>
    rw [Expr.relocate, evaluate, evaluate, Expr.length_relocateAll]
    refine (inStep_judge fun s => s.resolve_relocate _ name args.length span).bind fun f => ?_
    exact (evaluateAll_inStep hcall args).bind fun values => hcall span name f values
  | missing => exact inStep_throw (.escape _)
  | misfit what => exact inStep_throw (refuseValue_relocate _ what)
termination_by structural e

theorem evaluateAll_inStep (hcall : CallsInStep c call call') (args : List Expr) :
    InStep c (fun vs => vs) (evaluateAll call args) (evaluateAll call' (Expr.relocateAll c.relocation args)) := by
  cases args with
  | nil => exact inStep_pure []
  | cons e rest =>
    refine (evaluate_inStep hcall e).bind fun v => ?_
    exact (evaluateAll_inStep hcall rest).bind fun values => inStep_pure (v :: values)
termination_by structural args

end

/-- The passes of a loop keep step if its tests and the passes over its body do. -/
theorem iterate_inStep (span : Span) {test test' : Walk Bool} {pass pass' : Option Loop → Walk (Option Loop)}
    (htest : InStep c (fun b => b) test test') (hpass : ∀ loop, InStep c (fun l => l) (pass loop) (pass' loop))
    (left done : Nat) (loop : Option Loop) :
    InStep c (fun u => u) (iterate c.settings span test pass left done loop)
      (iterate c.others (c.relocation.node span) test' pass' left done loop) := by
  induction left generalizing done loop with
  | zero =>
    rw [iterate_zero, iterate_zero]
    refine htest.bind fun b => inStep_ite (inStep_ite (inStep_record .broken) ?_) (inStep_pure ())
    exact inStep_throw (.located (.tooManyIterations c.settings.maxIterations) (.self span))
  | succ left ih =>
    rw [iterate_succ, iterate_succ]
    refine htest.bind fun b => inStep_ite (inStep_ite (inStep_record .broken) ?_) (inStep_pure ())
    exact (inStep_record (.iteration (done + 1))).bind fun _ => (hpass _).bind fun l => ih (done + 1) l

variable (printing : Bool)

mutual

theorem run_inStep (hcall : CallsInStep c call call') (loop : Option Loop) (isLast : Bool) (s : Stmt) :
    InStep c (fun l => l) (run c.settings call printing loop isLast s)
      (run c.others call' printing loop isLast (s.relocate c.relocation)) := by
  cases s with
  | declare span type name init =>
    refine (inStep_judge fun s => s.checkDeclaration_relocate _ span type name init).bind fun _ => ?_
    refine (inStep_judge fun s => s.ensureUndeclared_relocate _ name span).bind fun _ => ?_
    have finish : ∀ value, InStep c (fun l => l) (do
        let d ← declare span type name value
        record c.settings 2 s!"declare {name.shown}: {type.text} = {d.value.shown}"
        return loop) (do
        let d ← declare (c.relocation.node span) (type.relocate c.relocation) name value
        record c.others 2 s!"declare {name.shown}: {(type.relocate c.relocation).text} = {d.value.shown}"
        return loop) := by
      intro value
      refine (inStep_declare c span type name value).bind fun d => ?_
      exact (inStep_record (.declared name type d.value)).bind fun _ => inStep_pure loop
    cases init with
    | none => exact finish none
    | some e => exact (evaluate_inStep hcall e).bind fun v => finish (some v)
  | assign span name op e =>
    refine (inStep_judge fun s => s.checkAssignment_relocate _ span name op e).bind fun _ => ?_
    refine (evaluate_inStep hcall e).bind fun v => (inStep_judge fun s => s.lookup_relocate _ name span).bind fun d => ?_
    refine (inStep_compute span (op.apply d.value v)).bind fun new => ?_
    refine (inStep_change fun s => ?_).bind fun _ => (inStep_record (.assigned name op new)).bind fun _ => inStep_pure loop
    rw [Scopes.assign_relocate]
    exact .ok (s.assign name new)
  | call span name args =>
    refine (inStep_judge fun s => s.checkCall_relocate _ span name args).bind fun _ => ?_
    exact (evaluate_inStep hcall (.call span name args)).bind fun _ => inStep_pure loop
  | print span operand =>
    refine (inStep_judge fun s => s.checkPrint_relocate _ operand).bind fun _ => inStep_ite ?_ (inStep_pure loop)
    cases operand with
    | none => exact (inStep_print "").bind fun _ => inStep_pure loop
    | some e => exact (evaluate_inStep hcall e).bind fun v => (inStep_print v.shown).bind fun _ => inStep_pure loop
  | branch span condition thenBlock elseBlock =>
    refine (inStep_judge fun s => s.checkCondition_relocate _ condition).bind fun _ => ?_
    refine (evaluate_inStep hcall condition).bind fun taken => (inStep_record (.condition taken)).bind fun _ => ?_
    refine inStep_ite ?_ ?_
    · refine (checkElse_inStep c loop elseBlock).bind fun l₁ => ?_
      exact (inStep_inScope (runBlock_inStep hcall l₁ thenBlock)).bind (inStep_afterBranch c thenBlock elseBlock)
    · refine (inStep_inScope (checkBlock_inStep c loop thenBlock)).bind fun l₁ => ?_
      exact (runElse_inStep hcall l₁ elseBlock).bind (inStep_afterBranch c thenBlock elseBlock)
  | loop span condition body =>
    refine (inStep_judge fun s => s.checkCondition_relocate _ condition).bind fun _ => ?_
    refine (inStep_inScope (checkBody_inStep c (some .fresh) body)).bind fun _ => ?_
    refine InStep.bind (g := fun u => u) ?_ fun _ => inStep_pure loop
    refine iterate_inStep span ?_ (fun inner => inStep_inScope (runBody_inStep hcall inner body)) _ _ _
    exact (evaluate_inStep hcall condition).bind fun v => inStep_pure v.holds
  | breakOut span =>
    exact (inStep_judge fun _ => Loop.checkBreak_relocate _ loop isLast span).bind fun _ => inStep_pure _
  | param span type name => exact check_inStep c loop isLast (.param span type name)
  | define span result name params body value =>
    have hdefine := inStep_define c ⟨span, result, name, params, body, value⟩ (runBlock_inStep hcall loop params)
      (checkBody_inStep c none body)
    exact hdefine.bind fun _ => inStep_pure loop
  | misfit what => exact check_inStep c loop isLast (.misfit what)
termination_by structural s

theorem runBlock_inStep (hcall : CallsInStep c call call') (loop : Option Loop) (block : List Stmt) :
    InStep c (fun l => l) (runBlock c.settings call printing loop block)
      (runBlock c.others call' printing loop (Stmt.relocateAll c.relocation block)) := by
  cases block with
  | nil => exact inStep_pure loop
  | cons s rest =>
    rw [Stmt.relocateAll, runBlock, runBlock, Stmt.isEmpty_relocateAll]
    exact (run_inStep hcall loop rest.isEmpty s).bind fun l₁ => runBlock_inStep hcall l₁ rest
termination_by structural block

theorem runBody_inStep (hcall : CallsInStep c call call') (loop : Option Loop) (body : Option (List Stmt)) :
    InStep c (fun l => l) (runBody c.settings call printing loop body)
      (runBody c.others call' printing loop (Stmt.relocateBody c.relocation body)) := by
  cases body with
  | none => exact inStep_throw (.escape _)
  | some block => exact runBlock_inStep hcall loop block
termination_by structural body

theorem runElse_inStep (hcall : CallsInStep c call call') (loop : Option Loop) (block : Option (List Stmt)) :
    InStep c (fun l => l) (runElse c.settings call printing loop block)
      (runElse c.others call' printing loop (Stmt.relocateBody c.relocation block)) := by
  cases block with
  | none => exact inStep_pure loop
  | some block => exact inStep_inScope (runBlock_inStep hcall loop block)
termination_by structural block

end

end Run

section Programs

variable (c : Pairing)

theorem bindParams_inStep (params : List Stmt) (values : List Value) :
    InStep c (fun u => u) (bindParams params values) (bindParams (Stmt.relocateAll c.relocation params) values) := by
  induction params generalizing values with
  | nil => cases values <;> exact inStep_pure ()
  | cons p rest ih =>
    cases values with
    | nil => cases p <;> exact inStep_pure ()
    | cons v values =>
      cases p with
      | param span type name | declare span type name init =>
        exact (inStep_declare c span type name (some v)).bind fun _ => ih values
      | _ => exact inStep_throw (.escape _)

/-- Calls keep step, by induction on the number of calls that may still be made. -/
theorem callWith_inStep (printing : Bool) (left : Nat) :
    CallsInStep c (callWith c.settings printing left) (callWith c.others printing left) := by
  induction left with
  | zero =>
    intro span name f values
    exact inStep_throw (.located (.tooManyCalls c.settings.maxCallDepth name) (.self span))
  | succ left ih =>
    intro span name f values
    refine (inStep_record (.called name values)).bind fun _ => inStep_inCall ?_
    obtain ⟨signature, definition⟩ := f
    cases definition with
    | none => exact inStep_throw (.escape _)
    | some d =>
      refine (bindParams_inStep c d.params values).bind fun _ => ?_
      refine (runBody_inStep printing ih none d.body).bind fun _ => ?_
      exact (inStep_judge fun s => s.checkReturn_relocate _ d).bind fun _ => evaluate_inStep ih d.value

theorem statements_inStep (execute : Bool) (block : List Stmt) :
    InStep c (fun u => u) (statements c.settings execute block)
      (statements c.others execute (Stmt.relocateAll c.relocation block)) := by
  induction block with
  | nil => exact inStep_pure ()
  | cons s rest ih =>
    simp only [Stmt.relocateAll, statements, Stmt.isEmpty_relocateAll, Stmt.kind?_relocate]
    cases hk : s.kind? with
    | none => exact inStep_throw (.escape _)
    | some k =>
      rw [Stmt.span_relocate _ hk]
      refine (inStep_record (.statement k s.span)).bind fun _ => inStep_ite ?_ ?_
      · have hcall := callWith_inStep c (!c.settings.script || rest.isEmpty) c.settings.maxCallDepth.toNat
        exact (run_inStep _ hcall none rest.isEmpty s).bind fun _ => ih
      · exact (check_inStep c none rest.isEmpty s).bind fun _ => ih

/-- A program and the relocated program are walked in step. -/
theorem program_inStep (execute : Bool) (p : Program) :
    InStep c (fun u => u) (program c.settings execute p) (program c.others execute (p.relocate c.relocation)) :=
  inStep_inScope (statements_inStep c execute p.statements)

end Programs
end Walk

namespace Interpreter

/-- Interpreters that start in paired states walk a program and the relocated program in step. -/
theorem walk_inStep {c : Pairing} {i j : Interpreter} (hi : i.settings = c.settings) (hj : j.settings = c.others)
    (hstart : i.machine.Paired c j.machine) (execute : Bool) (p : Program) :
    SameVerdict c.relocation (fun u => u) (i.walk execute p).1 (j.walk execute (p.relocate c.relocation)).1 ∧
      ∃ m n, m.Paired c n ∧ (i.walk execute p).2 = i.after m ∧
        (j.walk execute (p.relocate c.relocation)).2 = j.after n := by
  have hend := Walk.program_inStep c execute p _ _ hstart
  unfold walk
  rw [hi, hj]
  generalize Walk.program c.settings execute p i.machine = result,
    Walk.program c.others execute (p.relocate c.relocation) j.machine = result' at hend ⊢
  cases hend with
  | ok u h => exact ⟨.ok u, _, _, h, rfl, rfl⟩
  | error he h => exact ⟨.error he, _, _, h, rfl, rfl⟩

/-- Two walks with the same output and the same end, as far as `view` tells their failures apart. -/
structure Alike {α β : Type} (view : Failure → β) (x y : Except Failure α × Interpreter) : Prop where
  outcome : x.1.mapError view = y.1.mapError view
  output : x.2.output = y.2.output

section Alike

variable {α β γ : Type} {view : Failure → β} {x y z : Except Failure α × Interpreter} {i j : Interpreter} {p q : Program}

theorem Alike.symm (h : Alike view x y) : Alike view y x := ⟨h.outcome.symm, h.output.symm⟩

theorem Alike.trans (hxy : Alike view x y) (hyz : Alike view y z) : Alike view x z :=
  ⟨hxy.outcome.trans hyz.outcome, hxy.output.trans hyz.output⟩

/-- What tells fewer failures apart tells fewer walks apart. -/
theorem Alike.coarsen {view' : Failure → γ} (g : β → γ) (hg : ∀ f, g (view f) = view' f) (h : Alike view x y) :
    Alike view' x y := by
  have hcomp (r : Except Failure α) : (r.mapError view).mapError g = r.mapError view' := by
    cases r with
    | ok a => rfl
    | error f => exact congrArg Except.error (hg f)
  exact ⟨by rw [← hcomp, h.outcome, hcomp], h.output⟩

theorem Alike.run (h : Alike view (i.walk true p) (j.walk true q)) : Alike view (i.run p) (j.run q) := by
  have hmap (r : Except Failure Unit) (out : Array String) :
      (r.map fun _ => out).mapError view = (r.mapError view).map fun _ => out := by
    cases r <;> rfl
  refine ⟨?_, h.output⟩
  simp only [Interpreter.run, hmap, h.outcome, h.output]

/-- A program and the relocated program fare alike, whatever the trace holds. -/
theorem walk_alike {r : Relocation} (hsettings : j.settings = i.settings)
    (hscopes : j.machine.scopes = i.machine.scopes.relocate r) (hview : ∀ e f : Failure, e.Relocated r f → view f = view e)
    (execute : Bool) (p : Program) : Alike view (j.walk execute (p.relocate r)) (i.walk execute p) := by
  let c : Pairing := ⟨i.settings, i.settings.traceLevel, r, fun _ _ => True, fun _ _ => trivial⟩
  have hstart : i.machine.Paired c j.machine := ⟨hscopes, rfl, rfl, trivial⟩
  obtain ⟨hend, m, n, hmn, hi, hj⟩ := walk_inStep rfl hsettings hstart execute p
  refine ⟨hend.mapError_eq hview, ?_⟩
  calc (j.walk execute (p.relocate r)).2.output = n.output := congrArg Interpreter.output hj
    _ = m.output := hmn.output
    _ = (i.walk execute p).2.output := (congrArg Interpreter.output hi).symm

end Alike

end Interpreter

end CheckedScript
