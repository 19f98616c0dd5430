import CheckedScript.Proofs.Relocation

/-! The static rules on relocated scopes. Relocated scopes declare the same names with the same values and know the same
functions. What is done to them is done to the relocated ones as well, and a rule gives the relocated answer, or breaks for
the same reason. -/

namespace CheckedScript

variable (r : Relocation)

def Declaration.relocate (d : Declaration) : Declaration := { d with type := d.type.relocate r }

namespace Frame

def relocate (f : Frame) : Frame := f.map (Declaration.relocate r)

theorem get?_relocate (f : Frame) (name : Data) : (relocate r f).get? name = (f.get? name).map (Declaration.relocate r) := by
  rw [get?, relocate, List.find?_map]
  rfl

theorem update_relocate (change : Declaration → Declaration) (h : ∀ d, change (d.relocate r) = (change d).relocate r)
    (f : Frame) (name : Data) : (relocate r f).update name change = relocate r (f.update name change) := by
  simp only [update, relocate, List.map_map]
  apply List.map_congr_left
  intro d _
  simp only [Function.comp_apply, h]
  have hname : (d.relocate r).name = d.name := rfl
  rw [hname]
  split <;> rfl

end Frame

namespace Stack

def relocate (k : Stack) : Stack := ⟨Frame.relocate r k.globals, k.locals.map (Frame.relocate r)⟩

theorem innermost_relocate (k : Stack) : (k.relocate r).innermost = Frame.relocate r k.innermost := by
  obtain ⟨globals, _ | ⟨f, rest⟩⟩ := k <;> rfl

theorem get?_relocate (k : Stack) (name : Data) : (k.relocate r).get? name = (k.get? name).map (Declaration.relocate r) := by
  have hlocals : (k.locals.map (Frame.relocate r)).findSome? (Frame.get? · name) =
      (k.locals.findSome? (Frame.get? · name)).map (Declaration.relocate r) := by
    induction k.locals with
    | nil => rfl
    | cons f rest ih =>
      rw [List.map_cons, List.findSome?_cons, List.findSome?_cons, Frame.get?_relocate, ih]
      cases Frame.get? f name <;> rfl
  simp only [get?, relocate, hlocals]
  cases k.locals.findSome? (Frame.get? · name) with
  | some d => rfl
  | none => exact Frame.get?_relocate r k.globals name

theorem updateFirst_relocate (change : Declaration → Declaration) (h : ∀ d, change (d.relocate r) = (change d).relocate r)
    (name : Data) (frames : List Frame) : updateFirst name change (frames.map (Frame.relocate r)) =
      (updateFirst name change frames).map (List.map (Frame.relocate r)) := by
  induction frames with
  | nil => rfl
  | cons f rest ih =>
    simp only [List.map_cons, updateFirst, Frame.get?_relocate, Option.isSome_map, ih, Frame.update_relocate r change h]
    split
    · rfl
    · cases updateFirst name change rest <;> rfl

theorem update_relocate (change : Declaration → Declaration) (h : ∀ d, change (d.relocate r) = (change d).relocate r)
    (k : Stack) (name : Data) : (k.relocate r).update name change = (k.update name change).relocate r := by
  simp only [update, relocate, updateFirst_relocate r change h, Frame.update_relocate r change h]
  cases updateFirst name change k.locals <;> rfl

theorem declare_relocate (k : Stack) (d : Declaration) : (k.relocate r).declare (d.relocate r) = (k.declare d).relocate r := by
  obtain ⟨globals, _ | ⟨f, rest⟩⟩ := k <;> simp [declare, relocate, Frame.relocate]

end Stack

def Suspended.relocate : Suspended → Suspended
  | sharing locals => sharing (locals.map (Frame.relocate r))
  | apart stack => apart (stack.map (Stack.relocate r))

def Scopes.relocate (s : Scopes) : Scopes :=
  ⟨s.stack.map (Stack.relocate r), s.suspended.map (Suspended.relocate r), s.functions.map (Function.relocate r)⟩

section Types

variable {r} (h : r.type = fun s => s)

include h

theorem Frame.relocate_of_type (f : Frame) : Frame.relocate r f = f := by
  have hd : ∀ d : Declaration, d.relocate r = d := fun d => by rw [Declaration.relocate, Ty.relocate_of_type r h]
  rw [Frame.relocate, funext hd, List.map_id']

theorem Stack.relocate_of_type (k : Stack) : k.relocate r = k := by
  rw [Stack.relocate, funext (Frame.relocate_of_type h), List.map_id']

theorem Suspended.relocate_of_type (s : Suspended) : s.relocate r = s := by
  cases s with
  | sharing locals => rw [Suspended.relocate, funext (Frame.relocate_of_type h), List.map_id']
  | apart stack => rw [Suspended.relocate, funext (Stack.relocate_of_type h), Option.map_id']

/-- If the types stay where they are, scopes that know no functions stay as they are. -/
theorem Scopes.relocate_of_type {s : Scopes} (hs : s.functions = []) : s.relocate r = s := by
  rw [Scopes.relocate, funext (Stack.relocate_of_type h), funext (Suspended.relocate_of_type h), hs, Option.map_id',
    List.map_id', List.map_nil, ← hs]

end Types

/-- The second result is the first one, changed by `g`, or a failure that is relocated. -/
inductive SameVerdict {α : Type} (g : α → α) : Except Failure α → Except Failure α → Prop where
  | ok (a : α) : SameVerdict g (.ok a) (.ok (g a))
  | error {e f : Failure} (h : e.Relocated r f) : SameVerdict g (.error e) (.error f)

section Verdicts

variable {r} {α β : Type} {g : α → α} {h : β → β} {x x' y y' : Except Failure α} {k k' : α → Except Failure β}

theorem SameVerdict.bind (hx : SameVerdict r g x x') (hk : ∀ a, SameVerdict r h (k a) (k' (g a))) :
    SameVerdict r h (x >>= k) (x' >>= k') := by
  cases hx with
  | ok a => exact hk a
  | error he => exact .error he

theorem SameVerdict.located (p : Problem) {s s' : Span} (hs : Moved r.node s s') :
    SameVerdict r g (.error (p.located s)) (.error ((p.relocate r).located s')) :=
  .error (.located p hs)

theorem SameVerdict.same (x : Except Failure α) : SameVerdict r (fun a => a) x x := by
  cases x with
  | ok a => exact .ok a
  | error e => exact .error (.refl e)

theorem SameVerdict.ite {c : Prop} [Decidable c] (hx : SameVerdict r g x x') (hy : SameVerdict r g y y') :
    SameVerdict r g (if c then x else y) (if c then x' else y') := by
  split
  · exact hx
  · exact hy

/-- What looks the same in relocated failures looks the same in the results. -/
theorem SameVerdict.mapError_eq {view : Failure → β} (hview : ∀ e f : Failure, e.Relocated r f → view f = view e)
    (hx : SameVerdict r (fun a => a) x x') : x'.mapError view = x.mapError view := by
  cases hx with
  | ok a => rfl
  | error he => exact congrArg Except.error (hview _ _ he)

end Verdicts

theorem UnaryOp.type_relocate (op : UnaryOp) (form : Form) (span : Span) (operand : Ty) :
    SameVerdict r (Ty.relocate r) (op.type form span operand) (op.type form (r.node span) (operand.relocate r)) := by
  cases form with
  | expression =>
    have hsame : (operand.relocate r).same (if op = .not then .boolean else .number) =
        operand.same (if op = .not then .boolean else .number) := by
      split <;> simp
    rw [type, type, hsame]
    exact .ite (.ok operand) (.located (.unaryOperand op.text operand) (.self span))
  | condition =>
    simp only [type, Ty.same_boolean_relocate]
    exact .ite (.ok Ty.boolean) (.located (.negatedOperand op.text operand) (.self span))

theorem BinaryOp.type_relocate (op : BinaryOp) (form : Form) (span : Span) (left right : Ty) :
    SameVerdict r (Ty.relocate r) (op.type form span left right)
      (op.type form (r.node span) (left.relocate r) (right.relocate r)) := by
  cases form with
  | expression =>
    simp only [type, Ty.same_string_relocate, Ty.same_relocate, Ty.same_boolean_relocate]
    refine .ite (.ite (.ok Ty.string) (.located (.stringOperands op.text) (.self span))) ?_
    refine .ite (.located (.expressionTypes left right) (.self span)) ?_
    exact .ite (.located (.booleanOperands op.text) (.self span)) (.ok left)
  | condition =>
    simp only [type, Ty.same_relocate, Ty.same_number_relocate, Ty.same_boolean_relocate]
    refine .ite (.located (.conditionTypes left right) (.self span)) ?_
    refine .ite (.located (.nonNumeric op.text) (.self span)) ?_
    exact .ite (.located (.nonBoolean op.text) (.self span)) (.ok Ty.boolean)

theorem Misfit.noType_relocate (what : Misfit) : what.noType.Relocated r (what.relocate r).noType := by
  cases what with
  | node kind s => exact .located (.noType kind) (.self s)
  | bare => exact .escape _

theorem Value.typeOf_relocate (v : Value) : SameVerdict r (Ty.relocate r) v.typeOf v.typeOf := by
  cases v with
  | number x => exact .ok Ty.number
  | boolean b => exact .ok Ty.boolean
  | text s => exact .ok Ty.string
  | nothing => exact .error (.refl _)

theorem Declaration.make_relocate (name : Data) (type : Ty) (value : Option Value) :
    SameVerdict r (Declaration.relocate r) (make name type value none) (make name (type.relocate r) value none) := by
  have hdefault : SameVerdict r (fun v => v) (Literal.defaultFor type) (Literal.defaultFor (type.relocate r)) := by
    rw [Literal.defaultFor, Literal.defaultFor, Ty.default?_relocate]
    cases type.default? with
    | some v => exact .ok v
    | none => exact .located (.noDefault type) (.refl _)
  exact hdefault.bind fun first => .ok (⟨name, type, value.getD first, first⟩ : Declaration)

theorem Loop.checkBreak_relocate (loop : Option Loop) (isLast : Bool) (span : Span) :
    SameVerdict r (fun u => u) (checkBreak loop isLast span) (checkBreak loop isLast (r.node span)) := by
  cases loop with
  | none => exact .located .breakOutsideLoop (.self span)
  | some l => exact .ite (.located .breakAfterBreak (.self span)) (.ite (.located .breakNotLast (.self span)) (.ok ()))

namespace Scopes

variable (s : Scopes)

theorem enter_relocate : (s.relocate r).enter = s.enter.relocate r := by
  obtain ⟨_ | k, suspended, functions⟩ := s <;> rfl

theorem leave_relocate : (s.relocate r).leave = s.leave.relocate r := by
  obtain ⟨_ | ⟨g, _ | ⟨f, rest⟩⟩, _ | ⟨_ | _, others⟩, functions⟩ := s <;> rfl

theorem enterCall_relocate : (s.relocate r).enterCall = s.enterCall.relocate r := by
  obtain ⟨_ | k, suspended, functions⟩ := s <;> rfl

theorem leaveCall_relocate : (s.relocate r).leaveCall = s.leaveCall.relocate r := by
  obtain ⟨_ | k, _ | ⟨_ | _, others⟩, functions⟩ := s <;> rfl

theorem get?_relocate (name : Data) : (s.relocate r).get? name = (s.get? name).map (Declaration.relocate r) := by
  obtain ⟨_ | k, suspended, functions⟩ := s
  · rfl
  · exact k.get?_relocate r name

theorem ensureKey_relocate (name : Data) : (s.relocate r).ensureKey name = s.ensureKey name := by
  simp only [ensureKey, relocate, Option.isSome_map]

theorem lookup_relocate (name : Data) (span : Span) :
    SameVerdict r (Declaration.relocate r) (s.lookup name span) ((s.relocate r).lookup name (r.node span)) := by
  rw [lookup, lookup, ensureKey_relocate, get?_relocate]
  refine (SameVerdict.same (s.ensureKey name)).bind fun _ => ?_
  cases s.get? name with
  | some d => exact .ok d
  | none => exact .located (.undeclared name) (.self span)

theorem ensureUndeclared_relocate (name : Data) (span : Span) :
    SameVerdict r (fun u => u) (s.ensureUndeclared name span) ((s.relocate r).ensureUndeclared name (r.node span)) := by
  have hinner : ((s.relocate r).stack.bind fun k => k.innermost.get? name) =
      (s.stack.bind fun k => k.innermost.get? name).map (Declaration.relocate r) := by
    cases hs : s.stack with
    | none => simp [relocate, hs]
    | some k => simp [relocate, hs, Stack.innermost_relocate, Frame.get?_relocate]
  rw [ensureUndeclared, ensureUndeclared, ensureKey_relocate, hinner]
  refine (SameVerdict.same (s.ensureKey name)).bind fun _ => ?_
  cases s.stack.bind fun k => k.innermost.get? name with
  | some d => exact .located (.redeclared name) (.self span)
  | none => exact .ok ()

theorem declare_relocate (d : Declaration) (span : Span) :
    SameVerdict r (relocate r) (s.declare d span) ((s.relocate r).declare (d.relocate r) (r.node span)) := by
  refine (s.ensureUndeclared_relocate r d.name span).bind fun _ => ?_
  obtain ⟨_ | k, suspended, functions⟩ := s
  · exact .error (.escape _)
  · simp only [relocate, Option.map_some, Stack.declare_relocate]
    exact .ok (⟨some (k.declare d), suspended, functions⟩ : Scopes)

theorem assign_relocate (name : Data) (v : Value) : (s.relocate r).assign name v = (s.assign name v).relocate r := by
  obtain ⟨_ | k, suspended, functions⟩ := s
  · rfl
  · simp only [assign, update, relocate, Option.map_some]
    rw [Stack.update_relocate r (fun d => { d with value := v }) fun _ => rfl]

theorem function?_relocate (name : Data) (arity : Int) :
    (s.relocate r).function? name arity = (s.function? name arity).map (Function.relocate r) := by
  have hname : (fun f : Function => f.signature.name.equal name && (f.signature.params.length : Int) == arity) ∘
      Function.relocate r = fun f => f.signature.name.equal name && (f.signature.params.length : Int) == arity := by
    funext f
    simp only [Function.comp_apply, Function.relocate, Signature.relocate, List.length_map]
  rw [function?, function?, relocate, List.find?_map, hname]

theorem resolve_relocate (name : Data) (arity : Int) (span : Span) :
    SameVerdict r (Function.relocate r) (s.resolve name arity span) ((s.relocate r).resolve name arity (r.node span)) := by
  rw [resolve, resolve, function?_relocate]
  cases s.function? name arity with
  | some f => exact .ok f
  | none => exact .located (.undefined name arity) (.self span)

theorem declareFunction_relocate (f : Function) (span : Span) :
    SameVerdict r (relocate r) (s.declareFunction f span) ((s.relocate r).declareFunction (f.relocate r) (r.node span)) := by
  have hf : (s.relocate r).function? (f.relocate r).signature.name (f.relocate r).signature.params.length =
      (s.function? f.signature.name f.signature.params.length).map (Function.relocate r) := by
    rw [function?_relocate]
    simp only [Function.relocate, Signature.relocate, List.length_map]
  rw [declareFunction, declareFunction, hf]
  cases s.function? f.signature.name f.signature.params.length with
  | some existing =>
    have hsame : (existing.relocate r).signature.same (f.relocate r).signature = existing.signature.same f.signature :=
      Signature.same_relocate r _ _
    simp only [Option.map_some, hsame]
    refine .ite (.located (.redefined f.signature) (.self span)) ?_
    exact .located (.conflicting f.signature existing.signature) (.self span)
  | none =>
    have hadd : { s.relocate r with functions := (s.relocate r).functions ++ [f.relocate r] } =
        ({ s with functions := s.functions ++ [f] } : Scopes).relocate r := by
      simp [relocate]
    rw [Option.map_none]
    dsimp only
    rw [hadd]
    exact .ok _

theorem register_relocate (d : Definition) :
    SameVerdict r (relocate r) (s.register d) ((s.relocate r).register (d.relocate r)) := by
  rw [register, register, Definition.signature?_relocate]
  cases d.signature? with
  | some f => exact s.declareFunction_relocate r ⟨f, some d⟩ d.span
  | none => exact .error (.escape _)

mutual

theorem infer_relocate (e : Expr) :
    SameVerdict r (Ty.relocate r) (s.infer e) ((s.relocate r).infer (e.relocate r)) := by
  cases e with
  | literal span v => exact v.typeOf_relocate r
  | untyped span what => exact .error (.refl _)
  | identifier span name => exact (s.lookup_relocate r name span).bind fun d => .ok d.type
  | binary form span op left right =>
    exact (infer_relocate left).bind fun a => (infer_relocate right).bind fun b => op.type_relocate r form span a b
  | unary form span op operand => exact (infer_relocate operand).bind fun a => op.type_relocate r form span a
  | call span name args =>
    rw [Expr.relocate, infer, infer, Expr.length_relocateAll]
    refine (s.resolve_relocate r name args.length span).bind fun f => ?_
    exact (checkArguments_relocate f.signature span args f.signature.params).bind fun _ => .ok f.signature.result
  | missing => exact .located .missingOperand (.refl _)
  | misfit what => exact .error (what.noType_relocate r)
termination_by structural e

theorem checkArguments_relocate (f : Signature) (span : Span) (args : List Expr) (types : List Ty) :
    SameVerdict r (fun u => u) (s.checkArguments f span args types)
      ((s.relocate r).checkArguments (f.relocate r) (r.node span) (Expr.relocateAll r args) (types.map (Ty.relocate r))) := by
  cases args with
  | nil => exact .ok ()
  | cons e rest =>
    cases types with
    | nil => exact .ok ()
    | cons t types =>
      refine (infer_relocate e).bind fun effective => ?_
      rw [Ty.same_relocate]
      exact .ite (checkArguments_relocate f span rest types) (.located (.arguments f) (.self span))
termination_by structural args

end

theorem checkCall_relocate (span : Span) (name : Data) (args : List Expr) :
    SameVerdict r (Function.relocate r) (s.checkCall span name args)
      ((s.relocate r).checkCall (r.node span) name (Expr.relocateAll r args)) := by
  rw [checkCall, checkCall, Expr.length_relocateAll]
  refine (s.resolve_relocate r name args.length span).bind fun f => ?_
  exact (s.checkArguments_relocate r f.signature span args f.signature.params).bind fun _ => .ok f

theorem checkCondition_relocate (e : Expr) :
    SameVerdict r (fun u => u) (s.checkCondition e) ((s.relocate r).checkCondition (e.relocate r)) := by
  refine (s.infer_relocate r e).bind fun t => ?_
  rw [Ty.same_boolean_relocate]
  exact .ite (.ok ()) (.located (.conditionType t) (e.span_relocate r))

theorem checkDeclaration_relocate (span : Span) (type : Ty) (name : Data) (init : Option Expr) :
    SameVerdict r (fun u => u) (s.checkDeclaration span type name init)
      ((s.relocate r).checkDeclaration (r.node span) (type.relocate r) name (init.map (Expr.relocate r))) := by
  cases init with
  | none => exact .ok ()
  | some e =>
    refine (s.infer_relocate r e).bind fun effective => ?_
    rw [Ty.same_relocate]
    exact .ite (.ok ()) (.located (.initialValue name type effective) (.self span))

theorem checkAssignment_relocate (span : Span) (name : Data) (op : AssignOp) (e : Expr) :
    SameVerdict r (Declaration.relocate r) (s.checkAssignment span name op e)
      ((s.relocate r).checkAssignment (r.node span) name op (e.relocate r)) := by
  refine (s.lookup_relocate r name span).bind fun d => (s.infer_relocate r e).bind fun effective => ?_
  have htype : (d.relocate r).type = d.type.relocate r := rfl
  split
  · rw [htype, Ty.same_relocate]
    exact .ite (.ok d) (.located (.assignedValue name d.type effective) (.self span))
  · rw [htype, Ty.same_string_relocate, Ty.same_number_relocate, Ty.same_number_relocate]
    exact .ite (.ok d) (.ite (.ok d) (.located (.compoundValue name op.text effective) (.self span)))

theorem checkPrint_relocate (operand : Option Expr) :
    SameVerdict r (fun u => u) (s.checkPrint operand) ((s.relocate r).checkPrint (operand.map (Expr.relocate r))) := by
  cases operand with
  | none => exact .ok ()
  | some e => exact (s.infer_relocate r e).bind fun _ => .ok ()

theorem checkReturn_relocate (d : Definition) :
    SameVerdict r (fun u => u) (s.checkReturn d) ((s.relocate r).checkReturn (d.relocate r)) := by
  refine (s.infer_relocate r d.value).bind fun effective => ?_
  have hresult : (d.relocate r).result = d.result.relocate r := rfl
  rw [hresult, Ty.same_relocate]
  exact .ite (.ok ()) (.located (.returnedValue effective d.name d.result) (.self d.span))

end Scopes
end CheckedScript
