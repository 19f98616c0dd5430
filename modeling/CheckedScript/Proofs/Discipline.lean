import CheckedScript.Proofs.Preservation
import CheckedScript.Proofs.Steps
import CheckedScript.Proofs.Subtrees

/-! Disciplines: what is asked of every node of a program, what then every value of its runs is like, and what every failure of a
run or of a check is like. A discipline says so of single steps: of literals, of the values that variables start with, of the
operators, and of a problem at the place of a node. A walk over nodes that keep to it has then only values and failures of
this kind, in all frames and in whatever function it is; the inductions over trees, passes and calls are done here, once. -/

namespace CheckedScript

section Excuses

variable {α β : Type} {F : Failure → Prop}

/-- If it fails, the failure has `F`. -/
def Excuses (F : Failure → Prop) (r : Except Failure α) : Prop := ∀ f, r = .error f → F f

theorem excuses_ok {a : α} : Excuses F (.ok a) := by
  intro f hf
  cases hf

theorem excuses_error {f : Failure} (h : F f) : Excuses F (.error f : Except Failure α) := by
  intro f' hf'
  cases hf'
  exact h

theorem excuses_bind {r : Except Failure α} {k : α → Except Failure β} (hr : Excuses F r) (hk : ∀ a, Excuses F (k a)) :
    Excuses F (r >>= k) := by
  cases r with
  | error f => exact excuses_error (hr f rfl)
  | ok a => exact hk a

theorem excuses_ite {c : Prop} [Decidable c] {r r' : Except Failure α} (h : Excuses F r) (h' : Excuses F r') :
    Excuses F (if c then r else r') := by
  split
  · exact h
  · exact h'

end Excuses

section Operators

variable {a b : Value}

/-- How an operation on a value can fail: with a problem that has no place yet, or outside of the rules of the language, and
with the remainder of an infinite number only if the value is one. -/
inductive Failure.OfOperation (a : Value) : Failure → Prop where
  | problem (p : Problem) : OfOperation a (p.located .zero)
  | escape {e : Escape} (h : e ≠ .infiniteDividend) : OfOperation a (.escape e)
  | remainder {x : Float} (ha : a = .number x) (hx : x.isInf = true) : OfOperation a (.escape .infiniteDividend)

open Failure (OfOperation)

theorem Value.asNumber_excuses {op : String} {v : Value} : Excuses (OfOperation a) (v.asNumber op) := by
  cases v with
  | number x => exact excuses_ok
  | _ => exact excuses_error (.problem _)

theorem Value.asBoolean_excuses {op : String} {v : Value} : Excuses (OfOperation a) (v.asBoolean op) := by
  cases v with
  | boolean b => exact excuses_ok
  | _ => exact excuses_error (.problem _)

theorem Value.typeOf_excuses {v : Value} : Excuses (OfOperation a) v.typeOf := by
  unfold Value.typeOf
  split
  · exact excuses_ok
  · exact excuses_error (.problem _)

theorem Value.ofResult_excuses {op : String} {x : Float} : Excuses (OfOperation a) (Value.ofResult op x) :=
  excuses_ite excuses_ok (excuses_error (.problem _))

theorem Value.concat_excuses {v w : Value} : Excuses (OfOperation a) (v.concat w) := by
  unfold Value.concat
  split
  · exact excuses_ok
  · exact excuses_error (.escape (by simp))
  · exact excuses_error (.escape (by simp))

theorem Value.sameAs_excuses {v w : Value} : Excuses (OfOperation a) (v.sameAs w) :=
  excuses_bind typeOf_excuses fun _ => excuses_bind typeOf_excuses fun _ => excuses_ok

open Value (asNumber_excuses asBoolean_excuses ofResult_excuses sameAs_excuses)

/-- A sum joins texts or adds numbers. -/
theorem ArithOp.apply_add (a b : Value) : ArithOp.add.apply a b = a.concat b ∨ ArithOp.add.apply a b = (do
    let x ← a.asNumber ArithOp.add.text
    let y ← b.asNumber ArithOp.add.text
    Value.ofResult ArithOp.add.text (x + y)) := by
  cases a with
  | text s => exact .inl rfl
  | _ =>
    cases b with
    | text t => exact .inl rfl
    | _ => exact .inr rfl

theorem ArithOp.apply_excuses (op : ArithOp) : Excuses (OfOperation a) (op.apply a b) := by
  have numbers (f : Float → Float → Float) : Excuses (OfOperation a) (do
      let x ← a.asNumber op.text
      let y ← b.asNumber op.text
      Value.ofResult op.text (f x y)) :=
    excuses_bind asNumber_excuses fun _ => excuses_bind asNumber_excuses fun _ => ofResult_excuses
  cases op with
  | add =>
    rcases ArithOp.apply_add a b with h | h
    · rw [h]
      exact Value.concat_excuses
    · rw [h]
      exact numbers (· + ·)
  | sub => exact numbers (· - ·)
  | mul => exact numbers (· * ·)
  | div =>
    refine excuses_bind asNumber_excuses fun y => ?_
    refine excuses_ite (excuses_error (.problem _)) ?_
    exact excuses_bind asNumber_excuses fun x => ofResult_excuses
  | mod =>
    refine excuses_bind asNumber_excuses fun y => ?_
    refine excuses_ite (excuses_error (.problem _)) ?_
    -- the dividend is the left operand, so only an infinite one escapes
    cases a with
    | number x =>
      change Excuses _ (if (x.isInf && !y.isNaN) = true then _ else _)
      split
      · rename_i hinf
        exact excuses_error (.remainder rfl (Bool.and_eq_true _ _ ▸ hinf).1)
      · exact ofResult_excuses
    | _ => exact excuses_error (.problem _)

theorem BinaryOp.apply_excuses (op : BinaryOp) : Excuses (OfOperation a) (op.apply a b) := by
  cases op with
  | arith o => exact o.apply_excuses
  | eq | ne => exact excuses_bind sameAs_excuses fun _ => excuses_ok
  | gt | ge | lt | le => exact excuses_bind asNumber_excuses fun _ => excuses_bind asNumber_excuses fun _ => excuses_ok
  | and =>
    refine excuses_bind asBoolean_excuses fun left => excuses_ite ?_ excuses_ok
    exact excuses_bind asBoolean_excuses fun _ => excuses_ok
  | or =>
    refine excuses_bind asBoolean_excuses fun left => excuses_ite excuses_ok ?_
    exact excuses_bind asBoolean_excuses fun _ => excuses_ok
  | unknown s => exact excuses_error (.problem _)

theorem UnaryOp.apply_excuses (op : UnaryOp) : Excuses (OfOperation a) (op.apply a) := by
  cases op with
  | not => exact excuses_bind asBoolean_excuses fun _ => excuses_ok
  | neg => exact excuses_bind asNumber_excuses fun _ => excuses_ok
  | inc | dec => exact excuses_bind asNumber_excuses fun _ => ofResult_excuses
  | unknown s => exact excuses_error (.problem _)

theorem AssignOp.apply_excuses (op : AssignOp) : Excuses (OfOperation a) (op.apply a b) := by
  cases op with
  | set => exact excuses_ok
  | compound o =>
    rw [AssignOp.apply_compound]
    exact o.apply_excuses
  | unknown s => exact excuses_error (.problem _)

end Operators

/-- The values that come out have `V`, and the failures, put at the place, have `F`. -/
def Outcome (V : Value → Prop) (F : Failure → Prop) (span : Span) (r : Except Failure Value) : Prop :=
  (∀ v, r = .ok v → V v) ∧ ∀ f, r = .error f → F (f.orAt span)

structure Discipline where
  value : Value → Prop
  expr : Expr → Prop
  stmt : Stmt → Prop
  failure : Failure → Prop
  plain_expr {e : Expr} (h : expr e) : e.Plain
  plain_stmt {s : Stmt} (h : stmt s) : s.PlainTop
  /-- A call that is a statement is evaluated as an expression. -/
  call {span : Span} {name : Data} {args : List Expr} (h : stmt (.call span name args)) : expr (.call span name args)
  default {t : Ty} {v : Value} (h : t.default? = some v) : value v
  literal {span : Span} {v : Value} (h : expr (.literal span v)) : value v
  binary {form : Form} {span : Span} {op : BinaryOp} {left right : Expr} (h : expr (.binary form span op left right))
    {a b : Value} (ha : value a) (hb : value b) : Outcome value failure span (op.apply a b)
  unary {form : Form} {span : Span} {op : UnaryOp} {operand : Expr} (h : expr (.unary form span op operand)) {a : Value}
    (ha : value a) : Outcome value failure span (op.apply a)
  assign {span : Span} {name : Data} {op : AssignOp} {e : Expr} (h : stmt (.assign span name op e)) {a b : Value}
    (ha : value a) (hb : value b) : Outcome value failure span (op.apply a b)
  at_expr {e : Expr} (h : expr e) (p : Problem) : failure (p.located e.span)
  at_stmt {s : Stmt} (h : stmt s) (p : Problem) : failure (p.located s.span)
  escape {e : Escape} (h : e ≠ .infiniteDividend) : failure (.escape e)

namespace Scopes

variable {s : Scopes} {f : Frame}

section Frames

theorem mem_allFrames : f ∈ s.allFrames ↔ (∃ k, s.stack = some k ∧ (f = k.globals ∨ f ∈ k.locals)) ∨
    ∃ c ∈ s.suspended, f ∈ c.frames := by
  obtain ⟨_ | k, suspended, functions⟩ := s <;> simp [allFrames, frames, Stack.frames, or_assoc]

theorem mem_frames_sharing {locals : List Frame} : f ∈ (Suspended.sharing locals).frames ↔ f ∈ locals := Iff.rfl

theorem mem_frames_apart {stack : Option Stack} :
    f ∈ (Suspended.apart stack).frames ↔ ∃ k, stack = some k ∧ (f = k.globals ∨ f ∈ k.locals) := by
  cases stack <;> simp [Suspended.frames, Stack.frames]

theorem mem_allFrames_enter (h : f ∈ s.enter.allFrames) : f = [] ∨ f ∈ s.allFrames := by
  obtain ⟨_ | k, suspended, functions⟩ := s <;> simp [enter, mem_allFrames] at h ⊢ <;> grind

theorem mem_allFrames_leave (h : f ∈ s.leave.allFrames) : f ∈ s.allFrames := by
  obtain ⟨_ | ⟨g, _ | ⟨first, rest⟩⟩, suspended, functions⟩ := s
  · exact h
  · -- a call that closes the globals leaves them to its caller
    obtain _ | ⟨_ | _, others⟩ := suspended <;>
      simp [leave, leave?, mem_allFrames, mem_frames_sharing, mem_frames_apart] at h ⊢ <;> grind
  · simp [leave, leave?, mem_allFrames] at h ⊢
    grind

theorem mem_allFrames_enterCall (h : f ∈ s.enterCall.allFrames) : f = [] ∨ f ∈ s.allFrames := by
  obtain ⟨_ | k, suspended, functions⟩ := s <;>
    simp [enterCall, mem_allFrames, mem_frames_sharing, mem_frames_apart] at h ⊢ <;> grind

theorem mem_allFrames_leaveCall (h : f ∈ s.leaveCall.allFrames) : f ∈ s.allFrames := by
  obtain ⟨_ | k, _ | ⟨_ | _, _⟩, functions⟩ := s <;>
    simp [leaveCall, mem_allFrames, mem_frames_sharing, mem_frames_apart] at h ⊢ <;> grind

theorem mem_allFrames_extend {ds : List Declaration} (h : f ∈ (s.extend ds).allFrames) :
    f ∈ s.allFrames ∨ ∃ g ∈ s.allFrames, f = g ++ ds := by
  obtain ⟨_ | ⟨g, _ | ⟨first, rest⟩⟩, suspended, functions⟩ := s <;>
    simp [extend, Stack.extend, mem_allFrames] at h ⊢ <;> grind

/-- A change is made in one frame, and the others stay as they are. -/
theorem mem_updateFirst {name : Data} {change : Declaration → Declaration} {fs fs' : List Frame}
    (h : Stack.updateFirst name change fs = some fs') (hf : f ∈ fs') : ∃ g ∈ fs, f = g ∨ f = g.update name change := by
  induction fs generalizing fs' with
  | nil => cases h
  | cons g rest ih =>
    rw [Stack.updateFirst] at h
    split at h
    · cases h
      rcases List.mem_cons.mp hf with rfl | hf
      · exact ⟨g, .head _, .inr rfl⟩
      · exact ⟨f, .tail _ hf, .inl rfl⟩
    · obtain ⟨rest', hrest, rfl⟩ := Option.map_eq_some_iff.mp h
      rcases List.mem_cons.mp hf with rfl | hf
      · exact ⟨f, .head _, .inl rfl⟩
      · obtain ⟨g', hg', hfg⟩ := ih hrest hf
        exact ⟨g', .tail _ hg', hfg⟩

theorem mem_allFrames_assign {name : Data} {v : Value} (h : f ∈ (s.assign name v).allFrames) :
    ∃ g ∈ s.allFrames, f = g ∨ f = g.update name fun d => { d with value := v } := by
  rcases mem_allFrames.mp h with ⟨k', hk', hf⟩ | hf
  · obtain ⟨k, hk, rfl⟩ := Option.map_eq_some_iff.mp hk'
    have here {g : Frame} (hg : g = k.globals ∨ g ∈ k.locals) : g ∈ s.allFrames := mem_allFrames.mpr (.inl ⟨k, hk, hg⟩)
    unfold Stack.update at hf
    split at hf
    · rename_i locals hlocals
      rcases hf with rfl | hf
      · exact ⟨_, here (.inl rfl), .inl rfl⟩
      · obtain ⟨g, hg, hfg⟩ := mem_updateFirst hlocals hf
        exact ⟨g, here (.inr hg), hfg⟩
    · rcases hf with rfl | hf
      · exact ⟨k.globals, here (.inl rfl), .inr rfl⟩
      · exact ⟨f, here (.inr hf), .inl rfl⟩
  · exact ⟨f, mem_allFrames.mpr (.inr hf), .inl rfl⟩

/-- A variable that is found is one of a frame. -/
theorem mem_allFrames_of_get? {name : Data} {d : Declaration} (h : s.get? name = some d) : ∃ f ∈ s.allFrames, d ∈ f := by
  obtain ⟨k, hk, hd⟩ := Option.bind_eq_some_iff.mp h
  unfold Stack.get? at hd
  split at hd
  · rename_i d' hd'
    cases hd
    obtain ⟨f, hf, hd⟩ := List.exists_of_findSome?_eq_some hd'
    exact ⟨f, mem_allFrames.mpr (.inl ⟨k, hk, .inr hf⟩), List.mem_of_find?_eq_some hd⟩
  · exact ⟨k.globals, mem_allFrames.mpr (.inl ⟨k, hk, .inl rfl⟩), List.mem_of_find?_eq_some hd⟩

end Frames

end Scopes

namespace Discipline

variable {D : Discipline}

/-- Every node of the statement keeps to the discipline. -/
def Admits (D : Discipline) (s : Stmt) : Prop := s.Every fun q => D.stmt q ∧ ∀ e ∈ q.exprs, e.Every D.expr

/-- The function is one whose definition keeps to the discipline. -/
def Owns (D : Discipline) (f : Function) : Prop :=
  ∀ d, f.definition = some d → D.Admits (.define d.span d.result d.name d.params d.body d.value)

/-- All declarations of all frames have values that keep to the discipline, and so do all functions. -/
structure Kept (D : Discipline) (s : Scopes) : Prop where
  values : ∀ f ∈ s.allFrames, ∀ d ∈ f, D.value d.value ∧ D.value d.initial
  functions : ∀ f ∈ s.functions, D.Owns f

section Kept

variable {s : Scopes}

theorem Admits.self {s : Stmt} (h : D.Admits s) : D.stmt s := (Stmt.Every.self h).1

theorem Admits.expr {s : Stmt} (h : D.Admits s) {e : Expr} (he : e ∈ s.exprs) : e.Every D.expr := (Stmt.Every.self h).2 e he

theorem Admits.child {s c : Stmt} (h : D.Admits s) (hc : c ∈ s.children) : D.Admits c := Stmt.Every.child h hc

theorem kept_empty : D.Kept .empty := ⟨by simp [Scopes.empty, Scopes.allFrames, Scopes.frames], by simp [Scopes.empty]⟩

namespace Kept

theorem enter (h : D.Kept s) : D.Kept s.enter := by
  refine ⟨fun f hf => ?_, by simpa using h.functions⟩
  rcases Scopes.mem_allFrames_enter hf with rfl | hf
  · simp
  · exact h.values f hf

theorem leave (h : D.Kept s) : D.Kept s.leave :=
  ⟨fun f hf => h.values f (Scopes.mem_allFrames_leave hf), by simpa using h.functions⟩

theorem enterCall (h : D.Kept s) : D.Kept s.enterCall := by
  refine ⟨fun f hf => ?_, by simpa using h.functions⟩
  rcases Scopes.mem_allFrames_enterCall hf with rfl | hf
  · simp
  · exact h.values f hf

theorem leaveCall (h : D.Kept s) : D.Kept s.leaveCall := by
  have hfunctions : s.leaveCall.functions = s.functions := by
    obtain ⟨_ | k, _ | ⟨_ | _, _⟩, functions⟩ := s <;> rfl
  exact ⟨fun f hf => h.values f (Scopes.mem_allFrames_leaveCall hf), by simpa [hfunctions] using h.functions⟩

theorem extend (h : D.Kept s) {ds : List Declaration} (hd : ∀ d ∈ ds, D.value d.value ∧ D.value d.initial) :
    D.Kept (s.extend ds) := by
  refine ⟨fun f hf => ?_, h.functions⟩
  rcases Scopes.mem_allFrames_extend hf with hf | ⟨g, hg, rfl⟩
  · exact h.values f hf
  · exact List.forall_mem_append.mpr ⟨h.values g hg, hd⟩

theorem assign (h : D.Kept s) (name : Data) {v : Value} (hv : D.value v) : D.Kept (s.assign name v) := by
  refine ⟨fun f hf d hd => ?_, h.functions⟩
  obtain ⟨g, hg, rfl | rfl⟩ := Scopes.mem_allFrames_assign hf
  · exact h.values f hg d hd
  · obtain ⟨c, hc, rfl⟩ := List.mem_map.mp hd
    split
    · exact ⟨hv, (h.values g hg c hc).2⟩
    · exact h.values g hg c hc

theorem register (h : D.Kept s) {d : Definition} {s' : Scopes} (hs : s.register d = .ok s')
    (hd : D.Admits (.define d.span d.result d.name d.params d.body d.value)) : D.Kept s' := by
  obtain ⟨f, -, -, rfl⟩ := Scopes.register_ok.mp hs
  refine ⟨h.values, List.forall_mem_append.mpr ⟨h.functions, List.forall_mem_singleton.mpr ?_⟩⟩
  rintro d' hd'
  cases hd'
  exact hd

end Kept

theorem Kept.lookup (h : D.Kept s) {name : Data} {span : Span} {d : Declaration} (hd : s.lookup name span = .ok d) :
    D.value d.value := by
  obtain ⟨-, hget⟩ := Scopes.lookup_ok.mp hd
  obtain ⟨f, hf, hmem⟩ := Scopes.mem_allFrames_of_get? hget
  exact (h.values f hf d hmem).1

theorem Kept.resolve (h : D.Kept s) {name : Data} {arity : Int} {span : Span} {f : Function}
    (hf : s.resolve name arity span = .ok f) : D.Owns f :=
  h.functions f (List.mem_of_find?_eq_some (Scopes.resolve_ok.mp hf))

end Kept

section Rules

variable {α β : Type} {s : Scopes} {span : Span} {name : Data} {e : Expr}

/-- The place is one where problems may be. -/
def Place (D : Discipline) (span : Span) : Prop := ∀ p : Problem, D.failure (p.located span)

theorem excuses_ensureKey : Excuses D.failure (s.ensureKey name) :=
  excuses_ite (excuses_error (D.escape (by simp))) excuses_ok

theorem excuses_lookup (h : D.Place span) : Excuses D.failure (s.lookup name span) := by
  refine excuses_bind excuses_ensureKey fun _ => ?_
  split
  · exact excuses_ok
  · exact excuses_error (h _)

theorem excuses_ensureUndeclared (h : D.Place span) : Excuses D.failure (s.ensureUndeclared name span) := by
  refine excuses_bind excuses_ensureKey fun _ => ?_
  split
  · exact excuses_error (h _)
  · exact excuses_ok

theorem excuses_declare (h : D.Place span) {d : Declaration} : Excuses D.failure (s.declare d span) := by
  refine excuses_bind (excuses_ensureUndeclared h) fun _ => ?_
  split
  · exact excuses_ok
  · exact excuses_error (D.escape (by simp))

theorem excuses_resolve (h : D.Place span) {arity : Int} : Excuses D.failure (s.resolve name arity span) := by
  unfold Scopes.resolve
  split
  · exact excuses_ok
  · exact excuses_error (h _)

theorem excuses_register {d : Definition} (h : D.Place d.span) : Excuses D.failure (s.register d) := by
  unfold Scopes.register
  split
  · unfold Scopes.declareFunction
    split
    · exact excuses_ite (excuses_error (h _)) (excuses_error (h _))
    · exact excuses_ok
  · exact excuses_error (D.escape (by simp))

theorem excuses_checkBreak (h : D.Place span) {loop : Option Loop} {isLast : Bool} :
    Excuses D.failure (Loop.checkBreak loop isLast span) := by
  cases loop with
  | none => exact excuses_error (h _)
  | some l => exact excuses_ite (excuses_error (h _)) (excuses_ite (excuses_error (h _)) excuses_ok)

theorem excuses_unaryType (h : D.Place span) {op : UnaryOp} {form : Form} {t : Ty} : Excuses D.failure (op.type form span t) := by
  cases form with
  | expression => exact excuses_ite excuses_ok (excuses_error (h _))
  | condition => exact excuses_ite excuses_ok (excuses_error (h _))

theorem excuses_binaryType (h : D.Place span) {op : BinaryOp} {form : Form} {t u : Ty} :
    Excuses D.failure (op.type form span t u) := by
  cases form with
  | expression =>
    refine excuses_ite (excuses_ite excuses_ok (excuses_error (h _))) ?_
    exact excuses_ite (excuses_error (h _)) (excuses_ite (excuses_error (h _)) excuses_ok)
  | condition =>
    refine excuses_ite (excuses_error (h _)) ?_
    exact excuses_ite (excuses_error (h _)) (excuses_ite (excuses_error (h _)) excuses_ok)

theorem excuses_checkArguments (h : D.Place span) {f : Signature} {args : List Expr}
    (hargs : ∀ e ∈ args, Excuses D.failure (s.infer e)) (types : List Ty) :
    Excuses D.failure (s.checkArguments f span args types) := by
  induction args generalizing types with
  | nil => exact excuses_ok
  | cons e args ih =>
    cases types with
    | nil => exact excuses_ok
    | cons t types =>
      rw [Scopes.checkArguments]
      refine excuses_bind (hargs e (.head _)) fun _ => excuses_ite ?_ (excuses_error (h _))
      exact ih (fun e' he' => hargs e' (.tail _ he')) types

theorem excuses_infer (he : e.Every D.expr) : Excuses D.failure (s.infer e) := by
  induction e using Expr.induction_children with
  | step e ih =>
    have hchild (c : Expr) (hc : c ∈ e.children) : Excuses D.failure (s.infer c) := ih c hc (he.child hc)
    have hplace : D.Place e.span := D.at_expr he.self
    have hplain := D.plain_expr he.self
    cases e with
    | literal span v =>
      rw [Scopes.infer, Value.typeOf]
      split
      · exact excuses_ok
      · rename_i hnone
        rw [Expr.Plain, hnone] at hplain
        cases hplain
    | identifier span name => exact excuses_bind (excuses_lookup hplace) fun _ => excuses_ok
    | binary form span op left right =>
      rw [Scopes.infer]
      refine excuses_bind (hchild left (by simp [Expr.children])) fun _ => ?_
      exact excuses_bind (hchild right (by simp [Expr.children])) fun _ => excuses_binaryType hplace
    | unary form span op operand =>
      rw [Scopes.infer]
      exact excuses_bind (hchild operand (by simp [Expr.children])) fun _ => excuses_unaryType hplace
    | call span name args =>
      rw [Scopes.infer]
      refine excuses_bind (excuses_resolve hplace) fun f => ?_
      exact excuses_bind (excuses_checkArguments hplace hchild f.signature.params) fun _ => excuses_ok
    | untyped | missing | misfit => exact hplain.elim

theorem excuses_checkCall (h : D.Place span) {args : List Expr} (hargs : ∀ e ∈ args, e.Every D.expr) :
    Excuses D.failure (s.checkCall span name args) := by
  refine excuses_bind (excuses_resolve h) fun f => ?_
  exact excuses_bind (excuses_checkArguments h (fun e he => excuses_infer (hargs e he)) _) fun _ => excuses_ok

theorem excuses_checkCondition (he : e.Every D.expr) : Excuses D.failure (s.checkCondition e) :=
  excuses_bind (excuses_infer he) fun _ => excuses_ite excuses_ok (excuses_error (D.at_expr he.self _))

theorem excuses_checkDeclaration (h : D.Place span) {type : Ty} {init : Option Expr}
    (hinit : ∀ e ∈ init.toList, e.Every D.expr) : Excuses D.failure (s.checkDeclaration span type name init) := by
  cases init with
  | none => exact excuses_ok
  | some e =>
    have he := List.forall_mem_singleton.mp hinit
    exact excuses_bind (excuses_infer he) fun _ => excuses_ite excuses_ok (excuses_error (h _))

theorem excuses_checkAssignment (h : D.Place span) {op : AssignOp} (he : e.Every D.expr) :
    Excuses D.failure (s.checkAssignment span name op e) := by
  refine excuses_bind (excuses_lookup h) fun d => excuses_bind (excuses_infer he) fun t => ?_
  cases op with
  | set => exact excuses_ite excuses_ok (excuses_error (h _))
  | _ => exact excuses_ite excuses_ok (excuses_ite excuses_ok (excuses_error (h _)))

theorem excuses_checkPrint {operand : Option Expr} (hoperand : ∀ e ∈ operand.toList, e.Every D.expr) :
    Excuses D.failure (s.checkPrint operand) := by
  cases operand with
  | none => exact excuses_ok
  | some e => exact excuses_bind (excuses_infer (List.forall_mem_singleton.mp hoperand)) fun _ => excuses_ok

theorem excuses_checkReturn {d : Definition} (h : D.Place d.span) (hd : d.value.Every D.expr) :
    Excuses D.failure (s.checkReturn d) :=
  excuses_bind (excuses_infer hd) fun _ => excuses_ite excuses_ok (excuses_error (h _))

/-- A type that values have has a first value, so a declaration is made without fail. -/
theorem make_ok (name : Data) {type : Ty} (ht : type.Simple) (value : Option Value) (hv : ∀ v ∈ value, D.value v) :
    ∃ d, Declaration.make name type value none = .ok d ∧ D.value d.value ∧ D.value d.initial := by
  obtain ⟨first, hfirst⟩ : ∃ first, type.default? = some first := by
    cases type with
    | other => exact ht.elim
    | _ => exact ⟨_, rfl⟩
  have hdefault := D.default hfirst
  refine ⟨⟨name, type, value.getD first, first⟩, ?_, ?_, hdefault⟩
  · simp only [Declaration.make, Literal.defaultFor, hfirst]
    rfl
  · cases value with
    | none => exact hdefault
    | some v => exact hv v rfl

end Rules

open Walk

section Steps

variable {α β : Type} {w : Walk α} {k : α → Walk β} {P : α → Prop} {Q : β → Prop} {settings : Settings}

/-- From a state that keeps to the discipline the walk ends in one, well with `P` or badly with a failure that keeps to it. -/
def Keeps (D : Discipline) (w : Walk α) (P : α → Prop) : Prop :=
  ∀ m, D.Kept m.scopes →
    Ends w m (fun a m' => P a ∧ D.Kept m'.scopes) (fun f m' => D.failure f ∧ D.Kept m'.scopes)

theorem Keeps.bind (h : D.Keeps w P) (hk : ∀ a, P a → D.Keeps (k a) Q) : D.Keeps (w >>= k) Q :=
  fun m hm => ends_bind.mpr ((h m hm).imp (fun a m' ha => hk a ha.1 m' ha.2) fun _ _ hf => hf)

theorem Keeps.ok (h : D.Keeps w P) {m m' : Machine} {a : α} (hm : D.Kept m.scopes) (hw : w m = .ok a m') :
    P a ∧ D.Kept m'.scopes := (h m hm).ok hw

theorem Keeps.error (h : D.Keeps w P) {m m' : Machine} {f : Failure} (hm : D.Kept m.scopes) (hw : w m = .error f m') :
    D.failure f ∧ D.Kept m'.scopes := (h m hm).error hw

theorem keeps_pure {a : α} (h : P a) : D.Keeps (pure a) P := fun _ hm => ⟨h, hm⟩

theorem keeps_throw {f : Failure} (h : D.failure f) : D.Keeps (throw f : Walk α) P := fun _ hm => ⟨h, hm⟩

theorem keeps_judge {rule : Scopes → Except Failure α} (hok : ∀ s a, D.Kept s → rule s = .ok a → P a)
    (herror : ∀ s, Excuses D.failure (rule s)) : D.Keeps (judge rule) P :=
  fun m hm => ends_judge.mpr ⟨fun a ha => ⟨hok m.scopes a hm ha, hm⟩, fun f hf => ⟨herror m.scopes f hf, hm⟩⟩

/-- A rule whose answer does not matter. -/
theorem keeps_ask {rule : Scopes → Except Failure α} (herror : ∀ s, Excuses D.failure (rule s)) :
    D.Keeps (judge rule) fun _ => True :=
  keeps_judge (fun _ _ _ _ => trivial) herror

theorem keeps_change {f : Scopes → Except Failure Scopes} (hok : ∀ s s', D.Kept s → f s = .ok s' → D.Kept s')
    (herror : ∀ s, Excuses D.failure (f s)) : D.Keeps (change f) fun _ => True :=
  fun m hm => ends_change.mpr
    ⟨fun s hs => ⟨trivial, hok m.scopes s hm hs⟩, fun f hf => ⟨herror m.scopes f hf, hm⟩⟩

theorem keeps_compute {span : Span} {r : Except Failure Value} (h : Outcome D.value D.failure span r) :
    D.Keeps (compute span r) D.value :=
  fun _ hm => ends_compute.mpr ⟨fun v hv => ⟨h.1 v hv, hm⟩, fun f hf => ⟨h.2 f hf, hm⟩⟩

theorem keeps_record {level : Int} {line : String} : D.Keeps (record settings level line) fun _ => True :=
  fun _ hm => ends_record fun _ => ⟨trivial, hm⟩

theorem keeps_print {line : String} : D.Keeps (print line) fun _ => True := fun _ hm => ends_print.mpr ⟨trivial, hm⟩

theorem keeps_inScope (h : D.Keeps w P) : D.Keeps (inScope w) P :=
  fun _ hm => ends_inScope.mpr ((h _ hm.enter).imp (fun _ _ ha => ⟨ha.1, ha.2.leave⟩) fun _ _ hf => ⟨hf.1, hf.2.leave⟩)

theorem keeps_inBody (h : D.Keeps w P) : D.Keeps (inBody w) P :=
  fun _ hm => ends_inBody.mpr
    ((h _ hm.enterCall).imp (fun _ _ ha => ⟨ha.1, ha.2.leaveCall⟩) fun _ _ hf => ⟨hf.1, hf.2.leaveCall⟩)

theorem keeps_inCall (h : D.Keeps w P) : D.Keeps (inCall w) P :=
  fun _ hm => ends_inCall.mpr
    ((h _ hm.enterCall).imp (fun _ _ ha => ⟨ha.1, ha.2.leaveCall⟩) fun _ _ hf => ⟨hf.1, hf.2.leaveCall⟩)

theorem keeps_iterate {span : Span} (hplace : D.Place span) {test : Walk Bool} {pass : Option Loop → Walk (Option Loop)}
    (htest : D.Keeps test fun _ => True) (hpass : ∀ loop, D.Keeps (pass loop) fun _ => True) (left done : Nat)
    (loop : Option Loop) : D.Keeps (iterate settings span test pass left done loop) fun _ => True := by
  intro m hm
  have hends : Ends (iterate settings span test pass left done loop) m (fun _ m' => ∃ _ : Option Loop, D.Kept m'.scopes)
      fun f m' => D.failure f ∧ D.Kept m'.scopes := by
    refine ends_iterate (I := fun _ m' => D.Kept m'.scopes) (fun _ _ _ h => h) (fun _ m' hm' => ?_) (fun _ m' hm' => ?_)
      (fun _ _ hm' => ⟨hplace _, hm'⟩) hm
    · exact (htest m' hm').imp (fun _ _ ha => ha.2) fun _ _ hf => hf
    · exact (hpass _ m' hm').imp (fun _ _ ha => ha.2) fun _ _ hf => hf
  refine hends.imp ?_ fun _ _ hf => hf
  rintro _ m' ⟨_, hm'⟩
  exact ⟨trivial, hm'⟩

end Steps

section Trees

variable {settings : Settings} {span : Span} {name : Data}

theorem keeps_declare {type : Ty} (ht : type.Simple) (hplace : D.Place span) {value : Option Value}
    (hv : ∀ v ∈ value, D.value v) : D.Keeps (declare span type name value) fun d => D.value d.value := by
  obtain ⟨d, hd, hvalues⟩ := make_ok (D := D) name ht value hv
  refine .bind (keeps_judge (P := fun a => a = d) (fun _ a _ ha => ?_) fun _ f hf => ?_) fun a ha => ?_
  · rw [hd] at ha
    exact (Except.ok.inj ha).symm
  · rw [hd] at hf
    cases hf
  · subst ha
    refine .bind (keeps_change (fun s s' hs hs' => ?_) fun _ => excuses_declare hplace) fun _ _ => keeps_pure hvalues.1
    obtain ⟨-, rfl⟩ := Scopes.declare_ok hs'
    exact hs.extend (List.forall_mem_singleton.mpr hvalues)

theorem keeps_define {result : Ty} {params : List Stmt} {body : Option (List Stmt)} {value : Expr}
    (h : D.Admits (.define span result name params body value)) {first second : Walk (Option Loop)}
    (hfirst : D.Keeps first fun _ => True) (hsecond : D.Keeps second fun _ => True) :
    D.Keeps (define settings ⟨span, result, name, params, body, value⟩ first second) fun _ => True := by
  have hplace : D.Place span := D.at_stmt h.self
  refine .bind (keeps_change (fun s s' hs hs' => hs.register hs' h) fun _ => excuses_register hplace) fun _ _ => ?_
  refine .bind (keeps_inBody (P := fun _ => True) ?_) fun _ _ => keeps_record
  refine hfirst.bind fun _ _ => hsecond.bind fun _ _ => keeps_ask fun _ => ?_
  exact excuses_checkReturn hplace (h.expr (.head _))

section Check

variable {loop : Option Loop} {block : List Stmt} {body : Option (List Stmt)}

theorem keeps_checkBlock (h : ∀ s ∈ block, ∀ loop isLast, D.Keeps (check settings loop isLast s) fun _ => True) :
    D.Keeps (checkBlock settings loop block) fun _ => True := by
  induction block generalizing loop with
  | nil => exact keeps_pure trivial
  | cons s rest ih => exact (h s (.head _) loop _).bind fun _ _ => ih fun q hq => h q (.tail _ hq)

theorem keeps_checkBody (h : ∀ s ∈ body.getD [], ∀ loop isLast, D.Keeps (check settings loop isLast s) fun _ => True) :
    D.Keeps (checkBody settings loop body) fun _ => True := by
  cases body with
  | none => exact keeps_throw (D.escape (by simp))
  | some block => exact keeps_checkBlock h

theorem keeps_checkElse (h : ∀ s ∈ body.getD [], ∀ loop isLast, D.Keeps (check settings loop isLast s) fun _ => True) :
    D.Keeps (checkElse settings loop body) fun _ => True := by
  cases body with
  | none => exact keeps_pure trivial
  | some block => exact keeps_inScope (keeps_checkBlock h)

theorem keeps_check {s : Stmt} (h : D.Admits s) (loop : Option Loop) (isLast : Bool) :
    D.Keeps (check settings loop isLast s) fun _ => True := by
  induction s using Stmt.induction_children generalizing loop isLast with
  | step s ih =>
    have hchild (c : Stmt) (hc : c ∈ s.children) (loop : Option Loop) (isLast : Bool) :
        D.Keeps (check settings loop isLast c) fun _ => True := ih c hc (h.child hc) loop isLast
    have hplace : D.Place s.span := D.at_stmt h.self
    have hplain := D.plain_stmt h.self
    have hexpr (e : Expr) (he : e ∈ s.exprs) : e.Every D.expr := h.expr he
    cases s with
    | declare span type name init =>
      refine .bind (keeps_ask fun _ => excuses_checkDeclaration hplace hexpr) fun _ _ => ?_
      refine .bind (keeps_ask fun _ => excuses_ensureUndeclared hplace) fun _ _ => ?_
      exact (keeps_declare hplain.1 hplace (by simp)).bind fun _ _ => keeps_pure trivial
    | param span type name => exact (keeps_declare hplain.1 hplace (by simp)).bind fun _ _ => keeps_pure trivial
    | assign span name op e =>
      exact .bind (keeps_ask fun _ => excuses_checkAssignment hplace (hexpr e (.head _))) fun _ _ => keeps_pure trivial
    | call span name args =>
      exact .bind (keeps_ask fun _ => excuses_checkCall hplace hexpr) fun _ _ => keeps_pure trivial
    | define span result name params body value =>
      obtain ⟨hparams, hbody⟩ := List.forall_mem_append.mp hchild
      rw [check]
      exact (keeps_define h (keeps_checkBlock hparams) (keeps_checkBody hbody)).bind fun _ _ => keeps_pure trivial
    | print span operand => exact .bind (keeps_ask fun _ => excuses_checkPrint hexpr) fun _ _ => keeps_pure trivial
    | branch span condition thenBlock elseBlock =>
      obtain ⟨hthen, helse⟩ := List.forall_mem_append.mp hchild
      rw [check]
      refine .bind (keeps_ask fun _ => excuses_checkCondition (hexpr condition (.head _))) fun _ _ => ?_
      refine (keeps_inScope (keeps_checkBlock hthen)).bind fun _ _ => ?_
      exact (keeps_checkElse helse).bind fun _ _ => keeps_pure trivial
    | loop span condition body =>
      rw [check]
      refine .bind (keeps_ask fun _ => excuses_checkCondition (hexpr condition (.head _))) fun _ _ => ?_
      exact (keeps_inScope (keeps_checkBody hchild)).bind fun _ _ => keeps_pure trivial
    | breakOut span => exact .bind (keeps_ask fun _ => excuses_checkBreak hplace) fun _ _ => keeps_pure trivial
    | misfit what => exact hplain.elim

end Check

section Run

variable {call : Caller} {printing : Bool} {loop : Option Loop} {block : List Stmt} {body : Option (List Stmt)}

/-- The call of a function that keeps to the discipline, with arguments that do, has such a value. -/
def CallKeeps (D : Discipline) (call : Caller) : Prop :=
  ∀ span name f values, D.Place span → D.Owns f → (∀ v ∈ values, D.value v) → D.Keeps (call span name f values) D.value

theorem keeps_evaluateAll {args : List Expr} (h : ∀ e ∈ args, D.Keeps (evaluate call e) D.value) :
    D.Keeps (evaluateAll call args) fun values => ∀ v ∈ values, D.value v := by
  induction args with
  | nil => exact keeps_pure (List.forall_mem_nil _)
  | cons e args ih =>
    refine (h e (.head _)).bind fun v hv => (ih fun e' he' => h e' (.tail _ he')).bind fun values hvalues => ?_
    exact keeps_pure (List.forall_mem_cons.mpr ⟨hv, hvalues⟩)

theorem keeps_evaluate (hcall : D.CallKeeps call) {e : Expr} (he : e.Every D.expr) : D.Keeps (evaluate call e) D.value := by
  induction e using Expr.induction_children with
  | step e ih =>
    have hchild (c : Expr) (hc : c ∈ e.children) : D.Keeps (evaluate call c) D.value := ih c hc (he.child hc)
    have hplace : D.Place e.span := D.at_expr he.self
    cases e with
    | literal span v => exact keeps_pure (D.literal he.self)
    | identifier span name =>
      have hlookup : D.Keeps (judge fun s => s.lookup name span) fun d => D.value d.value :=
        keeps_judge (fun s d hs hd => hs.lookup hd) fun _ => excuses_lookup hplace
      exact hlookup.bind fun d hd => keeps_pure hd
    | binary form span op left right =>
      rw [evaluate]
      refine (hchild left (by simp [Expr.children])).bind fun a ha => ?_
      refine (hchild right (by simp [Expr.children])).bind fun b hb => ?_
      exact keeps_compute (D.binary he.self ha hb)
    | unary form span op operand =>
      rw [evaluate]
      exact (hchild operand (by simp [Expr.children])).bind fun a ha => keeps_compute (D.unary he.self ha)
    | call span name args =>
      rw [evaluate]
      refine .bind (keeps_judge (P := D.Owns) (fun s f hs hf => hs.resolve hf) fun _ => excuses_resolve hplace) fun f hf => ?_
      exact (keeps_evaluateAll hchild).bind fun values hvalues => hcall span name f values hplace hf hvalues
    | untyped | missing | misfit => exact (D.plain_expr he.self).elim

theorem keeps_runBlock (h : ∀ s ∈ block, ∀ loop isLast, D.Keeps (run settings call printing loop isLast s) fun _ => True) :
    D.Keeps (runBlock settings call printing loop block) fun _ => True := by
  induction block generalizing loop with
  | nil => exact keeps_pure trivial
  | cons s rest ih => exact (h s (.head _) loop _).bind fun _ _ => ih fun q hq => h q (.tail _ hq)

theorem keeps_runBody
    (h : ∀ s ∈ body.getD [], ∀ loop isLast, D.Keeps (run settings call printing loop isLast s) fun _ => True) :
    D.Keeps (runBody settings call printing loop body) fun _ => True := by
  cases body with
  | none => exact keeps_throw (D.escape (by simp))
  | some block => exact keeps_runBlock h

theorem keeps_runElse
    (h : ∀ s ∈ body.getD [], ∀ loop isLast, D.Keeps (run settings call printing loop isLast s) fun _ => True) :
    D.Keeps (runElse settings call printing loop body) fun _ => True := by
  cases body with
  | none => exact keeps_pure trivial
  | some block => exact keeps_inScope (keeps_runBlock h)

theorem keeps_test (hcall : D.CallKeeps call) {e : Expr} (he : e.Every D.expr) : D.Keeps (test call e) fun _ => True :=
  (keeps_evaluate hcall he).bind fun _ _ => keeps_pure trivial

theorem keeps_run (hcall : D.CallKeeps call) {s : Stmt} (h : D.Admits s) (loop : Option Loop) (isLast : Bool) :
    D.Keeps (run settings call printing loop isLast s) fun _ => True := by
  induction s using Stmt.induction_children generalizing loop isLast with
  | step s ih =>
    have hchild (c : Stmt) (hc : c ∈ s.children) (loop : Option Loop) (isLast : Bool) :
        D.Keeps (run settings call printing loop isLast c) fun _ => True := ih c hc (h.child hc) loop isLast
    -- what is not run is checked
    have hcheck (c : Stmt) (hc : c ∈ s.children) (loop : Option Loop) (isLast : Bool) :
        D.Keeps (check settings loop isLast c) fun _ => True := keeps_check (h.child hc) loop isLast
    have hplace : D.Place s.span := D.at_stmt h.self
    have hplain := D.plain_stmt h.self
    have hexpr (e : Expr) (he : e ∈ s.exprs) : e.Every D.expr := h.expr he
    cases s with
    | declare span type name init =>
      have hdeclare (value : Option Value) (hv : ∀ v ∈ value, D.value v) : D.Keeps (do
          let d ← declare span type name value
          record settings 2 s!"declare {name.shown}: {type.text} = {d.value.shown}"
          return loop) fun _ => True :=
        (keeps_declare hplain.1 hplace hv).bind fun _ _ => keeps_record.bind fun _ _ => keeps_pure trivial
      refine .bind (keeps_ask fun _ => excuses_checkDeclaration hplace hexpr) fun _ _ => ?_
      refine .bind (keeps_ask fun _ => excuses_ensureUndeclared hplace) fun _ _ => ?_
      cases init with
      | none => exact hdeclare none (by simp)
      | some e => exact (keeps_evaluate hcall (hexpr e (.head _))).bind fun v hv => hdeclare (some v) (by simpa using hv)
    | param span type name =>
      rw [run]
      exact keeps_check h loop isLast
    | assign span name op e =>
      have hlookup : D.Keeps (judge fun s => s.lookup name span) fun d => D.value d.value :=
        keeps_judge (fun s d hs hd => hs.lookup hd) fun _ => excuses_lookup hplace
      refine .bind (keeps_ask fun _ => excuses_checkAssignment hplace (hexpr e (.head _))) fun _ _ => ?_
      refine (keeps_evaluate hcall (hexpr e (.head _))).bind fun v hv => hlookup.bind fun d hd => ?_
      refine (keeps_compute (D.assign h.self hd hv)).bind fun new hnew => ?_
      refine .bind (keeps_change (fun s s' hs hs' => ?_) fun _ => excuses_ok) fun _ _ => ?_
      · obtain rfl := Except.ok.inj hs'
        exact hs.assign name hnew
      · exact keeps_record.bind fun _ _ => keeps_pure trivial
    | call span name args =>
      refine .bind (keeps_ask fun _ => excuses_checkCall hplace hexpr) fun _ _ => ?_
      refine .bind (keeps_evaluate hcall (Expr.every_iff.mpr ⟨D.call h.self, hexpr⟩)) fun _ _ => keeps_pure trivial
    | define span result name params body value =>
      obtain ⟨hparams, -⟩ := List.forall_mem_append.mp hchild
      obtain ⟨-, hbody⟩ := List.forall_mem_append.mp hcheck
      rw [run]
      exact (keeps_define h (keeps_runBlock hparams) (keeps_checkBody hbody)).bind fun _ _ => keeps_pure trivial
    | print span operand =>
      refine .bind (keeps_ask fun _ => excuses_checkPrint hexpr) fun _ _ => ?_
      cases printing with
      | false => exact keeps_pure trivial
      | true =>
        cases operand with
        | none => exact keeps_print.bind fun _ _ => keeps_pure trivial
        | some e =>
          refine (keeps_evaluate hcall (hexpr e (.head _))).bind fun _ _ => ?_
          exact keeps_print.bind fun _ _ => keeps_pure trivial
    | branch span condition thenBlock elseBlock =>
      obtain ⟨hthen, helse⟩ := List.forall_mem_append.mp hchild
      obtain ⟨hthen', helse'⟩ := List.forall_mem_append.mp hcheck
      have hcondition := hexpr condition (.head _)
      rw [run]
      refine .bind (keeps_ask fun _ => excuses_checkCondition hcondition) fun _ _ => ?_
      refine (keeps_evaluate hcall hcondition).bind fun taken _ => keeps_record.bind fun _ _ => ?_
      split
      · refine (keeps_checkElse helse').bind fun _ _ => ?_
        exact (keeps_inScope (keeps_runBlock hthen)).bind fun _ _ => keeps_pure trivial
      · refine (keeps_inScope (keeps_checkBlock hthen')).bind fun _ _ => ?_
        exact (keeps_runElse helse).bind fun _ _ => keeps_pure trivial
    | loop span condition body =>
      have hcondition := hexpr condition (.head _)
      rw [run]
      refine .bind (keeps_ask fun _ => excuses_checkCondition hcondition) fun _ _ => ?_
      refine (keeps_inScope (keeps_checkBody hcheck)).bind fun _ _ => ?_
      refine .bind (keeps_iterate hplace (keeps_test hcall hcondition) (fun inner => ?_) _ _ _) fun _ _ => keeps_pure trivial
      exact keeps_inScope (keeps_runBody hchild)
    | breakOut span => exact .bind (keeps_ask fun _ => excuses_checkBreak hplace) fun _ _ => keeps_pure trivial
    | misfit what => exact hplain.elim

theorem keeps_bindParams {params : List Stmt} (hp : ∀ p ∈ params, p.IsParam ∧ D.Place p.span) {values : List Value}
    (hv : ∀ v ∈ values, D.value v) : D.Keeps (bindParams params values) fun _ => True := by
  induction params generalizing values with
  | nil => exact keeps_pure trivial
  | cons p params ih =>
    obtain ⟨⟨hparam, hplace⟩, hrest⟩ := List.forall_mem_cons.mp hp
    cases values with
    | nil => cases p <;> exact keeps_pure trivial
    | cons v values =>
      obtain ⟨hv, hvalues⟩ := List.forall_mem_cons.mp hv
      cases p with
      | param span type name =>
        rw [bindParams]
        exact (keeps_declare hparam.1 hplace (by simpa using hv)).bind fun _ _ => ih hrest hvalues
      | _ => exact hparam.elim

/-- The parameters of an admitted definition. -/
theorem Admits.params {result : Ty} {params : List Stmt} {body : Option (List Stmt)} {value : Expr}
    (h : D.Admits (.define span result name params body value)) : ∀ p ∈ params, p.IsParam ∧ D.Place p.span :=
  fun p hp => ⟨(D.plain_stmt h.self).params p hp, D.at_stmt (h.child (List.mem_append_left _ hp)).self⟩

theorem callKeeps_callWith (left : Nat) : D.CallKeeps (callWith settings printing left) := by
  induction left with
  | zero =>
    intro span name f values hplace _ _
    exact keeps_throw (hplace _)
  | succ left ih =>
    intro span name f values _ hf hvalues
    rw [callWith_succ]
    refine keeps_record.bind fun _ _ => keeps_inCall ?_
    unfold callBody
    cases hd : f.definition with
    | none => exact keeps_throw (D.escape (by simp))
    | some d =>
      have hadmits := hf d hd
      refine (keeps_bindParams hadmits.params hvalues).bind fun _ _ => ?_
      refine (keeps_runBody fun s hs loop isLast => ?_).bind fun _ _ => ?_
      · exact keeps_run ih (hadmits.child (List.mem_append_right _ hs)) loop isLast
      · have hvalue := hadmits.expr (.head _)
        refine .bind (keeps_ask fun _ => excuses_checkReturn (D.at_stmt hadmits.self) hvalue) fun _ _ => ?_
        exact keeps_evaluate ih hvalue

/-- A program whose statements keep to the discipline is walked with values and failures that do, run or only checked. -/
theorem keeps_statements (execute : Bool) (h : ∀ s ∈ block, D.Admits s) :
    D.Keeps (statements settings execute block) fun _ => True := by
  induction block with
  | nil => exact keeps_pure trivial
  | cons s rest ih =>
    obtain ⟨hs, hrest⟩ := List.forall_mem_cons.mp h
    have hwalk (printing : Bool) : D.Keeps (if execute = true then do
        let _ ← run settings (caller settings printing) printing none rest.isEmpty s
        statements settings execute rest
        else do
        let _ ← check settings none rest.isEmpty s
        statements settings execute rest) fun _ => True := by
      split
      · exact (keeps_run (callKeeps_callWith _) hs none _).bind fun _ _ => ih hrest
      · exact (keeps_check hs none _).bind fun _ _ => ih hrest
    simp only [statements]
    split
    · exact (keeps_throw (P := fun _ => True) (D.escape (by simp))).bind fun _ _ => hwalk _
    · exact keeps_record.bind fun _ _ => hwalk _

end Run

end Trees

end Discipline

theorem Interpreter.walk_error {i : Interpreter} {p : Program} {execute : Bool} {f : Failure} :
    (i.walk execute p).1 = .error f ↔ ∃ m, Walk.program i.settings execute p i.machine = .error f m := by
  simp only [walk]
  cases Walk.program i.settings execute p i.machine <;> simp

/-- What an interpreter fails with keeps to the discipline, if the program does and all that the interpreter knows. -/
theorem Discipline.failure_of_walk {D : Discipline} {i : Interpreter} {p : Program} {execute : Bool} {f : Failure}
    (h : ∀ s ∈ p.statements, D.Admits s) (hstart : D.Kept i.machine.scopes) (hf : (i.walk execute p).1 = .error f) :
    D.failure f := by
  obtain ⟨m, hm⟩ := Interpreter.walk_error.mp hf
  have hwalk : D.Keeps (Walk.program i.settings execute p) fun _ => True := keeps_inScope (keeps_statements execute h)
  exact (hwalk.error hstart hm).1

end CheckedScript
