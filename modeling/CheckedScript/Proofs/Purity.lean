import CheckedScript.Proofs.Defining

/-! A check leaves the state alone. It looks at the names and types of the open frames and at the functions, and from these
alone it is known how the check ends and what it adds: variables in the innermost frame, functions, and lines of the trace.
What it is refused with is never a fault of a run. -/

namespace CheckedScript

/-- What a check may be refused with: an error that the rules of the language name. Where no frame is open a
declaration has no place, and the table of functions may hold a type that cannot be shown. -/
def Failure.Static : Failure → Prop
  | .error e => e.problem.category.phase = .checking
  | .escape .noFrame => True
  | .escape (.unshownType _) => True
  | .escape _ => False

theorem Problem.located_static {p : Problem} {span : Span} (hp : p.category.phase = .checking)
    (hd : ∀ t, p ≠ .noDefault t) : (p.located span).Static := by
  unfold located unshown?
  split
  · rename_i e he
    split at he
    · exact absurd rfl (hd _)
    · obtain ⟨kind, -, rfl⟩ := Option.map_eq_some_iff.mp he
      trivial
  · exact hp

theorem UnaryOp.type_static {op : UnaryOp} {form : Form} {span : Span} {t : Ty} {e : Failure}
    (h : op.type form span t = .error e) : e.Static := by
  unfold UnaryOp.type at h
  repeat' split at h
  all_goals cases h
  all_goals exact Problem.located_static rfl (by simp)

theorem BinaryOp.type_static {op : BinaryOp} {form : Form} {span : Span} {a b : Ty} {e : Failure}
    (h : op.type form span a b = .error e) : e.Static := by
  unfold BinaryOp.type at h
  repeat' split at h
  all_goals cases h
  all_goals exact Problem.located_static rfl (by simp)

theorem except_bind_error {ε α β : Type} {x : Except ε α} {k : α → Except ε β} {e : ε} :
    (x >>= k) = .error e ↔ x = .error e ∨ ∃ a, x = .ok a ∧ k a = .error e := by
  cases x <;> simp [bind, Except.bind]

theorem except_guard_error {ε α : Type} {c : Prop} [Decidable c] {a : α} {e e' : ε} :
    (if c then pure a else throw e : Except ε α) = .error e' ↔ ¬c ∧ e = e' := by
  by_cases hc : c <;> simp [hc, pure, Except.pure, throw, throwThe, MonadExceptOf.throw]

theorem except_map_eq {ε α β : Type} {f : α → β} {x y : Except ε α} : x.map f = y.map f ↔
    (∃ e, x = .error e ∧ y = .error e) ∨ ∃ a b, x = .ok a ∧ y = .ok b ∧ f a = f b := by
  cases x <;> cases y <;> simp [Except.map, eq_comm]

namespace Scopes

variable {s t : Scopes} {name : Data} {span : Span}

section Static

variable {e : Failure}

theorem ensureKey_of_text (hn : name.IsText) : s.ensureKey name = .ok () := by
  cases name with
  | text n => simp [ensureKey, Data.isKey]
  | _ => exact hn.elim

theorem lookup_static (hn : name.IsText) (h : s.lookup name span = .error e) : e.Static := by
  unfold lookup at h
  rw [ensureKey_of_text hn] at h
  simp only [bind, Except.bind] at h
  split at h
  · cases h
  · cases h
    exact Problem.located_static rfl (by simp)

theorem ensureUndeclared_static (hn : name.IsText) (h : s.ensureUndeclared name span = .error e) : e.Static := by
  unfold ensureUndeclared at h
  rw [ensureKey_of_text hn] at h
  simp only [bind, Except.bind] at h
  split at h
  · cases h
    exact Problem.located_static rfl (by simp)
  · cases h

theorem resolve_static {arity : Int} (h : s.resolve name arity span = .error e) : e.Static := by
  unfold resolve at h
  split at h
  · cases h
  · cases h
    exact Problem.located_static rfl (by simp)

mutual

theorem infer_static (x : Expr) (hp : x.Plain) (h : s.infer x = .error e) : e.Static := by
  cases x with
  | literal span v =>
    obtain ⟨τ, hτ⟩ := Option.isSome_iff_exists.mp (show v.type?.isSome from hp)
    simp [infer, Value.typeOf, hτ] at h
  | untyped span what => exact hp.elim
  | identifier span name =>
    simp only [infer, except_bind_error] at h
    rcases h with h | ⟨d, -, h⟩
    · exact lookup_static hp h
    · cases h
  | binary form span op left right =>
    simp only [infer, except_bind_error] at h
    rcases h with h | ⟨a, -, h | ⟨b, -, h⟩⟩
    · exact infer_static left hp.2.1 h
    · exact infer_static right hp.2.2 h
    · exact BinaryOp.type_static h
  | unary form span op operand =>
    simp only [infer, except_bind_error] at h
    rcases h with h | ⟨a, -, h⟩
    · exact infer_static operand hp.2 h
    · exact UnaryOp.type_static h
  | call span name args =>
    simp only [infer, except_bind_error] at h
    rcases h with h | ⟨f, -, h | ⟨_, -, h⟩⟩
    · exact resolve_static h
    · exact checkArguments_static span args hp h
    · cases h
  | missing => exact hp.elim
  | misfit what => exact hp.elim
termination_by structural x

theorem checkArguments_static {f : Signature} {types : List Ty} (span : Span) (args : List Expr) (hp : Expr.PlainAll args)
    (h : s.checkArguments f span args types = .error e) : e.Static := by
  cases args with
  | nil => simp only [checkArguments, reduceCtorEq] at h
  | cons x rest =>
    cases types with
    | nil => simp only [checkArguments, reduceCtorEq] at h
    | cons τ types =>
      simp only [checkArguments, except_bind_error] at h
      rcases h with h | ⟨a, -, h⟩
      · exact infer_static x hp.1 h
      · split at h
        · exact checkArguments_static span rest hp.2 h
        · cases h
          exact Problem.located_static rfl (by simp)
termination_by structural args

end

theorem checkCall_static {args : List Expr} (hp : Expr.PlainAll args) (h : s.checkCall span name args = .error e) :
    e.Static := by
  simp only [checkCall, except_bind_error] at h
  rcases h with h | ⟨f, -, h | ⟨_, -, h⟩⟩
  · exact resolve_static h
  · exact checkArguments_static span args hp h
  · cases h

theorem checkCondition_static {x : Expr} (hp : x.Plain) (h : s.checkCondition x = .error e) : e.Static := by
  simp only [checkCondition, except_bind_error, except_guard_error] at h
  rcases h with h | ⟨a, -, -, rfl⟩
  · exact infer_static x hp h
  · exact Problem.located_static rfl (by simp)

theorem checkDeclaration_static {type : Ty} {init : Option Expr} (hp : Expr.PlainOption init)
    (h : s.checkDeclaration span type name init = .error e) : e.Static := by
  cases init with
  | none => cases h
  | some x =>
    simp only [checkDeclaration, except_bind_error, except_guard_error] at h
    rcases h with h | ⟨a, -, -, rfl⟩
    · exact infer_static x hp h
    · exact Problem.located_static rfl (by simp)

theorem checkAssignment_static {op : AssignOp} {x : Expr} (hn : name.IsText) (hp : x.Plain)
    (h : s.checkAssignment span name op x = .error e) : e.Static := by
  simp only [checkAssignment, except_bind_error] at h
  rcases h with h | ⟨d, -, h | ⟨a, -, h⟩⟩
  · exact lookup_static hn h
  · exact infer_static x hp h
  · repeat' split at h
    all_goals cases h
    all_goals exact Problem.located_static rfl (by simp)

theorem checkPrint_static {operand : Option Expr} (hp : Expr.PlainOption operand)
    (h : s.checkPrint operand = .error e) : e.Static := by
  cases operand with
  | none => cases h
  | some x =>
    simp only [checkPrint, except_bind_error] at h
    rcases h with h | ⟨a, -, h⟩
    · exact infer_static x hp h
    · cases h

theorem checkReturn_static {d : Definition} (hp : d.value.Plain) (h : s.checkReturn d = .error e) : e.Static := by
  simp only [checkReturn, except_bind_error, except_guard_error] at h
  rcases h with h | ⟨a, -, -, rfl⟩
  · exact infer_static d.value hp h
  · exact Problem.located_static rfl (by simp)

end Static

end Scopes

theorem Loop.checkBreak_static {loop : Option Loop} {isLast : Bool} {span : Span} {e : Failure}
    (h : checkBreak loop isLast span = .error e) : e.Static := by
  unfold checkBreak at h
  repeat' split at h
  all_goals cases h
  all_goals exact Problem.located_static rfl (by simp)

namespace Scopes

variable {s t : Scopes} {name : Data} {span : Span}

/-- The same variables are declared with the same types, and the same functions are known. -/
structure Alike (s t : Scopes) : Prop where
  outline : t.outline = s.outline
  functions : t.functions = s.functions

namespace Alike

theorem isSome_stack (h : Alike s t) : t.stack.isSome = s.stack.isSome := by
  have hsome : ∀ u : Scopes, u.stack.isSome = !u.outline.isEmpty := by
    intro u
    cases hu : u.stack <;> simp [Scopes.outline, hu]
  rw [hsome, hsome, h.outline]

theorem ensureKey (h : Alike s t) (name : Data) : t.ensureKey name = s.ensureKey name := by
  simp only [Scopes.ensureKey, h.isSome_stack]

/-- The variables that are found have one type, but perhaps two values. -/
theorem lookup (h : Alike s t) (name : Data) (span : Span) :
    (t.lookup name span).map (·.type) = (s.lookup name span).map (·.type) := by
  have hget : (t.get? name).map (·.type) = (s.get? name).map (·.type) := by
    rw [get?_type, get?_type, h.outline]
  unfold Scopes.lookup
  rw [h.ensureKey name]
  cases s.ensureKey name with
  | error e => rfl
  | ok _ =>
    cases hs : s.get? name <;> cases ht : t.get? name <;> simp only [hs, ht, Option.map_none, Option.map_some,
      reduceCtorEq, Option.some.injEq] at hget
    · rfl
    · exact congrArg Except.ok hget

theorem ensureUndeclared (h : Alike s t) (name : Data) (span : Span) :
    t.ensureUndeclared name span = s.ensureUndeclared name span := by
  have hnone : (t.stack.bind fun k => k.innermost.get? name) = none ↔
      (s.stack.bind fun k => k.innermost.get? name) = none := by
    rw [innermost_none, innermost_none, h.outline]
  unfold Scopes.ensureUndeclared
  rw [h.ensureKey name]
  cases s.ensureKey name with
  | error e => rfl
  | ok _ =>
    cases hs : s.stack.bind fun k => k.innermost.get? name <;>
      cases ht : t.stack.bind fun k => k.innermost.get? name <;> simp [hs, ht] at hnone <;> rfl

theorem resolve (h : Alike s t) (name : Data) (arity : Int) (span : Span) :
    t.resolve name arity span = s.resolve name arity span := by
  simp only [Scopes.resolve, function?, h.functions]

mutual

theorem infer (h : Alike s t) (e : Expr) : t.infer e = s.infer e := by
  cases e with
  | identifier span name =>
    simp only [Scopes.infer]
    rcases except_map_eq.mp (h.lookup name span) with ⟨e, ht, hs⟩ | ⟨d', d, ht, hs, hd⟩
    · rw [ht, hs]
    · rw [ht, hs]
      exact congrArg Except.ok hd
  | binary form span op left right => simp only [Scopes.infer, h.infer left, h.infer right]
  | unary form span op operand => simp only [Scopes.infer, h.infer operand]
  | call span name args =>
    have hargs := fun (f : Signature) (types : List Ty) => h.checkArguments f span args types
    simp only [Scopes.infer, h.resolve, hargs]
  | _ => rfl
termination_by structural e

theorem checkArguments (h : Alike s t) (f : Signature) (span : Span) (args : List Expr) (types : List Ty) :
    t.checkArguments f span args types = s.checkArguments f span args types := by
  cases args with
  | nil => simp only [Scopes.checkArguments]
  | cons e rest =>
    cases types with
    | nil => simp only [Scopes.checkArguments]
    | cons τ types => simp only [Scopes.checkArguments, h.infer e, h.checkArguments f span rest types]
termination_by structural args

end

theorem checkCall (h : Alike s t) (span : Span) (name : Data) (args : List Expr) :
    t.checkCall span name args = s.checkCall span name args := by
  simp only [Scopes.checkCall, h.resolve, h.checkArguments]

theorem checkCondition (h : Alike s t) (e : Expr) : t.checkCondition e = s.checkCondition e := by
  simp only [Scopes.checkCondition, h.infer]

theorem checkDeclaration (h : Alike s t) (span : Span) (type : Ty) (name : Data) (init : Option Expr) :
    t.checkDeclaration span type name init = s.checkDeclaration span type name init := by
  cases init with
  | none => rfl
  | some e => simp only [Scopes.checkDeclaration, h.infer]

theorem checkAssignment (h : Alike s t) (span : Span) (name : Data) (op : AssignOp) (e : Expr) :
    (t.checkAssignment span name op e).map (·.type) = (s.checkAssignment span name op e).map (·.type) := by
  simp only [Scopes.checkAssignment, h.infer]
  rcases except_map_eq.mp (h.lookup name span) with ⟨f, ht, hs⟩ | ⟨d', d, ht, hs, hd⟩
  · rw [ht, hs]
  · simp only [ht, hs, bind, Except.bind]
    cases s.infer e with
    | error f => rfl
    | ok τ =>
      have hmap : (pure d' : Except Failure Declaration).map (·.type) = (pure d : Except Failure Declaration).map (·.type) :=
        congrArg Except.ok hd
      cases op <;> simp only [hd, hmap, apply_ite (Except.map _)]

theorem checkPrint (h : Alike s t) (operand : Option Expr) : t.checkPrint operand = s.checkPrint operand := by
  cases operand with
  | none => rfl
  | some e => simp only [Scopes.checkPrint, h.infer]

theorem checkReturn (h : Alike s t) (d : Definition) : t.checkReturn d = s.checkReturn d := by
  simp only [Scopes.checkReturn, h.infer]

end Alike
end Scopes

namespace Scopes

variable {s : Scopes}

/-- A caller shares its globals with the call only as long as these are open. -/
def Coherent (s : Scopes) : Prop := s.stack = none → ∀ locals rest, s.suspended ≠ .sharing locals :: rest

theorem coherent_of_open (h : s.stack.isSome) : s.Coherent := by
  intro hn
  simp [hn] at h

theorem coherent_enter (s : Scopes) : s.enter.Coherent :=
  coherent_of_open (by cases hs : s.stack <;> simp [enter, hs])

theorem coherent_enterCall (s : Scopes) : s.enterCall.Coherent :=
  coherent_of_open (by cases hs : s.stack <;> simp [enterCall, hs])

/-- The scopes with variables in the innermost frame and with functions after those that are there. -/
def add (s : Scopes) (declarations : List Declaration) (functions : List Function) : Scopes :=
  { s.extend declarations with functions := s.functions ++ functions }

@[simp] theorem functions_add (s : Scopes) (ds : List Declaration) (fs : List Function) :
    (s.add ds fs).functions = s.functions ++ fs := rfl

@[simp] theorem outline_add (s : Scopes) (ds : List Declaration) (fs : List Function) :
    (s.add ds fs).outline = s.outline.modifyHead (· ++ Frame.outline ds) := outline_extend s ds

@[simp] theorem add_nil (s : Scopes) : s.add [] [] = s := by simp [add]

theorem add_functions (s : Scopes) (fs : List Function) : s.add [] fs = { s with functions := s.functions ++ fs } := by
  simp [add]

theorem add_add (s : Scopes) (ds ds' : List Declaration) (fs fs' : List Function) :
    (s.add ds fs).add ds' fs' = s.add (ds ++ ds') (fs ++ fs') := by
  obtain ⟨_ | ⟨g, _ | ⟨f, rest⟩⟩, suspended, functions⟩ := s <;> simp [add, extend, Stack.extend]

theorem Coherent.add (h : s.Coherent) (ds : List Declaration) (fs : List Function) : (s.add ds fs).Coherent := by
  intro hn
  exact h (Option.map_eq_none_iff.mp hn)

/-- Of what was added in a frame of its own only the functions are left. -/
theorem Coherent.leave_add_enter (h : s.Coherent) (ds : List Declaration) (fs : List Function) :
    (s.enter.add ds fs).leave = s.add [] fs := by
  obtain ⟨_ | ⟨g, locals⟩, suspended, functions⟩ := s
  · cases suspended with
    | nil => rfl
    | cons first others =>
      cases first with
      | sharing locals => exact absurd rfl (h rfl locals others)
      | apart stack => rfl
  · simp only [Scopes.add, extend_nil]
    rfl

theorem leaveCall_add_enterCall (s : Scopes) (ds : List Declaration) (fs : List Function) :
    (s.enterCall.add ds fs).leaveCall = s.add [] fs := by
  obtain ⟨_ | ⟨g, _ | ⟨f, rest⟩⟩, suspended, functions⟩ := s <;>
    simp [enterCall, add, extend, Stack.extend, leaveCall]

/-- Changing scopes that are alike is refused for one reason, or adds the same to both. -/
def Grows (f : Scopes → Except Failure Scopes) : Prop :=
  ∀ {s t : Scopes}, s.Alike t → (∃ e, e.Static ∧ f s = .error e ∧ f t = .error e) ∨
    ∃ ds fs, f s = .ok (s.add ds fs) ∧ f t = .ok (t.add ds fs)

theorem grows_declare {d : Declaration} {span : Span} (hn : d.name.IsText) : Grows fun s => s.declare d span := by
  have hopen : ∀ {u : Scopes}, u.ensureUndeclared d.name span = .ok () → u.outline ≠ [] →
      u.declare d span = .ok (u.add [d] []) := by
    intro u hu ho
    rw [declare_of_undeclared ho hu]
    simp [add, extend]
  have hclosed : ∀ {u : Scopes}, u.ensureUndeclared d.name span = .ok () → u.outline = [] →
      u.declare d span = .error (.escape .noFrame) := by
    intro u hu ho
    cases hk : u.stack with
    | none => simp [declare, hu, hk, bind, Except.bind, throw, throwThe, MonadExceptOf.throw]
    | some k => simp [outline, hk] at ho
  intro s t h
  have hu := h.ensureUndeclared d.name span
  cases hs : s.ensureUndeclared d.name span with
  | error e =>
    refine Or.inl ⟨e, ensureUndeclared_static hn hs, ?_, ?_⟩
    · simp [declare, hs, bind, Except.bind]
    · simp [declare, hu, hs, bind, Except.bind]
  | ok _ =>
    by_cases ho : s.outline = []
    · exact Or.inl ⟨.escape .noFrame, trivial, hclosed hs ho, hclosed (hu.trans hs) (h.outline.trans ho)⟩
    · exact Or.inr ⟨[d], [], hopen hs ho, hopen (hu.trans hs) (by rwa [h.outline])⟩

theorem grows_register {d : Definition} (hd : d.Plain) : Grows fun s => s.register d := by
  intro s t h
  have hfun : t.function? = s.function? := by
    unfold function?
    rw [h.functions]
  unfold register
  rw [hd.signature]
  simp only [declareFunction, hfun]
  split
  · split
    · exact Or.inl ⟨_, Problem.located_static rfl (by simp), rfl, rfl⟩
    · exact Or.inl ⟨_, Problem.located_static rfl (by simp), rfl, rfl⟩
  · exact Or.inr ⟨[], _, congrArg Except.ok (add_functions s _).symm, congrArg Except.ok (add_functions t _).symm⟩

end Scopes

namespace Machine

/-- What a check adds: variables in the innermost frame, functions, and lines of the trace. -/
structure Additions where
  declarations : List Declaration
  functions : List Function
  lines : Array String

/-- The state with more in it; all that was there is as it was. -/
def add (m : Machine) (x : Additions) : Machine :=
  { m with scopes := m.scopes.add x.declarations x.functions, trace := m.trace ++ x.lines }

@[simp] theorem add_none (m : Machine) : m.add ⟨[], [], #[]⟩ = m := by simp [add]

theorem add_add (m : Machine) (x y : Additions) :
    (m.add x).add y = m.add ⟨x.declarations ++ y.declarations, x.functions ++ y.functions, x.lines ++ y.lines⟩ := by
  simp [add, Scopes.add_add]

/-- Two states that the static rules cannot tell apart. -/
structure Matches (m n : Machine) : Prop where
  scopes : m.scopes.Alike n.scopes
  left : m.scopes.Coherent
  right : n.scopes.Coherent

theorem Matches.add {m n : Machine} (h : Matches m n) (x : Additions) : Matches (m.add x) (n.add x) :=
  ⟨⟨by simp [Machine.add, h.scopes.outline], by simp [Machine.add, h.scopes.functions]⟩, h.left.add _ _, h.right.add _ _⟩

end Machine

namespace Walk

open Machine (Additions)

variable {α β γ : Type} {settings : Settings}

/-- The end with a result in a state. -/
def ending (result : Except Failure α) (m : Machine) : EStateM.Result Failure Machine α :=
  match result with
  | .ok a => .ok a m
  | .error e => .error e m

/-- The result is one of `goods`, or a refusal for a rule of the language. -/
def Allowed (goods : α → Prop) : Except Failure α → Prop
  | .ok a => goods a
  | .error e => e.Static

/-- From states that match, the walk ends in one way and adds the same to both, and does nothing else. -/
def Static (w : Walk α) (goods : α → Prop) : Prop :=
  ∀ m n : Machine, m.Matches n → ∃ (result : Except Failure α) (x : Additions),
    Allowed goods result ∧ w m = ending result (m.add x) ∧ w n = ending result (n.add x)

section Rules

variable {w : Walk α} {k : α → Walk β} {goods : α → Prop} {goodsb : β → Prop}

theorem Static.imp {goods' : α → Prop} (h : Static w goods) (hg : ∀ a, goods a → goods' a) : Static w goods' := by
  intro m n hmn
  obtain ⟨r, x, hr, hm, hn⟩ := h m n hmn
  cases r with
  | error e => exact ⟨.error e, x, hr, hm, hn⟩
  | ok a => exact ⟨.ok a, x, hg a hr, hm, hn⟩

theorem static_pure {a : α} (h : goods a) : Static (pure a) goods := by
  intro m n _
  refine ⟨.ok a, ⟨[], [], #[]⟩, h, ?_, ?_⟩ <;> simp [ending, pure, EStateM.pure]

theorem Static.bind (h : Static w goods) (hk : ∀ a, goods a → Static (k a) goodsb) : Static (w >>= k) goodsb := by
  intro m n hmn
  obtain ⟨r, x, hr, hm, hn⟩ := h m n hmn
  cases r with
  | error e =>
    refine ⟨.error e, x, hr, ?_, ?_⟩
    · simp only [Bind.bind, EStateM.bind, hm, ending]
    · simp only [Bind.bind, EStateM.bind, hn, ending]
  | ok a =>
    obtain ⟨r', y, hr', hm', hn'⟩ := hk a hr _ _ (hmn.add x)
    rw [Machine.add_add] at hm' hn'
    refine ⟨r', _, hr', Eq.trans ?_ hm', Eq.trans ?_ hn'⟩
    · simp only [Bind.bind, EStateM.bind, hm, ending]
    · simp only [Bind.bind, EStateM.bind, hn, ending]

theorem static_judge {rule : Scopes → Except Failure α} (hsame : ∀ {s t : Scopes}, s.Alike t → rule t = rule s)
    (hstatic : ∀ {s e}, rule s = .error e → e.Static) : Static (judge rule) fun _ => True := by
  intro m n hmn
  have hn := hsame hmn.scopes
  cases hm : rule m.scopes with
  | error e => exact ⟨.error e, ⟨[], [], #[]⟩, hstatic hm, by simp [judge, hm, ending], by simp [judge, hn, hm, ending]⟩
  | ok a => exact ⟨.ok a, ⟨[], [], #[]⟩, trivial, by simp [judge, hm, ending], by simp [judge, hn, hm, ending]⟩

/-- A rule may find variables with different values, if what it finds is not used. -/
theorem static_judge_map {rule : Scopes → Except Failure α} {f : α → γ} {w : Walk β}
    (hsame : ∀ {s t : Scopes}, s.Alike t → (rule t).map f = (rule s).map f)
    (hstatic : ∀ {s e}, rule s = .error e → e.Static) (hw : Static w goodsb) :
    Static (judge rule >>= fun _ => w) goodsb := by
  intro m n hmn
  rcases except_map_eq.mp (hsame hmn.scopes) with ⟨e, hn, hm⟩ | ⟨b, a, hn, hm, -⟩
  · exact ⟨.error e, ⟨[], [], #[]⟩, hstatic hm, by simp [Bind.bind, EStateM.bind, judge, hm, ending],
      by simp [Bind.bind, EStateM.bind, judge, hn, ending]⟩
  · obtain ⟨r, x, hr, hm', hn'⟩ := hw m n hmn
    exact ⟨r, x, hr, by simpa [Bind.bind, EStateM.bind, judge, hm] using hm',
      by simpa [Bind.bind, EStateM.bind, judge, hn] using hn'⟩

theorem static_record {level : Int} {line : String} : Static (record settings level line) fun _ => True := by
  intro m n _
  have hrecord : ∀ m : Machine, record settings level line m =
      .ok () (m.add ⟨[], [], if level ≤ settings.traceLevel then #[line] else #[]⟩) := by
    intro m
    have h : record settings level line m =
      .ok () (if level ≤ settings.traceLevel then { m with trace := m.trace.push line } else m) := rfl
    rw [h]
    split <;> simp [Machine.add]
  exact ⟨.ok (), _, trivial, hrecord m, hrecord n⟩

theorem static_inScope (h : Static w goods) : Static (inScope w) goods := by
  intro m n hmn
  have hin : Machine.Matches { m with scopes := m.scopes.enter } { n with scopes := n.scopes.enter } :=
    ⟨⟨by simp [hmn.scopes.outline], by simp [hmn.scopes.functions]⟩, Scopes.coherent_enter _, Scopes.coherent_enter _⟩
  obtain ⟨r, x, hr, hm, hn⟩ := h _ _ hin
  refine ⟨r, ⟨[], x.functions, x.lines⟩, hr, ?_, ?_⟩
  · cases r <;> simp [inScope, bracket, hm, ending, Machine.add, hmn.left.leave_add_enter]
  · cases r <;> simp [inScope, bracket, hn, ending, Machine.add, hmn.right.leave_add_enter]

theorem static_inBody (h : Static w goods) : Static (inBody w) goods := by
  intro m n hmn
  have hin : Machine.Matches { m with scopes := m.scopes.enterCall } { n with scopes := n.scopes.enterCall } :=
    ⟨⟨by simp [hmn.scopes.outline], by simp [hmn.scopes.functions]⟩, Scopes.coherent_enterCall _,
      Scopes.coherent_enterCall _⟩
  obtain ⟨r, x, hr, hm, hn⟩ := h _ _ hin
  refine ⟨r, ⟨[], x.functions, x.lines⟩, hr, ?_, ?_⟩
  · cases r <;> simp [inBody, bracket, hm, ending, Machine.add, Scopes.leaveCall_add_enterCall]
  · cases r <;> simp [inBody, bracket, hn, ending, Machine.add, Scopes.leaveCall_add_enterCall]

theorem static_change {f : Scopes → Except Failure Scopes} (h : Scopes.Grows f) : Static (change f) fun _ => True := by
  intro m n hmn
  rcases h hmn.scopes with ⟨e, he, hm, hn⟩ | ⟨ds, fs, hm, hn⟩
  · exact ⟨.error e, ⟨[], [], #[]⟩, he, by simp [change, hm, ending], by simp [change, hn, ending]⟩
  · exact ⟨.ok (), ⟨ds, fs, #[]⟩, trivial, by simp [change, hm, ending, Machine.add],
      by simp [change, hn, ending, Machine.add]⟩

/-- A variable that is declared without a value gets the value of its type. -/
theorem static_declare {span : Span} {type : Ty} {name : Data} (ht : type.Simple) (hn : name.IsText) :
    Static (declare span type name none) fun _ => True := by
  obtain ⟨first, hfirst⟩ : ∃ v, type.default? = some v := by
    cases type with
    | other tag => exact ht.elim
    | _ => exact ⟨_, rfl⟩
  have hmake : Declaration.make name type none none = .ok ⟨name, type, first, first⟩ :=
    Declaration.make_ok.mpr ⟨first, hfirst, rfl⟩
  have heq : declare span type name none = change (fun s => s.declare ⟨name, type, first, first⟩ span) >>= fun _ =>
      pure ⟨name, type, first, first⟩ := by
    funext m
    simp [declare, judge, hmake, Bind.bind, EStateM.bind]
  rw [heq]
  exact (static_change (Scopes.grows_declare hn)).bind fun _ _ => static_pure trivial

end Rules

/-- The loop has as many breaks waiting as before. -/
def SamePending (loop loop' : Option Loop) : Prop := loop'.map Loop.pending = loop.map Loop.pending

theorem samePending_afterBranch {thenBlock : List Stmt} {elseBlock : Option (List Stmt)} {loop loop' : Option Loop}
    (h : SamePending loop loop') : SamePending loop (afterBranch thenBlock elseBlock loop') := by
  unfold afterBranch
  split
  · refine Eq.trans ?_ h
    cases loop' with
    | none => rfl
    | some l =>
      simp only [Option.map_some, Loop.consume]
      split <;> rfl
  · exact h

mutual

theorem check_static (settings : Settings) (loop : Option Loop) (isLast : Bool) (s : Stmt) (hp : s.Plain) :
    Static (check settings loop isLast s) (SamePending loop) := by
  cases s with
  | declare span type name init =>
    refine (static_judge (·.checkDeclaration span type name init) (Scopes.checkDeclaration_static hp.2.2)).bind fun _ _ => ?_
    refine (static_judge (·.ensureUndeclared name span) (Scopes.ensureUndeclared_static hp.2.1)).bind fun _ _ => ?_
    exact (static_declare hp.1 hp.2.1).bind fun _ _ => static_pure rfl
  | param span type name => exact (static_declare hp.1 hp.2).bind fun _ _ => static_pure rfl
  | assign span name op e =>
    exact static_judge_map (·.checkAssignment span name op e) (Scopes.checkAssignment_static hp.1 hp.2.2) (static_pure rfl)
  | call span name args =>
    exact (static_judge (·.checkCall span name args) (Scopes.checkCall_static hp)).bind fun _ _ => static_pure rfl
  | define span result name params body value => exact hp.elim
  | print span operand =>
    exact (static_judge (·.checkPrint operand) (Scopes.checkPrint_static hp)).bind fun _ _ => static_pure rfl
  | branch span condition thenBlock elseBlock =>
    refine (static_judge (·.checkCondition condition) (Scopes.checkCondition_static hp.1)).bind fun _ _ => ?_
    refine (static_inScope (checkBlock_static settings loop thenBlock hp.2.1)).bind fun l₁ h₁ => ?_
    refine (checkElse_static settings l₁ elseBlock hp.2.2).bind fun l₂ h₂ => ?_
    exact static_pure (samePending_afterBranch (h₂.trans h₁))
  | loop span condition body =>
    cases body with
    | none => exact hp.2.elim
    | some block =>
      refine (static_judge (·.checkCondition condition) (Scopes.checkCondition_static hp.1)).bind fun _ _ => ?_
      exact (static_inScope (checkBlock_static settings (some .fresh) block hp.2)).bind fun _ _ => static_pure rfl
  | breakOut span => exact (static_judge (fun _ => rfl) Loop.checkBreak_static).bind fun _ _ => static_pure rfl
  | misfit what => exact hp.elim
termination_by structural s

theorem checkBlock_static (settings : Settings) (loop : Option Loop) (block : List Stmt) (hp : Stmt.PlainBlock block) :
    Static (checkBlock settings loop block) (SamePending loop) := by
  cases block with
  | nil => exact static_pure rfl
  | cons s rest =>
    refine (check_static settings loop rest.isEmpty s hp.1).bind fun l₁ h₁ => ?_
    exact (checkBlock_static settings l₁ rest hp.2).imp fun l₂ h₂ => h₂.trans h₁
termination_by structural block

theorem checkElse_static (settings : Settings) (loop : Option Loop) (block : Option (List Stmt))
    (hp : Stmt.PlainElse block) : Static (checkElse settings loop block) (SamePending loop) := by
  cases block with
  | none => exact static_pure rfl
  | some block => exact static_inScope (checkBlock_static settings loop block hp)
termination_by structural block

end

theorem checkBody_static (settings : Settings) (loop : Option Loop) {body : Option (List Stmt)}
    (hp : Stmt.PlainBody body) : Static (checkBody settings loop body) (SamePending loop) := by
  cases body with
  | none => exact hp.elim
  | some block => exact checkBlock_static settings loop block hp

/-- A definition adds its function and nothing else. -/
theorem define_static (settings : Settings) (loop : Option Loop) {d : Definition} (hd : d.Plain) :
    Static (define settings d (checkBlock settings loop d.params) (checkBody settings none d.body)) fun _ => True := by
  have hbody : Static (do
      let _ ← checkBlock settings loop d.params
      let _ ← checkBody settings none d.body
      judge fun s => s.checkReturn d) fun _ => True := by
    refine (checkBlock_static settings loop d.params hd.plainParams).bind fun _ _ => ?_
    refine (checkBody_static settings none hd.body).bind fun _ _ => ?_
    exact static_judge (·.checkReturn d) (Scopes.checkReturn_static hd.value)
  refine (static_change (Scopes.grows_register hd)).bind fun _ _ => ?_
  exact (static_inBody hbody).bind fun _ _ => static_record

theorem check_static_top (settings : Settings) (loop : Option Loop) (isLast : Bool) {s : Stmt} (hp : s.PlainTop) :
    Static (check settings loop isLast s) (SamePending loop) := by
  cases s with
  | define span result name params body value =>
    exact (define_static settings loop (d := ⟨span, result, name, params, body, value⟩) hp).bind fun _ _ => static_pure rfl
  | _ => exact check_static settings loop isLast _ hp

theorem checkBlock_static_top (settings : Settings) (loop : Option Loop) {block : List Stmt}
    (hp : ∀ s ∈ block, s.PlainTop) : Static (checkBlock settings loop block) (SamePending loop) := by
  induction block generalizing loop with
  | nil => exact static_pure rfl
  | cons s rest ih =>
    refine (check_static_top settings loop rest.isEmpty (hp s (.head _))).bind fun l₁ h₁ => ?_
    exact (ih l₁ fun t ht => hp t (.tail _ ht)).imp fun l₂ h₂ => h₂.trans h₁

theorem statements_static (settings : Settings) {block : List Stmt} (hp : ∀ s ∈ block, s.PlainTop) :
    Static (statements settings false block) fun _ => True := by
  induction block with
  | nil => exact static_pure trivial
  | cons s rest ih =>
    have hs := check_static_top settings none rest.isEmpty (hp s (.head _))
    have hrest := ih fun t ht => hp t (.tail _ ht)
    obtain ⟨k, hk⟩ : ∃ k, s.kind? = some k := by
      cases s with
      | misfit what => exact (hp _ (.head _)).elim
      | _ => exact ⟨_, rfl⟩
    simp only [statements, hk, Bool.false_eq_true, if_false]
    exact static_record.bind fun _ _ => hs.bind fun _ _ => hrest

/-- Checking what a source can say changes nothing that is there. Whatever values the variables have, the check of a block,
in a loop or outside of one, and that of a whole program ends in one way: well, and then as many breaks wait as before, or
with a refusal that is no fault of a run. To both states it adds the same variables in the innermost frame. -/
theorem check_leaves_state (settings : Settings) {block : List Stmt} (hp : ∀ s ∈ block, s.PlainTop) :
    (∀ loop, Static (checkBlock settings loop block) (SamePending loop)) ∧
      ∀ span, Static (program settings false ⟨span, block⟩) fun _ => True :=
  ⟨fun loop => checkBlock_static_top settings loop hp, fun _ => static_inScope (statements_static settings hp)⟩

/-- The statements `while (n > 0) { number m = 1 / n; n = m; break; } print 1 / n;`. -/
def dividing : List Stmt :=
  let n : Expr := .identifier .zero (.text "n")
  let quotient : Expr := .binary .expression .zero (.arith .div) (.literal .zero (.number 1.0)) n
  [.loop .zero (.binary .condition .zero .gt n (.literal .zero (.number 0.0)))
    (some [.declare .zero .number (.text "m") (some quotient),
      .assign .zero (.text "n") .set (.identifier .zero (.text "m")), .breakOut .zero]),
    .print .zero (some quotient)]

/-- A state with a global `n`. -/
def holding (n : Float) : Machine := ⟨⟨some ⟨[⟨.text "n", .number, .number n, .number 0.0⟩], []⟩, [], []⟩, #[], 0, #[]⟩

theorem check_leaves_state_dividing : (∀ s ∈ dividing, s.PlainTop) ∧ (holding 0.0).Matches (holding 3.0) ∧
    ∃ result x, Allowed (SamePending none) result ∧
      checkBlock .standard none dividing (holding 0.0) = ending result ((holding 0.0).add x) ∧
      checkBlock .standard none dividing (holding 3.0) = ending result ((holding 3.0).add x) := by
  have hp : ∀ s ∈ dividing, s.PlainTop := by
    simp [dividing, Stmt.PlainTop, Stmt.Plain, Stmt.PlainBody, Stmt.PlainBlock, Expr.PlainOption, Expr.Plain, BinaryOp.Fits,
      Value.type?, Data.IsText, Ty.Simple, AssignOp.Known]
  have ha : (holding 0.0).Matches (holding 3.0) :=
    ⟨⟨rfl, rfl⟩, Scopes.coherent_of_open rfl, Scopes.coherent_of_open rfl⟩
  exact ⟨hp, ha, (check_leaves_state .standard hp).1 none _ _ ha⟩

end Walk
end CheckedScript
