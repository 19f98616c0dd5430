import CheckedScript.Proofs.Outline

/-! What each static rule asks for: one equivalence for each rule, between its success and the facts that it looks at. -/

namespace CheckedScript

section Except

variable {ε α β : Type} {e : ε} {a b : α}

theorem except_bind_ok {x : Except ε α} {k : α → Except ε β} {b : β} :
    (x >>= k) = .ok b ↔ ∃ a, x = .ok a ∧ k a = .ok b := by
  cases x <;> simp [bind, Except.bind]

theorem except_pure_ok : (pure a : Except ε α) = .ok b ↔ a = b := by
  simp [pure, Except.pure]

theorem except_guard_ok {c : Prop} [Decidable c] {x : Except ε α} :
    (if c then x else throw e) = .ok b ↔ c ∧ x = .ok b := by
  by_cases hc : c <;> simp [hc, throw, throwThe, MonadExceptOf.throw]

end Except

/-- A variable of the type `target` can be given a value of the type `t` by the operator. -/
def AssignOp.Takes (op : AssignOp) (target t : Ty) : Prop :=
  match op with
  | set => t.same target
  | _ => (op = compound .add ∧ target.same .string) ∨ (target.same .number ∧ t.same .number)

namespace Scopes

variable {s : Scopes} {name : Data} {span : Span} {e : Expr} {t : Ty}

theorem lookup_ok {d : Declaration} : s.lookup name span = .ok d ↔ s.ensureKey name = .ok () ∧ s.get? name = some d := by
  unfold lookup
  rw [except_bind_ok]
  cases s.ensureKey name <;> cases s.get? name <;> simp [pure, Except.pure, throw, throwThe, MonadExceptOf.throw]

theorem resolve_ok {arity : Int} {f : Function} :
    s.resolve name arity span = .ok f ↔ s.function? name arity = some f := by
  unfold resolve
  cases s.function? name arity <;> simp

theorem ensureUndeclared_ok : s.ensureUndeclared name span = .ok () ↔
    s.ensureKey name = .ok () ∧ (s.stack.bind fun k => k.innermost.get? name) = none := by
  unfold ensureUndeclared
  rw [except_bind_ok]
  cases s.ensureKey name <;> cases s.stack.bind fun k => k.innermost.get? name <;>
    simp [pure, Except.pure, throw, throwThe, MonadExceptOf.throw]

theorem infer_identifier_ok : s.infer (.identifier span name) = .ok t ↔
    ∃ d, s.lookup name span = .ok d ∧ d.type = t := by
  simp only [infer, except_bind_ok, except_pure_ok]

theorem infer_binary_ok {form : Form} {op : BinaryOp} {left right : Expr} :
    s.infer (.binary form span op left right) = .ok t ↔
      ∃ a, s.infer left = .ok a ∧ ∃ b, s.infer right = .ok b ∧ op.type form span a b = .ok t := by
  simp only [infer, except_bind_ok]

theorem infer_unary_ok {form : Form} {op : UnaryOp} :
    s.infer (.unary form span op e) = .ok t ↔ ∃ a, s.infer e = .ok a ∧ op.type form span a = .ok t := by
  simp only [infer, except_bind_ok]

theorem infer_call_ok {args : List Expr} : s.infer (.call span name args) = .ok t ↔
    ∃ f, s.checkCall span name args = .ok f ∧ f.signature.result = t := by
  simp only [infer, checkCall, except_bind_ok, except_pure_ok]
  constructor
  · rintro ⟨f, hf, u, hu, ht⟩
    exact ⟨f, ⟨f, hf, u, hu, rfl⟩, ht⟩
  · rintro ⟨_, ⟨f, hf, u, hu, rfl⟩, ht⟩
    exact ⟨f, hf, u, hu, ht⟩

theorem checkCall_ok {args : List Expr} {f : Function} : s.checkCall span name args = .ok f ↔
    s.resolve name args.length span = .ok f ∧ s.checkArguments f.signature span args f.signature.params = .ok () := by
  simp only [checkCall, except_bind_ok, except_pure_ok]
  constructor
  · rintro ⟨f, hf, u, hu, rfl⟩
    exact ⟨hf, hu⟩
  · rintro ⟨hf, hu⟩
    exact ⟨f, hf, (), hu, rfl⟩

theorem checkArguments_cons_ok {f : Signature} {args : List Expr} {types : List Ty} :
    s.checkArguments f span (e :: args) (t :: types) = .ok () ↔
      (∃ a, s.infer e = .ok a ∧ a.same t) ∧ s.checkArguments f span args types = .ok () := by
  simp only [checkArguments, except_bind_ok, except_guard_ok]
  constructor
  · rintro ⟨a, ha, hs, hr⟩
    exact ⟨⟨a, ha, hs⟩, hr⟩
  · rintro ⟨⟨a, ha, hs⟩, hr⟩
    exact ⟨a, ha, hs, hr⟩

theorem checkCondition_ok : s.checkCondition e = .ok () ↔ ∃ a, s.infer e = .ok a ∧ a.same .boolean := by
  simp only [checkCondition, except_bind_ok, except_guard_ok, except_pure_ok, and_true]

theorem checkDeclaration_ok {init : Option Expr} : s.checkDeclaration span t name init = .ok () ↔
    ∀ e, init = some e → ∃ a, s.infer e = .ok a ∧ a.same t := by
  cases init with
  | none => simp [checkDeclaration, pure, Except.pure]
  | some e => simp [checkDeclaration, except_bind_ok, except_guard_ok, except_pure_ok]

theorem checkAssignment_ok {op : AssignOp} {d : Declaration} : s.checkAssignment span name op e = .ok d ↔
    s.lookup name span = .ok d ∧ ∃ a, s.infer e = .ok a ∧ op.Takes d.type a := by
  have split_or : ∀ {c c' : Prop} [Decidable c] [Decidable c'] {x : Except Failure Declaration} {f : Failure},
      (if c then x else if c' then x else throw f) = .ok d ↔ (c ∨ c') ∧ x = .ok d := by
    intro c c' _ _ x f
    by_cases hc : c <;> simp [hc, except_guard_ok]
  cases op <;>
    simp only [checkAssignment, AssignOp.Takes, except_bind_ok, Bool.and_eq_true, decide_eq_true_eq, split_or,
      except_guard_ok, except_pure_ok]
  all_goals
    constructor
    · rintro ⟨d', hd, a, ha, hp, rfl⟩
      exact ⟨hd, a, ha, hp⟩
    · rintro ⟨hd, a, ha, hp⟩
      exact ⟨d, hd, a, ha, hp, rfl⟩

theorem checkPrint_ok {operand : Option Expr} : s.checkPrint operand = .ok () ↔
    ∀ e, operand = some e → ∃ a, s.infer e = .ok a := by
  cases operand with
  | none => simp [checkPrint]
  | some e => simp only [checkPrint, except_bind_ok, except_pure_ok, and_true, Option.some.injEq, forall_eq']

theorem checkReturn_ok {d : Definition} : s.checkReturn d = .ok () ↔
    ∃ a, s.infer d.value = .ok a ∧ a.same d.result := by
  simp only [checkReturn, except_bind_ok, except_guard_ok, except_pure_ok, and_true]

end Scopes
end CheckedScript
