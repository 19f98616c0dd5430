import CheckedScript.Proofs.Subtrees

/-! The shape of a tree that was read from a source: more than plain, its operands group as the grammar says. A condition is
no operand of arithmetic; sums and products group to the left, and products before sums; a minus before a number is part of
the number; and a step by one is the value of an assignment to the variable that it steps. -/

namespace CheckedScript

open Grammar

/-- Does the operator build sums, and not products? -/
def ArithOp.isSum : ArithOp → Bool
  | add | sub => true
  | mul | div | mod => false

namespace BinaryOp

def arithmetic : List BinaryOp := [arith .add, arith .sub, arith .mul, arith .div, arith .mod]

def conditional : List BinaryOp := [eq, ne, gt, ge, lt, le, and, or]

theorem mem_arithmetic_of_fits {op : BinaryOp} (h : op.Fits .expression) : op ∈ arithmetic := by
  cases op with
  | arith o => cases o <;> decide
  | _ => exact h.elim

theorem mem_conditional_of_fits {op : BinaryOp} (h : op.Fits .condition) : op ∈ conditional := by
  cases op with
  | arith | unknown => exact h.elim
  | _ => decide

end BinaryOp

theorem UnaryOp.eq_not_of_fits {op : UnaryOp} (h : op.Fits .condition) : op = .not := by
  cases op with
  | not => rfl
  | _ => exact h.elim

theorem UnaryOp.mem_of_fits {op : UnaryOp} (h : op.Fits .expression) : op ∈ [neg, inc, dec] := by
  cases op with
  | not | unknown => exact h.elim
  | _ => decide

theorem AssignOp.Known.mem {op : AssignOp} (h : op.Known) : op ∈ known := by
  cases op with
  | set => decide
  | compound o => cases o <;> decide
  | unknown => exact h.elim

namespace Expr

def isCondition : Expr → Bool
  | binary .condition _ _ _ _ | unary .condition _ _ _ => true
  | _ => false

/-- Is it one of the operations of arithmetic, with two operands? -/
def isArithmetic : Expr → Bool
  | binary .expression _ _ _ _ => true
  | _ => false

/-- Is it a sum or a difference? -/
def isSum : Expr → Bool
  | binary .expression _ (.arith op) _ _ => op.isSum
  | _ => false

/-- Is it written as a number? -/
def isNumber : Expr → Bool
  | literal _ (.number _) => true
  | _ => false

/-- Is it a step by one? -/
def isStep : Expr → Bool
  | unary _ _ .inc _ | unary _ _ .dec _ => true
  | _ => false

/-- Nothing is absent here: a literal has a value, and what stands here is an expression. -/
def Present : Expr → Prop
  | literal _ v => v.type?.isSome
  | untyped _ _ | missing | misfit _ => False
  | _ => True

/-- The operands are those that the grammar allows for the operator. -/
def Grouped : Expr → Prop
  | binary .expression _ (.arith op) left right =>
    left.isCondition = false ∧ right.isCondition = false ∧
      if op.isSum then right.isSum = false else left.isSum = false ∧ right.isArithmetic = false
  | unary .expression _ op operand => op = .neg ∧ operand.isCondition = false ∧ operand.isNumber = false
  | _ => True

theorem isSum_of_not_isArithmetic {e : Expr} (h : e.isArithmetic = false) : e.isSum = false := by
  cases e with
  | binary form s op a b =>
    cases form with
    | expression => cases h
    | condition => rfl
  | _ => rfl

theorem isNumber_eq_false {e : Expr} (h : ∀ span z, e ≠ .literal span (.number z)) : e.isNumber = false := by
  cases e with
  | literal span v =>
    cases v with
    | number z => exact (h span z rfl).elim
    | _ => rfl
  | _ => rfl

theorem Plain.present {e : Expr} (h : e.Plain) : e.Present := by
  cases e with
  | literal => exact h
  | untyped | missing | misfit => exact h.elim
  | _ => trivial

end Expr

namespace Stmt

/-- Nothing is absent but what may be: an initializer, the operand of a `print` and the second block of a branch. -/
def Present : Stmt → Prop
  | define _ _ _ _ body _ | loop _ _ body => body.isSome
  | misfit _ => False
  | _ => True

theorem PlainTop.present {s : Stmt} (h : s.PlainTop) : s.Present := by
  cases s with
  | define s result name params body value =>
    cases body with
    | none => exact h.body.elim
    | some body => rfl
  | loop s condition body =>
    cases body with
    | none => exact h.2.elim
    | some body => rfl
  | misfit => exact h.elim
  | _ => trivial

theorem Plain.kind_ne {s : Stmt} (h : s.Plain) : s.kind? ≠ some .definition := by
  cases s with
  | define | misfit => exact h.elim
  | _ => exact fun hk => by cases hk

end Stmt

namespace Grammar

variable {o : Token}

theorem Terminal.sum_op (h : Terminal addOp o) : ∃ op, BinaryOp.ofText o.text = .arith op ∧ op.isSum = true := by
  have hk := h.kind_mem
  simp only [addOp, List.mem_cons, List.not_mem_nil, or_false] at hk
  rcases hk with hk | hk <;> rw [h.lexical.faithful _ (by rw [hk]; rfl)]
  · exact ⟨.add, rfl, rfl⟩
  · exact ⟨.sub, rfl, rfl⟩

theorem Terminal.product_op (h : Terminal mulOp o) : ∃ op, BinaryOp.ofText o.text = .arith op ∧ op.isSum = false := by
  have hk := h.kind_mem
  simp only [mulOp, List.mem_cons, List.not_mem_nil, or_false] at hk
  rcases hk with hk | hk | hk <;> rw [h.lexical.faithful _ (by rw [hk]; rfl)]
  · exact ⟨.mul, rfl, rfl⟩
  · exact ⟨.div, rfl, rfl⟩
  · exact ⟨.mod, rfl, rfl⟩

/-- What the outermost node of a part is not. -/
def ExprPart.Root : ExprPart → Expr → Prop
  | expr, e => e.isCondition = false
  | term, e => e.isCondition = false ∧ e.isSum = false
  | factor, e | atom, e | call, e => e.isCondition = false ∧ e.isArithmetic = false
  | value, _ | side, _ | header, _ | cond, _ | negand, _ | args, _ | someArgs, _ => True

/-- The tree of a part groups, and so does all that is in it. -/
def Groups (n : ExprPart) (e : Expr) : Prop := n.Root e ∧ e.Every Expr.Grouped

section Groups

variable {m n : ExprPart} {e x y : Expr} {span : Span}

theorem Groups.part (h : ∀ t ∈ [e], Groups m t) (hroot : m.Root e → n.Root e) : ∀ t ∈ [e], Groups n t := by
  have he := List.forall_mem_singleton.mp h
  exact List.forall_mem_singleton.mpr ⟨hroot he.1, he.2⟩

theorem Groups.leaf (hroot : n.Root e) (he : e.Grouped) (hleaf : e.children = []) : ∀ t ∈ [e], Groups n t := by
  refine List.forall_mem_singleton.mpr ⟨hroot, Expr.every_iff.mpr ⟨he, ?_⟩⟩
  simp [hleaf]

theorem Groups.binary {form : Form} {op : BinaryOp} (hroot : n.Root (.binary form span op x y))
    (he : (Expr.binary form span op x y).Grouped) (hx : x.Every Expr.Grouped) (hy : y.Every Expr.Grouped) :
    ∀ t ∈ [Expr.binary form span op x y], Groups n t := by
  refine List.forall_mem_singleton.mpr ⟨hroot, Expr.every_iff.mpr ⟨he, ?_⟩⟩
  exact List.forall_mem_cons.mpr ⟨hx, List.forall_mem_singleton.mpr hy⟩

theorem Groups.unary {form : Form} {op : UnaryOp} (hroot : n.Root (.unary form span op x))
    (he : (Expr.unary form span op x).Grouped) (hx : x.Every Expr.Grouped) :
    ∀ t ∈ [Expr.unary form span op x], Groups n t :=
  List.forall_mem_singleton.mpr ⟨hroot, Expr.every_iff.mpr ⟨he, List.forall_mem_singleton.mpr hx⟩⟩

end Groups

/-- By the production at the root: each gives its node the operands that it may have. -/
theorem DerivesExpr.groups {n : ExprPart} {w : List Token} {e : n.Tree} (h : DerivesExpr n w e) :
    ∀ t ∈ n.trees e, Groups n t := by
  induction h with
  | value_expr _ ih | value_cond _ ih | side_expr _ ih | side_cond _ ih | header_side _ ih =>
    exact Groups.part ih fun _ => trivial
  | negand_atom _ ih | negand_cond _ ih => exact Groups.part ih fun _ => trivial
  | expr_term _ ih => exact Groups.part ih fun hroot => hroot.1
  | term_factor _ ih => exact Groups.part ih fun hroot => ⟨hroot.1, Expr.isSum_of_not_isArithmetic hroot.2⟩
  | factor_atom _ ih | atom_call _ ih => exact Groups.part ih id
  | header_binary _ _ _ ihx ihy | cond_binary _ _ _ _ _ ihx ihy =>
    exact Groups.binary trivial trivial (List.forall_mem_singleton.mp ihx).2 (List.forall_mem_singleton.mp ihy).2
  | cond_not _ _ ih => exact Groups.unary trivial trivial (List.forall_mem_singleton.mp ih).2
  | expr_binary _ ho _ ihx ihy =>
    obtain ⟨op, hop, hsum⟩ := ho.sum_op
    obtain ⟨hx, hx'⟩ := List.forall_mem_singleton.mp ihx
    obtain ⟨hy, hy'⟩ := List.forall_mem_singleton.mp ihy
    refine Groups.binary rfl ?_ hx' hy'
    rw [hop]
    exact ⟨hx, hy.1, by rw [if_pos hsum]; exact hy.2⟩
  | term_binary _ ho _ ihx ihy =>
    obtain ⟨op, hop, hsum⟩ := ho.product_op
    obtain ⟨hx, hx'⟩ := List.forall_mem_singleton.mp ihx
    obtain ⟨hy, hy'⟩ := List.forall_mem_singleton.mp ihy
    refine Groups.binary ⟨rfl, by rw [hop]; exact hsum⟩ ?_ hx' hy'
    rw [hop]
    exact ⟨hx.1, hy.1, by rw [if_neg (by simp [hsum])]; exact ⟨hx.2, hy.2⟩⟩
  | factor_folded | atom_literal | atom_boolean | atom_name => exact Groups.leaf ⟨rfl, rfl⟩ trivial rfl
  | factor_negated _ _ he ih =>
    obtain ⟨hx, hx'⟩ := List.forall_mem_singleton.mp ih
    exact Groups.unary ⟨rfl, rfl⟩ ⟨rfl, hx.1, Expr.isNumber_eq_false he⟩ hx'
  | call _ _ _ _ ih =>
    exact List.forall_mem_singleton.mpr ⟨⟨rfl, rfl⟩, Expr.every_iff.mpr ⟨trivial, fun c hc => (ih c hc).2⟩⟩
  | args_none => simp [ExprPart.trees]
  | args_some _ ih => exact fun t ht => ⟨trivial, (ih t ht).2⟩
  | someArgs_one _ ih => exact Groups.part ih fun _ => trivial
  | someArgs_more _ _ _ ihe ihes => exact List.forall_mem_cons.mpr ⟨List.forall_mem_singleton.mp ihe, ihes⟩

end Grammar

namespace Program

/-- What the tree of a source is like. -/
structure Shape (p : Program) : Prop where
  /-- Functions are defined at the outermost level only. -/
  definitions : ∀ s ∈ p.statements, ∀ c ∈ s.children, ∀ q ∈ c.nodes, q.kind? ≠ some .definition
  /-- Operands, conditions, arguments, assigned and returned values are there, and so are bodies. -/
  present_exprs : ∀ x ∈ p.exprs, x.Present
  present_stmts : ∀ s ∈ p.stmts, s.Present
  /-- Each operator stands in the form that it belongs to. -/
  binary_expression : ∀ span op left right, .binary .expression span op left right ∈ p.exprs → op ∈ BinaryOp.arithmetic
  binary_condition : ∀ span op left right, .binary .condition span op left right ∈ p.exprs → op ∈ BinaryOp.conditional
  unary_expression : ∀ span op x, .unary .expression span op x ∈ p.exprs → op ∈ [UnaryOp.neg, .inc, .dec]
  unary_condition : ∀ span op x, .unary .condition span op x ∈ p.exprs → op = .not
  assignments : ∀ span name op value, .assign span name op value ∈ p.stmts → op ∈ AssignOp.known
  /-- A step by one is all that its statement assigns, and it steps the variable that it is assigned to. -/
  steps : ∀ s ∈ p.stmts, ∀ e ∈ s.exprs, ∀ x ∈ e.nodes, x.isStep = true → s.Steps x
  /-- No operand of arithmetic is a condition. -/
  operands : ∀ span op left right, .binary .expression span op left right ∈ p.exprs →
    left.isCondition = false ∧ right.isCondition = false
  negated : ∀ span op x, .unary .expression span op x ∈ p.exprs → x.isCondition = false
  /-- A minus before a number is part of the number. -/
  folded : ∀ span x, .unary .expression span .neg x ∈ p.exprs → x.isNumber = false
  /-- Sums group to the left, and products before sums and to the left. -/
  sums : ∀ span op left right, .binary .expression span (.arith op) left right ∈ p.exprs → op.isSum = true →
    right.isSum = false
  products : ∀ span op left right, .binary .expression span (.arith op) left right ∈ p.exprs → op.isSum = false →
    left.isSum = false ∧ right.isArithmetic = false

section Parse

variable {source : String} {p : Program}

/-- An expression of a source groups, or it is what a step assigns. -/
theorem grouped_or_steps (h : parse source = .ok p) {s : Stmt} (hs : s ∈ p.stmts) {e x : Expr} (he : e ∈ s.exprs)
    (hx : x ∈ e.nodes) : x.Grouped ∨ s.Steps x := by
  rcases springs_of_parse h s hs with hderived | ⟨y, hy⟩
  · obtain ⟨n, u, t, ht, hmem, -⟩ := hderived e he
    exact .inl ((ht.groups e hmem).2 x hx)
  · obtain ⟨span, inner, place, name, op, rfl, rfl⟩ := hy
    obtain rfl := List.mem_singleton.mp he
    simp only [Expr.nodes, List.mem_cons, List.not_mem_nil, or_false] at hx
    rcases hx with rfl | rfl
    · exact .inr ⟨span, inner, place, name, op, rfl, rfl⟩
    · exact .inl trivial

theorem exprs_grouped (h : parse source = .ok p) {x : Expr} (hx : x ∈ p.exprs) : x.Grouped ∨ ∃ s : Stmt, s.Steps x := by
  obtain ⟨s, hs, e, he, hx⟩ := mem_exprs.mp hx
  exact (grouped_or_steps h hs he hx).imp_right fun hstep => ⟨s, hstep⟩

/-- A binary operation of a source is no step, so its operands are those that the grammar allows. -/
theorem grouped_binary (h : parse source = .ok p) {span : Span} {op : BinaryOp} {left right : Expr}
    (hx : .binary .expression span op left right ∈ p.exprs) : ∃ o, op = .arith o ∧
      left.isCondition = false ∧ right.isCondition = false ∧
      if o.isSum then right.isSum = false else left.isSum = false ∧ right.isArithmetic = false := by
  have hfits := ((plain_of_parse h).exprs _ hx).1
  rcases exprs_grouped h hx with hx | ⟨s, _, _, _, _, _, -, heq⟩
  · cases op with
    | arith o => exact ⟨o, rfl, hx⟩
    | _ => exact hfits.elim
  · cases heq

theorem grouped_unary (h : parse source = .ok p) {span : Span} {op : UnaryOp} {x : Expr}
    (hx : .unary .expression span op x ∈ p.exprs) : x.isCondition = false ∧ x.isNumber = false := by
  rcases exprs_grouped h hx with hx | ⟨s, _, _, _, _, _, -, heq⟩
  · exact hx.2
  · cases heq
    exact ⟨rfl, rfl⟩

theorem steps_of_isStep (h : parse source = .ok p) {s : Stmt} (hs : s ∈ p.stmts) {e x : Expr} (he : e ∈ s.exprs)
    (hx : x ∈ e.nodes) (hstep : x.isStep = true) : s.Steps x := by
  rcases grouped_or_steps h hs he hx with hgrouped | hsteps
  · -- what groups has no step by one, in either form
    have hplain := (plain_of_parse h).exprs x (mem_exprs.mpr ⟨s, hs, e, he, hx⟩)
    unfold Expr.isStep at hstep
    split at hstep
    · rename_i form _ _
      cases form with
      | expression => cases hgrouped.1
      | condition => exact hplain.1.elim
    · rename_i form _ _
      cases form with
      | expression => cases hgrouped.1
      | condition => exact hplain.1.elim
    · cases hstep
  · exact hsteps

/-- The tree of every source that can be read has the shape that the grammar gives it. -/
theorem parse_shape (h : parse source = .ok p) : p.Shape where
  definitions s hs c hc q hq := ((plain_of_parse h s hs).children c hc).every q hq |>.kind_ne
  present_exprs x hx := ((plain_of_parse h).exprs x hx).present
  present_stmts s hs := ((plain_of_parse h).stmts s hs).present
  binary_expression _ _ _ _ hx := BinaryOp.mem_arithmetic_of_fits ((plain_of_parse h).exprs _ hx).1
  binary_condition _ _ _ _ hx := BinaryOp.mem_conditional_of_fits ((plain_of_parse h).exprs _ hx).1
  unary_expression _ _ _ hx := UnaryOp.mem_of_fits ((plain_of_parse h).exprs _ hx).1
  unary_condition _ _ _ hx := UnaryOp.eq_not_of_fits ((plain_of_parse h).exprs _ hx).1
  assignments _ _ _ _ hs := ((plain_of_parse h).stmts _ hs).2.1.mem
  steps s hs e he x hx hstep := steps_of_isStep h hs he hx hstep
  operands _ _ _ _ hx := by
    obtain ⟨o, rfl, hleft, hright, -⟩ := grouped_binary h hx
    exact ⟨hleft, hright⟩
  negated _ _ _ hx := (grouped_unary h hx).1
  folded _ _ hx := (grouped_unary h hx).2
  sums _ _ _ _ hx hop := by
    obtain ⟨o, heq, -, -, hgroup⟩ := grouped_binary h hx
    cases heq
    rwa [if_pos hop] at hgroup
  products _ _ _ _ hx hop := by
    obtain ⟨o, heq, -, -, hgroup⟩ := grouped_binary h hx
    cases heq
    rwa [if_neg (by simp [hop])] at hgroup

/-- A source with a function, a step, a sum of products, a folded number and conditions in both forms. -/
def grouping : String :=
  "def number f(number a) \x7b return - a; \x7d number x = 1 - 2 - 3 * -4 % f(5); " ++
    "while (x < 9) \x7b x++; if (!(x == 8)) \x7b x -= 1 + x; \x7d \x7d"

theorem parse_shape_grouping : ∃ p, parse grouping = .ok p ∧ p.stmts.length = 7 ∧
    (p.exprs.filter Expr.isStep).length = 1 ∧ (p.exprs.filter Expr.isSum).length = 3 ∧
    (p.exprs.filter Expr.isArithmetic).length = 5 ∧ (p.exprs.filter Expr.isCondition).length = 3 ∧ p.Shape := by
  obtain ⟨p, hp, hstmts, hsteps, hsums, harith, hconds⟩ := exists_of_parse grouping String.ofList_append.symm
    (fun p => p.stmts.length = 7 ∧ (p.exprs.filter Expr.isStep).length = 1 ∧ (p.exprs.filter Expr.isSum).length = 3 ∧
      (p.exprs.filter Expr.isArithmetic).length = 5 ∧ (p.exprs.filter Expr.isCondition).length = 3) (by decide +kernel)
  exact ⟨p, hp, hstmts, hsteps, hsums, harith, hconds, parse_shape hp⟩

end Parse

end Program
end CheckedScript
