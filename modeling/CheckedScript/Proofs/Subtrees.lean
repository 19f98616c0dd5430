import CheckedScript.Proofs.Nesting

/-! The nodes of a tree. The expressions of a program are those that stand in one of its statements, with all that is inside
them, and the statements are those of the outermost level with those of their blocks. What is plain has plain children, so
every node of a plain tree is plain; every node has its place in the tree of ranges; and what stands in a statement of a
source is derived by the grammar from tokens of the source. -/

namespace CheckedScript

theorem RangeTree.Has.trans {r m n : RangeTree} (h : r.Has m) (hn : m.Has n) : r.Has n := by
  induction h with
  | self => exact hn
  | child hc _ ih => exact .child hc (ih hn)

namespace Expr

/-- The expressions that stand directly in an expression. -/
def children : Expr → List Expr
  | binary _ _ _ a b => [a, b]
  | unary _ _ _ a => [a]
  | call _ _ args => args
  | literal _ _ | untyped _ _ | identifier _ _ | missing | misfit _ => []

mutual

/-- The expression and all that is inside it, each node before its children. -/
def nodes : Expr → List Expr
  | binary form s op a b => binary form s op a b :: (nodes a ++ nodes b)
  | unary form s op a => unary form s op a :: nodes a
  | call s name args => call s name args :: allNodes args
  | e => [e]

def allNodes : List Expr → List Expr
  | [] => []
  | e :: rest => nodes e ++ allNodes rest

end

theorem allNodes_eq (es : List Expr) : allNodes es = es.flatMap nodes := by
  induction es with
  | nil => rfl
  | cons e es ih => rw [allNodes, ih, List.flatMap_cons]

theorem nodes_eq (e : Expr) : e.nodes = e :: e.children.flatMap nodes := by
  cases e with
  | binary => simp [nodes, children]
  | unary => simp [nodes, children]
  | call => simp [nodes, children, allNodes_eq]
  | _ => rfl

theorem sizeOf_lt_of_mem_children {e c : Expr} (h : c ∈ e.children) : sizeOf c < sizeOf e := by
  cases e with
  | binary form s op a b =>
    simp only [children, List.mem_cons, List.not_mem_nil, or_false] at h
    rcases h with rfl | rfl <;> simp only [binary.sizeOf_spec] <;> omega
  | unary form s op a =>
    obtain rfl := List.mem_singleton.mp h
    simp only [unary.sizeOf_spec]
    omega
  | call s name args =>
    have hargs : sizeOf c < sizeOf args := List.sizeOf_lt_of_mem h
    simp only [call.sizeOf_spec]
    omega
  | _ => cases h

/-- What holds of an expression as soon as it holds of its children holds of all expressions. -/
@[elab_as_elim]
theorem induction_children {motive : Expr → Prop} (step : ∀ e, (∀ c ∈ e.children, motive c) → motive e) (e : Expr) :
    motive e :=
  step e fun c _ => induction_children step c
termination_by sizeOf e
decreasing_by exact sizeOf_lt_of_mem_children ‹_›

/-- Every node of the expression has the property. -/
def Every (P : Expr → Prop) (e : Expr) : Prop := ∀ x ∈ e.nodes, P x

section Every

variable {P Q : Expr → Prop} {e : Expr}

theorem every_iff : e.Every P ↔ P e ∧ ∀ c ∈ e.children, c.Every P := by
  simp only [Every, nodes_eq e, List.forall_mem_cons, List.mem_flatMap, forall_exists_index, and_imp]
  exact and_congr_right' ⟨fun h c hc x hx => h x c hc hx, fun h x c hc hx => h c hc x hx⟩

theorem Every.self (h : e.Every P) : P e := (every_iff.mp h).1

theorem Every.child (h : e.Every P) {c : Expr} (hc : c ∈ e.children) : c.Every P := (every_iff.mp h).2 c hc

theorem Every.imp (h : e.Every P) (hpq : ∀ x, P x → Q x) : e.Every Q := fun x hx => hpq x (h x hx)

/-- A property that goes from a node to its children is one of every node. -/
theorem every_of_children (hP : ∀ e, P e → ∀ c ∈ e.children, P c) (h : P e) : e.Every P := by
  induction e using induction_children with
  | step e ih => exact every_iff.mpr ⟨h, fun c hc => ih c hc (hP e h c hc)⟩

end Every

theorem plainAll_iff {es : List Expr} : PlainAll es ↔ ∀ e ∈ es, e.Plain := by
  induction es with
  | nil => simp [PlainAll]
  | cons e es ih => rw [PlainAll, ih, List.forall_mem_cons]

theorem plainOption_iff {o : Option Expr} : PlainOption o ↔ ∀ e ∈ o.toList, e.Plain := by
  cases o <;> simp [PlainOption]

theorem Plain.every {e : Expr} (h : e.Plain) : e.Every Plain := by
  refine every_of_children (fun e he c hc => ?_) h
  cases e with
  | binary form s op a b =>
    simp only [children, List.mem_cons, List.not_mem_nil, or_false] at hc
    rcases hc with rfl | rfl
    · exact he.2.1
    · exact he.2.2
  | unary form s op a =>
    obtain rfl := List.mem_singleton.mp hc
    exact he.2
  | call s name args => exact plainAll_iff.mp he c hc
  | _ => cases hc

theorem allRanges_eq (es : List Expr) : allRanges es = es.map ranges := by
  induction es with
  | nil => rfl
  | cons e es ih => rw [allRanges, ih, List.map_cons]

theorem ranges_eq (e : Expr) : e.ranges = .node e.span (e.children.map ranges) := by
  cases e with
  | call s name args => simp [ranges, span, children, allRanges_eq]
  | _ => rfl

theorem has_ranges {e x : Expr} (h : x ∈ e.nodes) : e.ranges.Has x.ranges := by
  induction e using induction_children with
  | step e ih =>
    rw [nodes_eq] at h
    rcases List.mem_cons.mp h with rfl | h
    · exact .self _
    · obtain ⟨c, hc, hx⟩ := List.mem_flatMap.mp h
      refine .child ?_ (ih c hc hx)
      rw [ranges_eq e]
      exact List.mem_map_of_mem hc

end Expr

namespace Stmt

/-- The statements that stand directly in a statement: the parameters and the body of a function, or the blocks. -/
def children : Stmt → List Stmt
  | define _ _ _ params body _ => params ++ body.getD []
  | branch _ _ thenBlock elseBlock => thenBlock ++ elseBlock.getD []
  | loop _ _ body => body.getD []
  | declare _ _ _ _ | param _ _ _ | assign _ _ _ _ | call _ _ _ | print _ _ | breakOut _ | misfit _ => []

/-- The expressions that stand directly in a statement. -/
def exprs : Stmt → List Expr
  | declare _ _ _ init => init.toList
  | assign _ _ _ value => [value]
  | call _ _ args => args
  | define _ _ _ _ _ value => [value]
  | print _ operand => operand.toList
  | branch _ condition _ _ => [condition]
  | loop _ condition _ => [condition]
  | param _ _ _ | breakOut _ | misfit _ => []

/-- The statement steps a variable: it assigns the outcome of an operation on the variable to it. -/
def Steps (s : Stmt) (x : Expr) : Prop :=
  ∃ span inner place name op, s = assign span name .set x ∧ x = .unary .expression inner op (.identifier place name)

mutual

/-- The statement and all statements inside it. -/
def nodes : Stmt → List Stmt
  | define s result name params body value =>
    define s result name params body value :: (allNodes params ++ blockNodes body)
  | branch s c thenBlock elseBlock => branch s c thenBlock elseBlock :: (allNodes thenBlock ++ blockNodes elseBlock)
  | loop s c body => loop s c body :: blockNodes body
  | s => [s]

def allNodes : List Stmt → List Stmt
  | [] => []
  | s :: rest => nodes s ++ allNodes rest

def blockNodes : Option (List Stmt) → List Stmt
  | none => []
  | some body => allNodes body

end

theorem allNodes_eq (ss : List Stmt) : allNodes ss = ss.flatMap nodes := by
  induction ss with
  | nil => rfl
  | cons s ss ih => rw [allNodes, ih, List.flatMap_cons]

theorem blockNodes_eq (block : Option (List Stmt)) : blockNodes block = (block.getD []).flatMap nodes := by
  cases block with
  | none => rfl
  | some body => exact allNodes_eq body

theorem nodes_eq (s : Stmt) : s.nodes = s :: s.children.flatMap nodes := by
  cases s with
  | define => simp [nodes, children, allNodes_eq, blockNodes_eq]
  | branch => simp [nodes, children, allNodes_eq, blockNodes_eq]
  | loop => simp [nodes, children, blockNodes_eq]
  | _ => rfl

theorem sizeOf_lt_of_mem_getD {block : Option (List Stmt)} {c : Stmt} (h : c ∈ block.getD []) : sizeOf c < sizeOf block := by
  cases block with
  | none => cases h
  | some body =>
    have hbody : sizeOf c < sizeOf body := List.sizeOf_lt_of_mem h
    simp only [Option.some.sizeOf_spec]
    omega

theorem sizeOf_lt_of_mem_children {s c : Stmt} (h : c ∈ s.children) : sizeOf c < sizeOf s := by
  cases s with
  | define s result name params body value =>
    simp only [define.sizeOf_spec]
    rcases List.mem_append.mp h with h | h
    · have hparams := List.sizeOf_lt_of_mem h
      omega
    · have hbody := sizeOf_lt_of_mem_getD h
      omega
  | branch s condition thenBlock elseBlock =>
    simp only [branch.sizeOf_spec]
    rcases List.mem_append.mp h with h | h
    · have hthen := List.sizeOf_lt_of_mem h
      omega
    · have helse := sizeOf_lt_of_mem_getD h
      omega
  | loop s condition body =>
    have hbody := sizeOf_lt_of_mem_getD h
    simp only [loop.sizeOf_spec]
    omega
  | _ => cases h

/-- What holds of a statement as soon as it holds of its children holds of all statements. -/
@[elab_as_elim]
theorem induction_children {motive : Stmt → Prop} (step : ∀ s, (∀ c ∈ s.children, motive c) → motive s) (s : Stmt) :
    motive s :=
  step s fun c _ => induction_children step c
termination_by sizeOf s
decreasing_by exact sizeOf_lt_of_mem_children ‹_›

/-- Every statement in the statement has the property. -/
def Every (P : Stmt → Prop) (s : Stmt) : Prop := ∀ q ∈ s.nodes, P q

section Every

variable {P Q : Stmt → Prop} {s : Stmt}

theorem every_iff : s.Every P ↔ P s ∧ ∀ c ∈ s.children, c.Every P := by
  simp only [Every, nodes_eq s, List.forall_mem_cons, List.mem_flatMap, forall_exists_index, and_imp]
  exact and_congr_right' ⟨fun h c hc x hx => h x c hc hx, fun h x c hc hx => h c hc x hx⟩

theorem Every.self (h : s.Every P) : P s := (every_iff.mp h).1

theorem Every.child (h : s.Every P) {c : Stmt} (hc : c ∈ s.children) : c.Every P := (every_iff.mp h).2 c hc

theorem Every.imp (h : s.Every P) (hpq : ∀ q, P q → Q q) : s.Every Q := fun q hq => hpq q (h q hq)

/-- A property that goes from a node to its children is one of every node. -/
theorem every_of_children (hP : ∀ s, P s → ∀ c ∈ s.children, P c) (h : P s) : s.Every P := by
  induction s using induction_children with
  | step s ih => exact every_iff.mpr ⟨h, fun c hc => ih c hc (hP s h c hc)⟩

end Every

theorem plain_of_plainElse {block : Option (List Stmt)} (h : PlainElse block) : ∀ s ∈ block.getD [], s.Plain := by
  cases block with
  | none => simp
  | some body => exact plainBlock_iff.mp h

theorem plain_of_plainBody {body : Option (List Stmt)} (h : PlainBody body) : ∀ s ∈ body.getD [], s.Plain := by
  cases body with
  | none => exact h.elim
  | some body => exact plainBlock_iff.mp h

/-- The statements in a plain statement, also in one that defines a function, are plain. -/
theorem PlainTop.children {s : Stmt} (h : s.PlainTop) : ∀ c ∈ s.children, c.Plain := by
  cases s with
  | define s result name params body value =>
    exact List.forall_mem_append.mpr ⟨fun p hp => (h.params p hp).plain, plain_of_plainBody h.body⟩
  | branch s condition thenBlock elseBlock =>
    exact List.forall_mem_append.mpr ⟨plainBlock_iff.mp h.2.1, plain_of_plainElse h.2.2⟩
  | loop s condition body => exact plain_of_plainBody h.2
  | _ => simp [Stmt.children]

theorem Plain.every {s : Stmt} (h : s.Plain) : s.Every Plain := every_of_children (fun _ hs => hs.top.children) h

theorem PlainTop.every {s : Stmt} (h : s.PlainTop) : s.Every PlainTop :=
  every_iff.mpr ⟨h, fun c hc => (h.children c hc).every.imp fun _ hq => hq.top⟩

theorem PlainTop.exprs {s : Stmt} (h : s.PlainTop) : ∀ e ∈ s.exprs, e.Plain := by
  cases s with
  | declare s type name init => exact Expr.plainOption_iff.mp h.2.2
  | assign s name op value => exact List.forall_mem_singleton.mpr h.2.2
  | call s name args => exact Expr.plainAll_iff.mp h
  | define s result name params body value => exact List.forall_mem_singleton.mpr h.value
  | print s operand => exact Expr.plainOption_iff.mp h
  | branch s condition thenBlock elseBlock => exact List.forall_mem_singleton.mpr h.1
  | loop s condition body => exact List.forall_mem_singleton.mpr h.1
  | _ => simp [Stmt.exprs]

theorem allRanges_eq (ss : List Stmt) : allRanges ss = ss.map ranges := by
  induction ss with
  | nil => rfl
  | cons s ss ih => rw [allRanges, ih, List.map_cons]

theorem blockRanges_eq (block : Option (List Stmt)) : blockRanges block = (block.getD []).map ranges := by
  cases block with
  | none => rfl
  | some body => exact allRanges_eq body

theorem mem_ranges_children {s c : Stmt} (h : c ∈ s.children) : c.ranges ∈ s.ranges.children := by
  have hmap := List.mem_map_of_mem (f := ranges) h
  cases s with
  | define s result name params body value =>
    rw [Stmt.children, List.map_append] at hmap
    simp only [ranges, RangeTree.children, allRanges_eq, blockRanges_eq, ← List.append_assoc]
    exact List.mem_append_left _ hmap
  | branch s condition thenBlock elseBlock =>
    rw [Stmt.children, List.map_append] at hmap
    simp only [ranges, RangeTree.children, allRanges_eq, blockRanges_eq]
    exact .tail _ hmap
  | loop s condition body =>
    simp only [ranges, RangeTree.children, blockRanges_eq]
    exact .tail _ hmap
  | _ => cases h

theorem mem_ranges_exprs {s : Stmt} {e : Expr} (h : e ∈ s.exprs) : e.ranges ∈ s.ranges.children := by
  cases s with
  | declare | print =>
    obtain rfl := Option.mem_toList.mp h
    exact .head _
  | call s name args =>
    simp only [ranges, RangeTree.children, Expr.allRanges_eq]
    exact List.mem_map_of_mem h
  | define s result name params body value =>
    obtain rfl := List.mem_singleton.mp h
    simp [ranges, RangeTree.children]
  | assign | branch | loop =>
    obtain rfl := List.mem_singleton.mp h
    exact .head _
  | _ => cases h

theorem has_ranges {s q : Stmt} (h : q ∈ s.nodes) : s.ranges.Has q.ranges := by
  induction s using induction_children with
  | step s ih =>
    rw [nodes_eq] at h
    rcases List.mem_cons.mp h with rfl | h
    · exact .self _
    · obtain ⟨c, hc, hq⟩ := List.mem_flatMap.mp h
      exact .child (mem_ranges_children hc) (ih c hc hq)

end Stmt

namespace Program

/-- The statements of a program, those of the blocks included. -/
def stmts (p : Program) : List Stmt := p.statements.flatMap Stmt.nodes

/-- The expressions of a program, the operands and arguments included. -/
def exprs (p : Program) : List Expr := p.stmts.flatMap fun s => s.exprs.flatMap Expr.nodes

variable {p : Program}

theorem mem_stmts {q : Stmt} : q ∈ p.stmts ↔ ∃ s ∈ p.statements, q ∈ s.nodes := List.mem_flatMap

theorem mem_exprs {x : Expr} : x ∈ p.exprs ↔ ∃ s ∈ p.stmts, ∃ e ∈ s.exprs, x ∈ e.nodes := by
  simp only [exprs, List.mem_flatMap]

theorem Plain.stmts (h : p.Plain) : ∀ q ∈ p.stmts, q.PlainTop := by
  intro q hq
  obtain ⟨s, hs, hq⟩ := mem_stmts.mp hq
  exact (h s hs).every q hq

theorem Plain.exprs (h : p.Plain) : ∀ x ∈ p.exprs, x.Plain := by
  intro x hx
  obtain ⟨s, hs, e, he, hx⟩ := mem_exprs.mp hx
  exact ((h.stmts s hs).exprs e he).every x hx

theorem has_ranges_stmt {q : Stmt} (h : q ∈ p.stmts) : p.ranges.Has q.ranges := by
  obtain ⟨s, hs, hq⟩ := mem_stmts.mp h
  refine .child ?_ (Stmt.has_ranges hq)
  rw [ranges, Stmt.allRanges_eq]
  exact List.mem_map_of_mem hs

theorem has_ranges_expr {x : Expr} (h : x ∈ p.exprs) : p.ranges.Has x.ranges := by
  obtain ⟨s, hs, e, he, hx⟩ := mem_exprs.mp h
  exact (has_ranges_stmt hs).trans (.child (Stmt.mem_ranges_exprs he) (Expr.has_ranges hx))

end Program

namespace Grammar

/-- The trees of a part: one, or a list of them. -/
def ExprPart.trees : (n : ExprPart) → n.Tree → List Expr
  | .args, es | .someArgs, es => es
  | .value, e | .side, e | .header, e | .cond, e | .negand, e | .expr, e | .term, e | .factor, e | .atom, e | .call, e =>
    [e]

def StmtPart.trees : (n : StmtPart) → n.Tree → List Stmt
  | .inner, s | .param, s | .define, s | .outer, s => [s]
  | .inners, ss | .block, ss | .params, ss | .someParams, ss | .outers, ss => ss
  | .start, p => Program.statements p

/-- The grammar derives the expression from some of the tokens. -/
def Derived (w : List Token) (e : Expr) : Prop :=
  ∃ (n : ExprPart) (u : List Token) (x : n.Tree), DerivesExpr n u x ∧ e ∈ n.trees x ∧ ∀ t ∈ u, t ∈ w

/-- What stands in the statement is derived from some of the tokens, unless the statement is a step. -/
def Springs (w : List Token) (s : Stmt) : Prop := (∀ e ∈ s.exprs, Derived w e) ∨ ∃ x, s.Steps x

/-- The same for all statements in the list, and for those in their blocks. -/
def AllSpring (w : List Token) (list : List Stmt) : Prop := ∀ s ∈ list, s.Every (Springs w)

section AllSpring

variable {u w : List Token} {s : Stmt} {list list' : List Stmt}

theorem DerivesExpr.derived {n : ExprPart} {x : n.Tree} (h : DerivesExpr n u x) (huw : ∀ t ∈ u, t ∈ w) :
    ∀ e ∈ n.trees x, Derived w e := fun _ he => ⟨n, u, x, h, he, huw⟩

theorem Springs.mono (h : Springs u s) (huw : ∀ t ∈ u, t ∈ w) : Springs w s := by
  refine h.imp_left fun hs e he => ?_
  obtain ⟨n, v, x, hx, hmem, hv⟩ := hs e he
  exact ⟨n, v, x, hx, hmem, fun t ht => huw t (hv t ht)⟩

theorem AllSpring.mono (h : AllSpring u list) (huw : ∀ t ∈ u, t ∈ w) : AllSpring w list :=
  fun s hs => (h s hs).imp fun _ hq => hq.mono huw

theorem AllSpring.node (he : ∀ e ∈ s.exprs, Derived w e) (h : AllSpring w s.children) : AllSpring w [s] :=
  List.forall_mem_singleton.mpr (Stmt.every_iff.mpr ⟨.inl he, h⟩)

theorem AllSpring.append (h : AllSpring w list) (h' : AllSpring w list') : AllSpring w (list ++ list') :=
  List.forall_mem_append.mpr ⟨h, h'⟩

theorem allSpring_nil : AllSpring w [] := List.forall_mem_nil _

end AllSpring

theorem DerivesStmt.springs {n : StmtPart} {w : List Token} {s : n.Tree} (h : DerivesStmt n w s) :
    AllSpring w (n.trees s) := by
  induction h with
  | declare | print | breakOut | param => exact .node (List.forall_mem_nil _) allSpring_nil
  | declare_init _ _ _ _ hw | assign _ _ hw | print_value _ _ hw =>
    exact .node (hw.derived (by simp +contextual)) allSpring_nil
  | step => exact List.forall_mem_singleton.mpr (Stmt.every_iff.mpr ⟨.inr ⟨_, _, _, _, _, _, rfl, rfl⟩, allSpring_nil⟩)
  | call hw =>
    cases hw with
    | call _ _ hargs _ => exact .node (hargs.derived (by simp +contextual)) allSpring_nil
  | branch _ _ hw _ _ ih =>
    exact .node (hw.derived (by simp +contextual)) ((ih.mono (by simp +contextual)).append allSpring_nil)
  | branch_else _ _ hw _ _ _ _ ihu ihv =>
    refine .node (hw.derived (by simp +contextual)) ?_
    exact (ihu.mono (by simp +contextual)).append (ihv.mono (by simp +contextual))
  | loop _ _ hw _ _ ih => exact .node (hw.derived (by simp +contextual)) (ih.mono (by simp +contextual))
  | define _ _ _ _ _ _ _ _ _ _ hv _ _ ihu ihw =>
    refine .node (hv.derived (by simp +contextual)) ?_
    exact (ihu.mono (by simp +contextual)).append (ihw.mono (by simp +contextual))
  | inners_none | params_none | outers_none => exact allSpring_nil
  | inners_more _ _ ihu ihv | outers_more _ _ ihu ihv | someParams_more _ _ _ ihu ihv =>
    exact (ihu.mono (by simp +contextual)).append (ihv.mono (by simp +contextual))
  | block _ _ _ ih => exact ih.mono (by simp +contextual)
  | params_some _ ih | someParams_one _ ih | outer_inner _ ih | outer_define _ ih | start _ ih => exact ih

end Grammar

theorem Program.springs_of_parse {source : String} {p : Program} (h : parse source = .ok p) :
    ∀ q ∈ p.stmts, Grammar.Springs (Token.scan source).tokens q := by
  intro q hq
  obtain ⟨s, hs, hq⟩ := mem_stmts.mp hq
  obtain ⟨-, hderives⟩ := (parse_iff_derives source p).mp h
  exact hderives.springs s hs q hq

end CheckedScript
