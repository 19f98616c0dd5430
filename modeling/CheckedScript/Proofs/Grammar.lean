import CheckedScript.Proofs.Terminals

/-! The grammar of the language, production by production, with the tree that each production builds. A binary condition
stands in parentheses unless it is the header of an `if` or a `while`; sums and products group to the left, and products
before sums; a minus before a number is part of the number; `x++;` says `x = x++;`. A node spans its tokens from the first
to the last, except that a call which is a statement leaves out its semicolon. -/

namespace CheckedScript.Grammar

open Token (extent)

/-- A token of one of the kinds, with a text that its kind allows. -/
structure Terminal (kinds : List Token.Kind) (t : Token) : Prop where
  kind_mem : t.kind ∈ kinds
  lexical : t.Lexical

theorem Terminal.kind_eq {k : Token.Kind} {t : Token} (h : Terminal [k] t) : t.kind = k := List.mem_singleton.mp h.kind_mem

def typeName : List Token.Kind := [.number, .string, .boolean]

def addOp : List Token.Kind := [.plus, .minus]

def mulOp : List Token.Kind := [.star, .slash, .percent]

def condOp : List Token.Kind := [.same, .differs, .more, .moreEqual, .less, .lessEqual, .both, .either]

def assignOp : List Token.Kind := [.equal, .plusEqual, .minusEqual, .starEqual, .slashEqual, .percentEqual]

def stepOp : List Token.Kind := [.increment, .decrement]

/-- The parts of values, with the headers that hold them. -/
inductive ExprPart where
  | value | side | header | cond | negand | expr | term | factor | atom | call | args | someArgs
deriving DecidableEq

/-- Arguments are a list, every other part is one tree. -/
abbrev ExprPart.Tree : ExprPart → Type
  | args | someArgs => List Expr
  | _ => Expr

/-- The tokens are those of the part, with this tree. -/
inductive DerivesExpr : (n : ExprPart) → List Token → n.Tree → Prop
  | value_expr {w} {e : Expr} (h : DerivesExpr .expr w e) : DerivesExpr .value w e
  | value_cond {w} {e : Expr} (h : DerivesExpr .cond w e) : DerivesExpr .value w e
  | side_expr {w} {e : Expr} (h : DerivesExpr .expr w e) : DerivesExpr .side w e
  | side_cond {w} {e : Expr} (h : DerivesExpr .cond w e) : DerivesExpr .side w e
  | header_side {w} {e : Expr} (h : DerivesExpr .side w e) : DerivesExpr .header w e
  | header_binary {u o v} {x y : Expr} (hu : DerivesExpr .side u x) (ho : Terminal condOp o)
      (hv : DerivesExpr .side v y) :
      DerivesExpr .header (u ++ o :: v) (.binary .condition (extent (u ++ o :: v)) (.ofText o.text) x y)
  | cond_binary {l u o v r} {x y : Expr} (hl : Terminal [.lpar] l) (hu : DerivesExpr .side u x) (ho : Terminal condOp o)
      (hv : DerivesExpr .side v y) (hr : Terminal [.rpar] r) :
      DerivesExpr .cond (l :: (u ++ o :: (v ++ [r])))
        (.binary .condition (extent (l :: (u ++ o :: (v ++ [r])))) (.ofText o.text) x y)
  | cond_not {b w} {e : Expr} (hb : Terminal [.bang] b) (hw : DerivesExpr .negand w e) :
      DerivesExpr .cond (b :: w) (.unary .condition (extent (b :: w)) .not e)
  | negand_atom {w} {e : Expr} (h : DerivesExpr .atom w e) : DerivesExpr .negand w e
  | negand_cond {w} {e : Expr} (h : DerivesExpr .cond w e) : DerivesExpr .negand w e
  | expr_term {w} {e : Expr} (h : DerivesExpr .term w e) : DerivesExpr .expr w e
  | expr_binary {u o v} {x y : Expr} (hu : DerivesExpr .expr u x) (ho : Terminal addOp o) (hv : DerivesExpr .term v y) :
      DerivesExpr .expr (u ++ o :: v) (.binary .expression (extent (u ++ o :: v)) (.ofText o.text) x y)
  | term_factor {w} {e : Expr} (h : DerivesExpr .factor w e) : DerivesExpr .term w e
  | term_binary {u o v} {x y : Expr} (hu : DerivesExpr .term u x) (ho : Terminal mulOp o)
      (hv : DerivesExpr .factor v y) :
      DerivesExpr .term (u ++ o :: v) (.binary .expression (extent (u ++ o :: v)) (.ofText o.text) x y)
  | factor_atom {w} {e : Expr} (h : DerivesExpr .atom w e) : DerivesExpr .factor w e
  | factor_folded {m w} {span : Span} {z : Float} (hm : Terminal [.minus] m)
      (hw : DerivesExpr .factor w (.literal span (.number z))) :
      DerivesExpr .factor (m :: w) (.literal (extent (m :: w)) (.number (-z)))
  | factor_negated {m w} {e : Expr} (hm : Terminal [.minus] m) (hw : DerivesExpr .factor w e)
      (he : ∀ span z, e ≠ .literal span (.number z)) :
      DerivesExpr .factor (m :: w) (.unary .expression (extent (m :: w)) .neg e)
  | atom_literal {t} {v : Value} (ht : Terminal [.numberLit, .stringLit] t) (hv : Literal.parse t.text = .ok v) :
      DerivesExpr .atom [t] (.literal (extent [t]) v)
  | atom_boolean {t} (ht : Terminal [.trueWord, .falseWord] t) :
      DerivesExpr .atom [t] (.literal (extent [t]) (.boolean (t.text == "true")))
  | atom_call {w} {e : Expr} (h : DerivesExpr .call w e) : DerivesExpr .atom w e
  | atom_name {t} (ht : Terminal [.name] t) : DerivesExpr .atom [t] (.identifier (extent [t]) (.text t.text))
  | call {f l w r} {es : List Expr} (hf : Terminal [.name] f) (hl : Terminal [.lpar] l) (hw : DerivesExpr .args w es)
      (hr : Terminal [.rpar] r) :
      DerivesExpr .call (f :: l :: (w ++ [r])) (.call (extent (f :: l :: (w ++ [r]))) (.text f.text) es)
  | args_none : DerivesExpr .args [] []
  | args_some {w} {es : List Expr} (h : DerivesExpr .someArgs w es) : DerivesExpr .args w es
  | someArgs_one {w} {e : Expr} (h : DerivesExpr .value w e) : DerivesExpr .someArgs w [e]
  | someArgs_more {u c v} {e : Expr} {es : List Expr} (hu : DerivesExpr .value u e) (hc : Terminal [.comma] c)
      (hv : DerivesExpr .someArgs v es) : DerivesExpr .someArgs (u ++ c :: v) (e :: es)

/-- The parts of programs. -/
inductive StmtPart where
  | inner | inners | block | params | someParams | param | define | outer | outers | start
deriving DecidableEq

abbrev StmtPart.Tree : StmtPart → Type
  | inner | param | define | outer => Stmt
  | inners | block | params | someParams | outers => List Stmt
  | start => Program

/-- The tokens are those of the part, with this tree. Functions are defined at the outermost level only. -/
inductive DerivesStmt : (n : StmtPart) → List Token → n.Tree → Prop
  | declare {k a s type} (hk : Terminal typeName k) (htype : Literal.typeNamed k.text = .ok type)
      (ha : Terminal [.name] a) (hs : Terminal [.semicolon] s) :
      DerivesStmt .inner [k, a, s] (.declare (extent [k, a, s]) type (.text a.text) none)
  | declare_init {k a o w s type} {e : Expr} (hk : Terminal typeName k) (htype : Literal.typeNamed k.text = .ok type)
      (ha : Terminal [.name] a) (ho : Terminal [.equal] o) (hw : DerivesExpr .value w e)
      (hs : Terminal [.semicolon] s) :
      DerivesStmt .inner (k :: a :: o :: (w ++ [s]))
        (.declare (extent (k :: a :: o :: (w ++ [s]))) type (.text a.text) (some e))
  | assign {a o w s} {e : Expr} (ha : Terminal [.name] a) (ho : Terminal assignOp o) (hw : DerivesExpr .value w e)
      (hs : Terminal [.semicolon] s) :
      DerivesStmt .inner (a :: o :: (w ++ [s]))
        (.assign (extent (a :: o :: (w ++ [s]))) (.text a.text) (.ofText o.text) e)
  | step {a o s} (ha : Terminal [.name] a) (ho : Terminal stepOp o) (hs : Terminal [.semicolon] s) :
      DerivesStmt .inner [a, o, s] (.assign (extent [a, o, s]) (.text a.text) .set
        (.unary .expression (extent [a, o, s]) (.ofText o.text) (.identifier a.span (.text a.text))))
  | call {w s span name} {es : List Expr} (hw : DerivesExpr .call w (.call span name es))
      (hs : Terminal [.semicolon] s) : DerivesStmt .inner (w ++ [s]) (.call span name es)
  | print {a l r s} (ha : Terminal [.print] a) (hl : Terminal [.lpar] l) (hr : Terminal [.rpar] r)
      (hs : Terminal [.semicolon] s) : DerivesStmt .inner [a, l, r, s] (.print (extent [a, l, r, s]) none)
  | print_value {a l w r s} {e : Expr} (ha : Terminal [.print] a) (hl : Terminal [.lpar] l)
      (hw : DerivesExpr .value w e) (hr : Terminal [.rpar] r) (hs : Terminal [.semicolon] s) :
      DerivesStmt .inner (a :: l :: (w ++ [r, s])) (.print (extent (a :: l :: (w ++ [r, s]))) (some e))
  | branch {a l w r u} {c : Expr} {first : List Stmt} (ha : Terminal [.ifWord] a) (hl : Terminal [.lpar] l)
      (hw : DerivesExpr .header w c) (hr : Terminal [.rpar] r) (hu : DerivesStmt .block u first) :
      DerivesStmt .inner (a :: l :: (w ++ r :: u)) (.branch (extent (a :: l :: (w ++ r :: u))) c first none)
  | branch_else {a l w r u o v} {c : Expr} {first second : List Stmt} (ha : Terminal [.ifWord] a)
      (hl : Terminal [.lpar] l) (hw : DerivesExpr .header w c) (hr : Terminal [.rpar] r)
      (hu : DerivesStmt .block u first) (ho : Terminal [.elseWord] o) (hv : DerivesStmt .block v second) :
      DerivesStmt .inner (a :: l :: (w ++ r :: (u ++ o :: v)))
        (.branch (extent (a :: l :: (w ++ r :: (u ++ o :: v)))) c first (some second))
  | loop {a l w r u} {c : Expr} {body : List Stmt} (ha : Terminal [.whileWord] a) (hl : Terminal [.lpar] l)
      (hw : DerivesExpr .header w c) (hr : Terminal [.rpar] r) (hu : DerivesStmt .block u body) :
      DerivesStmt .inner (a :: l :: (w ++ r :: u)) (.loop (extent (a :: l :: (w ++ r :: u))) c (some body))
  | breakOut {a s} (ha : Terminal [.breakWord] a) (hs : Terminal [.semicolon] s) :
      DerivesStmt .inner [a, s] (.breakOut (extent [a, s]))
  | inners_none : DerivesStmt .inners [] []
  | inners_more {u v} {s : Stmt} {rest : List Stmt} (hu : DerivesStmt .inner u s) (hv : DerivesStmt .inners v rest) :
      DerivesStmt .inners (u ++ v) (s :: rest)
  | block {l w r} {body : List Stmt} (hl : Terminal [.lbrace] l) (hw : DerivesStmt .inners w body)
      (hr : Terminal [.rbrace] r) : DerivesStmt .block (l :: (w ++ [r])) body
  | params_none : DerivesStmt .params [] []
  | params_some {w} {ps : List Stmt} (h : DerivesStmt .someParams w ps) : DerivesStmt .params w ps
  | someParams_one {w} {p : Stmt} (h : DerivesStmt .param w p) : DerivesStmt .someParams w [p]
  | someParams_more {u c v} {p : Stmt} {ps : List Stmt} (hu : DerivesStmt .param u p) (hc : Terminal [.comma] c)
      (hv : DerivesStmt .someParams v ps) : DerivesStmt .someParams (u ++ c :: v) (p :: ps)
  | param {k a type} (hk : Terminal typeName k) (htype : Literal.typeNamed k.text = .ok type)
      (ha : Terminal [.name] a) : DerivesStmt .param [k, a] (.param (extent [k, a]) type (.text a.text))
  | define {d k a l u r b w o v s c type} {ps body : List Stmt} {e : Expr} (hd : Terminal [.define] d)
      (hk : Terminal typeName k) (htype : Literal.typeNamed k.text = .ok type) (ha : Terminal [.name] a)
      (hl : Terminal [.lpar] l) (hu : DerivesStmt .params u ps) (hr : Terminal [.rpar] r) (hb : Terminal [.lbrace] b)
      (hw : DerivesStmt .inners w body) (ho : Terminal [.returnWord] o) (hv : DerivesExpr .value v e)
      (hs : Terminal [.semicolon] s) (hc : Terminal [.rbrace] c) :
      DerivesStmt .define (d :: k :: a :: l :: (u ++ r :: b :: (w ++ o :: (v ++ [s, c]))))
        (.define (extent (d :: k :: a :: l :: (u ++ r :: b :: (w ++ o :: (v ++ [s, c]))))) type (.text a.text) ps
          (some body) e)
  | outer_inner {w} {s : Stmt} (h : DerivesStmt .inner w s) : DerivesStmt .outer w s
  | outer_define {w} {s : Stmt} (h : DerivesStmt .define w s) : DerivesStmt .outer w s
  | outers_none : DerivesStmt .outers [] []
  | outers_more {u v} {s : Stmt} {rest : List Stmt} (hu : DerivesStmt .outer u s) (hv : DerivesStmt .outers v rest) :
      DerivesStmt .outers (u ++ v) (s :: rest)
  | start {w} {body : List Stmt} (h : DerivesStmt .outers w body) : DerivesStmt .start w ⟨extent w, body⟩

section Extent

variable {first : Token} {u v w : List Token}

theorem extent_singleton (t : Token) : extent [t] = t.span := rfl

/-- The extent from a token to the last one. -/
theorem extent_cons (last : Token) (h : w.getLast? = some last) : extent (first :: w) = first.span.join last.span := by
  simp only [extent, List.head?_cons, List.getLast?_cons, h, Option.getD_some]

theorem extent_append (hu : u ≠ []) (hv : v ≠ []) : extent (u ++ v) = (extent u).join (extent v) := by
  obtain ⟨a, u, rfl⟩ := List.exists_cons_of_ne_nil hu
  obtain ⟨b, v, rfl⟩ := List.exists_cons_of_ne_nil hv
  simp only [extent, List.cons_append, List.head?_cons, List.getLast?_cons, List.getLast?_append, Option.some_or,
    Option.getD_some]
  rfl

end Extent

/-- The kind of the first token, or the end. -/
def nextKind : List Token → Token.Kind
  | [] => .ending
  | t :: _ => t.kind

@[simp] theorem nextKind_cons (t : Token) (w : List Token) : nextKind (t :: w) = t.kind := rfl

theorem ne_nil_of_nextKind {w : List Token} {kinds : List Token.Kind} (h : nextKind w ∈ kinds) (hk : .ending ∉ kinds) :
    w ≠ [] := by
  rintro rfl
  exact hk h

/-- The extent of a part with a token before it. -/
theorem extent_before {t : Token} {w : List Token} {kinds : List Token.Kind} (hw : nextKind w ∈ kinds)
    (hk : .ending ∉ kinds := by decide) : extent (t :: w) = t.span.join (extent w) := by
  rw [← List.singleton_append, extent_append (List.cons_ne_nil t []) (ne_nil_of_nextKind hw hk), extent_singleton]

/-- The extent of two parts with a token between them. -/
theorem extent_between {o : Token} {u v : List Token} {kinds kinds' : List Token.Kind} (hu : nextKind u ∈ kinds)
    (hv : nextKind v ∈ kinds') (hk : .ending ∉ kinds := by decide) (hk' : .ending ∉ kinds' := by decide) :
    extent (u ++ o :: v) = (extent u).join (extent v) := by
  rw [extent_append (ne_nil_of_nextKind hu hk) (List.cons_ne_nil o v), extent_before hv hk']
  rfl

theorem nextKind_append {u : List Token} (hu : u ≠ []) (v : List Token) : nextKind (u ++ v) = nextKind u := by
  obtain ⟨t, u, rfl⟩ := List.exists_cons_of_ne_nil hu
  rfl

/-- The kinds that a part can start with; the end stands for a part without tokens. -/
def ExprPart.first : ExprPart → List Token.Kind
  | value | side | header | someArgs => Parse.valueFirst
  | args => .ending :: Parse.valueFirst
  | cond => Parse.conditionFirst
  | negand => Parse.negatedFirst
  | expr | term | factor => Parse.factorFirst
  | atom => Parse.atomFirst
  | call => [.name]

theorem mem_of_all {kinds kinds' : List Token.Kind} {k : Token.Kind} (hk : k ∈ kinds) (h : ∀ k ∈ kinds, k ∈ kinds') :
    k ∈ kinds' := h k hk

theorem nextKind_append_mem {kinds kinds' : List Token.Kind} {u : List Token} (v : List Token) (hu : nextKind u ∈ kinds)
    (hend : .ending ∉ kinds) (h : ∀ k ∈ kinds, k ∈ kinds') : nextKind (u ++ v) ∈ kinds' := by
  rw [nextKind_append (ne_nil_of_nextKind hu hend)]
  exact h _ hu

namespace DerivesExpr

theorem first {n : ExprPart} {w : List Token} {e : n.Tree} (h : DerivesExpr n w e) : nextKind w ∈ n.first := by
  induction h with
  | value_expr _ ih | side_expr _ ih => exact mem_of_all ih (by decide)
  | value_cond _ ih | side_cond _ ih => exact mem_of_all ih (by decide)
  | header_side _ ih | args_some _ ih | someArgs_one _ ih => exact mem_of_all ih (by decide)
  | negand_atom _ ih | negand_cond _ ih => exact mem_of_all ih (by decide)
  | expr_term _ ih | term_factor _ ih | factor_atom _ ih | atom_call _ ih => exact mem_of_all ih (by decide)
  | header_binary _ _ _ ih | someArgs_more _ _ _ ih => exact nextKind_append_mem _ ih (by decide) (by decide)
  | expr_binary _ _ _ ih | term_binary _ _ _ ih => exact nextKind_append_mem _ ih (by decide) (by decide)
  | cond_binary ht | cond_not ht | factor_folded ht | factor_negated ht => exact mem_of_all ht.kind_mem (by decide)
  | atom_literal ht | atom_boolean ht | atom_name ht | call ht => exact mem_of_all ht.kind_mem (by decide)
  | args_none => decide

/-- Trees span their tokens. -/
theorem span {n : ExprPart} {w : List Token} {e : n.Tree} (h : DerivesExpr n w e) :
    match n, e with
    | .args, _ | .someArgs, _ => True
    | .value, e | .side, e | .header, e | .cond, e | .negand, e | .expr, e | .term, e | .factor, e | .atom, e | .call, e =>
      Expr.span e = extent w := by
  induction h with
  | value_expr _ ih | value_cond _ ih | side_expr _ ih | side_cond _ ih | header_side _ ih => exact ih
  | negand_atom _ ih | negand_cond _ ih | expr_term _ ih | term_factor _ ih | factor_atom _ ih | atom_call _ ih => exact ih
  | args_none | args_some | someArgs_one | someArgs_more => trivial
  | _ => rfl

end DerivesExpr

/-- The kinds that a part can start with. -/
def StmtPart.first : StmtPart → List Token.Kind
  | inner => Parse.statementFirst
  | inners => .ending :: Parse.statementFirst
  | block => [.lbrace]
  | params => .ending :: Parse.typeWords
  | someParams | param => Parse.typeWords
  | define => [.define]
  | outer => .define :: Parse.statementFirst
  | outers | start => Parse.programNext

theorem DerivesStmt.first {n : StmtPart} {w : List Token} {s : n.Tree} (h : DerivesStmt n w s) : nextKind w ∈ n.first := by
  induction h with
  | declare ht | declare_init ht | assign ht | step ht => exact mem_of_all ht.kind_mem (by decide)
  | print ht | print_value ht | branch ht | branch_else ht | loop ht | breakOut ht =>
    exact mem_of_all ht.kind_mem (by decide)
  | block ht | param ht | define ht => exact mem_of_all ht.kind_mem (by decide)
  | call hw => exact nextKind_append_mem _ hw.first (by decide) (by decide)
  | inners_none | params_none | outers_none => decide
  | inners_more _ _ ih | someParams_more _ _ _ ih | outers_more _ _ ih =>
    exact nextKind_append_mem _ ih (by decide) (by decide)
  | params_some _ ih | someParams_one _ ih | outer_inner _ ih | outer_define _ ih | start _ ih =>
    exact mem_of_all ih (by decide)

/-- A token that a tree can hold: its text is one that its kind allows, and it is no number of another script. -/
def Readable (t : Token) : Prop := t.Lexical ∧ t.isForeignNumber = false

theorem Terminal.readable {kinds : List Token.Kind} {t : Token} (h : Terminal kinds t) (hk : .numberLit ∉ kinds) :
    Readable t := by
  refine ⟨h.lexical, ?_⟩
  have hne : t.kind ≠ .numberLit := fun heq => hk (heq ▸ h.kind_mem)
  rw [h.lexical.isForeignNumber_eq, beq_eq_false_iff_ne.mpr hne, Bool.false_and]

theorem readable_literal {t : Token} {v : Value} (ht : Terminal [.numberLit, .stringLit] t)
    (hv : Literal.parse t.text = .ok v) : Readable t := by
  have hk : t.kind = .numberLit ∨ t.kind = .stringLit := by simpa using ht.kind_mem
  exact ⟨ht.lexical, (ht.lexical.parse_ok_iff hk).mp ⟨v, hv⟩⟩

section Readable

variable {kinds : List Token.Kind} {t : Token} {u v w : List Token}

theorem Terminal.cons_readable (ht : Terminal kinds t) (hw : ∀ t ∈ w, Readable t) (hk : .numberLit ∉ kinds := by decide) :
    ∀ x ∈ t :: w, Readable x := List.forall_mem_cons.mpr ⟨ht.readable hk, hw⟩

theorem append_readable (hu : ∀ t ∈ u, Readable t) (hv : ∀ t ∈ v, Readable t) : ∀ t ∈ u ++ v, Readable t :=
  List.forall_mem_append.mpr ⟨hu, hv⟩

theorem nil_readable : ∀ t ∈ ([] : List Token), Readable t := nofun

theorem DerivesExpr.readable {n : ExprPart} {e : n.Tree} (h : DerivesExpr n w e) : ∀ t ∈ w, Readable t := by
  induction h with
  | value_expr _ ih | value_cond _ ih | side_expr _ ih | side_cond _ ih | header_side _ ih => exact ih
  | negand_atom _ ih | negand_cond _ ih | expr_term _ ih | term_factor _ ih | factor_atom _ ih | atom_call _ ih => exact ih
  | args_some _ ih | someArgs_one _ ih => exact ih
  | args_none => exact nil_readable
  | header_binary _ ho _ ihu ihv | expr_binary _ ho _ ihu ihv | term_binary _ ho _ ihu ihv | someArgs_more _ ho _ ihu ihv =>
    exact append_readable ihu (ho.cons_readable ihv)
  | cond_binary hl _ ho _ hr ihu ihv =>
    exact hl.cons_readable (append_readable ihu (ho.cons_readable (append_readable ihv (hr.cons_readable nil_readable))))
  | cond_not ht _ ih | factor_folded ht _ ih | factor_negated ht _ _ ih => exact ht.cons_readable ih
  | atom_literal ht hv => exact List.forall_mem_singleton.mpr (readable_literal ht hv)
  | atom_boolean ht | atom_name ht => exact ht.cons_readable nil_readable
  | call hf hl _ hr ih => exact hf.cons_readable (hl.cons_readable (append_readable ih (hr.cons_readable nil_readable)))

theorem DerivesStmt.readable {n : StmtPart} {s : n.Tree} (h : DerivesStmt n w s) : ∀ t ∈ w, Readable t := by
  induction h with
  | declare hk _ ha hs => exact hk.cons_readable (ha.cons_readable (hs.cons_readable nil_readable))
  | declare_init hk _ ha ho hw hs =>
    have hvalue := append_readable hw.readable (hs.cons_readable nil_readable)
    exact hk.cons_readable (ha.cons_readable (ho.cons_readable hvalue))
  | assign ha ho hw hs =>
    exact ha.cons_readable (ho.cons_readable (append_readable hw.readable (hs.cons_readable nil_readable)))
  | step ha ho hs => exact ha.cons_readable (ho.cons_readable (hs.cons_readable nil_readable))
  | call hw hs => exact append_readable hw.readable (hs.cons_readable nil_readable)
  | print ha hl hr hs => exact ha.cons_readable (hl.cons_readable (hr.cons_readable (hs.cons_readable nil_readable)))
  | print_value ha hl hw hr hs =>
    have hend := hr.cons_readable (hs.cons_readable nil_readable)
    exact ha.cons_readable (hl.cons_readable (append_readable hw.readable hend))
  | branch ha hl hw hr _ ih | loop ha hl hw hr _ ih =>
    exact ha.cons_readable (hl.cons_readable (append_readable hw.readable (hr.cons_readable ih)))
  | branch_else ha hl hw hr _ ho _ ihu ihv =>
    have hblocks := append_readable ihu (ho.cons_readable ihv)
    exact ha.cons_readable (hl.cons_readable (append_readable hw.readable (hr.cons_readable hblocks)))
  | breakOut ha hs => exact ha.cons_readable (hs.cons_readable nil_readable)
  | inners_none | params_none | outers_none => exact nil_readable
  | inners_more _ _ ihu ihv | outers_more _ _ ihu ihv => exact append_readable ihu ihv
  | block hl _ hr ih => exact hl.cons_readable (append_readable ih (hr.cons_readable nil_readable))
  | someParams_more _ hc _ ihu ihv => exact append_readable ihu (hc.cons_readable ihv)
  | param hk _ ha => exact hk.cons_readable (ha.cons_readable nil_readable)
  | define hd hk _ ha hl _ hr hb _ ho hv hs hc ihu ihw =>
    have hvalue := append_readable hv.readable (hs.cons_readable (hc.cons_readable nil_readable))
    have hbody := hb.cons_readable (append_readable ihw (ho.cons_readable hvalue))
    have hparams := hl.cons_readable (append_readable ihu (hr.cons_readable hbody))
    exact hd.cons_readable (hk.cons_readable (ha.cons_readable hparams))
  | params_some _ ih | someParams_one _ ih | outer_inner _ ih | outer_define _ ih | start _ ih => exact ih

end Readable

end CheckedScript.Grammar
