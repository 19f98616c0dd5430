import CheckedScript.Proofs.Accepting

/-! The parser accepts exactly what the grammar derives. Statements are read the way values are: whenever a token that may follow
comes next and the fuel suffices. Together with what is read being derived, this makes the tree of a list of tokens the one
tree that they derive. -/

namespace CheckedScript

namespace Parse

open Grammar
open Token (extent)
open Token.Kind

section Statements

variable {first l c o q t : Token} {u v w ts r : List Token} {s : Stmt} {e : Expr} {fuel : Nat}

theorem value_of_derives (h : DerivesExpr .value w e) (hr : nextKind r ∈ valueEnd) : value (w ++ r) = .ok (e, r) :=
  value_eq (taken_of_derives h) hr

theorem declaration_none (ht : Terminal [name] t) (hq : Terminal [semicolon] q) :
    declaration first (t :: q :: r) =
      .ok (.declare (first.span.join q.span) (Ty.ofKind first.text) (.text t.text) none, r) := by
  have hq' : q.kind = semicolon := hq.kind_eq
  have hne : q.kind ≠ equal := by rw [hq']; decide
  rw [declaration, take_step ht.kind_mem, expect_step (by rw [nextKind_cons, hq']; decide), next_step]
  dsimp only
  rw [nextKind_cons, if_neg hne, pure_bind, take_step hq.kind_mem]
  rfl

theorem declaration_some (ht : Terminal [name] t) (ho : Terminal [equal] o) (he : DerivesExpr .value w e)
    (hq : Terminal [semicolon] q) : declaration first (t :: o :: (w ++ q :: r)) =
      .ok (.declare (first.span.join q.span) (Ty.ofKind first.text) (.text t.text) (some e), r) := by
  have ho' : o.kind = equal := ho.kind_eq
  have hvalue := value_of_derives (r := q :: r) he (mem_of_all hq.kind_mem (by decide))
  rw [declaration, take_step ht.kind_mem, expect_step (by rw [nextKind_cons, ho']; decide), next_step]
  dsimp only
  rw [nextKind_cons, if_pos ho', take_step ho.kind_mem, bind_step hvalue, pure_bind, take_step hq.kind_mem]
  rfl

theorem named_assign (ho : Terminal assignOp o) (he : DerivesExpr .value w e) (hq : Terminal [semicolon] q) :
    named first (o :: (w ++ q :: r)) = .ok (.assign (first.span.join q.span) (.text first.text) (.ofText o.text) e, r) := by
  have ho' : o.kind ∈ assignOps := ho.kind_mem
  have hlpar : o.kind ≠ lpar := (by decide : ∀ k ∈ assignOps, k ≠ lpar) _ ho'
  have hstep : o.kind ∉ stepOps := (by decide : ∀ k ∈ assignOps, k ∉ stepOps) _ ho'
  have hvalue := value_of_derives (r := q :: r) he (mem_of_all hq.kind_mem (by decide))
  rw [named, expect_step (mem_of_all ho' (by decide)), next_step, nextKind_cons, if_neg hlpar, if_neg hstep, take_step ho',
    bind_step hvalue, take_step hq.kind_mem]
  rfl

theorem named_step (ho : Terminal stepOp o) (hq : Terminal [semicolon] q) : named first (o :: q :: r) =
    .ok (.assign (first.span.join q.span) (.text first.text) .set
      (.unary .expression (first.span.join q.span) (.ofText o.text) (.identifier first.span (.text first.text))), r) := by
  have ho' : o.kind ∈ stepOps := ho.kind_mem
  have hlpar : o.kind ≠ lpar := (by decide : ∀ k ∈ stepOps, k ≠ lpar) _ ho'
  rw [named, expect_step (mem_of_all ho' (by decide)), next_step, nextKind_cons, if_neg hlpar, if_pos ho', take_step ho',
    take_step hq.kind_mem]
  rfl

theorem named_call {es : List Expr} (hl : Terminal [lpar] l) (h : Taken .args w es) (hc : Terminal [rpar] c)
    (hq : Terminal [semicolon] q) : named first (l :: (w ++ c :: q :: r)) =
      .ok (.call (first.span.join c.span) (.text first.text) es, r) := by
  have hl' : l.kind = lpar := hl.kind_eq
  have hc' : c.kind = rpar := hc.kind_eq
  have hargs : arguments (l :: (w ++ c :: q :: r)) = .ok ((es, c), q :: r) := by
    refine h _ l c (q :: r) ?_ hl' hc' (mem_of_all hq.kind_mem (by decide))
    simp only [exprFuel, List.length_cons, List.length_append]
    omega
  rw [named, expect_step (by rw [nextKind_cons, hl']; decide), next_step, nextKind_cons, if_pos hl', bind_step hargs]
  dsimp only
  rw [take_step hq.kind_mem]
  rfl

theorem printing_none (hl : Terminal [lpar] l) (hc : Terminal [rpar] c) (hq : Terminal [semicolon] q) :
    printing first (l :: c :: q :: r) = .ok (.print (first.span.join q.span) none, r) := by
  have hc' : c.kind = rpar := hc.kind_eq
  rw [printing, take_step hl.kind_mem, expect_step (by rw [nextKind_cons, hc']; decide), next_step]
  dsimp only
  rw [nextKind_cons, if_pos hc', pure_bind, take_step hc.kind_mem, take_step hq.kind_mem]
  rfl

theorem printing_some (hl : Terminal [lpar] l) (he : DerivesExpr .value w e) (hc : Terminal [rpar] c)
    (hq : Terminal [semicolon] q) :
    printing first (l :: (w ++ c :: q :: r)) = .ok (.print (first.span.join q.span) (some e), r) := by
  have hfirst : nextKind (w ++ c :: q :: r) ∈ valueFirst := nextKind_append_mem _ he.first (by decide) (by decide)
  have hne : nextKind (w ++ c :: q :: r) ≠ rpar := (by decide : ∀ k ∈ valueFirst, k ≠ rpar) _ hfirst
  have hvalue := value_of_derives (r := c :: q :: r) he (mem_of_all hc.kind_mem (by decide))
  rw [printing, take_step hl.kind_mem, expect_step (List.mem_cons_of_mem _ hfirst), next_step]
  dsimp only
  rw [if_neg hne, bind_step hvalue, pure_bind, take_step hc.kind_mem, take_step hq.kind_mem]
  rfl

theorem enclosedHeader_eq (hl : Terminal [lpar] l) (he : DerivesExpr .header w e) (hc : Terminal [rpar] c) :
    enclosedHeader (l :: (w ++ c :: r)) = .ok (e, r) := by
  have hheader := taken_of_derives he (c :: r) hc.kind_eq
  rw [enclosedHeader, take_step hl.kind_mem, bind_step hheader, take_step hc.kind_mem]
  rfl

/-- What is read after the first token of a statement, by that token's kind. -/
def afterFirst (fuel : Nat) (first : Token) (kind : Token.Kind) : Parser Stmt := do
  let s ← match kind with
    | print => printing first
    | ifWord => do
      let condition ← enclosedHeader
      let (thenBlock, close) ← blockWith fuel
      if (← next) = elseWord then
        let _ ← take [elseWord]
        let (elseBlock, last) ← blockWith fuel
        pure (.branch (first.span.join last.span) condition thenBlock (some elseBlock))
      else pure (.branch (first.span.join close.span) condition thenBlock none)
    | whileWord => do
      let condition ← enclosedHeader
      let (body, last) ← blockWith fuel
      pure (.loop (first.span.join last.span) condition (some body))
    | breakWord => do
      let last ← take [semicolon]
      pure (.breakOut (first.span.join last.span))
    | name => named first
    | _ => declaration first
  expect statementEnd
  return s

theorem statementWith_step {k : Token.Kind} (hk : first.kind = k) (hfirst : k ∈ statementFirst) :
    statementWith (fuel + 1) (first :: ts) = afterFirst fuel first k ts := by
  subst hk
  exact take_step hfirst

/-- A statement that is read is given back when a token follows that may. -/
theorem finish_step (hr : nextKind r ∈ statementEnd) :
    ((pure s : Parser Stmt) >>= fun s => expect statementEnd >>= fun _ => pure s) r = .ok (s, r) := by
  rw [pure_bind, expect_step hr]
  rfl

theorem afterFirst_type {k : Token.Kind} (hk : k ∈ typeName) : afterFirst fuel first k =
    declaration first >>= fun s => expect statementEnd >>= fun _ => pure s := by
  simp only [typeName, List.mem_cons, List.not_mem_nil, or_false] at hk
  rcases hk with rfl | rfl | rfl <;> rfl

theorem statementWith_print (hk : Terminal [print] first) (h : printing first ts = .ok (s, r))
    (hr : nextKind r ∈ statementEnd) : statementWith (fuel + 1) (first :: ts) = .ok (s, r) := by
  rw [statementWith_step hk.kind_eq (by decide)]
  exact (bind_step h).trans (expect_step hr)

theorem statementWith_name (hk : Terminal [name] first) (h : named first ts = .ok (s, r))
    (hr : nextKind r ∈ statementEnd) : statementWith (fuel + 1) (first :: ts) = .ok (s, r) := by
  rw [statementWith_step hk.kind_eq (by decide)]
  exact (bind_step h).trans (expect_step hr)

theorem statementWith_type (hk : Terminal typeName first) (h : declaration first ts = .ok (s, r))
    (hr : nextKind r ∈ statementEnd) : statementWith (fuel + 1) (first :: ts) = .ok (s, r) := by
  rw [statementWith_step rfl (mem_of_all hk.kind_mem (by decide)), afterFirst_type hk.kind_mem]
  exact (bind_step h).trans (expect_step hr)

theorem statementWith_break (hk : Terminal [breakWord] first) (hq : Terminal [semicolon] q)
    (hr : nextKind r ∈ statementEnd) :
    statementWith (fuel + 1) (first :: q :: r) = .ok (.breakOut (first.span.join q.span), r) := by
  rw [statementWith_step hk.kind_eq (by decide)]
  exact (take_step hq.kind_mem).trans (finish_step hr)

theorem statementWith_loop {body : List Stmt} {last : Token} (hk : Terminal [whileWord] first)
    (he : enclosedHeader ts = .ok (e, u)) (hb : blockWith fuel u = .ok ((body, last), r))
    (hr : nextKind r ∈ statementEnd) :
    statementWith (fuel + 1) (first :: ts) = .ok (.loop (first.span.join last.span) e (some body), r) := by
  rw [statementWith_step hk.kind_eq (by decide)]
  exact (bind_step he).trans ((bind_step hb).trans (finish_step hr))

theorem statementWith_branch {body : List Stmt} {last : Token} (hk : Terminal [ifWord] first)
    (he : enclosedHeader ts = .ok (e, u)) (hb : blockWith fuel u = .ok ((body, last), r))
    (hr : nextKind r ∈ statementEnd) :
    statementWith (fuel + 1) (first :: ts) = .ok (.branch (first.span.join last.span) e body none, r) := by
  have hne : nextKind r ≠ elseWord := (by decide : ∀ k ∈ statementEnd, k ≠ elseWord) _ hr
  rw [statementWith_step hk.kind_eq (by decide)]
  refine (bind_step he).trans ((bind_step hb).trans ?_)
  dsimp only
  rw [next_step, if_neg hne]
  exact finish_step hr

theorem statementWith_branch_else {body second : List Stmt} {close last : Token} (hk : Terminal [ifWord] first)
    (he : enclosedHeader ts = .ok (e, u)) (hb : blockWith fuel u = .ok ((body, close), o :: v))
    (ho : Terminal [elseWord] o) (hb' : blockWith fuel v = .ok ((second, last), r)) (hr : nextKind r ∈ statementEnd) :
    statementWith (fuel + 1) (first :: ts) = .ok (.branch (first.span.join last.span) e body (some second), r) := by
  have ho' : o.kind = elseWord := ho.kind_eq
  rw [statementWith_step hk.kind_eq (by decide)]
  refine (bind_step he).trans ((bind_step hb).trans ?_)
  dsimp only
  rw [next_step, nextKind_cons, if_pos ho', take_step ho.kind_mem, bind_step hb']
  exact finish_step hr

end Statements

/-- The fuel that a part needs, and what it is then read as before a token that may follow it. -/
def TakenStmt : (n : StmtPart) → List Token → n.Tree → Prop
  | .inner, w, s => ∀ fuel r, 4 * w.length ≤ fuel → nextKind r ∈ statementEnd → statementWith fuel (w ++ r) = .ok (s, r)
  | .inners, w, body => ∀ fuel closing r, 4 * w.length + 1 ≤ fuel → closing ∈ [rbrace, returnWord] →
      nextKind r = closing → statementsWith fuel closing (w ++ r) = .ok (body, r)
  | .block, w, body => ∃ last, w.getLast? = some last ∧ ∀ fuel r, 4 * w.length ≤ fuel → nextKind r ∈ blockEnd →
      blockWith fuel (w ++ r) = .ok ((body, last), r)
  | .params, w, ps => ∀ r, nextKind r = rpar →
      (if nextKind (w ++ r) = rpar then pure [] else parameters) (w ++ r) = .ok (ps, r)
  | .someParams, w, ps => ∀ fuel r, w.length < fuel → nextKind r = rpar → parametersWith fuel (w ++ r) = .ok (ps, r)
  | .param, w, p => ∃ type first last, p = .param (first.span.join last.span) type (.text last.text) ∧
      ∀ r, typedName (w ++ r) = .ok ((type, first, last), r)
  | .define, w, s => ∀ r, definition (w ++ r) = .ok (s, r)
  | .outer, w, s => ∀ r, nextKind r ∈ programNext →
      (if nextKind (w ++ r) = define then definition else statement) (w ++ r) = .ok (s, r)
  | .outers, w, body => ∀ fuel, w.length < fuel → programWith fuel w = .ok (body, [])
  | .start, w, p => program w = .ok p.statements ∧ p.span = extent w

theorem typeName_eq {k : Token} {type : Ty} (hk : Terminal typeName k) (h : Literal.typeNamed k.text = .ok type) :
    type = Ty.ofKind k.text := by
  rw [hk.lexical.typeNamed hk.kind_mem] at h
  exact (Except.ok.inj h).symm

section Inner

variable {a k l c o q : Token} {u v w : List Token} {e : Expr} {type : Ty} {body second : List Stmt}

/-- A statement has a token, so some fuel is left for what it holds. -/
theorem taken_inner {s : Stmt} (hw : w ≠ []) (h : ∀ fuel r, 4 * w.length ≤ fuel + 1 → nextKind r ∈ statementEnd →
    statementWith (fuel + 1) (w ++ r) = .ok (s, r)) : TakenStmt .inner w s := by
  intro fuel r hf hr
  have hlength := List.length_pos_iff.mpr hw
  obtain ⟨fuel, rfl⟩ := exists_succ_of_pos fuel (by omega)
  exact h fuel r hf hr

theorem taken_declare (hk : Terminal typeName k) (htype : Literal.typeNamed k.text = .ok type) (ha : Terminal [name] a)
    (hq : Terminal [semicolon] q) : TakenStmt .inner [k, a, q] (.declare (extent [k, a, q]) type (.text a.text) none) := by
  refine taken_inner (by simp) fun fuel r _ hr => ?_
  obtain rfl := typeName_eq hk htype
  exact statementWith_type hk (declaration_none ha hq) hr

theorem taken_declare_init (hk : Terminal typeName k) (htype : Literal.typeNamed k.text = .ok type)
    (ha : Terminal [name] a) (ho : Terminal [equal] o) (he : DerivesExpr .value w e) (hq : Terminal [semicolon] q) :
    TakenStmt .inner (k :: a :: o :: (w ++ [q]))
      (.declare (extent (k :: a :: o :: (w ++ [q]))) type (.text a.text) (some e)) := by
  refine taken_inner (by simp) fun fuel r _ hr => ?_
  obtain rfl := typeName_eq hk htype
  rw [extent_cons q (by simp [List.getLast?_cons])]
  simp only [List.cons_append, List.append_assoc, List.nil_append]
  exact statementWith_type hk (declaration_some ha ho he hq) hr

theorem taken_assign (ha : Terminal [name] a) (ho : Terminal assignOp o) (he : DerivesExpr .value w e)
    (hq : Terminal [semicolon] q) : TakenStmt .inner (a :: o :: (w ++ [q]))
      (.assign (extent (a :: o :: (w ++ [q]))) (.text a.text) (.ofText o.text) e) := by
  refine taken_inner (by simp) fun fuel r _ hr => ?_
  rw [extent_cons q (by simp [List.getLast?_cons])]
  simp only [List.cons_append, List.append_assoc, List.nil_append]
  exact statementWith_name ha (named_assign ho he hq) hr

theorem taken_step (ha : Terminal [name] a) (ho : Terminal stepOp o) (hq : Terminal [semicolon] q) :
    TakenStmt .inner [a, o, q] (.assign (extent [a, o, q]) (.text a.text) .set
      (.unary .expression (extent [a, o, q]) (.ofText o.text) (.identifier a.span (.text a.text)))) := by
  refine taken_inner (by simp) fun fuel r _ hr => ?_
  exact statementWith_name ha (named_step ho hq) hr

theorem taken_callStmt {span : Span} {f : Data} {es : List Expr} (h : DerivesExpr .call w (.call span f es))
    (hq : Terminal [semicolon] q) : TakenStmt .inner (w ++ [q]) (.call span f es) := by
  refine taken_inner (by simp) fun fuel r _ hr => ?_
  cases h with
  | @call g l w c _ hg hl hargs hc =>
    rw [extent_cons c (by simp [List.getLast?_cons])]
    simp only [List.cons_append, List.append_assoc, List.nil_append]
    exact statementWith_name hg (named_call hl (taken_of_derives hargs) hc hq) hr

theorem taken_print (ha : Terminal [print] a) (hl : Terminal [lpar] l) (hc : Terminal [rpar] c)
    (hq : Terminal [semicolon] q) : TakenStmt .inner [a, l, c, q] (.print (extent [a, l, c, q]) none) := by
  refine taken_inner (by simp) fun fuel r _ hr => ?_
  exact statementWith_print ha (printing_none hl hc hq) hr

theorem taken_print_value (ha : Terminal [print] a) (hl : Terminal [lpar] l) (he : DerivesExpr .value w e)
    (hc : Terminal [rpar] c) (hq : Terminal [semicolon] q) :
    TakenStmt .inner (a :: l :: (w ++ [c, q])) (.print (extent (a :: l :: (w ++ [c, q]))) (some e)) := by
  refine taken_inner (by simp) fun fuel r _ hr => ?_
  rw [extent_cons q (by simp [List.getLast?_cons])]
  simp only [List.cons_append, List.append_assoc, List.nil_append]
  exact statementWith_print ha (printing_some hl he hc hq) hr

theorem taken_branch (ha : Terminal [ifWord] a) (hl : Terminal [lpar] l) (he : DerivesExpr .header w e)
    (hc : Terminal [rpar] c) (hu : TakenStmt .block u body) :
    TakenStmt .inner (a :: l :: (w ++ c :: u)) (.branch (extent (a :: l :: (w ++ c :: u))) e body none) := by
  refine taken_inner (by simp) fun fuel r hf hr => ?_
  simp only [List.length_cons, List.length_append] at hf
  obtain ⟨last, hlast, hblock⟩ := hu
  rw [extent_cons last (by simp [List.getLast?_cons, List.getLast?_append, hlast])]
  simp only [List.cons_append, List.append_assoc]
  exact statementWith_branch ha (enclosedHeader_eq hl he hc) (hblock fuel r (by omega) (List.mem_cons_of_mem _ hr)) hr

theorem taken_branch_else (ha : Terminal [ifWord] a) (hl : Terminal [lpar] l) (he : DerivesExpr .header w e)
    (hc : Terminal [rpar] c) (hu : TakenStmt .block u body) (ho : Terminal [elseWord] o)
    (hv : TakenStmt .block v second) : TakenStmt .inner (a :: l :: (w ++ c :: (u ++ o :: v)))
      (.branch (extent (a :: l :: (w ++ c :: (u ++ o :: v)))) e body (some second)) := by
  refine taken_inner (by simp) fun fuel r hf hr => ?_
  simp only [List.length_cons, List.length_append] at hf
  obtain ⟨close, hclose, hblock⟩ := hu
  obtain ⟨last, hlast, hblock'⟩ := hv
  have ho' : nextKind (o :: (v ++ r)) ∈ blockEnd := mem_of_all ho.kind_mem (by decide)
  rw [extent_cons last (by simp [List.getLast?_cons, List.getLast?_append, hlast])]
  simp only [List.cons_append, List.append_assoc]
  exact statementWith_branch_else ha (enclosedHeader_eq hl he hc) (hblock fuel _ (by omega) ho') ho
    (hblock' fuel r (by omega) (List.mem_cons_of_mem _ hr)) hr

theorem taken_loop (ha : Terminal [whileWord] a) (hl : Terminal [lpar] l) (he : DerivesExpr .header w e)
    (hc : Terminal [rpar] c) (hu : TakenStmt .block u body) :
    TakenStmt .inner (a :: l :: (w ++ c :: u)) (.loop (extent (a :: l :: (w ++ c :: u))) e (some body)) := by
  refine taken_inner (by simp) fun fuel r hf hr => ?_
  simp only [List.length_cons, List.length_append] at hf
  obtain ⟨last, hlast, hblock⟩ := hu
  rw [extent_cons last (by simp [List.getLast?_cons, List.getLast?_append, hlast])]
  simp only [List.cons_append, List.append_assoc]
  exact statementWith_loop ha (enclosedHeader_eq hl he hc) (hblock fuel r (by omega) (List.mem_cons_of_mem _ hr)) hr

theorem taken_breakOut (ha : Terminal [breakWord] a) (hq : Terminal [semicolon] q) :
    TakenStmt .inner [a, q] (.breakOut (extent [a, q])) := by
  refine taken_inner (by simp) fun fuel r _ hr => ?_
  exact statementWith_break ha hq hr

end Inner

section Blocks

variable {l c : Token} {u v w : List Token} {s : Stmt} {body rest : List Stmt}

theorem taken_inners_none : TakenStmt .inners [] [] := by
  intro fuel closing r hf hclosing hr
  obtain ⟨fuel, rfl⟩ := exists_succ_of_pos fuel (by omega)
  rw [List.nil_append, statementsWith, expect_step (by rw [hr]; exact .head _), next_step, if_pos hr]
  rfl

theorem taken_inners_more (hu : DerivesStmt .inner u s) (hv : DerivesStmt .inners v rest) (ihu : TakenStmt .inner u s)
    (ihv : TakenStmt .inners v rest) : TakenStmt .inners (u ++ v) (s :: rest) := by
  intro fuel closing r hf hclosing hr
  simp only [List.length_append] at hf
  have hfirst : nextKind (u ++ (v ++ r)) ∈ statementFirst := nextKind_append_mem _ hu.first (by decide) (by decide)
  have hne : nextKind (u ++ (v ++ r)) ≠ closing := by
    rintro rfl
    exact (by decide : ∀ k ∈ statementFirst, k ∉ [rbrace, returnWord]) _ hfirst hclosing
  have hlength := List.length_pos_iff.mpr (ne_nil_of_nextKind hu.first (by decide))
  have hnext : nextKind (v ++ r) ∈ blockNext := by
    cases v with
    | nil =>
      rw [List.nil_append, hr]
      exact mem_of_all hclosing (by decide)
    | cons t v =>
      have hlexical := (hv.readable t (.head _)).1
      exact mem_of_all (List.mem_of_ne_of_mem hlexical.exists_kind hv.first) (by decide)
  obtain ⟨fuel, rfl⟩ := exists_succ_of_pos fuel (by omega)
  rw [List.append_assoc, statementsWith, expect_step (List.mem_cons_of_mem _ hfirst), next_step, if_neg hne,
    bind_step (ihu fuel (v ++ r) (by omega) (mem_of_all hnext (by decide))), expect_step hnext,
    bind_step (ihv fuel closing r (by omega) hclosing hr)]
  rfl

theorem taken_block (hl : Terminal [lbrace] l) (h : TakenStmt .inners w body) (hc : Terminal [rbrace] c) :
    TakenStmt .block (l :: (w ++ [c])) body := by
  refine ⟨c, by simp [List.getLast?_cons], fun fuel r hf hr => ?_⟩
  simp only [List.length_cons, List.length_append, List.length_nil] at hf
  obtain ⟨fuel, rfl⟩ := exists_succ_of_pos fuel (by omega)
  have hbody := h fuel rbrace (c :: r) (by omega) (by decide) hc.kind_eq
  simp only [List.cons_append, List.append_assoc, List.nil_append]
  rw [blockWith, take_step hl.kind_mem, bind_step hbody, take_step hc.kind_mem, expect_step hr]
  rfl

end Blocks

section Definitions

variable {a b c d k l o q t : Token} {u v w : List Token} {p : Stmt} {ps body : List Stmt} {type : Ty} {e : Expr}

theorem taken_params_none : TakenStmt .params [] [] := by
  intro r hr
  rw [List.nil_append, if_pos hr]
  rfl

theorem taken_params_some (hfirst : nextKind w ∈ typeWords) (h : TakenStmt .someParams w ps) : TakenStmt .params w ps := by
  intro r hr
  have hfirst' : nextKind (w ++ r) ∈ typeWords := nextKind_append_mem _ hfirst (by decide) (by decide)
  rw [if_neg ((by decide : ∀ k ∈ typeWords, k ≠ rpar) _ hfirst')]
  refine h _ r ?_ hr
  simp only [List.length_append]
  omega

theorem taken_someParams_one (h : TakenStmt .param w p) : TakenStmt .someParams w [p] := by
  intro fuel r hf hr
  obtain ⟨fuel, rfl⟩ := exists_succ_of_pos fuel (by omega)
  obtain ⟨type, first, last, rfl, hname⟩ := h
  have hne : nextKind r ≠ comma := by rw [hr]; decide
  rw [parametersWith, bind_step (hname r)]
  dsimp only
  rw [expect_step (by rw [hr]; decide), next_step, if_neg hne]
  rfl

theorem taken_someParams_more (hu : TakenStmt .param u p) (hc : Terminal [comma] c) (hv : TakenStmt .someParams v ps) :
    TakenStmt .someParams (u ++ c :: v) (p :: ps) := by
  intro fuel r hf hr
  simp only [List.length_append, List.length_cons] at hf
  obtain ⟨fuel, rfl⟩ := exists_succ_of_pos fuel (by omega)
  obtain ⟨type, first, last, rfl, hname⟩ := hu
  have hc' : c.kind = comma := hc.kind_eq
  rw [List.append_assoc, List.cons_append, parametersWith, bind_step (hname _)]
  dsimp only
  rw [expect_step (by rw [nextKind_cons, hc']; decide), next_step, nextKind_cons, if_pos hc', take_step hc.kind_mem,
    bind_step (hv fuel r (by omega) hr)]
  rfl

theorem typedName_eq (hk : Terminal typeName k) (htype : Literal.typeNamed k.text = .ok type) (ha : Terminal [name] a)
    (r : List Token) : typedName (k :: a :: r) = .ok ((type, k, a), r) := by
  have hk' : k.kind ∈ typeWords := hk.kind_mem
  obtain rfl := typeName_eq hk htype
  rw [typedName, take_step hk', take_step ha.kind_mem]
  rfl

theorem taken_param (hk : Terminal typeName k) (htype : Literal.typeNamed k.text = .ok type) (ha : Terminal [name] a) :
    TakenStmt .param [k, a] (.param (extent [k, a]) type (.text a.text)) :=
  ⟨type, k, a, rfl, typedName_eq hk htype ha⟩

theorem taken_define (hd : Terminal [define] d) (hk : Terminal typeName k) (htype : Literal.typeNamed k.text = .ok type)
    (ha : Terminal [name] a) (hl : Terminal [lpar] l) (hu : DerivesStmt .params u ps) (ihu : TakenStmt .params u ps)
    (hc : Terminal [rpar] c) (hb : Terminal [lbrace] b) (hw : TakenStmt .inners w body) (ho : Terminal [returnWord] o)
    (he : DerivesExpr .value v e) (hq : Terminal [semicolon] q) (ht : Terminal [rbrace] t) :
    TakenStmt .define (d :: k :: a :: l :: (u ++ c :: b :: (w ++ o :: (v ++ [q, t]))))
      (.define (extent (d :: k :: a :: l :: (u ++ c :: b :: (w ++ o :: (v ++ [q, t]))))) type (.text a.text) ps (some body)
        e) := by
  intro r
  have hc' : c.kind = rpar := hc.kind_eq
  have hparams := ihu (c :: b :: (w ++ o :: (v ++ q :: t :: r))) hc'
  have hfirst : nextKind (u ++ c :: b :: (w ++ o :: (v ++ q :: t :: r))) ∈ rpar :: typeWords := by
    cases u with
    | nil => exact List.mem_cons.mpr (Or.inl hc')
    | cons t u =>
      have hlexical := (hu.readable t (.head _)).1
      exact List.mem_cons_of_mem _ (List.mem_of_ne_of_mem hlexical.exists_kind hu.first)
  have hbody : statements returnWord (w ++ o :: (v ++ q :: t :: r)) = .ok (body, o :: (v ++ q :: t :: r)) := by
    refine hw _ returnWord _ ?_ (by decide) ho.kind_eq
    simp only [stmtFuel, List.length_append]
    omega
  have hvalue := value_of_derives (r := q :: t :: r) he (mem_of_all hq.kind_mem (by decide))
  rw [extent_cons t (by simp [List.getLast?_cons, List.getLast?_append])]
  simp only [List.cons_append, List.append_assoc, List.nil_append]
  rw [definition, take_step hd.kind_mem, bind_step (typedName_eq hk htype ha _)]
  dsimp only
  rw [take_step hl.kind_mem, expect_step hfirst, next_step]
  rw [ite_bind_step hparams, take_step hc.kind_mem, take_step hb.kind_mem, bind_step hbody, take_step ho.kind_mem,
    bind_step hvalue, take_step hq.kind_mem, take_step ht.kind_mem]
  rfl

theorem taken_outer_inner {s : Stmt} (hfirst : nextKind w ∈ statementFirst) (h : TakenStmt .inner w s) :
    TakenStmt .outer w s := by
  intro r hr
  have hfirst' : nextKind (w ++ r) ∈ statementFirst := nextKind_append_mem _ hfirst (by decide) (by decide)
  rw [if_neg ((by decide : ∀ k ∈ statementFirst, k ≠ define) _ hfirst')]
  refine h _ r ?_ (mem_of_all hr (by decide))
  simp only [stmtFuel, List.length_append]
  omega

theorem taken_outer_define {s : Stmt} (hfirst : nextKind w ∈ [define]) (h : TakenStmt .define w s) :
    TakenStmt .outer w s := by
  intro r hr
  have hfirst' : nextKind (w ++ r) ∈ [define] := nextKind_append_mem _ hfirst (by decide) (by decide)
  rw [if_pos (List.mem_singleton.mp hfirst')]
  exact h r

theorem taken_outers_none : TakenStmt .outers [] [] := by
  intro fuel hf
  obtain ⟨fuel, rfl⟩ := exists_succ_of_pos fuel hf
  rfl

theorem taken_outers_more {s : Stmt} {rest : List Stmt} (hu : DerivesStmt .outer u s) (hv : DerivesStmt .outers v rest)
    (ihu : TakenStmt .outer u s) (ihv : TakenStmt .outers v rest) : TakenStmt .outers (u ++ v) (s :: rest) := by
  intro fuel hf
  simp only [List.length_append] at hf
  have hlength := List.length_pos_iff.mpr (ne_nil_of_nextKind hu.first (by decide))
  have hfirst : nextKind (u ++ v) ∈ define :: statementFirst := nextKind_append_mem _ hu.first (by decide) (by decide)
  have hne : nextKind (u ++ v) ≠ ending := (by decide : ∀ k ∈ define :: statementFirst, k ≠ ending) _ hfirst
  have hprogram : nextKind (u ++ v) ∈ programNext := List.mem_cons_of_mem _ hfirst
  have hs := ihu v hv.first
  obtain ⟨fuel, rfl⟩ := exists_succ_of_pos fuel (by omega)
  rw [programWith, expect_step hprogram, next_step, if_neg hne, next_step]
  dsimp only
  rw [ite_bind_step hs, bind_step (ihv fuel (by omega))]
  rfl

theorem taken_start (h : TakenStmt .outers w body) : TakenStmt .start w ⟨extent w, body⟩ := by
  refine ⟨?_, rfl⟩
  rw [program, h _ (Nat.lt_succ_self _)]
  rfl

end Definitions

/-- What a part of a program derives is what the part is read as. -/
theorem takenStmt_of_derives {n : StmtPart} {w : List Token} {s : n.Tree} (h : DerivesStmt n w s) : TakenStmt n w s := by
  induction h with
  | declare hk htype ha hs => exact taken_declare hk htype ha hs
  | declare_init hk htype ha ho hw hs => exact taken_declare_init hk htype ha ho hw hs
  | assign ha ho hw hs => exact taken_assign ha ho hw hs
  | step ha ho hs => exact taken_step ha ho hs
  | call hw hs => exact taken_callStmt hw hs
  | print ha hl hr hs => exact taken_print ha hl hr hs
  | print_value ha hl hw hr hs => exact taken_print_value ha hl hw hr hs
  | branch ha hl hw hr _ ih => exact taken_branch ha hl hw hr ih
  | branch_else ha hl hw hr _ ho _ ihu ihv => exact taken_branch_else ha hl hw hr ihu ho ihv
  | loop ha hl hw hr _ ih => exact taken_loop ha hl hw hr ih
  | breakOut ha hs => exact taken_breakOut ha hs
  | inners_none => exact taken_inners_none
  | inners_more hu hv ihu ihv => exact taken_inners_more hu hv ihu ihv
  | block hl _ hr ih => exact taken_block hl ih hr
  | params_none => exact taken_params_none
  | params_some h ih => exact taken_params_some h.first ih
  | someParams_one _ ih => exact taken_someParams_one ih
  | someParams_more _ hc _ ihu ihv => exact taken_someParams_more ihu hc ihv
  | param hk htype ha => exact taken_param hk htype ha
  | define hd hk htype ha hl hu hr hb _ ho hv hs hc ihu ihw =>
    exact taken_define hd hk htype ha hl hu ihu hr hb ihw ho hv hs hc
  | outer_inner h ih => exact taken_outer_inner h.first ih
  | outer_define h ih => exact taken_outer_define h.first ih
  | outers_none => exact taken_outers_none
  | outers_more hu hv ihu ihv => exact taken_outers_more hu hv ihu ihv
  | start _ ih => exact taken_start ih

end Parse

namespace Program

open Grammar

theorem ofScan_eq_ok {s : Token.Scan} {p : Program} : ofScan s = .ok p ↔
    s.error = none ∧ Parse.program s.tokens = .ok p.statements ∧ (∀ t ∈ s.tokens, t.isForeignNumber = false) ∧
      p.span = Token.extent s.tokens := by
  obtain ⟨tokens, error⟩ := s
  constructor
  · intro h
    unfold ofScan at h
    split at h
    · cases h
    · cases h
    · cases h
    · rename_i statements hs herror
      split at h
      · cases h
      · rename_i hfind
        cases h
        exact ⟨herror, hs, fun t ht => by simpa using List.find?_eq_none.mp hfind t ht, rfl⟩
  · rintro ⟨herror, hs, hforeign, hspan⟩
    have hfind : tokens.find? Token.isForeignNumber = none :=
      List.find?_eq_none.mpr fun t ht => by simp [hforeign t ht]
    obtain ⟨span, statements⟩ := p
    subst hspan herror
    simp only [ofScan, hs, hfind]

/-- Tokens derive exactly the tree that they are read as. -/
theorem derives_iff_ofScan (ts : List Token) (p : Program) :
    DerivesStmt .start ts p ↔ (∀ t ∈ ts, t.Lexical) ∧ ofScan ⟨ts, none⟩ = .ok p := by
  constructor
  · intro h
    obtain ⟨hs, hspan⟩ := Parse.takenStmt_of_derives h
    have hread := h.readable
    exact ⟨fun t ht => (hread t ht).1, ofScan_eq_ok.mpr ⟨rfl, hs, fun t ht => (hread t ht).2, hspan⟩⟩
  · rintro ⟨hlexical, h⟩
    obtain ⟨-, hs, hforeign, hspan⟩ := ofScan_eq_ok.mp h
    have h := DerivesStmt.start (Parse.derives_of_program (fun t ht => ⟨hlexical t ht, hforeign t ht⟩) hs)
    rwa [← hspan] at h

theorem parse_iff_derives (source : String) (p : Program) :
    parse source = .ok p ↔ (Token.scan source).error = none ∧ DerivesStmt .start (Token.scan source).tokens p := by
  rw [derives_iff_ofScan]
  constructor
  · intro h
    obtain ⟨herror, hrest⟩ := ofScan_eq_ok.mp h
    exact ⟨herror, Token.scan_lexical source, ofScan_eq_ok.mpr ⟨rfl, hrest⟩⟩
  · rintro ⟨herror, -, h⟩
    exact ofScan_eq_ok.mpr ⟨herror, (ofScan_eq_ok.mp h).2⟩

/-- Tokens are accepted with a tree exactly if they derive it from the start of the grammar, there is at most one such tree, and a
source is parsed exactly if all of it is scanned and its tokens derive the tree. -/
theorem recognizes_grammar :
    (∀ ts p, DerivesStmt .start ts p ↔ (∀ t ∈ ts, t.Lexical) ∧ ofScan ⟨ts, none⟩ = .ok p) ∧
    (∀ ts p q, DerivesStmt .start ts p → DerivesStmt .start ts q → p = q) ∧
    ∀ source p, parse source = .ok p ↔
      (Token.scan source).error = none ∧ DerivesStmt .start (Token.scan source).tokens p := by
  refine ⟨derives_iff_ofScan, ?_, parse_iff_derives⟩
  intro ts p q hp hq
  have hp' := ((derives_iff_ofScan ts p).mp hp).2
  have hq' := ((derives_iff_ofScan ts q).mp hq).2
  rw [hp'] at hq'
  exact Except.ok.inj hq'

end Program
end CheckedScript
