import CheckedScript.Proofs.Grammar

/-! What is read is derived. Each parser that accepts takes tokens from the front that derive the tree which it gives. -/

namespace CheckedScript.Parse

open Grammar
open Token (extent)
open Token.Kind

variable {α β : Type}

/-- What the parser takes from the front of readable tokens, and what it makes of it, have `P`. -/
def Reads (p : Parser α) (P : List Token → α → Prop) : Prop :=
  ∀ ts a rest, (∀ t ∈ ts, Readable t) → p ts = .ok (a, rest) → ∃ w, ts = w ++ rest ∧ P w a

section Rules

variable {p : Parser α} {k : α → Parser β} {P Q : List Token → α → Prop} {R : List Token → β → Prop}
  {kinds : List Token.Kind}

theorem Reads.imp (h : Reads p P) (hpq : ∀ w a, P w a → Q w a) : Reads p Q := by
  intro ts a rest hts ha
  obtain ⟨w, hw, hp⟩ := h ts a rest hts ha
  exact ⟨w, hw, hpq w a hp⟩

theorem bind_eq_ok {ts rest : List Token} {b : β} :
    (p >>= k) ts = .ok (b, rest) ↔ ∃ a mid, p ts = .ok (a, mid) ∧ k a mid = .ok (b, rest) := by
  simp only [Bind.bind, StateT.bind]
  cases p ts with
  | error e => simp [Except.bind]
  | ok r =>
    obtain ⟨a, mid⟩ := r
    constructor
    · intro h
      exact ⟨a, mid, rfl, h⟩
    · rintro ⟨_, _, ⟨⟩, h⟩
      exact h

theorem Reads.bind (h : Reads p P) (hk : ∀ u a, P u a → Reads (k a) fun v b => R (u ++ v) b) : Reads (p >>= k) R := by
  intro ts b rest hts hb
  obtain ⟨a, mid, ha, hb'⟩ := bind_eq_ok.mp hb
  obtain ⟨u, rfl, hp⟩ := h ts a mid hts ha
  obtain ⟨v, rfl, hr⟩ := hk u a hp mid b rest (fun t ht => hts t (List.mem_append_right u ht)) hb'
  exact ⟨u ++ v, (List.append_assoc u v rest).symm, hr⟩

theorem reads_pure {a : α} (h : P [] a) : Reads (pure a) P := by
  intro ts b rest _ hb
  cases hb
  exact ⟨[], rfl, h⟩

theorem reads_pure_bind {a : α} (h : Reads (k a) R) : Reads (pure a >>= k) R := h

theorem reads_refuse : Reads (refuse kinds) P := by
  intro ts a rest _ ha
  cases ha

theorem next_bind {k : Token.Kind → Parser β} (hk : ∀ kind, Reads (k kind) R) : Reads (next >>= k) R := by
  have hnext : Reads next fun w _ => w = [] := by
    intro ts a rest _ ha
    unfold next at ha
    split at ha <;> cases ha <;> exact ⟨[], rfl, rfl⟩
  refine hnext.bind ?_
  rintro u kind rfl
  exact hk kind

theorem expect_bind {k : Unit → Parser β} (hk : Reads (k ()) R) : Reads (expect kinds >>= k) R := by
  have hexpect : Reads (expect kinds) fun w _ => w = [] := by
    refine next_bind fun kind => ?_
    split
    · exact reads_pure rfl
    · exact reads_refuse
  refine hexpect.bind ?_
  rintro u - rfl
  exact hk

theorem take_bind {k : Token → Parser β}
    (hk : ∀ t, Terminal kinds t → Readable t → Reads (k t) fun v b => R (t :: v) b) : Reads (take kinds >>= k) R := by
  have htake : Reads (take kinds) fun w t => w = [t] ∧ Terminal kinds t ∧ Readable t := by
    intro ts t rest hts ht
    unfold take at ht
    split at ht
    · split at ht
      · rename_i hkind
        cases ht
        have hread := hts t (.head _)
        exact ⟨[t], rfl, rfl, ⟨hkind, hread.1⟩, hread⟩
      · cases ht
    · cases ht
  refine htake.bind ?_
  rintro u t ⟨rfl, ht, hread⟩
  exact hk t ht hread

end Rules

section Leaves

variable {t m : Token} {w : List Token} {e : Expr}

theorem derives_number (hread : Readable t) (hk : t.kind = numberLit) :
    DerivesExpr .atom [t] (.literal t.span (.number (Literal.number t.text.toList))) := by
  refine .atom_literal ⟨by simp [hk], hread.1⟩ ?_
  obtain ⟨v, hv⟩ := (hread.1.parse_ok_iff (Or.inl hk)).mpr hread.2
  rw [hread.1.parse_number hk] at hv ⊢
  split at hv
  · rename_i h
    rw [if_pos h]
  · cases hv

theorem derives_string (hread : Readable t) (hk : t.kind = stringLit) :
    DerivesExpr .atom [t] (.literal t.span (.text (unquote t.text))) :=
  .atom_literal ⟨by simp [hk], hread.1⟩ (hread.1.parse_string hk)

theorem derives_boolean (hread : Readable t) (hk : t.kind = trueWord ∨ t.kind = falseWord) :
    DerivesExpr .atom [t] (.literal t.span (.boolean (t.kind == trueWord))) := by
  have htext : (t.text == "true") = (t.kind == trueWord) := by
    rcases hk with hk | hk <;>
    · rw [hread.1.faithful _ (by rw [hk]; rfl), hk]
      rfl
  rw [← htext]
  exact .atom_boolean ⟨by simpa using hk, hread.1⟩

/-- A minus is folded into a number, and is an operator before anything else. -/
theorem derives_negate (hm : Terminal [minus] m) (hw : DerivesExpr .factor w e) :
    DerivesExpr .factor (m :: w) (negate (m.span.join e.span) e) := by
  have hspan : m.span.join e.span = extent (m :: w) := by
    rw [hw.span, extent_before hw.first]
  rw [hspan]
  unfold negate
  split
  · exact .factor_folded hm hw
  · rename_i hne
    exact .factor_negated hm hw fun span z h => hne span z h

theorem derives_sum {u v : List Token} {x y : Expr} {o : Token} (hu : DerivesExpr .expr u x) (ho : Terminal addOp o)
    (hv : DerivesExpr .term v y) :
    DerivesExpr .expr (u ++ o :: v) (.binary .expression (x.span.join y.span) (.ofText o.text) x y) := by
  rw [hu.span, hv.span, ← extent_between hu.first hv.first]
  exact .expr_binary hu ho hv

theorem derives_product {u v : List Token} {x y : Expr} {o : Token} (hu : DerivesExpr .term u x) (ho : Terminal mulOp o)
    (hv : DerivesExpr .factor v y) :
    DerivesExpr .term (u ++ o :: v) (.binary .expression (x.span.join y.span) (.ofText o.text) x y) := by
  rw [hu.span, hv.span, ← extent_between hu.first hv.first]
  exact .term_binary hu ho hv

end Leaves

section Operand

variable {p : Parser Expr}

theorem Reads.value (h : Reads p fun w e => DerivesExpr .expr w e ∨ DerivesExpr .cond w e) :
    Reads p fun w e => DerivesExpr .value w e := by
  refine h.imp ?_
  rintro w e (he | he)
  · exact .value_expr he
  · exact .value_cond he

theorem Reads.side (h : Reads p fun w e => DerivesExpr .expr w e ∨ DerivesExpr .cond w e) :
    Reads p fun w e => DerivesExpr .side w e := by
  refine h.imp ?_
  rintro w e (he | he)
  · exact .side_expr he
  · exact .side_cond he

end Operand

mutual

theorem operandWith_reads (fuel : Nat) (place : Place) :
    Reads (operandWith fuel place) fun w e => DerivesExpr .expr w e ∨ DerivesExpr .cond w e := by
  cases fuel with
  | zero => exact reads_refuse
  | succ fuel =>
    refine expect_bind (next_bind fun kind => ?_)
    split
    · refine (conditionWith_reads fuel).bind fun w e he => expect_bind (reads_pure ?_)
      rw [List.append_nil]
      exact Or.inr he
    · refine (sumWith_reads fuel).bind fun w e he => expect_bind (reads_pure ?_)
      rw [List.append_nil]
      exact Or.inl he
termination_by fuel

theorem conditionWith_reads (fuel : Nat) : Reads (conditionWith fuel) fun w e => DerivesExpr .cond w e := by
  cases fuel with
  | zero => exact reads_refuse
  | succ fuel =>
    refine take_bind fun first hfirst _ => ?_
    dsimp only
    split
    · rename_i hk
      have finish (w : List Token) (e : Expr) (he : DerivesExpr .negand w e) : Reads (do
          expect conditionEnd
          return Expr.unary .condition (first.span.join e.span) .not e) fun v b =>
            DerivesExpr .cond (first :: (w ++ v)) b := by
        refine expect_bind (reads_pure ?_)
        rw [List.append_nil, he.span, ← extent_before he.first]
        exact .cond_not ⟨by simp [hk], hfirst.lexical⟩ he
      refine expect_bind (next_bind fun kind => ?_)
      split
      · exact (conditionWith_reads fuel).bind fun w e he => finish w e (.negand_cond he)
      · exact (atomWith_reads fuel).bind fun w e he => finish w e (.negand_atom he)
    · rename_i hk
      have hlpar : Terminal [lpar] first := by
        refine ⟨?_, hfirst.lexical⟩
        simpa [conditionFirst, hk] using hfirst.kind_mem
      refine (operandWith_reads fuel .side).side.bind fun u x hx => take_bind fun op hop _ => ?_
      refine (operandWith_reads fuel .side).side.bind fun v y hy => take_bind fun last hlast _ => expect_bind (reads_pure ?_)
      have h := DerivesExpr.cond_binary hlpar hx hop hy hlast
      rwa [extent_cons last (by simp [List.getLast?_cons])] at h
termination_by fuel

theorem sumWith_reads (fuel : Nat) : Reads (sumWith fuel) fun w e => DerivesExpr .expr w e := by
  cases fuel with
  | zero => exact reads_refuse
  | succ fuel =>
    refine (productWith_reads fuel).bind fun u e he => (sumRestWith_reads fuel e).imp ?_
    intro v e' h
    exact h u (.expr_term he)
termination_by fuel

/-- Whatever the sum started with, it goes on with the tokens that are read here. -/
theorem sumRestWith_reads (fuel : Nat) (left : Expr) : Reads (sumRestWith fuel left) fun v e =>
    ∀ u, DerivesExpr .expr u left → DerivesExpr .expr (u ++ v) e := by
  cases fuel with
  | zero => exact reads_refuse
  | succ fuel =>
    refine next_bind fun kind => ?_
    split
    · refine take_bind fun op hop _ => (productWith_reads fuel).bind fun w right hr => ?_
      refine (sumRestWith_reads fuel _).imp ?_
      intro v e h u hu
      simpa using h (u ++ op :: w) (derives_sum hu hop hr)
    · refine reads_pure fun u hu => ?_
      rwa [List.append_nil]
termination_by fuel

theorem productWith_reads (fuel : Nat) : Reads (productWith fuel) fun w e => DerivesExpr .term w e := by
  cases fuel with
  | zero => exact reads_refuse
  | succ fuel =>
    refine (factorWith_reads fuel).bind fun u e he => (productRestWith_reads fuel e).imp ?_
    intro v e' h
    exact h u (.term_factor he)
termination_by fuel

theorem productRestWith_reads (fuel : Nat) (left : Expr) : Reads (productRestWith fuel left) fun v e =>
    ∀ u, DerivesExpr .term u left → DerivesExpr .term (u ++ v) e := by
  cases fuel with
  | zero => exact reads_refuse
  | succ fuel =>
    refine next_bind fun kind => ?_
    split
    · refine take_bind fun op hop _ => (factorWith_reads fuel).bind fun w right hr => ?_
      refine (productRestWith_reads fuel _).imp ?_
      intro v e h u hu
      simpa using h (u ++ op :: w) (derives_product hu hop hr)
    · refine reads_pure fun u hu => ?_
      rwa [List.append_nil]
termination_by fuel

theorem factorWith_reads (fuel : Nat) : Reads (factorWith fuel) fun w e => DerivesExpr .factor w e := by
  cases fuel with
  | zero => exact reads_refuse
  | succ fuel =>
    refine expect_bind (next_bind fun kind => ?_)
    split
    · refine take_bind fun m hm _ => (factorWith_reads fuel).bind fun w e he => reads_pure ?_
      rw [List.append_nil]
      exact derives_negate hm he
    · exact (atomWith_reads fuel).imp fun w e he => .factor_atom he
termination_by fuel

theorem atomWith_reads (fuel : Nat) : Reads (atomWith fuel) fun w e => DerivesExpr .atom w e := by
  cases fuel with
  | zero => exact reads_refuse
  | succ fuel =>
    refine take_bind fun t ht hread => ?_
    dsimp only
    split
    · rename_i hname
      have hname : Terminal [name] t := ⟨by simp [hname], ht.lexical⟩
      refine expect_bind (next_bind fun kind => ?_)
      split
      · refine (argumentsWith_reads fuel).bind fun w args hargs => reads_pure ?_
        rw [List.append_nil]
        exact .atom_call (hargs t hname)
      · exact reads_pure (.atom_name hname)
    · rename_i hname
      refine expect_bind ?_
      split
      · rename_i hk
        exact reads_pure (derives_number hread hk)
      · rename_i hk
        exact reads_pure (derives_string hread hk)
      · rename_i hnumber hstring
        refine reads_pure (derives_boolean hread ?_)
        have hnumber : t.kind ≠ numberLit := hnumber
        have hstring : t.kind ≠ stringLit := hstring
        simpa [atomFirst, hname, hnumber, hstring] using ht.kind_mem
termination_by fuel

/-- After a name, arguments make a call. -/
theorem argumentsWith_reads (fuel : Nat) : Reads (argumentsWith fuel) fun w a =>
    ∀ f, Terminal [name] f → DerivesExpr .call (f :: w) (.call (f.span.join a.2.span) (.text f.text) a.1) := by
  cases fuel with
  | zero => exact reads_refuse
  | succ fuel =>
    refine take_bind fun l hl _ => expect_bind (next_bind fun kind => ?_)
    have finish (w : List Token) (args : List Expr) (hargs : DerivesExpr .args w args) : Reads (do
        let last ← take [rpar]
        expect atomEnd
        return (args, last)) fun v a => ∀ f, Terminal [name] f →
          DerivesExpr .call (f :: l :: (w ++ v)) (.call (f.span.join a.2.span) (.text f.text) a.1) := by
      refine take_bind fun r hr _ => expect_bind (reads_pure fun f hf => ?_)
      have h := DerivesExpr.call hf hl hargs hr
      rwa [extent_cons r (by simp [List.getLast?_cons])] at h
    dsimp only
    split
    · exact finish [] [] .args_none
    · exact (argumentListWith_reads fuel).bind fun w args hargs => finish w args (.args_some hargs)
termination_by fuel

theorem argumentListWith_reads (fuel : Nat) : Reads (argumentListWith fuel) fun w es => DerivesExpr .someArgs w es := by
  cases fuel with
  | zero => exact reads_refuse
  | succ fuel =>
    refine (operandWith_reads fuel .alone).value.bind fun u e he => expect_bind (next_bind fun kind => ?_)
    split
    · refine take_bind fun c hc _ => (argumentListWith_reads fuel).bind fun v es hes => reads_pure ?_
      rw [List.append_nil]
      exact .someArgs_more he hc hes
    · refine reads_pure ?_
      rw [List.append_nil]
      exact .someArgs_one he
termination_by fuel

end

theorem value_reads : Reads value fun w e => DerivesExpr .value w e :=
  fun ts => (operandWith_reads (exprFuel ts) .alone).value ts

theorem side_reads : Reads side fun w e => DerivesExpr .side w e :=
  fun ts => (operandWith_reads (exprFuel ts) .side).side ts

theorem arguments_reads : Reads arguments fun w a =>
    ∀ f, Terminal [name] f → DerivesExpr .call (f :: w) (.call (f.span.join a.2.span) (.text f.text) a.1) :=
  fun ts => argumentsWith_reads (exprFuel ts) ts

theorem header_reads : Reads header fun w e => DerivesExpr .header w e := by
  refine side_reads.bind fun u x hx => expect_bind (next_bind fun kind => ?_)
  split
  · refine reads_pure ?_
    rw [List.append_nil]
    exact .header_side hx
  · refine take_bind fun op hop _ => side_reads.bind fun v y hy => expect_bind (reads_pure ?_)
    rw [List.append_nil, hx.span, hy.span, ← extent_between hx.first hy.first]
    exact .header_binary hx hop hy

theorem declaration_reads {first : Token} (hf : Terminal typeName first) :
    Reads (declaration first) fun w s => DerivesStmt .inner (first :: w) s := by
  have htype := hf.lexical.typeNamed hf.kind_mem
  refine take_bind fun target ht _ => expect_bind (next_bind fun kind => ?_)
  dsimp only
  split
  · refine take_bind fun o ho _ => value_reads.bind fun w e he => reads_pure_bind ?_
    refine take_bind fun last hlast _ => reads_pure ?_
    have h := DerivesStmt.declare_init hf htype ht ho he hlast
    rwa [extent_cons last (by simp [List.getLast?_cons])] at h
  · refine reads_pure_bind (take_bind fun last hlast _ => reads_pure ?_)
    exact .declare hf htype ht hlast

theorem named_reads {first : Token} (hf : Terminal [name] first) :
    Reads (named first) fun w s => DerivesStmt .inner (first :: w) s := by
  refine expect_bind (next_bind fun kind => ?_)
  dsimp only
  split
  · refine arguments_reads.bind fun w a ha => take_bind fun last hlast _ => reads_pure ?_
    exact .call (ha first hf) hlast
  · split
    · exact take_bind fun op hop _ => take_bind fun last hlast _ => reads_pure (.step hf hop hlast)
    · refine take_bind fun op hop _ => value_reads.bind fun w e he => take_bind fun last hlast _ => reads_pure ?_
      have h := DerivesStmt.assign hf hop he hlast
      rwa [extent_cons last (by simp [List.getLast?_cons])] at h

theorem printing_reads {first : Token} (hf : Terminal [print] first) :
    Reads (printing first) fun w s => DerivesStmt .inner (first :: w) s := by
  refine take_bind fun l hl _ => expect_bind (next_bind fun kind => ?_)
  dsimp only
  split
  · refine reads_pure_bind (take_bind fun r hr _ => take_bind fun last hlast _ => reads_pure ?_)
    exact .print hf hl hr hlast
  · refine value_reads.bind fun w e he => reads_pure_bind (take_bind fun r hr _ => ?_)
    refine take_bind fun last hlast _ => reads_pure ?_
    have h := DerivesStmt.print_value hf hl he hr hlast
    rwa [extent_cons last (by simp [List.getLast?_cons])] at h

theorem enclosedHeader_reads : Reads enclosedHeader fun w c =>
    ∃ l u r, w = l :: (u ++ [r]) ∧ Terminal [lpar] l ∧ DerivesExpr .header u c ∧ Terminal [rpar] r :=
  take_bind fun l hl _ => header_reads.bind fun u _ hc => take_bind fun r hr _ => reads_pure ⟨l, u, r, rfl, hl, hc, hr⟩

mutual

theorem statementWith_reads (fuel : Nat) : Reads (statementWith fuel) fun w s => DerivesStmt .inner w s := by
  cases fuel with
  | zero => exact reads_refuse
  | succ fuel =>
    refine take_bind fun first hfirst _ => ?_
    have finish (w : List Token) (s : Stmt) (hs : DerivesStmt .inner (first :: w) s) : Reads (do
        expect statementEnd
        return s) fun v s => DerivesStmt .inner (first :: (w ++ v)) s := by
      refine expect_bind (reads_pure ?_)
      rwa [List.append_nil]
    dsimp only
    split
    · rename_i hk
      exact (printing_reads ⟨by simp [hk], hfirst.lexical⟩).bind finish
    · rename_i hk
      have hif : Terminal [ifWord] first := ⟨by simp [hk], hfirst.lexical⟩
      refine enclosedHeader_reads.bind ?_
      rintro _ c ⟨l, u, r, rfl, hl, hc, hr⟩
      refine (blockWith_reads fuel).bind fun v a ⟨ha, hlast⟩ => next_bind fun kind => ?_
      split
      · refine take_bind fun o ho _ => (blockWith_reads fuel).bind fun v' b ⟨hb, hlast'⟩ => ?_
        have h := DerivesStmt.branch_else hif hl hc hr ha ho hb
        rw [extent_cons b.2 (by simp [List.getLast?_cons, List.getLast?_append, hlast'])] at h
        simpa using finish _ _ h
      · have h := DerivesStmt.branch hif hl hc hr ha
        rw [extent_cons a.2 (by simp [List.getLast?_cons, List.getLast?_append, hlast])] at h
        simpa using finish _ _ h
    · rename_i hk
      refine enclosedHeader_reads.bind ?_
      rintro _ c ⟨l, u, r, rfl, hl, hc, hr⟩
      refine (blockWith_reads fuel).bind fun v a ⟨ha, hlast⟩ => ?_
      have h := DerivesStmt.loop ⟨by simp [hk], hfirst.lexical⟩ hl hc hr ha
      rw [extent_cons a.2 (by simp [List.getLast?_cons, List.getLast?_append, hlast])] at h
      simpa using finish _ _ h
    · rename_i hk
      refine take_bind fun last hlast _ => ?_
      exact finish _ _ (.breakOut ⟨by simp [hk], hfirst.lexical⟩ hlast)
    · rename_i hk
      exact (named_reads ⟨by simp [hk], hfirst.lexical⟩).bind finish
    · refine (declaration_reads ⟨?_, hfirst.lexical⟩).bind finish
      have := hfirst.kind_mem
      simp_all [statementFirst, typeName, typeWords]
termination_by fuel

theorem blockWith_reads (fuel : Nat) :
    Reads (blockWith fuel) fun w b => DerivesStmt .block w b.1 ∧ w.getLast? = some b.2 := by
  cases fuel with
  | zero => exact reads_refuse
  | succ fuel =>
    refine take_bind fun l hl _ => (statementsWith_reads fuel rbrace).bind fun w body hbody => ?_
    refine take_bind fun r hr _ => expect_bind (reads_pure ⟨.block hl hbody hr, ?_⟩)
    simp [List.getLast?_cons]
termination_by fuel

theorem statementsWith_reads (fuel : Nat) (closing : Token.Kind) :
    Reads (statementsWith fuel closing) fun w body => DerivesStmt .inners w body := by
  cases fuel with
  | zero => exact reads_refuse
  | succ fuel =>
    refine expect_bind (next_bind fun kind => ?_)
    split
    · exact reads_pure .inners_none
    · refine (statementWith_reads fuel).bind fun u s hs => expect_bind ?_
      refine (statementsWith_reads fuel closing).bind fun v rest hrest => reads_pure ?_
      rw [List.append_nil]
      exact .inners_more hs hrest
termination_by fuel

end

theorem statement_reads : Reads statement fun w s => DerivesStmt .inner w s :=
  fun ts => statementWith_reads (stmtFuel ts) ts

theorem statements_reads (closing : Token.Kind) : Reads (statements closing) fun w body => DerivesStmt .inners w body :=
  fun ts => statementsWith_reads (stmtFuel ts) closing ts

theorem typedName_reads : Reads typedName fun w a => w = [a.2.1, a.2.2] ∧ Terminal typeName a.2.1 ∧
    Literal.typeNamed a.2.1.text = .ok a.1 ∧ Terminal [name] a.2.2 := by
  refine take_bind fun first hfirst _ => take_bind fun last hlast _ => reads_pure ?_
  exact ⟨rfl, hfirst, hfirst.lexical.typeNamed hfirst.kind_mem, hlast⟩

theorem parametersWith_reads (fuel : Nat) : Reads (parametersWith fuel) fun w ps => DerivesStmt .someParams w ps := by
  induction fuel with
  | zero => exact reads_refuse
  | succ fuel ih =>
    refine typedName_reads.bind ?_
    rintro _ ⟨type, first, last⟩ ⟨rfl, hfirst, htype, hlast⟩
    refine expect_bind (next_bind fun kind => ?_)
    split
    · refine take_bind fun c hc _ => ih.bind fun v ps hps => reads_pure ?_
      rw [List.append_nil]
      exact .someParams_more (.param hfirst htype hlast) hc hps
    · exact reads_pure (.someParams_one (.param hfirst htype hlast))

theorem definition_reads : Reads definition fun w s => DerivesStmt .define w s := by
  refine take_bind fun first hfirst _ => typedName_reads.bind ?_
  rintro _ ⟨type, k, target⟩ ⟨rfl, hk, htype, htarget⟩
  refine take_bind fun l hl _ => expect_bind (next_bind fun kind => ?_)
  have finish (u : List Token) (ps : List Stmt) (hps : DerivesStmt .params u ps) : Reads (do
      let _ ← take [rpar]
      let _ ← take [lbrace]
      let body ← statements returnWord
      let _ ← take [returnWord]
      let e ← value
      let _ ← take [semicolon]
      let last ← take [rbrace]
      return Stmt.define (first.span.join last.span) type (.text target.text) ps (some body) e) fun v s =>
        DerivesStmt .define (first :: k :: target :: l :: (u ++ v)) s := by
    refine take_bind fun r hr _ => take_bind fun b hb _ => (statements_reads _).bind fun w body hbody => ?_
    refine take_bind fun o ho _ => value_reads.bind fun v e he => take_bind fun s hs _ => ?_
    refine take_bind fun last hlast _ => reads_pure ?_
    have h := DerivesStmt.define hfirst hk htype htarget hl hps hr hb hbody ho he hs hlast
    rwa [extent_cons last (by simp [List.getLast?_cons, List.getLast?_append])] at h
  dsimp only
  split
  · exact finish [] [] .params_none
  · refine Reads.bind (fun ts => parametersWith_reads (ts.length + 1) ts) fun u ps hps => ?_
    exact finish u ps (.params_some hps)

theorem next_eq (ts : List Token) : next ts = .ok (nextKind ts, ts) := by
  cases ts <;> rfl

theorem eq_nil_of_nextKind {ts : List Token} (hts : ∀ t ∈ ts, Readable t) (h : nextKind ts = ending) : ts = [] := by
  cases ts with
  | nil => rfl
  | cons t rest => exact absurd h (hts t (.head _)).1.exists_kind

theorem eq_of_expect {kinds : List Token.Kind} {ts mid : List Token} {a : Unit} (h : expect kinds ts = .ok (a, mid)) :
    mid = ts := by
  obtain ⟨kind, ts', hnext, h'⟩ := bind_eq_ok.mp h
  rw [next_eq] at hnext
  cases hnext
  split at h' <;> cases h'
  rfl

/-- A program is read up to the end. -/
theorem programWith_rest {fuel : Nat} {ts rest : List Token} {body : List Stmt}
    (h : programWith fuel ts = .ok (body, rest)) : nextKind rest = ending := by
  induction fuel generalizing ts body with
  | zero => cases h
  | succ fuel ih =>
    obtain ⟨_, _, -, hfirst⟩ := bind_eq_ok.mp h
    obtain ⟨_, _, hnext, hsecond⟩ := bind_eq_ok.mp hfirst
    rw [next_eq] at hnext
    cases hnext
    split at hsecond
    · rename_i hending
      cases hsecond
      exact hending
    · obtain ⟨_, _, -, hthird⟩ := bind_eq_ok.mp hsecond
      have finish {p : Parser Stmt} {mid : List Token} (h : (do
          let s ← p
          let rest ← programWith fuel
          return s :: rest) mid = .ok (body, rest)) : nextKind rest = ending := by
        obtain ⟨s, after, -, hafter⟩ := bind_eq_ok.mp h
        obtain ⟨tail, _, htail, hend⟩ := bind_eq_ok.mp hafter
        cases hend
        exact ih htail
      dsimp only at hthird
      split at hthird <;> exact finish hthird

/-- The statements are read up to the end. -/
theorem programWith_reads (fuel : Nat) : ∀ {ts rest : List Token} {body : List Stmt}, (∀ t ∈ ts, Readable t) →
    programWith fuel ts = .ok (body, rest) → DerivesStmt .outers ts body := by
  induction fuel with
  | zero => nofun
  | succ fuel ih =>
    intro ts rest body hts h
    have finish {p : Parser Stmt} (hp : Reads p fun w s => DerivesStmt .outer w s) (h : (do
        let s ← p
        let rest ← programWith fuel
        return s :: rest) ts = .ok (body, rest)) : DerivesStmt .outers ts body := by
      obtain ⟨s, mid, hs, hmid⟩ := bind_eq_ok.mp h
      obtain ⟨w, rfl, hw⟩ := hp ts s mid hts hs
      obtain ⟨tail, _, htail, hend⟩ := bind_eq_ok.mp hmid
      cases hend
      exact .outers_more hw (ih (fun t ht => hts t (List.mem_append_right w ht)) htail)
    obtain ⟨_, _, hexpect, hfirst⟩ := bind_eq_ok.mp h
    obtain rfl := eq_of_expect hexpect
    obtain ⟨_, _, hnext, hsecond⟩ := bind_eq_ok.mp hfirst
    rw [next_eq] at hnext
    cases hnext
    split at hsecond
    · rename_i hending
      cases hsecond
      rw [eq_nil_of_nextKind hts hending]
      exact .outers_none
    · obtain ⟨_, _, hnext, hthird⟩ := bind_eq_ok.mp hsecond
      rw [next_eq] at hnext
      cases hnext
      dsimp only at hthird
      split at hthird
      · exact finish (definition_reads.imp fun w s hs => .outer_define hs) hthird
      · exact finish (statement_reads.imp fun w s hs => .outer_inner hs) hthird

/-- What the tokens of a program are read as, they derive. -/
theorem derives_of_program {ts : List Token} {body : List Stmt} (hts : ∀ t ∈ ts, Readable t)
    (h : program ts = .ok body) : DerivesStmt .outers ts body := by
  unfold program at h
  cases hw : programWith (ts.length + 1) ts with
  | error e =>
    rw [hw] at h
    cases h
  | ok r =>
    rw [hw] at h
    cases h
    exact programWith_reads _ hts hw

end CheckedScript.Parse
