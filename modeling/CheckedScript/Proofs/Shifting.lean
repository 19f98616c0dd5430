import CheckedScript.Proofs.Grammar

/-! Sources that are moved. What a source says does not depend on where it starts: if all tokens are moved by some number of
characters, they derive the same tree with every range moved by as much. -/

namespace CheckedScript

/-- A mark that is an offset, moved. -/
def Data.shift (d : Nat) : Data → Data
  | int a => int (a + d)
  | mark => mark

/-- The range, moved. -/
def Span.shift (d : Nat) (s : Span) : Span := ⟨s.start.shift d, s.stop.shift d⟩

def Misfit.shift (d : Nat) : Misfit → Misfit
  | node kind span => node kind (span.shift d)
  | bare => bare

namespace Expr

mutual

/-- The expression with every range moved. -/
def shift (d : Nat) : Expr → Expr
  | literal span value => literal (span.shift d) value
  | untyped span what => untyped (span.shift d) what
  | identifier span name => identifier (span.shift d) name
  | binary form span op left right => binary form (span.shift d) op (left.shift d) (right.shift d)
  | unary form span op operand => unary form (span.shift d) op (operand.shift d)
  | call span name args => call (span.shift d) name (shiftAll d args)
  | missing => missing
  | misfit what => misfit (what.shift d)

def shiftAll (d : Nat) : List Expr → List Expr
  | [] => []
  | e :: rest => e.shift d :: shiftAll d rest

end

theorem eq_literal_of_shift {d : Nat} {e : Expr} {span : Span} {v : Value} (h : e.shift d = literal span v) :
    ∃ span', e = literal span' v := by
  cases e with
  | literal span' v' =>
    cases h
    exact ⟨span', rfl⟩
  | _ => cases h

end Expr

namespace Stmt

mutual

/-- The statement with every range moved. -/
def shift (d : Nat) : Stmt → Stmt
  | declare span type name init => declare (span.shift d) type name (init.map (·.shift d))
  | param span type name => param (span.shift d) type name
  | assign span name op value => assign (span.shift d) name op (value.shift d)
  | call span name args => call (span.shift d) name (Expr.shiftAll d args)
  | define span result name params body value =>
    define (span.shift d) result name (shiftAll d params) (shiftBody d body) (value.shift d)
  | print span operand => print (span.shift d) (operand.map (·.shift d))
  | branch span condition thenBlock elseBlock =>
    branch (span.shift d) (condition.shift d) (shiftAll d thenBlock) (shiftBody d elseBlock)
  | loop span condition body => loop (span.shift d) (condition.shift d) (shiftBody d body)
  | breakOut span => breakOut (span.shift d)
  | misfit what => misfit (what.shift d)

def shiftAll (d : Nat) : List Stmt → List Stmt
  | [] => []
  | s :: rest => s.shift d :: shiftAll d rest

def shiftBody (d : Nat) : Option (List Stmt) → Option (List Stmt)
  | none => none
  | some block => some (shiftAll d block)

end

theorem shiftAll_eq (d : Nat) (block : List Stmt) : shiftAll d block = block.map (·.shift d) := by
  induction block with
  | nil => rfl
  | cons s rest ih => rw [shiftAll, ih, List.map_cons]

end Stmt

namespace Token

/-- The token, moved. -/
def shift (d : Nat) (t : Token) : Token := { t with start := t.start + d, stop := t.stop + d }

theorem span_shift (d : Nat) (t : Token) : (t.shift d).span = t.span.shift d := by
  simp [span, shift, Span.shift, Span.ofOffsets, Data.shift]

theorem Lexical.shift {t : Token} (h : t.Lexical) (d : Nat) : (t.shift d).Lexical :=
  ⟨h.faithful, h.exists_kind, h.name, h.number, h.string⟩

@[simp] theorem text_shift (d : Nat) (t : Token) : (t.shift d).text = t.text := rfl

/-- The range of moved tokens. -/
theorem extent_shift (d : Nat) {w : List Token} (h : w ≠ []) : (extent w).shift d = extent (w.map (shift d)) := by
  obtain ⟨first, rest, rfl⟩ := List.exists_cons_of_ne_nil h
  simp only [extent, List.map_cons, List.head?_cons, List.getLast?_cons, List.getLast?_map, span_shift]
  cases rest.getLast? <;> simp [Span.join, Span.shift, span_shift]

@[simp] theorem extent_shift_cons (d : Nat) (t : Token) (w : List Token) :
    (extent (t :: w)).shift d = extent (t.shift d :: w.map (shift d)) := by
  rw [extent_shift d (List.cons_ne_nil t w), List.map_cons]

@[simp] theorem extent_shift_append_cons (d : Nat) (u : List Token) (t : Token) (w : List Token) :
    (extent (u ++ t :: w)).shift d = extent (u.map (shift d) ++ t.shift d :: w.map (shift d)) := by
  rw [extent_shift d (by simp), List.map_append, List.map_cons]

/-- A scan that starts later finds the same tokens later. -/
theorem scanFrom_shift (d start taken : Nat) (cs : List Char) :
    (scanFrom (start + d) taken cs).tokens = (scanFrom start taken cs).tokens.map (shift d) ∧
      ((scanFrom (start + d) taken cs).error = none ↔ (scanFrom start taken cs).error = none) := by
  fun_induction scanFrom start taken cs with
  | case1 => simp [scanFrom]
  | case2 start taken c rest ih =>
    rw [Nat.add_right_comm] at ih
    simpa only [scanFrom] using ih
  | case3 start c rest hf => simp [scanFrom, hf]
  | case4 start c rest n hf ih =>
    rw [Nat.add_right_comm] at ih
    simpa only [scanFrom, hf] using ih
  | case5 start c rest kind n hf ih =>
    rw [Nat.add_right_comm] at ih
    simp only [scanFrom, hf, Scan.cons, List.map_cons, ih.1, ih.2, and_true, shift, Nat.add_right_comm]

end Token

namespace Grammar

variable {d : Nat} {w : List Token}

theorem Terminal.shift {kinds : List Token.Kind} {t : Token} (h : Terminal kinds t) : Terminal kinds (t.shift d) :=
  ⟨h.kind_mem, h.lexical.shift d⟩

/-- A tree of the part, moved. -/
def ExprPart.shift (d : Nat) : (n : ExprPart) → n.Tree → n.Tree
  | args, es | someArgs, es => Expr.shiftAll d es
  | value, e | side, e | header, e | cond, e | negand, e | expr, e | term, e | factor, e | atom, e | call, e =>
    Expr.shift d e

/-- Moved tokens derive the moved tree. -/
theorem DerivesExpr.shift {n : ExprPart} {e : n.Tree} (h : DerivesExpr n w e) :
    DerivesExpr n (w.map (Token.shift d)) (n.shift d e) := by
  induction h with
  | value_expr _ ih => exact .value_expr ih
  | value_cond _ ih => exact .value_cond ih
  | side_expr _ ih => exact .side_expr ih
  | side_cond _ ih => exact .side_cond ih
  | header_side _ ih => exact .header_side ih
  | negand_atom _ ih => exact .negand_atom ih
  | negand_cond _ ih => exact .negand_cond ih
  | expr_term _ ih => exact .expr_term ih
  | term_factor _ ih => exact .term_factor ih
  | factor_atom _ ih => exact .factor_atom ih
  | atom_call _ ih => exact .atom_call ih
  | args_some _ ih => exact .args_some ih
  | header_binary _ ho _ ihu ihv => simpa [ExprPart.shift, Expr.shift] using DerivesExpr.header_binary ihu ho.shift ihv
  | expr_binary _ ho _ ihu ihv => simpa [ExprPart.shift, Expr.shift] using DerivesExpr.expr_binary ihu ho.shift ihv
  | term_binary _ ho _ ihu ihv => simpa [ExprPart.shift, Expr.shift] using DerivesExpr.term_binary ihu ho.shift ihv
  | cond_binary hl _ ho _ hr ihu ihv =>
    simpa [ExprPart.shift, Expr.shift] using DerivesExpr.cond_binary hl.shift ihu ho.shift ihv hr.shift
  | cond_not hb _ ih => simpa [ExprPart.shift, Expr.shift] using DerivesExpr.cond_not hb.shift ih
  | factor_folded hm _ ih => simpa [ExprPart.shift, Expr.shift] using DerivesExpr.factor_folded hm.shift ih
  | factor_negated hm _ he ih =>
    simpa [ExprPart.shift, Expr.shift] using DerivesExpr.factor_negated hm.shift ih fun span z hz => by
      obtain ⟨span', rfl⟩ := Expr.eq_literal_of_shift hz
      exact he span' z rfl
  | atom_literal ht hv => simpa [ExprPart.shift, Expr.shift] using DerivesExpr.atom_literal ht.shift hv
  | atom_boolean ht => simpa [ExprPart.shift, Expr.shift] using DerivesExpr.atom_boolean ht.shift
  | atom_name ht => simpa [ExprPart.shift, Expr.shift] using DerivesExpr.atom_name ht.shift
  | call hf hl _ hr ih => simpa [ExprPart.shift, Expr.shift] using DerivesExpr.call hf.shift hl.shift ih hr.shift
  | args_none => exact .args_none
  | someArgs_one _ ih => exact .someArgs_one ih
  | someArgs_more _ hc _ ihu ihv => simpa [ExprPart.shift, Expr.shiftAll] using DerivesExpr.someArgs_more ihu hc.shift ihv

/-- A tree of the part, moved. -/
def StmtPart.shift (d : Nat) : (n : StmtPart) → n.Tree → n.Tree
  | inner, s | param, s | define, s | outer, s => Stmt.shift d s
  | inners, ss | block, ss | params, ss | someParams, ss | outers, ss => Stmt.shiftAll d ss
  | start, p => ⟨p.span.shift d, Stmt.shiftAll d p.statements⟩

theorem DerivesStmt.shift {n : StmtPart} {s : n.Tree} (h : DerivesStmt n w s) (hn : n ≠ .start) :
    DerivesStmt n (w.map (Token.shift d)) (n.shift d s) := by
  induction h with
  | declare hk htype ha hs =>
    simpa [StmtPart.shift, Stmt.shift] using DerivesStmt.declare hk.shift htype ha.shift hs.shift
  | declare_init hk htype ha ho hw hs =>
    simpa [ExprPart.shift, StmtPart.shift, Stmt.shift] using
      DerivesStmt.declare_init hk.shift htype ha.shift ho.shift hw.shift hs.shift
  | assign ha ho hw hs =>
    simpa [ExprPart.shift, StmtPart.shift, Stmt.shift] using DerivesStmt.assign ha.shift ho.shift hw.shift hs.shift
  | step ha ho hs =>
    simpa [StmtPart.shift, Stmt.shift, Expr.shift, Token.span_shift] using DerivesStmt.step ha.shift ho.shift hs.shift
  | call hw hs => simpa [StmtPart.shift, Stmt.shift] using DerivesStmt.call hw.shift hs.shift
  | print ha hl hr hs =>
    simpa [StmtPart.shift, Stmt.shift] using DerivesStmt.print ha.shift hl.shift hr.shift hs.shift
  | print_value ha hl hw hr hs =>
    simpa [ExprPart.shift, StmtPart.shift, Stmt.shift] using
      DerivesStmt.print_value ha.shift hl.shift hw.shift hr.shift hs.shift
  | branch ha hl hw hr _ ih =>
    simpa [ExprPart.shift, StmtPart.shift, Stmt.shift, Stmt.shiftBody] using
      DerivesStmt.branch ha.shift hl.shift hw.shift hr.shift (ih (by decide))
  | branch_else ha hl hw hr _ ho _ ihu ihv =>
    simpa [ExprPart.shift, StmtPart.shift, Stmt.shift, Stmt.shiftBody] using
      DerivesStmt.branch_else ha.shift hl.shift hw.shift hr.shift (ihu (by decide)) ho.shift (ihv (by decide))
  | loop ha hl hw hr _ ih =>
    simpa [ExprPart.shift, StmtPart.shift, Stmt.shift, Stmt.shiftBody] using
      DerivesStmt.loop ha.shift hl.shift hw.shift hr.shift (ih (by decide))
  | breakOut ha hs => simpa [StmtPart.shift, Stmt.shift] using DerivesStmt.breakOut ha.shift hs.shift
  | inners_none => exact .inners_none
  | inners_more _ _ ihu ihv =>
    simpa [StmtPart.shift, Stmt.shiftAll] using DerivesStmt.inners_more (ihu (by decide)) (ihv (by decide))
  | block hl _ hr ih => simpa [StmtPart.shift] using DerivesStmt.block hl.shift (ih (by decide)) hr.shift
  | params_none => exact .params_none
  | params_some _ ih => exact .params_some (ih (by decide))
  | someParams_one _ ih => exact .someParams_one (ih (by decide))
  | someParams_more _ hc _ ihu ihv =>
    simpa [StmtPart.shift, Stmt.shiftAll] using DerivesStmt.someParams_more (ihu (by decide)) hc.shift (ihv (by decide))
  | param hk htype ha => simpa [StmtPart.shift, Stmt.shift] using DerivesStmt.param hk.shift htype ha.shift
  | define hd hk htype ha hl _ hr hb _ ho hv hs hc ihu ihw =>
    simpa [ExprPart.shift, StmtPart.shift, Stmt.shift, Stmt.shiftBody] using
      DerivesStmt.define hd.shift hk.shift htype ha.shift hl.shift (ihu (by decide)) hr.shift hb.shift
        (ihw (by decide)) ho.shift hv.shift hs.shift hc.shift
  | outer_inner _ ih => exact .outer_inner (ih (by decide))
  | outer_define _ ih => exact .outer_define (ih (by decide))
  | outers_none => exact .outers_none
  | outers_more _ _ ihu ihv =>
    simpa [StmtPart.shift, Stmt.shiftAll] using DerivesStmt.outers_more (ihu (by decide)) (ihv (by decide))
  | start _ _ => exact absurd rfl hn

end Grammar
end CheckedScript
