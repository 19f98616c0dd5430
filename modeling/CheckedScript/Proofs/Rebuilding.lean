import CheckedScript.Node.Program
import CheckedScript.Proofs.Defining

/-! Programs from their trees of data. A plain program is rebuilt from its tree as it was: an operator and a type are found
again by their texts, what is absent is found to be absent, and nothing is taken for a misfit. -/

namespace CheckedScript

theorem Ty.ofNode_toNode {t : Ty} (h : t.Simple) : Ty.ofNode t.toNode = t := by
  cases t with
  | other n => exact h.elim
  | _ => rfl

theorem BinaryOp.ofData_text {op : BinaryOp} {form : Form} (h : op.Fits form) : ofData (.text op.text) = op := by
  cases op with
  | arith op => cases op <;> rfl
  | unknown s => cases form <;> exact h.elim
  | _ => rfl

theorem UnaryOp.ofData_text {op : UnaryOp} {form : Form} (h : op.Fits form) : ofData (.text op.text) = op := by
  cases op with
  | unknown s => cases form <;> exact h.elim
  | _ => rfl

theorem AssignOp.ofData_text {op : AssignOp} (h : op.Known) : ofData (.text op.text) = op := by
  cases op with
  | set => rfl
  | compound op => cases op <;> rfl
  | unknown s => exact h.elim

namespace Expr

mutual

theorem toExpr_toNode (e : Expr) (h : e.Plain) : e.toNode.toExpr = e := by
  cases e with
  | literal s v =>
    cases v with
    | nothing => cases h
    | _ => rfl
  | identifier s name => rfl
  | binary form s op a b =>
    obtain ⟨hop, ha, hb⟩ := h
    rw [toNode, Node.toExpr, BinaryOp.ofData_text hop, toExpr_toNode a ha, toExpr_toNode b hb]
  | unary form s op a =>
    obtain ⟨hop, ha⟩ := h
    rw [toNode, Node.toExpr, UnaryOp.ofData_text hop, toExpr_toNode a ha]
  | call s name args => rw [toNode, Node.toExpr, toExprs_toNodes args h]
  | untyped s what => exact h.elim
  | missing => exact h.elim
  | misfit what => exact h.elim
termination_by structural e

theorem toExprs_toNodes (es : List Expr) (h : PlainAll es) : Node.toExprs (toNodes es) = es := by
  cases es with
  | nil => rfl
  | cons e rest => rw [toNodes, Node.toExprs, toExpr_toNode e h.1, toExprs_toNodes rest h.2]
termination_by structural es

end

theorem toOptionalExpr_toNode {e : Expr} (h : e.Plain) : e.toNode.toOptionalExpr = some e := by
  have hexpr := toExpr_toNode e h
  cases e with
  | untyped s what => exact h.elim
  | missing => exact h.elim
  | misfit what => exact h.elim
  | _ => exact congrArg some hexpr

theorem toOptionalExpr_getD {o : Option Expr} (h : PlainOption o) :
    ((o.map toNode).getD .nothing).toOptionalExpr = o := by
  cases o with
  | none => rfl
  | some e => exact toOptionalExpr_toNode h

end Expr

namespace Stmt

mutual

theorem toStmt_toNode (s : Stmt) (h : s.Plain) : s.toNode.toStmt = s := by
  cases s with
  | declare m t name init => rw [toNode, Node.toStmt, Ty.ofNode_toNode h.1, Expr.toOptionalExpr_getD h.2.2]
  | param m t name => rw [toNode, Node.toStmt, Ty.ofNode_toNode h.1]
  | assign m name op v => rw [toNode, Node.toStmt, AssignOp.ofData_text h.2.1, Expr.toExpr_toNode v h.2.2]
  | call m name args => rw [toNode, Node.toStmt, Expr.toExprs_toNodes args h]
  | define m t name params body v => exact h.elim
  | print m e => rw [toNode, Node.toStmt, Expr.toOptionalExpr_getD h]
  | branch m c thenBlock elseBlock =>
    obtain ⟨hc, hthen, helse⟩ := h
    rw [toNode, Node.toStmt, Expr.toExpr_toNode c hc, Node.toBlock, toStmts_toNodes thenBlock hthen, Option.getD_some]
    cases elseBlock with
    | none => rfl
    | some block => rw [toBlock, Node.toBlock, toStmts_toNodes block helse]
  | loop m c body =>
    rw [toNode, Node.toStmt, Expr.toExpr_toNode c h.1]
    cases body with
    | none => exact h.2.elim
    | some block => rw [toBlock, Node.toBlock, toStmts_toNodes block h.2]
  | breakOut m => rfl
  | misfit what => exact h.elim
termination_by structural s

theorem toStmts_toNodes (block : List Stmt) (h : PlainBlock block) : Node.toStmts (toNodes block) = block := by
  cases block with
  | nil => rfl
  | cons s rest => rw [toNodes, Node.toStmts, toStmt_toNode s h.1, toStmts_toNodes rest h.2]
termination_by structural block

end

theorem toStmt_toNode_top {s : Stmt} (h : s.PlainTop) : s.toNode.toStmt = s := by
  cases s with
  | define m t name params body v =>
    have hparams : PlainBlock params := Definition.Plain.plainParams h
    obtain ⟨hresult, -, hbody, hvalue⟩ := h
    rw [toNode, Node.toStmt, Ty.ofNode_toNode hresult, toStmts_toNodes params hparams, Expr.toExpr_toNode v hvalue]
    cases body with
    | none => exact hbody.elim
    | some block => rw [toBlock, Node.toBlock, toStmts_toNodes block hbody]
  | _ => exact toStmt_toNode _ h

end Stmt

/-- A plain program is the one that its tree of data says. -/
theorem Program.toProgram_toNode {p : Program} (h : p.Plain) : p.toNode.toProgram = .ok p := by
  obtain ⟨span, statements⟩ := p
  have hstatements : Node.toStmts (Stmt.toNodes statements) = statements := by
    have hall : ∀ s ∈ statements, s.PlainTop := h
    clear h
    induction statements with
    | nil => rfl
    | cons s rest ih =>
      rw [Stmt.toNodes, Node.toStmts, Stmt.toStmt_toNode_top (hall s (by simp)),
        ih fun s hs => hall s (List.mem_cons_of_mem _ hs)]
  rw [toNode, Node.toProgram, hstatements]

end CheckedScript
