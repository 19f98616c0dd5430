import CheckedScript.Operator

/-! Programs as trees. Each node carries the range of source that it was read from. Trees that were read from data
can hold what no source says: a name may be any data, an operand or a body may be missing, a literal may hold something
without a type, and a statement may stand for an expression or the other way round. Such a place is kept as a node of its
own, so that it can be refused where it is met. -/

namespace CheckedScript

/-- Something in a place where it does not belong: a node, or a bare value that is no node at all. -/
inductive Misfit where
  | node (kind : NodeKind) (span : Span)
  | bare
deriving Repr, Inhabited

inductive Expr where
  | literal (span : Span) (value : Value)
  | untyped (span : Span) (what : String)
  | identifier (span : Span) (name : Data)
  | binary (form : Form) (span : Span) (op : BinaryOp) (left right : Expr)
  | unary (form : Form) (span : Span) (op : UnaryOp) (operand : Expr)
  | call (span : Span) (name : Data) (args : List Expr)
  | missing
  | misfit (what : Misfit)
deriving Repr, Inhabited

/-- Statements. The parameters of a function are statements that declare them. -/
inductive Stmt where
  | declare (span : Span) (type : Ty) (name : Data) (init : Option Expr)
  | param (span : Span) (type : Ty) (name : Data)
  | assign (span : Span) (name : Data) (op : AssignOp) (value : Expr)
  | call (span : Span) (name : Data) (args : List Expr)
  | define (span : Span) (result : Ty) (name : Data) (params : List Stmt) (body : Option (List Stmt)) (value : Expr)
  | print (span : Span) (operand : Option Expr)
  | branch (span : Span) (condition : Expr) (thenBlock : List Stmt) (elseBlock : Option (List Stmt))
  | loop (span : Span) (condition : Expr) (body : Option (List Stmt))
  | breakOut (span : Span)
  | misfit (what : Misfit)
deriving Repr, Inhabited

structure Program where
  span : Span
  statements : List Stmt
deriving Repr, Inhabited

namespace Misfit

def span : Misfit → Span
  | node _ s => s
  | bare => .zero

end Misfit

namespace Expr

def span : Expr → Span
  | literal s _ | untyped s _ | identifier s _ | binary _ s _ _ _ | unary _ s _ _ | call s _ _ => s
  | missing => .zero
  | misfit what => what.span

end Expr

namespace Stmt

def span : Stmt → Span
  | declare s _ _ _ | param s _ _ | assign s _ _ _ | call s _ _ | define s _ _ _ _ _ | print s _ | branch s _ _ _
  | loop s _ _ | breakOut s => s
  | misfit what => what.span

/-- The kind of node that a statement is; a bare value is none. -/
def kind? : Stmt → Option NodeKind
  | declare _ _ _ _ => some .variableDecl
  | param _ _ _ => some .paramDecl
  | assign _ _ _ _ => some .assignment
  | call _ _ _ => some .call
  | define _ _ _ _ _ _ => some .definition
  | print _ _ => some .print
  | branch _ _ _ _ => some .branch
  | loop _ _ _ => some .loop
  | breakOut _ => some .breakOut
  | misfit (.node k _) => some k
  | misfit .bare => none

/-- The type of what a statement declares, if it declares something. -/
def declaredType? : Stmt → Option Ty
  | declare _ t _ _ | param _ t _ => some t
  | _ => none

end Stmt

/-- A function as it was defined. -/
structure Definition where
  span : Span
  result : Ty
  name : Data
  params : List Stmt
  body : Option (List Stmt)
  value : Expr
deriving Repr, Inhabited

/-- The signature of a definition; it has none if a parameter declares nothing. -/
def Definition.signature? (d : Definition) : Option Signature :=
  (d.params.mapM Stmt.declaredType?).map fun types => ⟨d.result, d.name, types⟩

/-- Does the list of statements end in a break? -/
def endsInBreak (block : List Stmt) : Bool :=
  match block.getLast? with
  | some (.breakOut _) => true
  | _ => false

end CheckedScript
