import CheckedScript.Tree

/-! Between trees of data and programs. A program becomes a tree of data as it stands. Every tree of data becomes a program
if it has a list of statements; what does not belong where it stands becomes a misfit. -/

namespace CheckedScript

namespace Node

/-- What stands in the place of the value of a literal, if it has no type. -/
def untypedLabel : Node → String
  | value _ => "NoneType"
  | typeTag _ => "TypeSpec"
  | n => (n.head?.map fun (k, _) => k.label).getD "NoneType"

/-- What a node is in a place where it does not belong. -/
def toMisfit (n : Node) : Misfit :=
  match n.head? with
  | some (k, span) => .node k span
  | none => .bare

mutual

def toExpr : Node → Expr
  | value .nothing => .missing
  | literal span (value .nothing) => .untyped span "NoneType"
  | literal span (value v) => .literal span v
  | literal span n => .untyped span n.untypedLabel
  | identifier span name => .identifier span name
  | binary form span op a b => .binary form span (.ofData op) (toExpr a) (toExpr b)
  | unary form span op a => .unary form span (.ofData op) (toExpr a)
  | call span name args => .call span name (toExprs args)
  | n => .misfit n.toMisfit

def toExprs : List Node → List Expr
  | [] => []
  | n :: rest => toExpr n :: toExprs rest

end

/-- An expression that may be missing. -/
def toOptionalExpr : Node → Option Expr
  | value .nothing => none
  | n => some n.toExpr

mutual

/-- A block that is missing has no statements; a body that is missing stays so. -/
def toStmt : Node → Stmt
  | variableDecl span t name init => .declare span (.ofNode t) name init.toOptionalExpr
  | paramDecl span t name => .param span (.ofNode t) name
  | assignment span name op v => .assign span name (.ofData op) v.toExpr
  | call span name args => .call span name (toExprs args)
  | definition span t name params body v => .define span (.ofNode t) name (toStmts params) (toBlock body) v.toExpr
  | print span e => .print span e.toOptionalExpr
  | branch span c thenBlock elseBlock =>
    .branch span c.toExpr ((toBlock thenBlock).getD []) (toBlock elseBlock)
  | loop span c body => .loop span c.toExpr (toBlock body)
  | breakOut span => .breakOut span
  | n => .misfit n.toMisfit

def toStmts : List Node → List Stmt
  | [] => []
  | n :: rest => toStmt n :: toStmts rest

def toBlock : Option (List Node) → Option (List Stmt)
  | none => none
  | some body => some (toStmts body)

end

/-- The program that a tree is. -/
def toProgram : Node → Except Escape Program
  | program span (some statements) => .ok ⟨span, toStmts statements⟩
  | program _ none => .error .noStatements
  | _ => .error .notANode

/-- The definition that a node is. -/
def toDefinition? : Node → Option Definition
  | definition span t name params body v => some ⟨span, .ofNode t, name, toStmts params, toBlock body, v.toExpr⟩
  | _ => none

end Node

namespace Expr

mutual

/-- The tree of data of an expression; what does not belong where it stands is nothing. -/
def toNode : Expr → Node
  | literal s v => .literal s (.value v)
  | untyped s _ => .literal s .nothing
  | identifier s name => .identifier s name
  | binary form s op a b => .binary form s (.text op.text) (toNode a) (toNode b)
  | unary form s op a => .unary form s (.text op.text) (toNode a)
  | call s name args => .call s name (toNodes args)
  | missing | misfit _ => .nothing

def toNodes : List Expr → List Node
  | [] => []
  | e :: rest => toNode e :: toNodes rest

end
end Expr

namespace Stmt

mutual

def toNode : Stmt → Node
  | declare s t name init => .variableDecl s t.toNode name ((init.map Expr.toNode).getD .nothing)
  | param s t name => .paramDecl s t.toNode name
  | assign s name op v => .assignment s name (.text op.text) v.toNode
  | call s name args => .call s name (Expr.toNodes args)
  | define s t name params body v => .definition s t.toNode name (toNodes params) (toBlock body) v.toNode
  | print s e => .print s ((e.map Expr.toNode).getD .nothing)
  | branch s c thenBlock elseBlock => .branch s c.toNode (some (toNodes thenBlock)) (toBlock elseBlock)
  | loop s c body => .loop s c.toNode (toBlock body)
  | breakOut s => .breakOut s
  | misfit _ => .nothing

def toNodes : List Stmt → List Node
  | [] => []
  | s :: rest => toNode s :: toNodes rest

def toBlock : Option (List Stmt) → Option (List Node)
  | none => none
  | some body => some (toNodes body)

end
end Stmt

def Program.toNode (p : Program) : Node := .program p.span (some (Stmt.toNodes p.statements))

end CheckedScript
