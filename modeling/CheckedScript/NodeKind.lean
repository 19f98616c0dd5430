/-! The kinds of nodes of a tree, with the names that messages, traces and data give them, and the two forms of operations. -/

namespace CheckedScript

inductive NodeKind where
  | program | variableDecl | paramDecl | assignment | call | definition | print | branch | loop | breakOut
  | binaryExpr | unaryExpr | binaryCond | unaryCond | literal | identifier
deriving DecidableEq, Repr, Inhabited

namespace NodeKind

def label : NodeKind → String
  | program => "Program"
  | variableDecl => "VariableDecl"
  | paramDecl => "ParamDecl"
  | assignment => "AssignmentStmt"
  | call => "FunctionCall"
  | definition => "FunctionDef"
  | print => "PrintStmt"
  | branch => "IfStmt"
  | loop => "WhileStmt"
  | breakOut => "BreakStmt"
  | binaryExpr => "BinaryExpr"
  | unaryExpr => "UnaryExpr"
  | binaryCond => "BinaryCond"
  | unaryCond => "UnaryCond"
  | literal => "Literal"
  | identifier => "Identifier"

def all : List NodeKind :=
  [program, variableDecl, paramDecl, assignment, call, definition, print, branch, loop, breakOut, binaryExpr,
   unaryExpr, binaryCond, unaryCond, literal, identifier]

def ofLabel? (s : String) : Option NodeKind := all.find? (·.label = s)

end NodeKind

/-- Arithmetic or a condition: the type of an operation depends on how it is written. -/
inductive Form where
  | expression
  | condition
deriving DecidableEq, Repr, Inhabited

end CheckedScript
