import CheckedScript.Scope

/-! Plain trees: those that a source can say. Types are the three that values have, names of variables are texts, an
operator stands in the form that it belongs to, and nothing is missing or out of its place. Functions are defined at the
outermost level only, so no plain statement defines one. -/

namespace CheckedScript

/-- A type that values have. -/
def Ty.Simple : Ty → Prop
  | other _ => False
  | _ => True

def Data.IsText : Data → Prop
  | text _ => True
  | _ => False

/-- Arithmetic is written as an expression, and every other operator as a condition. -/
def BinaryOp.Fits : BinaryOp → Form → Prop
  | arith _, .expression => True
  | arith _, .condition => False
  | unknown _, _ => False
  | _, .expression => False
  | _, .condition => True

/-- A negation is written as a condition, and every other operator as an expression. -/
def UnaryOp.Fits : UnaryOp → Form → Prop
  | not, .condition => True
  | not, .expression => False
  | unknown _, _ => False
  | _, .expression => True
  | _, .condition => False

def AssignOp.Known : AssignOp → Prop
  | unknown _ => False
  | _ => True

namespace Expr

mutual

def Plain : Expr → Prop
  | literal _ v => v.type?.isSome
  | identifier _ name => name.IsText
  | binary form _ op left right => op.Fits form ∧ left.Plain ∧ right.Plain
  | unary form _ op operand => op.Fits form ∧ operand.Plain
  | call _ _ args => PlainAll args
  | untyped _ _ | missing | misfit _ => False

def PlainAll : List Expr → Prop
  | [] => True
  | e :: rest => e.Plain ∧ PlainAll rest

end

/-- What may be absent is plain if it is there. -/
def PlainOption : Option Expr → Prop
  | none => True
  | some e => e.Plain

end Expr

namespace Stmt

mutual

def Plain : Stmt → Prop
  | declare _ type name init => type.Simple ∧ name.IsText ∧ Expr.PlainOption init
  | param _ type name => type.Simple ∧ name.IsText
  | assign _ name op value => name.IsText ∧ op.Known ∧ value.Plain
  | call _ _ args => Expr.PlainAll args
  | define _ _ _ _ _ _ => False
  | print _ operand => Expr.PlainOption operand
  | branch _ condition thenBlock elseBlock => condition.Plain ∧ PlainBlock thenBlock ∧ PlainElse elseBlock
  | loop _ condition body => condition.Plain ∧ PlainBody body
  | breakOut _ => True
  | misfit _ => False

def PlainBlock : List Stmt → Prop
  | [] => True
  | s :: rest => s.Plain ∧ PlainBlock rest

/-- The body of a function or a loop must be there. -/
def PlainBody : Option (List Stmt) → Prop
  | none => False
  | some block => PlainBlock block

/-- The second branch of an `if` may be absent. -/
def PlainElse : Option (List Stmt) → Prop
  | none => True
  | some block => PlainBlock block

end

/-- Does the statement declare a parameter? -/
def IsParam : Stmt → Prop
  | param _ type name => type.Simple ∧ name.IsText
  | _ => False

/-- What the statement declares in the frame that it stands in. -/
def declares : Stmt → List (Data × Ty)
  | declare _ type name _ | param _ type name => [(name, type)]
  | _ => []

end Stmt

/-- A definition that a source can say. -/
structure Definition.Plain (d : Definition) : Prop where
  result : d.result.Simple
  params : ∀ p ∈ d.params, p.IsParam
  body : Stmt.PlainBody d.body
  value : d.value.Plain

/-- An entry of the table of functions that was made for a plain definition. -/
def Function.Plain (f : Function) : Prop :=
  ∃ d, f.definition = some d ∧ d.Plain ∧ d.signature? = some f.signature

/-- A statement of the outermost level: it may define a function. -/
def Stmt.PlainTop : Stmt → Prop
  | .define span result name params body value => Definition.Plain ⟨span, result, name, params, body, value⟩
  | s => s.Plain

theorem Stmt.Plain.top {s : Stmt} (h : s.Plain) : s.PlainTop := by
  cases s with
  | define span result name params body value => exact h.elim
  | _ => exact h

def Program.Plain (p : Program) : Prop := ∀ s ∈ p.statements, s.PlainTop

end CheckedScript
