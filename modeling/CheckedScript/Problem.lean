import CheckedScript.Token
import CheckedScript.Ty

/-! What can be wrong with a program. A `Problem` is a cause; its category and its message are read off it. An
`Error` is a problem at a place. What a caller did wrong, outside of the rules of the language, is an `Escape`. -/

namespace CheckedScript

inductive Category where
  | lexical | malformed | missingDeclaration | uniquenessViolation | typeMismatch | operatorMismatch | grammar
  | arithmetic | exhaustion
deriving DecidableEq, Repr, Inhabited

/-- The phase that ends with an error of a category. -/
inductive Phase where
  | scanning | parsing | checking | running
deriving DecidableEq, Repr, Inhabited

namespace Category

def label : Category → String
  | lexical => "LexicalError"
  | malformed => "SyntaxError"
  | missingDeclaration => "MissingDeclarationError"
  | uniquenessViolation => "UniquenessViolationError"
  | typeMismatch => "TypeMismatchError"
  | operatorMismatch => "OperatorMismatchError"
  | grammar => "GrammarError"
  | arithmetic => "ArithmeticFault"
  | exhaustion => "ResourceExhaustionFault"

def phase : Category → Phase
  | lexical => .scanning
  | malformed => .parsing
  | arithmetic => .running
  | exhaustion => .running
  | _ => .checking

end Category

inductive Problem where
  | noToken (c : Char)
  | unexpected (found : Option String) (expected : List Token.Kind)
  | unknownTypeName (name : String)
  | unknownLiteral (text : String)
  | notALiteral (text : String)
  | untyped (what : String)
  | noDefault (type : Ty)
  | needsNumber (op : String) (value : Value)
  | needsBoolean (op : String) (value : Value)
  | unknownBinary (op : String)
  | unknownUnary (op : String)
  | unknownAssignment (op : String)
  | notFinite (op : String)
  | divisionByZero
  | moduloByZero
  | redeclared (name : Data)
  | undeclared (name : Data)
  | redefined (f : Signature)
  | conflicting (f existing : Signature)
  | undefined (name : Data) (arity : Int)
  | missingOperand
  | noType (node : NodeKind)
  | noValue (node : NodeKind)
  | unaryOperand (op : String) (type : Ty)
  | negatedOperand (op : String) (type : Ty)
  | stringOperands (op : String)
  | expressionTypes (left right : Ty)
  | booleanOperands (op : String)
  | conditionTypes (left right : Ty)
  | nonNumeric (op : String)
  | nonBoolean (op : String)
  | conditionType (type : Ty)
  | initialValue (name : Data) (declared effective : Ty)
  | assignedValue (name : Data) (declared effective : Ty)
  | compoundValue (name : Data) (op : String) (effective : Ty)
  | arguments (f : Signature)
  | returnedValue (effective : Ty) (name : Data) (declared : Ty)
  | breakOutsideLoop
  | breakAfterBreak
  | breakNotLast
  | unexpectedStatement (node : NodeKind)
  | tooManyIterations (limit : Int)
  | tooManyCalls (limit : Int) (name : Data)
deriving Repr, Inhabited

namespace Problem

def category : Problem → Category
  | noToken _ => .lexical
  | unexpected _ _ => .malformed
  | unknownTypeName _ | unknownLiteral _ | notALiteral _ | untyped _ | noDefault _ => .typeMismatch
  | needsNumber _ _ | needsBoolean _ _ => .operatorMismatch
  | unknownBinary _ | unknownUnary _ | unknownAssignment _ => .operatorMismatch
  | notFinite _ | divisionByZero | moduloByZero => .arithmetic
  | redeclared _ | redefined _ => .uniquenessViolation
  | undeclared _ | undefined _ _ => .missingDeclaration
  | conflicting _ _ => .grammar
  | missingOperand | noType _ | noValue _ => .grammar
  | unaryOperand _ _ | stringOperands _ | nonNumeric _ | nonBoolean _ => .operatorMismatch
  | negatedOperand _ _ | expressionTypes _ _ | booleanOperands _ | conditionTypes _ _ => .typeMismatch
  | conditionType _ | initialValue _ _ _ | assignedValue _ _ _ | compoundValue _ _ _ => .typeMismatch
  | arguments _ | returnedValue _ _ _ => .typeMismatch
  | breakOutsideLoop | breakAfterBreak | breakNotLast | unexpectedStatement _ => .grammar
  | tooManyIterations _ | tooManyCalls _ _ => .exhaustion

/-- The types that the message of a problem shows, in the order in which it is put together. -/
def types : Problem → List Ty
  | noDefault t | unaryOperand _ t | negatedOperand _ t | conditionType t | compoundValue _ _ t => [t]
  | expressionTypes a b | conditionTypes a b | initialValue _ a b | assignedValue _ a b => [a, b]
  | returnedValue effective _ declared => [effective, declared]
  | redefined f | arguments f => f.types
  | conflicting f existing => f.types ++ existing.types
  | _ => []

/-- The kinds among `expected`, each once and in the order of their names. -/
def sortedLabels (expected : List Token.Kind) : List String :=
  (Token.Kind.all.filter (· ∈ expected)).map Token.Kind.label

def message : Problem → String
  | noToken c => "no token matches " ++ Text.quoted c.toString
  | unexpected found expected =>
    let what := match found with
      | some text => s!"<{text}>"
      | none => "end of input"
    s!"unexpected {what}, expected one of " ++ Text.quotedList (sortedLabels expected)
  | unknownTypeName name => s!"unknown type <{name}>"
  | unknownLiteral text => s!"unknown type for <{text}>"
  | notALiteral text => s!"<{text}> is not a literal"
  | untyped what => s!"no playlang type for {what}"
  | noDefault type => s!"type <{type.subject}> has no default value"
  | needsNumber op v => s!"operator <{op}> expects number operands, got <{v.shown}>"
  | needsBoolean op v => s!"operator <{op}> expects boolean operands, got <{v.shown}>"
  | unknownBinary op => s!"unknown operator <{op}>"
  | unknownUnary op => s!"unknown unary operator <{op}>"
  | unknownAssignment op => s!"unknown assignment operator <{op}>"
  | notFinite op => s!"operation <{op}> resulted in an invalid numeric value"
  | divisionByZero => "division by zero"
  | moduloByZero => "modulo by zero"
  | redeclared name => s!"variable identifier <{name.shown}> is already defined"
  | undeclared name => s!"declaration <{name.shown}> was never instantiated"
  | redefined f => s!"function <{f.text}> is already defined"
  | conflicting f existing => s!"function <{f.text}> cannot be defined as it conflicts with <{existing.text}>"
  | undefined name arity => s!"function <{name.shown}> with {arity} parameter(s) was never defined"
  | missingOperand => "operand must never be null"
  | noType node => s!"node <{node.label}> has no type"
  | noValue node => s!"node <{node.label}> has no value"
  | unaryOperand op type => s!"unary operator <{op}> may not be used with <{type.text}> operand"
  | negatedOperand op type => s!"operand of <{op}> must be <boolean>, got <{type.text}>"
  | stringOperands op => s!"operator <{op}> may not be used with <string> operands"
  | expressionTypes left right => s!"types <{left.text}> and <{right.text}> of expression do not match"
  | booleanOperands op => s!"operator <{op}> may not be used with <boolean> operands"
  | conditionTypes left right => s!"types <{left.text}> and <{right.text}> of condition do not match"
  | nonNumeric op => s!"operator <{op}> must not be used for non-numeric operands"
  | nonBoolean op => s!"operator <{op}> must not be used for non-boolean operands"
  | conditionType type => s!"condition of type <{type.text}> is not valid"
  | initialValue name declared effective =>
    s!"type of variable <{name.shown}> is <{declared.text}> and cannot hold a <{effective.text}> value"
  | assignedValue name declared effective =>
    s!"type of variable <{name.shown}> is <{declared.text}> and cannot be assigned a <{effective.text}> value"
  | compoundValue name op effective =>
    s!"type of variable <{name.shown}> does not allow operator <{op}> with a <{effective.text}> value"
  | arguments f => s!"function parameters do not match with function <{f.text}>"
  | returnedValue effective name declared =>
    s!"return type <{effective.text}> of function <{name.shown}> does not match defined type <{declared.text}>"
  | breakOutsideLoop => "misplaced break statement, no enclosing loop may be terminated here"
  | breakAfterBreak => "unreachable code, the loop was already terminated by a preceding break"
  | breakNotLast => "unreachable code, break statement must be the last statement of its block"
  | unexpectedStatement node => s!"unexpected statement <{node.label}>"
  | tooManyIterations limit => s!"while loop exceeded {limit} iterations"
  | tooManyCalls limit name => s!"call depth of {limit} exceeded calling <{name.shown}>"

end Problem

structure Error where
  problem : Problem
  location : Span
deriving Repr, Inhabited

/-- The text that is shown to a user. -/
def Error.text (e : Error) : String :=
  s!"{e.problem.category.label}: {e.problem.message} at location {e.location.text}"

/-- A request that the rules of the language say nothing about. -/
inductive Escape where
  | noFrame
  | infiniteDividend
  | notANode
  | noStatements
  | notAKey (kind : String)
  | unshownType (kind : String)
  | unshownSubject (kind : String)
  | textPlusNothing
  | nothingPlusText
  | unknownMode (shown : String) (modes : List String)
deriving Repr, Inhabited

/-- The message of an escape, if it has one. -/
def Escape.message? : Escape → Option String
  | noFrame => none
  | infiniteDividend => some "math domain error"
  | notANode => none
  | noStatements => some "object of type 'NoneType' has no len()"
  | notAKey kind => some s!"unhashable type: '{kind}'"
  | unshownType kind => some s!"__repr__ returned non-string (type {kind})"
  | unshownSubject kind => some s!"__str__ returned non-string (type {kind})"
  | textPlusNothing => some "can only concatenate str (not \"NoneType\") to str"
  | nothingPlusText => some "unsupported operand type(s) for +: 'NoneType' and 'str'"
  | unknownMode shown modes =>
    some (s!"unknown processing mode {shown}, expected one of " ++ ", ".intercalate modes)

inductive Failure where
  | error (e : Error)
  | escape (e : Escape)
deriving Repr, Inhabited

/-- What keeps the message of a problem from being put together, if anything does: a type whose kind is no text. -/
def Problem.unshown? : Problem → Option Escape
  | .noDefault (.other (.typeTag d)) =>
    match d with
    | .text _ => none
    | d => some (.unshownSubject d.kindName)
  | p => (p.types.findSome? Ty.unshown?).map .unshownType

/-- The problem at a place, if it has a message. -/
def Problem.located (p : Problem) (span : Span) : Failure :=
  match p.unshown? with
  | some e => .escape e
  | none => .error ⟨p, span⟩

/-- The failure with a place, if it has none yet. -/
def Failure.orAt (span : Span) : Failure → Failure
  | .error e => .error (if e.location.isZero then { e with location := span } else e)
  | .escape e => .escape e

end CheckedScript
