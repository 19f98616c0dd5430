import CheckedScript.Node

/-! Types of the language. Values have one of three types. Whatever else stands in the place of a type is a type that no
value has; it is compared and shown as the node that it is. -/

namespace CheckedScript

inductive Ty where
  | number
  | boolean
  | string
  | other (tag : Node)
deriving Repr, Inhabited

namespace Ty

/-- The type that a kind names. -/
def ofKind (k : String) : Ty :=
  if k = "number" then number
  else if k = "boolean" then boolean
  else if k = "string" then string
  else other (.typeTag (.text k))

/-- The type of a name that has not been looked up yet. -/
def unresolved : Ty := ofKind "var"

/-- The type with a kind that may be any data. -/
def ofTag : Data → Ty
  | .text k => ofKind k
  | d => other (.typeTag d)

/-- The type that a node in the place of a type stands for. -/
def ofNode : Node → Ty
  | .typeTag d => ofTag d
  | n => other n

def toNode : Ty → Node
  | number => .typeTag (.text "number")
  | boolean => .typeTag (.text "boolean")
  | string => .typeTag (.text "string")
  | other n => n

/-- The kind of a type that has one. -/
def kind? (t : Ty) : Option Data :=
  match t.toNode with
  | .typeTag d => some d
  | _ => none

/-- The type that a type keyword of the source names. -/
def ofKeyword? (k : String) : Option Ty :=
  match ofKind k with
  | other _ => none
  | t => some t

/-- Are the two types the same? -/
def same : Ty → Ty → Bool
  | number, number | boolean, boolean | string, string => true
  | other a, other b => a.equal b
  | _, _ => false

/-- The text of a type in a message. -/
def text (t : Ty) : String := t.toNode.quoted.toOption.getD ""

/-- The text of a type that is the subject of a message; a bare text stands for itself. -/
def subject : Ty → String
  | other (.value (.text s)) => s
  | t => t.text

/-- What makes a type impossible to show, if anything does. -/
def unshown? : Ty → Option String
  | other n =>
    match n.quoted with
    | .ok _ => none
    | .error kind => some kind
  | _ => none

/-- The value of a variable of the type that was never assigned. -/
def default? : Ty → Option Value
  | number => some (.number 0.0)
  | boolean => some (.boolean false)
  | string => some (.text "")
  | other _ => none

end Ty

def Value.type? : Value → Option Ty
  | number _ => some .number
  | boolean _ => some .boolean
  | text _ => some .string
  | nothing => none

/-- What a function is known by: its result type, its name and the types of its parameters. -/
structure Signature where
  result : Ty
  name : Data
  params : List Ty
deriving Repr, Inhabited

namespace Signature

/-- The text `number f(number, string)`. -/
def text (s : Signature) : String :=
  s!"{s.result.text} {s.name.shown}(" ++ ", ".intercalate (s.params.map Ty.text) ++ ")"

/-- The types in the order in which the text is put together. -/
def types (s : Signature) : List Ty := s.params ++ [s.result]

/-- Are the types of two lists the same, one by one? -/
def sameTypes : List Ty → List Ty → Bool
  | [], [] => true
  | a :: as, b :: bs => a.same b && sameTypes as bs
  | _, _ => false

def same (a b : Signature) : Bool := a.name.equal b.name && a.result.same b.result && sameTypes a.params b.params

end Signature
end CheckedScript
