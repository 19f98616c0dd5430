import CheckedScript.Node

/-! Data to trees. A whole number where a value may stand becomes a number, marks that are missing are `[0, 0]`, fields that
a node may lack are taken as nothing, and fields that it does not know are left out. Where nodes are listed, a text gives
its characters and an object the names of its fields. The marks are read before the kind is looked at, and then the
fields one after the other; the first that is wrong is named. -/

namespace CheckedScript

inductive DataError where
  | notATree
  | unknownKind (kind : Data)
  | missingField (key : String)
  | fewMarks (count : Nat)
  | manyMarks
  | marksNotListed (given : Data)
  | notListed (given : Data)
  | noFields (given : Data)
  | tooLarge
deriving Repr, Inhabited

def DataError.message : DataError → String
  | notATree => "Invalid AST object"
  | unknownKind kind => "Unknown AST node type: " ++ kind.shown
  | missingField key => Text.quoted key
  | fewMarks count => s!"not enough values to unpack (expected 2, got {count})"
  | manyMarks => "too many values to unpack (expected 2)"
  | marksNotListed given => s!"cannot unpack non-iterable {given.kindName} object"
  | notListed given => s!"'{given.kindName}' object is not iterable"
  | noFields (.text _) => "string indices must be integers, not 'str'"
  | noFields (.list _) => "list indices must be integers or slices, not str"
  | noFields given => s!"'{given.kindName}' object is not subscriptable"
  | tooLarge => "int too large to convert to float"

namespace Span

/-- The range whose two marks a field holds. -/
def decode (d : Data) : Except DataError Span :=
  let items : Except DataError (List Data) := match d with
    | .list items => .ok items
    | .text s => .ok (s.toList.map fun c => .text c.toString)
    | .object fields => .ok (fields.map fun (k, _) => .text k)
    | d => .error (.marksNotListed d)
  match items with
  | .ok [a, b] => .ok ⟨a, b⟩
  | .ok items => .error (if items.length < 2 then .fewMarks items.length else .manyMarks)
  | .error e => .error e

end Span

namespace Node

/-- A field, read in each of the ways in which a node may ask for it. -/
structure Reading where
  raw : Data
  node : Except DataError Node
  items : Except DataError (List Node)

namespace Reading

/-- A block of statements, which may be missing. -/
def block (r : Reading) : Except DataError (Option (List Node)) :=
  match r.raw with
  | .null => .ok none
  | _ => r.items.map some

end Reading

/-- The number of a whole one, if it is in range. -/
def ofInt (i : Int) : Except DataError Node :=
  let x := Decimal.nearest (decide (i < 0)) i.natAbs 1
  if x.isFinite then .ok (value (.number x)) else .error .tooLarge

/-- The readings of an object, with the fields that it must have and those that it may lack. -/
def need (key : String) (fields : List (String × Reading)) : Except DataError Reading :=
  match fields.lookup key with
  | some r => .ok r
  | none => .error (.missingField key)

/-- A field that may be missing; it is then nothing. -/
def optionalNode (key : String) (fields : List (String × Reading)) : Except DataError Node :=
  match fields.lookup key with
  | some r => r.node
  | none => .ok nothing

def optionalBlock (key : String) (fields : List (String × Reading)) : Except DataError (Option (List Node)) :=
  match fields.lookup key with
  | some r => r.block
  | none => .ok none

/-- The kind that the value of a type tag holds. -/
def tagKind (d : Data) : Except DataError Data :=
  match d with
  | .object fields =>
    match Data.field? "kind" fields with
    | some k => .ok k
    | none => .error (.missingField "kind")
  | d => .error (.noFields d)

/-- The node of a kind, from its readings. -/
def build (kind : NodeKind) (m : Span) (fields : List (String × Reading)) : Except DataError Node := do
  match kind with
  | .program => return .program m (← (← need "statements" fields).block)
  | .variableDecl =>
    let type ← (← need "type_spec" fields).node
    let name ← need "name" fields
    return .variableDecl m type name.raw (← optionalNode "init" fields)
  | .paramDecl =>
    let type ← (← need "type_spec" fields).node
    let name ← need "name" fields
    return .paramDecl m type name.raw
  | .assignment =>
    let name ← need "name" fields
    let op ← need "op" fields
    return .assignment m name.raw op.raw (← (← need "value" fields).node)
  | .call =>
    let name ← need "name" fields
    return .call m name.raw (← (← need "args" fields).items)
  | .definition =>
    let result ← (← need "return_type" fields).node
    let name ← need "name" fields
    let params ← (← need "params" fields).items
    let body ← (← need "body" fields).block
    return .definition m result name.raw params body (← (← need "return_expr" fields).node)
  | .print => return .print m (← optionalNode "expr" fields)
  | .branch =>
    let condition ← (← need "condition" fields).node
    let thenBlock ← (← need "then_block" fields).block
    return .branch m condition thenBlock (← optionalBlock "else_block" fields)
  | .loop =>
    let condition ← (← need "condition" fields).node
    return .loop m condition (← (← need "body" fields).block)
  | .breakOut => return .breakOut m
  | .binaryExpr => binaryOf .expression
  | .unaryExpr => unaryOf .expression
  | .binaryCond => binaryOf .condition
  | .unaryCond => unaryOf .condition
  | .literal => return .literal m (← (← need "value" fields).node)
  | .identifier => return .identifier m (← need "name" fields).raw
where
  binaryOf (form : Form) : Except DataError Node := do
    let op ← need "op" fields
    let left ← (← need "left" fields).node
    return .binary form m op.raw left (← (← need "right" fields).node)
  unaryOf (form : Form) : Except DataError Node := do
    let op ← need "op" fields
    return .unary form m op.raw (← (← need "operand" fields).node)

/-- The node of an object, from its fields and their readings. -/
def ofObject (fields : List (String × Data)) (readings : List (String × Reading)) : Except DataError Node := do
  if let some (.text "TypeSpec") := Data.field? "__type__" fields then
    match Data.field? "value" fields with
    | some d => return .typeTag (← tagKind d)
    | none => throw (.missingField "value")
  else
    let span ← match Data.field? "span" fields with
      | some d => Span.decode d
      | none => .ok .zero
    let kind := (Data.field? "type" fields).getD .null
    let known := match kind with
      | .text s => NodeKind.ofLabel? s
      | _ => none
    match known with
    | some k => build k span readings
    | none => throw (.unknownKind kind)

mutual

def decode : Data → Except DataError Node
  | .null => .ok nothing
  | .bool b => .ok (value (.boolean b))
  | .int i => ofInt i
  | .float x => .ok (value (.number x))
  | .text s => .ok (value (.text s))
  | .list _ => .error .notATree
  | .object fields => ofObject fields (readFields fields)

def decodeItems : Data → Except DataError (List Node)
  | .list items => decodeList items
  | .text s => .ok (s.toList.map fun c => value (.text c.toString))
  | .object fields => .ok (fields.map fun (k, _) => value (.text k))
  | d => .error (.notListed d)

def decodeList : List Data → Except DataError (List Node)
  | [] => .ok []
  | d :: rest => do
    let n ← decode d
    return n :: (← decodeList rest)

def readFields : List (String × Data) → List (String × Reading)
  | [] => []
  | (k, d) :: rest => (k, ⟨d, decode d, decodeItems d⟩) :: readFields rest

end
end Node
end CheckedScript
