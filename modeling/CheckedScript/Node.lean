import CheckedScript.NodeKind
import CheckedScript.Span
import CheckedScript.Value

/-! Trees as they are exchanged as data. Every node that data can describe is kept, whether it makes sense or not: names,
operators and marks are whatever data stood in their field, and where a node is expected there may be a bare value. -/

namespace CheckedScript

inductive Node where
  | value (v : Value)
  | typeTag (kind : Data)
  | program (span : Span) (statements : Option (List Node))
  | variableDecl (span : Span) (type : Node) (name : Data) (init : Node)
  | paramDecl (span : Span) (type : Node) (name : Data)
  | assignment (span : Span) (name op : Data) (value : Node)
  | call (span : Span) (name : Data) (args : List Node)
  | definition (span : Span) (result : Node) (name : Data) (params : List Node) (body : Option (List Node))
      (value : Node)
  | print (span : Span) (operand : Node)
  | branch (span : Span) (condition : Node) (thenBlock elseBlock : Option (List Node))
  | loop (span : Span) (condition : Node) (body : Option (List Node))
  | breakOut (span : Span)
  | binary (form : Form) (span : Span) (op : Data) (left right : Node)
  | unary (form : Form) (span : Span) (op : Data) (operand : Node)
  | literal (span : Span) (value : Node)
  | identifier (span : Span) (name : Data)
deriving Repr, Inhabited

/-- The value as data. -/
def Value.toData : Value → Data
  | number x => .float x
  | boolean b => .bool b
  | text s => .text s
  | nothing => .null

namespace Node

def nothing : Node := .value .nothing

/-- The kind of a binary operation. -/
def binaryKind : Form → NodeKind
  | .expression => .binaryExpr
  | .condition => .binaryCond

/-- The kind of a unary operation. -/
def unaryKind : Form → NodeKind
  | .expression => .unaryExpr
  | .condition => .unaryCond

/-- The kind and the range of a node that is one. -/
def head? : Node → Option (NodeKind × Span)
  | value _ | typeTag _ => none
  | program m _ => some (.program, m)
  | variableDecl m _ _ _ => some (.variableDecl, m)
  | paramDecl m _ _ => some (.paramDecl, m)
  | assignment m _ _ _ => some (.assignment, m)
  | call m _ _ => some (.call, m)
  | definition m _ _ _ _ _ => some (.definition, m)
  | print m _ => some (.print, m)
  | branch m _ _ _ => some (.branch, m)
  | loop m _ _ => some (.loop, m)
  | breakOut m => some (.breakOut, m)
  | binary form m _ _ _ => some (binaryKind form, m)
  | unary form m _ _ => some (unaryKind form, m)
  | literal m _ => some (.literal, m)
  | identifier m _ => some (.identifier, m)

mutual

/-- Equality of trees: the ranges are of no account, and what data stand in a field compare as data. -/
def equal : Node → Node → Bool
  | value v, value w => v.toData.equal w.toData
  | typeTag k, typeTag l => k.equal l
  | program _ a, program _ b => equalBlocks a b
  | variableDecl _ t n i, variableDecl _ u m j => equal t u && n.equal m && equal i j
  | paramDecl _ t n, paramDecl _ u m => equal t u && n.equal m
  | assignment _ n o v, assignment _ m p w => n.equal m && o.equal p && equal v w
  | call _ n as, call _ m bs => n.equal m && equalLists as bs
  | definition _ t n ps b v, definition _ u m qs c w =>
    equal t u && n.equal m && equalLists ps qs && equalBlocks b c && equal v w
  | print _ a, print _ b => equal a b
  | branch _ a b c, branch _ d e f => equal a d && equalBlocks b e && equalBlocks c f
  | loop _ a b, loop _ c d => equal a c && equalBlocks b d
  | breakOut _, breakOut _ => true
  | binary f _ o a b, binary g _ p c d => f == g && o.equal p && equal a c && equal b d
  | unary f _ o a, unary g _ p b => f == g && o.equal p && equal a b
  | literal _ a, literal _ b => equal a b
  | identifier _ n, identifier _ m => n.equal m
  | _, _ => false

def equalLists : List Node → List Node → Bool
  | [], [] => true
  | a :: as, b :: bs => equal a b && equalLists as bs
  | _, _ => false

def equalBlocks : Option (List Node) → Option (List Node) → Bool
  | none, none => true
  | some as, some bs => equalLists as bs
  | _, _ => false

end

/-- A node in a message: its kind, its range and its fields. -/
def display (kind : NodeKind) (span : Span) (fields : List (String × String)) : String :=
  kind.label ++ "(span=(" ++ span.start.quoted ++ ", " ++ span.stop.quoted ++ ")" ++
    String.join (fields.map fun (k, t) => ", " ++ k ++ "=" ++ t) ++ ")"

mutual

/-- A node as a message shows it. A type is shown by its kind; one whose kind is no text cannot be shown, and the name of the
kind of data that it is instead is given. -/
def quoted : Node → Except String String
  | value v => .ok v.toData.quoted
  | typeTag (.text k) => .ok k
  | typeTag k => .error k.kindName
  | program s b => do return display .program s [("statements", ← quotedBlock b)]
  | variableDecl s t n i => do
    let type ← quoted t
    return display .variableDecl s [("type_spec", type), ("name", n.quoted), ("init", ← quoted i)]
  | paramDecl s t n => do return display .paramDecl s [("type_spec", ← quoted t), ("name", n.quoted)]
  | assignment s n o v => do
    return display .assignment s [("name", n.quoted), ("op", o.quoted), ("value", ← quoted v)]
  | call s n args => do return display .call s [("name", n.quoted), ("args", ← quotedList args)]
  | definition s t n ps b v => do
    let type ← quoted t
    let params ← quotedList ps
    let body ← quotedBlock b
    return display .definition s
      [("return_type", type), ("name", n.quoted), ("params", params), ("body", body), ("return_expr", ← quoted v)]
  | print s e => do return display .print s [("expr", ← quoted e)]
  | branch s c a b => do
    let condition ← quoted c
    let thenBlock ← quotedBlock a
    return display .branch s [("condition", condition), ("then_block", thenBlock), ("else_block", ← quotedBlock b)]
  | loop s c b => do
    let condition ← quoted c
    return display .loop s [("condition", condition), ("body", ← quotedBlock b)]
  | breakOut s => .ok (display .breakOut s [])
  | binary form s o a b => do
    let left ← quoted a
    return display (binaryKind form) s [("op", o.quoted), ("left", left), ("right", ← quoted b)]
  | unary form s o a => do return display (unaryKind form) s [("op", o.quoted), ("operand", ← quoted a)]
  | literal s v => do return display .literal s [("value", ← quoted v)]
  | identifier s n => .ok (display .identifier s [("name", n.quoted)])

def quotedItems : List Node → Except String (List String)
  | [] => .ok []
  | n :: rest => do
    let text ← quoted n
    return text :: (← quotedItems rest)

def quotedList (items : List Node) : Except String String := do
  return "[" ++ ", ".intercalate (← quotedItems items) ++ "]"

def quotedBlock : Option (List Node) → Except String String
  | none => .ok "None"
  | some b => quotedList b

end
end Node
end CheckedScript
