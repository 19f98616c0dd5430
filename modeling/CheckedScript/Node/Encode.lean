import CheckedScript.Node

/-! Trees to data: an object with the kind of the node, its range, and its fields. -/

namespace CheckedScript.Node

/-- The object of a node. -/
def encodeAs (kind : NodeKind) (span : Span) (fields : List (String × Data)) : Data :=
  .object (("type", .text kind.label) :: ("span", span.toData) :: fields)

mutual

def encode : Node → Data
  | value v => v.toData
  | typeTag k => .object [("__type__", .text "TypeSpec"), ("value", .object [("kind", k)])]
  | program m b => encodeAs .program m [("statements", encodeBlock b)]
  | variableDecl m t n i => encodeAs .variableDecl m [("type_spec", encode t), ("name", n), ("init", encode i)]
  | paramDecl m t n => encodeAs .paramDecl m [("type_spec", encode t), ("name", n)]
  | assignment m n o v => encodeAs .assignment m [("name", n), ("op", o), ("value", encode v)]
  | call m n args => encodeAs .call m [("name", n), ("args", .list (encodeList args))]
  | definition m t n ps b v =>
    encodeAs .definition m
      [("return_type", encode t), ("name", n), ("params", .list (encodeList ps)), ("body", encodeBlock b),
       ("return_expr", encode v)]
  | print m e => encodeAs .print m [("expr", encode e)]
  | branch m c a b =>
    encodeAs .branch m [("condition", encode c), ("then_block", encodeBlock a), ("else_block", encodeBlock b)]
  | loop m c b => encodeAs .loop m [("condition", encode c), ("body", encodeBlock b)]
  | breakOut m => encodeAs .breakOut m []
  | binary form m o a b => encodeAs (binaryKind form) m [("op", o), ("left", encode a), ("right", encode b)]
  | unary form m o a => encodeAs (unaryKind form) m [("op", o), ("operand", encode a)]
  | literal m v => encodeAs .literal m [("value", encode v)]
  | identifier m n => encodeAs .identifier m [("name", n)]

def encodeList : List Node → List Data
  | [] => []
  | n :: rest => encode n :: encodeList rest

def encodeBlock : Option (List Node) → Data
  | none => .null
  | some b => .list (encodeList b)

end
end CheckedScript.Node
