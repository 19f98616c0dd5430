import CheckedScript.Parse.Stmt
import CheckedScript.Token.Scan

/-! From source to tree. The tokens before a character that no token starts with are read first, so an unexpected token
among them is found before that character is. A number must start with a plain digit; this is seen when the tree is
built, after all tokens were accepted, and the first such number is named. -/

namespace CheckedScript

/-- From the first token to the last. -/
def Token.extent (ts : List Token) : Span :=
  match ts.head?, ts.getLast? with
  | some first, some last => first.span.join last.span
  | _, _ => .zero

/-- A number that starts with a digit of another script. -/
def Token.isForeignNumber (t : Token) : Bool :=
  t.kind == .numberLit && !Literal.isNumber t.text.toList

namespace Program

/-- The tree of tokens that the scan of a source gave. -/
def ofScan (s : Token.Scan) : Except Failure Program :=
  match Parse.program s.tokens, s.error with
  | .error ⟨some t, expected⟩, _ => .error (Problem.located (.unexpected (some t.text) expected) t.span)
  | _, some e => .error (.error e)
  | .error ⟨none, expected⟩, none =>
    .error (Problem.located (.unexpected none expected) ((s.tokens.getLast?.map Token.span).getD .zero))
  | .ok statements, none =>
    match s.tokens.find? Token.isForeignNumber with
    | some t => .error (Problem.located (.unknownLiteral t.text) .zero)
    | none => .ok ⟨Token.extent s.tokens, statements⟩

/-- The tree of a source. -/
def parse (source : String) : Except Failure Program := ofScan (Token.scan source)

end Program
end CheckedScript
