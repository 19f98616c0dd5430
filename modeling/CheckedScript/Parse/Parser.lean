import CheckedScript.Parse.Expected

/-! Reading from a list of tokens. A parser takes tokens from the front of the list or refuses the first one, naming the
kinds that it expected. It always looks at the next token before it goes on. -/

namespace CheckedScript.Parse

/-- The token that was refused, or the end of the tokens, and the kinds that were expected. -/
structure Refusal where
  found : Option Token
  expected : List Token.Kind
deriving Repr

abbrev Parser := StateT (List Token) (Except Refusal)

/-- The kind of the next token. -/
def next : Parser Token.Kind := fun ts =>
  match ts with
  | t :: _ => .ok (t.kind, ts)
  | [] => .ok (.ending, [])

def refuse {α : Type} (kinds : List Token.Kind) : Parser α := fun ts => .error ⟨ts.head?, kinds⟩

/-- The next token is of one of the kinds. -/
def expect (kinds : List Token.Kind) : Parser Unit := do
  if (← next) ∈ kinds then pure () else refuse kinds

/-- Takes the next token, which is of one of the kinds. -/
def take (kinds : List Token.Kind) : Parser Token := fun ts =>
  match ts with
  | t :: rest => if t.kind ∈ kinds then .ok (t, rest) else .error ⟨some t, kinds⟩
  | [] => .error ⟨none, kinds⟩

end CheckedScript.Parse
