import CheckedScript.Literal

/-! From characters to tokens. At each place the first rule that matches takes as much as it can: a quoted text, a block
comment up to its first end, a word, white space, a number, a line comment, an operator of two characters, one of one.
White space and comments leave no token. A character that no rule takes ends the scan. -/

namespace CheckedScript.Token

/-- The characters that one rule takes: how many, and the kind of token they make, if they make one. -/
structure Lexeme where
  kind : Option Kind
  length : Nat
deriving DecidableEq, Repr

namespace Lexeme

def stringLit? : List Char → Option Lexeme
  | '\'' :: rest =>
    if (rest.dropWhile Literal.isSafe).head? = some '\'' then
      some ⟨some .stringLit, (rest.takeWhile Literal.isSafe).length + 2⟩
    else none
  | _ => none

/-- How many characters there are up to the end of the first `*/`. -/
def commentLength? : List Char → Option Nat
  | [] => none
  | '*' :: '/' :: _ => some 2
  | _ :: rest => (commentLength? rest).map (· + 1)

def blockComment? : List Char → Option Lexeme
  | '/' :: '*' :: rest => (commentLength? rest).map fun n => ⟨none, n + 2⟩
  | _ => none

/-- Letters and then digits; a keyword has its own kind. -/
def word? (cs : List Char) : Option Lexeme :=
  let letters := cs.takeWhile Literal.isNameStart
  if letters.isEmpty then none else
    let word := letters ++ (cs.dropWhile Literal.isNameStart).takeWhile Char.isDigit
    some ⟨some ((Kind.ofKeyword? (String.ofList word)).getD .name), word.length⟩

def isSpace (c : Char) : Bool := " \t\x0c\r\n".toList.contains c

def space? (cs : List Char) : Option Lexeme :=
  let blanks := cs.takeWhile isSpace
  if blanks.isEmpty then none else some ⟨none, blanks.length⟩

/-- Digits of any script; a point belongs to the number only if digits follow it. -/
def numberLit? (cs : List Char) : Option Lexeme :=
  let whole := cs.takeWhile Text.isDigit
  if whole.isEmpty then none else
    let fraction := match cs.dropWhile Text.isDigit with
      | '.' :: rest => rest.takeWhile Text.isDigit
      | _ => []
    some ⟨some .numberLit, whole.length + (if fraction.isEmpty then 0 else fraction.length + 1)⟩

def lineComment? : List Char → Option Lexeme
  | '/' :: '/' :: rest => some ⟨none, (rest.takeWhile (· ≠ '\n')).length + 2⟩
  | _ => none

def pair? : List Char → Option Lexeme
  | c :: d :: _ => (Kind.ofPair? c d).map fun k => ⟨some k, 2⟩
  | _ => none

def single? : List Char → Option Lexeme
  | c :: _ => (Kind.ofChar? c).map fun k => ⟨some k, 1⟩
  | [] => none

/-- What the first rule that matches takes. -/
def first? (cs : List Char) : Option Lexeme :=
  stringLit? cs <|> blockComment? cs <|> word? cs <|> space? cs <|> numberLit? cs <|> lineComment? cs <|>
    pair? cs <|> single? cs

end Lexeme

/-- The tokens up to the end of the source, or up to a character that no token starts with. -/
structure Scan where
  tokens : List Token
  error : Option Error
deriving Repr

/-- The scan with a token before it. -/
def Scan.cons (t : Token) (s : Scan) : Scan := ⟨t :: s.tokens, s.error⟩

/-- Scans from the offset `start` on; the first `taken` characters belong to a lexeme that was read before. -/
def scanFrom : (start taken : Nat) → List Char → Scan
  | _, _, [] => ⟨[], none⟩
  | start, taken + 1, _ :: rest => scanFrom (start + 1) taken rest
  | start, 0, c :: rest =>
    match Lexeme.first? (c :: rest) with
    | none => ⟨[], some ⟨.noToken c, .ofOffsets start (start + 1)⟩⟩
    | some ⟨none, n⟩ => scanFrom (start + 1) (n - 1) rest
    | some ⟨some kind, n⟩ =>
      (scanFrom (start + 1) (n - 1) rest).cons
        ⟨kind, String.ofList ((c :: rest).take n), start, start + n⟩

def scan (source : String) : Scan := scanFrom 0 0 source.toList

/-- All tokens of the source. -/
def tokenize (source : String) : Except Failure (List Token) :=
  let s := scan source
  match s.error with
  | none => .ok s.tokens
  | some e => .error (.error e)

end CheckedScript.Token
