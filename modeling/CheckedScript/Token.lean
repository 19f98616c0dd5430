import CheckedScript.Span

/-! Tokens of the source. The kinds are listed in the order of their names, which is the order in which messages
name them. -/

namespace CheckedScript

namespace Token

inductive Kind where
  | ending | bang | boolean | breakWord | comma | define | elseWord | equal | falseWord | ifWord | lbrace | less
  | lpar | minus | more | name | number | numberLit | percent | plus | print | rbrace | returnWord | rpar | semicolon
  | slash | star | string | stringLit | trueWord | whileWord | same | differs | percentEqual | increment | decrement
  | moreEqual | lessEqual | both | either | plusEqual | minusEqual | starEqual | slashEqual
deriving DecidableEq, Repr, Inhabited

namespace Kind

/-- Every kind, in the order of the names. -/
def all : List Kind :=
  [ending, bang, boolean, breakWord, comma, define, elseWord, equal, falseWord, ifWord, lbrace, less, lpar, minus,
   more, name, number, numberLit, percent, plus, print, rbrace, returnWord, rpar, semicolon, slash, star, string,
   stringLit, trueWord, whileWord, same, differs, percentEqual, increment, decrement, moreEqual, lessEqual, both,
   either, plusEqual, minusEqual, starEqual, slashEqual]

/-- The name of the kind in output. -/
def label : Kind → String
  | ending => "$END"
  | bang => "BANG"
  | boolean => "BOOLEAN"
  | breakWord => "BREAK"
  | comma => "COMMA"
  | define => "DEF"
  | elseWord => "ELSE"
  | equal => "EQUAL"
  | falseWord => "FALSE"
  | ifWord => "IF"
  | lbrace => "LBRACE"
  | less => "LESSTHAN"
  | lpar => "LPAR"
  | minus => "MINUS"
  | more => "MORETHAN"
  | name => "NAME"
  | number => "NUMBER"
  | numberLit => "NUMBER_LIT"
  | percent => "PERCENT"
  | plus => "PLUS"
  | print => "PRINT"
  | rbrace => "RBRACE"
  | returnWord => "RETURN"
  | rpar => "RPAR"
  | semicolon => "SEMICOLON"
  | slash => "SLASH"
  | star => "STAR"
  | string => "STRING"
  | stringLit => "STRING_LIT"
  | trueWord => "TRUE"
  | whileWord => "WHILE"
  | same => "__ANON_0"
  | differs => "__ANON_1"
  | percentEqual => "__ANON_10"
  | increment => "__ANON_11"
  | decrement => "__ANON_12"
  | moreEqual => "__ANON_2"
  | lessEqual => "__ANON_3"
  | both => "__ANON_4"
  | either => "__ANON_5"
  | plusEqual => "__ANON_6"
  | minusEqual => "__ANON_7"
  | starEqual => "__ANON_8"
  | slashEqual => "__ANON_9"

/-- The kind of a word that is a keyword. -/
def ofKeyword? (word : String) : Option Kind :=
  [("print", print), ("else", elseWord), ("if", ifWord), ("while", whileWord), ("break", breakWord),
   ("def", define), ("return", returnWord), ("number", number), ("string", string), ("boolean", boolean),
   ("true", trueWord), ("false", falseWord)].lookup word

/-- The operators of two characters. -/
def ofPair? : Char → Char → Option Kind
  | '=', '=' => some same
  | '!', '=' => some differs
  | '>', '=' => some moreEqual
  | '<', '=' => some lessEqual
  | '&', '&' => some both
  | '|', '|' => some either
  | '+', '=' => some plusEqual
  | '-', '=' => some minusEqual
  | '*', '=' => some starEqual
  | '/', '=' => some slashEqual
  | '%', '=' => some percentEqual
  | '+', '+' => some increment
  | '-', '-' => some decrement
  | _, _ => none

/-- The operators and signs of one character. -/
def ofChar? : Char → Option Kind
  | '=' => some equal
  | ';' => some semicolon
  | '(' => some lpar
  | ')' => some rpar
  | '\x7b' => some lbrace
  | '\x7d' => some rbrace
  | ',' => some comma
  | '!' => some bang
  | '-' => some minus
  | '+' => some plus
  | '*' => some star
  | '/' => some slash
  | '%' => some percent
  | '>' => some more
  | '<' => some less
  | _ => none

end Kind
end Token

structure Token where
  kind : Token.Kind
  text : String
  start : Nat
  stop : Nat
deriving DecidableEq, Repr, Inhabited

def Token.span (t : Token) : Span := .ofOffsets t.start t.stop

end CheckedScript
