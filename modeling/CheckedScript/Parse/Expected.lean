import CheckedScript.Tree

/-! What may come next while a program is read. A message about an unexpected token lists what the place allows. The sets
here are those of the places; a place that several constructs share allows what may follow any of them, so the set after
a name in a header also holds the comma and the semicolon that could follow the name elsewhere. -/

namespace CheckedScript.Parse

open Token.Kind

def addOps : List Token.Kind := [plus, minus]

def mulOps : List Token.Kind := [star, slash, percent]

def conditionOps : List Token.Kind := [same, differs, more, moreEqual, less, lessEqual, both, either]

def assignOps : List Token.Kind := [equal, plusEqual, minusEqual, starEqual, slashEqual, percentEqual]

def stepOps : List Token.Kind := [increment, decrement]

def typeWords : List Token.Kind := [number, string, boolean]

/-- What an atom starts with. -/
def atomFirst : List Token.Kind := [numberLit, stringLit, trueWord, falseWord, name]

/-- What a factor starts with. -/
def factorFirst : List Token.Kind := minus :: atomFirst

/-- What a condition starts with. -/
def conditionFirst : List Token.Kind := [lpar, bang]

/-- What the operand of a negation starts with. -/
def negatedFirst : List Token.Kind := conditionFirst ++ atomFirst

/-- What a value starts with. -/
def valueFirst : List Token.Kind := conditionFirst ++ factorFirst

/-- What may follow a value. -/
def valueEnd : List Token.Kind := [comma, rpar, semicolon]

/-- What may follow a side of a condition. -/
def sideEnd : List Token.Kind := rpar :: conditionOps

/-- What may follow a condition. -/
def conditionEnd : List Token.Kind := valueEnd ++ conditionOps

/-- What may follow an atom. -/
def atomEnd : List Token.Kind := conditionEnd ++ addOps ++ mulOps

/-- What a statement starts with. -/
def statementFirst : List Token.Kind := [print, ifWord, whileWord, breakWord, name] ++ typeWords

/-- What may follow a statement at the outermost level. -/
def programNext : List Token.Kind := ending :: define :: statementFirst

/-- What may follow a statement in a block or a body. -/
def blockNext : List Token.Kind := rbrace :: returnWord :: statementFirst

/-- What may follow a statement. -/
def statementEnd : List Token.Kind := rbrace :: returnWord :: programNext

/-- What may follow a block. -/
def blockEnd : List Token.Kind := elseWord :: statementEnd

end CheckedScript.Parse
