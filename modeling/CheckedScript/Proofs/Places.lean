import CheckedScript.Parse

/-! Trees without their places. The place of a node says where its tokens stood in the source; it is shown in messages and in
the trace, and nothing else depends on it. What is read from tokens without their places is what is read from the tokens,
without its places, and it is refused at the same token for the same reason. -/

namespace CheckedScript

/-- The failure at no place. -/
def Failure.unplaced : Failure → Failure
  | error e => error { e with location := .zero }
  | escape e => escape e

@[simp] theorem Problem.unplaced_located (p : Problem) (span : Span) : (p.located span).unplaced = p.located .zero := by
  unfold located
  cases p.unshown? <;> rfl

@[simp] theorem Failure.unplaced_orAt (f : Failure) (span : Span) : (f.orAt span).unplaced = f.unplaced := by
  cases f with
  | escape e => rfl
  | error e =>
    simp only [orAt]
    split <;> rfl

def Misfit.unplaced : Misfit → Misfit
  | node kind _ => node kind .zero
  | bare => bare

namespace Expr

mutual

/-- The expression without its places. -/
def unplaced : Expr → Expr
  | literal _ value => literal .zero value
  | untyped _ what => untyped .zero what
  | identifier _ name => identifier .zero name
  | binary form _ op left right => binary form .zero op left.unplaced right.unplaced
  | unary form _ op operand => unary form .zero op operand.unplaced
  | call _ name args => call .zero name (unplacedAll args)
  | missing => missing
  | misfit what => misfit what.unplaced

def unplacedAll : List Expr → List Expr
  | [] => []
  | e :: rest => e.unplaced :: unplacedAll rest

end

@[simp] theorem span_unplaced (e : Expr) : e.unplaced.span = .zero := by
  cases e with
  | misfit what => cases what <;> rfl
  | _ => rfl

@[simp] theorem length_unplacedAll (args : List Expr) : (unplacedAll args).length = args.length := by
  induction args with
  | nil => rfl
  | cons e rest ih => simp [unplacedAll, ih]

end Expr

namespace Stmt

mutual

/-- The statement without its places. -/
def unplaced : Stmt → Stmt
  | declare _ type name init => declare .zero type name (init.map Expr.unplaced)
  | param _ type name => param .zero type name
  | assign _ name op value => assign .zero name op value.unplaced
  | call _ name args => call .zero name (Expr.unplacedAll args)
  | define _ result name params body value =>
    define .zero result name (unplacedAll params) (unplacedBody body) value.unplaced
  | print _ operand => print .zero (operand.map Expr.unplaced)
  | branch _ condition thenBlock elseBlock =>
    branch .zero condition.unplaced (unplacedAll thenBlock) (unplacedBody elseBlock)
  | loop _ condition body => loop .zero condition.unplaced (unplacedBody body)
  | breakOut _ => breakOut .zero
  | misfit what => misfit what.unplaced

def unplacedAll : List Stmt → List Stmt
  | [] => []
  | s :: rest => s.unplaced :: unplacedAll rest

def unplacedBody : Option (List Stmt) → Option (List Stmt)
  | none => none
  | some block => some (unplacedAll block)

end

end Stmt

def Program.unplaced (p : Program) : Program := ⟨.zero, Stmt.unplacedAll p.statements⟩

namespace Token

/-- The token without its place. -/
def unplaced (t : Token) : Token := ⟨t.kind, t.text, 0, 0⟩

@[simp] theorem kind_unplaced (t : Token) : t.unplaced.kind = t.kind := rfl

@[simp] theorem text_unplaced (t : Token) : t.unplaced.text = t.text := rfl

@[simp] theorem span_unplaced (t : Token) : t.unplaced.span = .zero := rfl

/-- The scan without the places of its tokens and its error. -/
def Scan.unplaced (s : Scan) : Scan := ⟨s.tokens.map Token.unplaced, s.error.map ({ · with location := .zero })⟩

end Token

@[simp] theorem Span.zero_join_zero : Span.zero.join .zero = .zero := rfl

namespace Parse

open Token.Kind

def Refusal.unplaced (r : Refusal) : Refusal := ⟨r.found.map Token.unplaced, r.expected⟩

variable {α β : Type}

/-- From tokens without their places the second parser reads what the first one reads from the tokens, changed by `g`. -/
def Unplaces (g : α → α) (p p' : Parser α) : Prop :=
  ∀ ts, p' (ts.map Token.unplaced) =
    ((p ts).map fun r => (g r.1, r.2.map Token.unplaced)).mapError Refusal.unplaced

section Rules

variable {g : α → α} {h : β → β} {p p' q q' : Parser α} {k k' : α → Parser β}

theorem Unplaces.bind (hp : Unplaces g p p') (hk : ∀ a, Unplaces h (k a) (k' (g a))) :
    Unplaces h (p >>= k) (p' >>= k') := by
  intro ts
  simp only [Bind.bind, StateT.bind, hp ts]
  cases p ts with
  | error r => rfl
  | ok r => exact hk r.1 r.2

theorem unplaces_pure {a b : α} (hb : b = g a) : Unplaces g (pure a) (pure b) := by
  intro ts
  rw [hb]
  rfl

theorem unplaces_refuse {kinds : List Token.Kind} : Unplaces g (refuse kinds) (refuse kinds) := by
  intro ts
  simp only [refuse, List.head?_map]
  rfl

theorem unplaces_next : Unplaces (fun k => k) next next := by
  intro ts
  cases ts <;> rfl

theorem unplaces_ite {c : Prop} [Decidable c] (hp : Unplaces g p p') (hq : Unplaces g q q') :
    Unplaces g (if c then p else q) (if c then p' else q') := by
  split
  · exact hp
  · exact hq

theorem unplaces_expect {kinds : List Token.Kind} : Unplaces (fun u => u) (expect kinds) (expect kinds) :=
  unplaces_next.bind fun _ => unplaces_ite (unplaces_pure rfl) unplaces_refuse

theorem unplaces_take {kinds : List Token.Kind} : Unplaces Token.unplaced (take kinds) (take kinds) := by
  intro ts
  cases ts with
  | nil => rfl
  | cons t rest =>
    by_cases hk : t.kind ∈ kinds <;> simp only [take, List.map_cons, Token.kind_unplaced, hk, if_true, if_false] <;> rfl

end Rules

theorem negate_unplaced (span : Span) (e : Expr) : negate .zero e.unplaced = (negate span e).unplaced := by
  cases e with
  | literal s v => cases v <;> rfl
  | _ => rfl

mutual

theorem operandWith_unplaces (fuel : Nat) (place : Place) :
    Unplaces Expr.unplaced (operandWith fuel place) (operandWith fuel place) := by
  cases fuel with
  | zero => exact unplaces_refuse
  | succ fuel =>
    refine unplaces_expect.bind fun _ => unplaces_next.bind fun k => unplaces_ite ?_ ?_
    · exact (conditionWith_unplaces fuel).bind fun e => unplaces_expect.bind fun _ => unplaces_pure rfl
    · exact (sumWith_unplaces fuel).bind fun e => unplaces_expect.bind fun _ => unplaces_pure rfl
termination_by fuel

theorem conditionWith_unplaces (fuel : Nat) : Unplaces Expr.unplaced (conditionWith fuel) (conditionWith fuel) := by
  cases fuel with
  | zero => exact unplaces_refuse
  | succ fuel =>
    refine unplaces_take.bind fun first => unplaces_ite ?_ ?_
    · refine unplaces_expect.bind fun _ => unplaces_next.bind fun k => ?_
      have finish : ∀ e : Expr, Unplaces Expr.unplaced (do
          expect conditionEnd
          return .unary .condition (first.span.join e.span) .not e) (do
          expect conditionEnd
          return .unary .condition (first.unplaced.span.join e.unplaced.span) .not e.unplaced) :=
        fun e => unplaces_expect.bind fun _ => unplaces_pure (by simp [Expr.unplaced])
      exact unplaces_ite ((conditionWith_unplaces fuel).bind finish) ((atomWith_unplaces fuel).bind finish)
    · refine (operandWith_unplaces fuel .side).bind fun left => unplaces_take.bind fun op => ?_
      refine (operandWith_unplaces fuel .side).bind fun right => unplaces_take.bind fun last => ?_
      exact unplaces_expect.bind fun _ => unplaces_pure (by simp [Expr.unplaced])
termination_by fuel

theorem sumWith_unplaces (fuel : Nat) : Unplaces Expr.unplaced (sumWith fuel) (sumWith fuel) := by
  cases fuel with
  | zero => exact unplaces_refuse
  | succ fuel => exact (productWith_unplaces fuel).bind fun e => sumRestWith_unplaces fuel e _ rfl
termination_by fuel

theorem sumRestWith_unplaces (fuel : Nat) (left left' : Expr) (hl : left' = left.unplaced) :
    Unplaces Expr.unplaced (sumRestWith fuel left) (sumRestWith fuel left') := by
  cases fuel with
  | zero => exact unplaces_refuse
  | succ fuel =>
    refine unplaces_next.bind fun k => unplaces_ite ?_ (unplaces_pure hl)
    refine unplaces_take.bind fun op => (productWith_unplaces fuel).bind fun right => ?_
    exact sumRestWith_unplaces fuel _ _ (by simp [Expr.unplaced, hl])
termination_by fuel

theorem productWith_unplaces (fuel : Nat) : Unplaces Expr.unplaced (productWith fuel) (productWith fuel) := by
  cases fuel with
  | zero => exact unplaces_refuse
  | succ fuel => exact (factorWith_unplaces fuel).bind fun e => productRestWith_unplaces fuel e _ rfl
termination_by fuel

theorem productRestWith_unplaces (fuel : Nat) (left left' : Expr) (hl : left' = left.unplaced) :
    Unplaces Expr.unplaced (productRestWith fuel left) (productRestWith fuel left') := by
  cases fuel with
  | zero => exact unplaces_refuse
  | succ fuel =>
    refine unplaces_next.bind fun k => unplaces_ite ?_ (unplaces_pure hl)
    refine unplaces_take.bind fun op => (factorWith_unplaces fuel).bind fun right => ?_
    exact productRestWith_unplaces fuel _ _ (by simp [Expr.unplaced, hl])
termination_by fuel

theorem factorWith_unplaces (fuel : Nat) : Unplaces Expr.unplaced (factorWith fuel) (factorWith fuel) := by
  cases fuel with
  | zero => exact unplaces_refuse
  | succ fuel =>
    refine unplaces_expect.bind fun _ => unplaces_next.bind fun k => unplaces_ite ?_ (atomWith_unplaces fuel)
    refine unplaces_take.bind fun first => (factorWith_unplaces fuel).bind fun e => unplaces_pure ?_
    rw [← negate_unplaced, Token.span_unplaced, Expr.span_unplaced, Span.zero_join_zero]
termination_by fuel

theorem atomWith_unplaces (fuel : Nat) : Unplaces Expr.unplaced (atomWith fuel) (atomWith fuel) := by
  cases fuel with
  | zero => exact unplaces_refuse
  | succ fuel =>
    refine unplaces_take.bind fun t => unplaces_ite ?_ ?_
    · refine unplaces_expect.bind fun _ => unplaces_next.bind fun k => unplaces_ite ?_ (unplaces_pure rfl)
      exact (argumentsWith_unplaces fuel).bind fun a => unplaces_pure (by simp [Expr.unplaced])
    · refine unplaces_expect.bind fun _ => ?_
      simp only [Token.kind_unplaced]
      split <;> exact unplaces_pure rfl
termination_by fuel

theorem argumentsWith_unplaces (fuel : Nat) :
    Unplaces (fun a => (Expr.unplacedAll a.1, a.2.unplaced)) (argumentsWith fuel) (argumentsWith fuel) := by
  cases fuel with
  | zero => exact unplaces_refuse
  | succ fuel =>
    refine unplaces_take.bind fun _ => unplaces_expect.bind fun _ => unplaces_next.bind fun k => ?_
    have finish : ∀ args : List Expr, Unplaces (fun a => (Expr.unplacedAll a.1, a.2.unplaced)) (do
        let last ← take [rpar]
        expect atomEnd
        return (args, last)) (do
        let last ← take [rpar]
        expect atomEnd
        return (Expr.unplacedAll args, last)) :=
      fun args => unplaces_take.bind fun _ => unplaces_expect.bind fun _ => unplaces_pure rfl
    exact unplaces_ite (finish []) ((argumentListWith_unplaces fuel).bind finish)
termination_by fuel

theorem argumentListWith_unplaces (fuel : Nat) :
    Unplaces Expr.unplacedAll (argumentListWith fuel) (argumentListWith fuel) := by
  cases fuel with
  | zero => exact unplaces_refuse
  | succ fuel =>
    refine (operandWith_unplaces fuel .alone).bind fun e => unplaces_expect.bind fun _ => ?_
    refine unplaces_next.bind fun k => unplaces_ite ?_ (unplaces_pure rfl)
    exact unplaces_take.bind fun _ => (argumentListWith_unplaces fuel).bind fun rest => unplaces_pure rfl
termination_by fuel

end

theorem value_unplaces : Unplaces Expr.unplaced value value := by
  intro ts
  rw [value, exprFuel, List.length_map]
  exact operandWith_unplaces _ .alone ts

theorem side_unplaces : Unplaces Expr.unplaced side side := by
  intro ts
  rw [side, exprFuel, List.length_map]
  exact operandWith_unplaces _ .side ts

theorem arguments_unplaces : Unplaces (fun a => (Expr.unplacedAll a.1, a.2.unplaced)) arguments arguments := by
  intro ts
  rw [arguments, exprFuel, List.length_map]
  exact argumentsWith_unplaces _ ts

theorem header_unplaces : Unplaces Expr.unplaced header header := by
  refine side_unplaces.bind fun left => unplaces_expect.bind fun _ => unplaces_next.bind fun k => ?_
  refine unplaces_ite (unplaces_pure rfl) (unplaces_take.bind fun op => side_unplaces.bind fun right => ?_)
  exact unplaces_expect.bind fun _ => unplaces_pure (by simp [Expr.unplaced])

theorem typedName_unplaces : Unplaces (fun a => (a.1, a.2.1.unplaced, a.2.2.unplaced)) typedName typedName :=
  unplaces_take.bind fun _ => unplaces_take.bind fun _ => unplaces_pure rfl

theorem declaration_unplaces (first : Token) :
    Unplaces Stmt.unplaced (declaration first) (declaration first.unplaced) := by
  refine unplaces_take.bind fun target => unplaces_expect.bind fun _ => unplaces_next.bind fun k => ?_
  have finish : ∀ init : Option Expr, Unplaces Stmt.unplaced (do
      let last ← take [semicolon]
      return .declare (first.span.join last.span) (Ty.ofKind first.text) (.text target.text) init) (do
      let last ← take [semicolon]
      return .declare (first.unplaced.span.join last.span) (Ty.ofKind first.text) (.text target.text)
        (init.map Expr.unplaced)) :=
    fun init => unplaces_take.bind fun _ => unplaces_pure rfl
  exact unplaces_ite (unplaces_take.bind fun _ => value_unplaces.bind fun e => finish (some e)) (finish none)

theorem named_unplaces (first : Token) : Unplaces Stmt.unplaced (named first) (named first.unplaced) := by
  refine unplaces_expect.bind fun _ => unplaces_next.bind fun k => unplaces_ite ?_ (unplaces_ite ?_ ?_)
  · exact arguments_unplaces.bind fun _ => unplaces_take.bind fun _ => unplaces_pure rfl
  · exact unplaces_take.bind fun _ => unplaces_take.bind fun _ => unplaces_pure rfl
  · exact unplaces_take.bind fun _ => value_unplaces.bind fun _ => unplaces_take.bind fun _ => unplaces_pure rfl

theorem printing_unplaces (first : Token) : Unplaces Stmt.unplaced (printing first) (printing first.unplaced) := by
  refine unplaces_take.bind fun _ => unplaces_expect.bind fun _ => unplaces_next.bind fun k => ?_
  have finish : ∀ operand : Option Expr, Unplaces Stmt.unplaced (do
      let _ ← take [rpar]
      let last ← take [semicolon]
      return .print (first.span.join last.span) operand) (do
      let _ ← take [rpar]
      let last ← take [semicolon]
      return .print (first.unplaced.span.join last.span) (operand.map Expr.unplaced)) :=
    fun operand => unplaces_take.bind fun _ => unplaces_take.bind fun _ => unplaces_pure rfl
  exact unplaces_ite (finish none) (value_unplaces.bind fun e => finish (some e))

theorem enclosedHeader_unplaces : Unplaces Expr.unplaced enclosedHeader enclosedHeader :=
  unplaces_take.bind fun _ => header_unplaces.bind fun _ => unplaces_take.bind fun _ => unplaces_pure rfl

mutual

theorem statementWith_unplaces (fuel : Nat) : Unplaces Stmt.unplaced (statementWith fuel) (statementWith fuel) := by
  cases fuel with
  | zero => exact unplaces_refuse
  | succ fuel =>
    refine unplaces_take.bind fun first => ?_
    have finish : ∀ s : Stmt, Unplaces Stmt.unplaced (do expect statementEnd; return s) (do
        expect statementEnd
        return s.unplaced) :=
      fun s => unplaces_expect.bind fun _ => unplaces_pure rfl
    simp only [Token.kind_unplaced]
    split
    · exact (printing_unplaces first).bind finish
    · refine enclosedHeader_unplaces.bind fun condition => (blockWith_unplaces fuel).bind fun _ => ?_
      refine unplaces_next.bind fun k => unplaces_ite ?_ (finish (.branch _ condition _ none))
      exact unplaces_take.bind fun _ => (blockWith_unplaces fuel).bind fun _ => finish (.branch _ condition _ (some _))
    · refine enclosedHeader_unplaces.bind fun condition => (blockWith_unplaces fuel).bind fun _ => ?_
      exact finish (.loop _ condition (some _))
    · exact unplaces_take.bind fun _ => finish (.breakOut _)
    · exact (named_unplaces first).bind finish
    · exact (declaration_unplaces first).bind finish
termination_by fuel

theorem blockWith_unplaces (fuel : Nat) :
    Unplaces (fun a => (Stmt.unplacedAll a.1, a.2.unplaced)) (blockWith fuel) (blockWith fuel) := by
  cases fuel with
  | zero => exact unplaces_refuse
  | succ fuel =>
    refine unplaces_take.bind fun _ => (statementsWith_unplaces fuel rbrace).bind fun body => ?_
    exact unplaces_take.bind fun _ => unplaces_expect.bind fun _ => unplaces_pure rfl
termination_by fuel

theorem statementsWith_unplaces (fuel : Nat) (closing : Token.Kind) :
    Unplaces Stmt.unplacedAll (statementsWith fuel closing) (statementsWith fuel closing) := by
  cases fuel with
  | zero => exact unplaces_refuse
  | succ fuel =>
    refine unplaces_expect.bind fun _ => unplaces_next.bind fun k => unplaces_ite (unplaces_pure rfl) ?_
    refine (statementWith_unplaces fuel).bind fun s => unplaces_expect.bind fun _ => ?_
    exact (statementsWith_unplaces fuel closing).bind fun rest => unplaces_pure rfl
termination_by fuel

end

theorem statement_unplaces : Unplaces Stmt.unplaced statement statement := by
  intro ts
  rw [statement, stmtFuel, List.length_map]
  exact statementWith_unplaces _ ts

theorem statements_unplaces (closing : Token.Kind) :
    Unplaces Stmt.unplacedAll (statements closing) (statements closing) := by
  intro ts
  rw [statements, stmtFuel, List.length_map]
  exact statementsWith_unplaces _ closing ts

theorem parametersWith_unplaces (fuel : Nat) :
    Unplaces Stmt.unplacedAll (parametersWith fuel) (parametersWith fuel) := by
  induction fuel with
  | zero => exact unplaces_refuse
  | succ fuel ih =>
    refine typedName_unplaces.bind fun _ => unplaces_expect.bind fun _ => unplaces_next.bind fun k => ?_
    refine unplaces_ite ?_ (unplaces_pure rfl)
    exact unplaces_take.bind fun _ => ih.bind fun rest => unplaces_pure rfl

theorem parameters_unplaces : Unplaces Stmt.unplacedAll parameters parameters := by
  intro ts
  rw [parameters, List.length_map]
  exact parametersWith_unplaces _ ts

theorem definition_unplaces : Unplaces Stmt.unplaced definition definition := by
  refine unplaces_take.bind fun first => typedName_unplaces.bind fun typed => unplaces_take.bind fun _ => ?_
  refine unplaces_expect.bind fun _ => unplaces_next.bind fun k => ?_
  have finish : ∀ params : List Stmt, Unplaces Stmt.unplaced (do
      let _ ← take [rpar]
      let _ ← take [lbrace]
      let body ← statements returnWord
      let _ ← take [returnWord]
      let e ← value
      let _ ← take [semicolon]
      let last ← take [rbrace]
      return .define (first.span.join last.span) typed.1 (.text typed.2.2.text) params (some body) e) (do
      let _ ← take [rpar]
      let _ ← take [lbrace]
      let body ← statements returnWord
      let _ ← take [returnWord]
      let e ← value
      let _ ← take [semicolon]
      let last ← take [rbrace]
      return .define (first.unplaced.span.join last.span) typed.1 (.text typed.2.2.text) (Stmt.unplacedAll params)
        (some body) e) := by
    intro params
    refine unplaces_take.bind fun _ => unplaces_take.bind fun _ => (statements_unplaces returnWord).bind fun body => ?_
    refine unplaces_take.bind fun _ => value_unplaces.bind fun e => unplaces_take.bind fun _ => ?_
    exact unplaces_take.bind fun _ => unplaces_pure rfl
  exact unplaces_ite (finish []) (parameters_unplaces.bind finish)

theorem programWith_unplaces (fuel : Nat) : Unplaces Stmt.unplacedAll (programWith fuel) (programWith fuel) := by
  induction fuel with
  | zero => exact unplaces_refuse
  | succ fuel ih =>
    refine unplaces_expect.bind fun _ => unplaces_next.bind fun k => unplaces_ite (unplaces_pure rfl) ?_
    have finish : ∀ s : Stmt, Unplaces Stmt.unplacedAll (do return s :: (← programWith fuel)) (do
        return s.unplaced :: (← programWith fuel)) :=
      fun s => ih.bind fun rest => unplaces_pure rfl
    exact unplaces_next.bind fun k => unplaces_ite (definition_unplaces.bind finish) (statement_unplaces.bind finish)

theorem program_unplaced (ts : List Token) :
    program (ts.map Token.unplaced) = ((program ts).map Stmt.unplacedAll).mapError Refusal.unplaced := by
  rw [program, program, List.length_map, programWith_unplaces]
  cases programWith (ts.length + 1) ts <;> rfl

end Parse

theorem Token.extent_unplaced (ts : List Token) : Token.extent (ts.map Token.unplaced) = .zero := by
  rw [extent, List.head?_map, List.getLast?_map]
  cases ts.head? <;> cases ts.getLast? <;> rfl

/-- The tree of tokens without their places is the tree of the tokens without its places, and what is refused is refused for
the same reason. -/
theorem Program.ofScan_unplaced (s : Token.Scan) :
    ofScan s.unplaced = ((ofScan s).map unplaced).mapError Failure.unplaced := by
  have hlast : ((s.tokens.map Token.unplaced).getLast?.map Token.span).getD .zero = .zero := by
    rw [List.getLast?_map]
    cases s.tokens.getLast? <;> rfl
  have hforeign : (s.tokens.map Token.unplaced).find? Token.isForeignNumber =
      (s.tokens.find? Token.isForeignNumber).map Token.unplaced := by
    rw [List.find?_map]
    rfl
  simp only [ofScan, Token.Scan.unplaced, Parse.program_unplaced, hlast, hforeign, Token.extent_unplaced]
  cases hp : Parse.program s.tokens with
  | error r =>
    obtain ⟨found, expected⟩ := r
    cases found with
    | some t => exact congrArg Except.error (Problem.unplaced_located ..).symm
    | none =>
      cases s.error with
      | some e => rfl
      | none => exact congrArg Except.error (Problem.unplaced_located ..).symm
  | ok statements =>
    cases s.error with
    | some e => rfl
    | none =>
      cases s.tokens.find? Token.isForeignNumber with
      | some t => exact congrArg Except.error (Problem.unplaced_located ..).symm
      | none => rfl

end CheckedScript
