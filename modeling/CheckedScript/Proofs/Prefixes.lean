import CheckedScript.Proofs.Lookahead

/-! Every parser looks one token ahead and no further, and that is enough: it refuses the first token with which its tokens
start no part of its kind. The fuel is counted against the tokens that are left: in a call that takes no token before, the
callee gets one count less, and its bound is by one looser. -/

namespace CheckedScript.Parse

open Grammar
open Token.Kind
open scoped Computability

/-- The part that stands at a place. -/
def Place.part : Place → ExprPart
  | alone => .value
  | side => .side

theorem Place.part_language (place : Place) :
    place.part.language = ExprPart.cond.language + ExprPart.expr.language := by
  rw [ExprPart.language_eq]
  cases place <;> rfl

theorem exists_mem_arguments : ∃ x, x ∈ one [lpar] * (ExprPart.args.language * one [rpar]) := by
  obtain ⟨x, hx⟩ := ExprPart.call.exists_mem
  rw [ExprPart.language_eq] at hx
  obtain ⟨_, -, z, hz, -⟩ := hx
  exact ⟨z, hz⟩

mutual

theorem operandWith_recognizes (fuel n : Nat) (place : Place) (hn : 8 * n ≤ fuel + 3) :
    Recognizes n (operandWith fuel place) place.part.language place.ends := by
  cases fuel with
  | zero => exact .exhausted (by omega) place.part.exists_mem
  | succ fuel =>
    have hcond := (conditionWith_recognizes fuel n (by omega)).of_subset place.ends place.ends_conditionEnd
    have hsum := (sumWith_recognizes fuel n (by omega)).of_subset place.ends place.ends_conditionEnd
    rw [place.part_language]
    apply Recognizes.expect_bind _ (.add (.expr .cond) (.expr .expr))
    apply Recognizes.next_ite conditionFirst factorFirst _ _ (.expr .cond) (.expr .expr)
    · exact hcond.bind_one fun e => .expect_bind (.of_pure e) (.nil fun _ hk => hk)
    · exact hsum.bind_one fun e => .expect_bind (.of_pure e) (.nil fun _ hk => List.mem_append_right _ hk)
termination_by fuel

theorem conditionWith_recognizes (fuel n : Nat) (hn : 8 * n ≤ fuel + 7) :
    Recognizes n (conditionWith fuel) ExprPart.cond.language conditionEnd := by
  cases fuel with
  | zero => exact .exhausted (by omega) ExprPart.cond.exists_mem
  | succ fuel =>
    rw [ExprPart.language_eq]
    refine .take_choice fun first hfirst => ?_
    have hend {n : Nat} (e : Expr) : Recognizes n (expect conditionEnd >>= fun _ => pure e) 1 conditionEnd :=
      .expect_bind (.of_pure e) .nil
    dsimp only
    split
    · rename_i hk
      have hcond := conditionWith_recognizes fuel (n - 1) (by omega)
      have hatom := (atomWith_recognizes fuel (n - 1) (by omega)).of_subset conditionEnd
      rw [hk, condRest, ExprPart.language_eq]
      apply Recognizes.expect_bind _ (.add (.expr .cond) (.expr .atom))
      apply Recognizes.next_ite conditionFirst atomFirst _ _ (.expr .cond) (.expr .atom)
      · exact hcond.bind_one fun e => hend _
      · exact hatom.bind_one fun e => hend _
    · rename_i hk
      have hlpar : first.kind = lpar := by simpa [conditionFirst, hk] using hfirst
      rw [hlpar]
      apply (operandWith_recognizes fuel (n - 1) .side (by omega)).bind _ .one_mul
      intro left
      refine .take_bind fun op => ?_
      apply (operandWith_recognizes fuel (n - 1 - 1) .side (by omega)).bind _ .one
      intro right
      exact .take_end fun last => hend _
termination_by fuel

theorem sumWith_recognizes (fuel n : Nat) (hn : 8 * n ≤ fuel + 4) :
    Recognizes n (sumWith fuel) ExprPart.expr.language conditionEnd := by
  cases fuel with
  | zero => exact .exhausted (by omega) ExprPart.expr.exists_mem
  | succ fuel =>
    rw [ExprPart.language_eq]
    apply (productWith_recognizes fuel n (by omega)).bind _ .repeated
    intro e
    exact sumRestWith_recognizes fuel n e (by omega)
termination_by fuel

theorem sumRestWith_recognizes (fuel n : Nat) (left : Expr) (hn : 8 * n ≤ fuel + 7) :
    Recognizes n (sumRestWith fuel left) (one addOp * ExprPart.term.language)∗ conditionEnd := by
  cases fuel with
  | zero => exact .exhausted (by omega) ⟨[], Language.nil_mem_kstar _⟩
  | succ fuel =>
    rw [repeated_eq]
    apply Recognizes.next_ite addOps conditionEnd _ (.of_pure left) .one_mul .nil
    refine .take_bind fun op => ?_
    apply (productWith_recognizes fuel (n - 1) (by omega)).bind _ .repeated
    intro e
    exact sumRestWith_recognizes fuel (n - 1) _ (by omega)
termination_by fuel

theorem productWith_recognizes (fuel n : Nat) (hn : 8 * n ≤ fuel + 5) :
    Recognizes n (productWith fuel) ExprPart.term.language (conditionEnd ++ addOps) := by
  cases fuel with
  | zero => exact .exhausted (by omega) ExprPart.term.exists_mem
  | succ fuel =>
    rw [ExprPart.language_eq]
    apply (factorWith_recognizes fuel n (by omega)).bind _ .repeated
    intro e
    exact productRestWith_recognizes fuel n e (by omega)
termination_by fuel

theorem productRestWith_recognizes (fuel n : Nat) (left : Expr) (hn : 8 * n ≤ fuel + 7) :
    Recognizes n (productRestWith fuel left) (one mulOp * ExprPart.factor.language)∗ (conditionEnd ++ addOps) := by
  cases fuel with
  | zero => exact .exhausted (by omega) ⟨[], Language.nil_mem_kstar _⟩
  | succ fuel =>
    rw [repeated_eq]
    apply Recognizes.next_ite mulOps (conditionEnd ++ addOps) _ (.of_pure left) .one_mul .nil
    refine .take_bind fun op => ?_
    apply (factorWith_recognizes fuel (n - 1) (by omega)).bind _ .repeated
    intro e
    exact productRestWith_recognizes fuel (n - 1) _ (by omega)
termination_by fuel

theorem factorWith_recognizes (fuel n : Nat) (hn : 8 * n ≤ fuel + 6) :
    Recognizes n (factorWith fuel) ExprPart.factor.language atomEnd := by
  cases fuel with
  | zero => exact .exhausted (by omega) ExprPart.factor.exists_mem
  | succ fuel =>
    rw [ExprPart.language_eq]
    apply Recognizes.expect_bind _ (.add .one_mul (.expr .atom))
    apply Recognizes.next_ite [minus] atomFirst _ (atomWith_recognizes fuel n (by omega)) .one_mul (.expr .atom)
    exact .take_bind fun first => (factorWith_recognizes fuel (n - 1) (by omega)).bind_one fun e => .of_pure _
termination_by fuel

theorem atomWith_recognizes (fuel n : Nat) (hn : 8 * n ≤ fuel + 7) :
    Recognizes n (atomWith fuel) ExprPart.atom.language atomEnd := by
  cases fuel with
  | zero => exact .exhausted (by omega) ExprPart.atom.exists_mem
  | succ fuel =>
    rw [ExprPart.language_eq]
    refine .take_choice fun t ht => ?_
    dsimp only
    split
    · rename_i hname
      rw [hname, atomRest, add_comm (1 : Language Token.Kind)]
      apply Recognizes.expect_bind _ (.add .one_mul .nil)
      apply Recognizes.next_ite [lpar] atomEnd _ (.of_pure _) .one_mul .nil
      exact (argumentsWith_recognizes fuel (n - 1) (by omega)).bind_one fun a => .of_pure _
    · rename_i hname
      rw [atomRest_of_ne hname]
      apply Recognizes.expect_bind _ .nil
      split <;> exact .of_pure _
termination_by fuel

theorem argumentsWith_recognizes (fuel n : Nat) (hn : 8 * n ≤ fuel + 7) :
    Recognizes n (argumentsWith fuel) (one [lpar] * (ExprPart.args.language * one [rpar])) atomEnd := by
  cases fuel with
  | zero => exact .exhausted (by omega) exists_mem_arguments
  | succ fuel =>
    have hend {n : Nat} (args : List Expr) : Recognizes n (do
        let last ← take [rpar]
        expect atomEnd
        return (args, last)) (one [rpar]) atomEnd :=
      .take_end fun last => .expect_bind (.of_pure _) .nil
    refine .take_bind fun l => ?_
    rw [ExprPart.language_eq, ExprPart.shape, add_mul, one_mul]
    apply Recognizes.expect_bind _ (.add .one (.expr_mul .someArgs))
    apply Recognizes.next_ite [rpar] valueFirst (hend []) _ .one (.expr_mul .someArgs)
    exact (argumentListWith_recognizes fuel (n - 1) (by omega)).bind hend .one
termination_by fuel

theorem argumentListWith_recognizes (fuel n : Nat) (hn : 8 * n ≤ fuel + 2) :
    Recognizes n (argumentListWith fuel) ExprPart.someArgs.language [rpar] := by
  cases fuel with
  | zero => exact .exhausted (by omega) ExprPart.someArgs.exists_mem
  | succ fuel =>
    rw [ExprPart.language_eq, ExprPart.shape, add_comm (1 : Language Token.Kind)]
    apply (operandWith_recognizes fuel n .alone (by omega)).bind _ (.add .one_mul .nil)
    intro e
    apply Recognizes.expect_bind _ (.add .one_mul .nil)
    apply Recognizes.next_ite [comma] [rpar] _ (.of_pure _) .one_mul .nil
    exact .take_bind fun c => (argumentListWith_recognizes fuel (n - 1) (by omega)).bind_one fun es => .of_pure _
termination_by fuel

end

section Statements

variable {n : Nat} {follow : List Token.Kind}

theorem value_recognizes : Recognizes n value ExprPart.value.language valueEnd :=
  .of_length (p := fun ts => operandWith (exprFuel ts) .alone) fun ts =>
    operandWith_recognizes (exprFuel ts) (ts.length + 1) .alone (by unfold exprFuel; omega)

theorem side_recognizes : Recognizes n side ExprPart.side.language sideEnd :=
  .of_length (p := fun ts => operandWith (exprFuel ts) .side) fun ts =>
    operandWith_recognizes (exprFuel ts) (ts.length + 1) .side (by unfold exprFuel; omega)

theorem arguments_recognizes : Recognizes n arguments (one [lpar] * (ExprPart.args.language * one [rpar])) atomEnd :=
  .of_length (p := fun ts => argumentsWith (exprFuel ts)) fun ts =>
    argumentsWith_recognizes (exprFuel ts) (ts.length + 1) (by unfold exprFuel; omega)

theorem header_recognizes : Recognizes n header ExprPart.header.language [rpar] := by
  rw [ExprPart.language_eq]
  apply side_recognizes.bind _ (.add .nil .one_mul)
  intro left
  apply Recognizes.expect_bind _ (.add .nil .one_mul)
  apply Recognizes.next_ite [rpar] conditionOps (.of_pure left) _ .nil .one_mul
  refine .take_bind fun op => ?_
  exact (side_recognizes.of_subset [rpar]).bind_one fun right => .expect_bind (.of_pure _) .nil

theorem enclosedHeader_recognizes (follow : List Token.Kind) : Recognizes n enclosedHeader enclosed follow := by
  refine .take_bind fun l => ?_
  apply header_recognizes.bind _ .one
  intro condition
  exact .take_end fun r => .of_pure _

theorem declaration_recognizes (first : Token) : Recognizes n (declaration first) declarationRest follow := by
  refine .take_bind fun target => ?_
  have hend {n : Nat} (init : Option Expr) : Recognizes n (do
      let last ← take [semicolon]
      return Stmt.declare (first.span.join last.span) (Ty.ofKind first.text) (.text target.text) init)
      (one [semicolon]) follow :=
    .take_end fun last => .of_pure _
  rw [add_mul, one_mul, mul_assoc, add_comm (one [semicolon])]
  apply Recognizes.expect_bind _ (.add .one_mul .one)
  apply Recognizes.next_ite [equal] [semicolon] _ (hend none) .one_mul .one
  exact .take_bind fun o => value_recognizes.bind (fun e => hend (some e)) .one

theorem named_recognizes (first : Token) : Recognizes n (named first) (innerRest name) follow := by
  rw [innerRest, mul_assoc]
  apply Recognizes.expect_bind _ (.add .one_mul (.add .one_mul .one_mul))
  dsimp only
  -- the second branching looks at the kind that the first one has looked at
  rw [next_ite_next]
  apply Recognizes.next_ite [lpar] (stepOps ++ assignOps) _ _ .one_mul (.add .one_mul .one_mul)
  · rw [← mul_assoc]
    exact arguments_recognizes.bind (fun a => .take_end fun last => .of_pure _) .one
  · apply Recognizes.next_ite stepOps assignOps _ _ .one_mul .one_mul
    · exact .take_bind fun op => .take_end fun last => .of_pure _
    · exact .take_bind fun op => value_recognizes.bind (fun e => .take_end fun last => .of_pure _) .one

theorem printing_recognizes (first : Token) : Recognizes n (printing first) (innerRest print) follow := by
  refine .take_bind fun l => ?_
  have hend {n : Nat} (operand : Option Expr) : Recognizes n (do
      let _ ← take [rpar]
      let last ← take [semicolon]
      return Stmt.print (first.span.join last.span) operand) (one [rpar] * one [semicolon]) follow :=
    .take_bind fun r => .take_end fun last => .of_pure _
  rw [add_mul, one_mul]
  apply Recognizes.expect_bind _ (.add .one_mul (.expr_mul .value))
  apply Recognizes.next_ite [rpar] valueFirst (hend none) _ .one_mul (.expr_mul .value)
  exact value_recognizes.bind (fun e => hend (some e)) .one_mul

end Statements

mutual

theorem statementWith_recognizes (fuel n : Nat) (hn : 4 * n ≤ fuel + 3) :
    Recognizes n (statementWith fuel) StmtPart.inner.language statementEnd := by
  cases fuel with
  | zero => exact .exhausted (by omega) StmtPart.inner.exists_mem
  | succ fuel =>
    rw [StmtPart.language_eq]
    refine .take_choice fun first hfirst => ?_
    have hend {n : Nat} (s : Stmt) : Recognizes n (expect statementEnd >>= fun _ => pure s) 1 statementEnd :=
      .expect_bind (.of_pure s) .nil
    have hblock {n : Nat} (hn : 4 * n ≤ fuel + 3) : Recognizes n (blockWith fuel) StmtPart.block.language statementEnd :=
      (blockWith_recognizes fuel n hn).of_subset statementEnd
    dsimp only
    split
    · rename_i hk
      rw [hk]
      exact (printing_recognizes first).bind_one hend
    · rename_i hk
      rw [hk, innerRest, add_comm (1 : Language Token.Kind)]
      apply (enclosedHeader_recognizes [lbrace]).bind _ (.stmt_mul .block)
      intro condition
      apply (blockWith_recognizes fuel (n - 1) (by omega)).bind _ (.add .one_mul .nil)
      intro block
      apply Recognizes.next_ite [elseWord] statementEnd _ (hend _) .one_mul .nil
      exact .take_bind fun o => (hblock (by omega)).bind_one fun b => hend _
    · rename_i hk
      rw [hk]
      apply (enclosedHeader_recognizes [lbrace]).bind _ (.stmt .block)
      intro condition
      exact (hblock (by omega)).bind_one fun b => hend _
    · rename_i hk
      rw [hk]
      exact .take_end fun last => hend _
    · rename_i hk
      rw [hk]
      exact (named_recognizes first).bind_one hend
    · have htype : first.kind ∈ typeName := by
        simp_all [statementFirst, typeName, typeWords]
      rw [innerRest_type _ htype]
      exact (declaration_recognizes first).bind_one hend
termination_by fuel

theorem blockWith_recognizes (fuel n : Nat) (hn : 4 * n ≤ fuel + 3) :
    Recognizes n (blockWith fuel) StmtPart.block.language blockEnd := by
  cases fuel with
  | zero => exact .exhausted (by omega) StmtPart.block.exists_mem
  | succ fuel =>
    rw [StmtPart.language_eq]
    refine .take_bind fun l => ?_
    apply (statementsWith_recognizes fuel (n - 1) rbrace (by decide) (by omega)).bind _ .one
    intro body
    exact .take_end fun last => .expect_bind (.of_pure _) .nil
termination_by fuel

theorem statementsWith_recognizes (fuel n : Nat) (closing : Token.Kind) (hclosing : closing ∈ [rbrace, returnWord])
    (hn : 4 * n ≤ fuel + 2) : Recognizes n (statementsWith fuel closing) StmtPart.inners.language [closing] := by
  cases fuel with
  | zero => exact .exhausted (by omega) StmtPart.inners.exists_mem
  | succ fuel =>
    have hclosed : closing ∈ blockNext := mem_of_all hclosing (by decide)
    have hopen : ∀ k ∈ statementFirst, k ≠ closing := by
      simp only [List.mem_cons, List.not_mem_nil, or_false] at hclosing
      rcases hclosing with rfl | rfl <;> decide
    have hrest : Leads StmtPart.inners.language [closing] blockNext := by
      rw [StmtPart.language_eq]
      exact .add (.nil (by simpa using hclosed)) (.stmt_mul .inner)
    rw [StmtPart.language_eq]
    apply Recognizes.expect_bind _ (.add (.nil (by simp)) (.stmt_mul .inner fun _ hk => List.mem_cons_of_mem _ hk))
    apply Recognizes.next_ite [closing] statementFirst (.of_pure []) _ (.nil fun _ hk => hk) (.stmt_mul .inner) (by simp) hopen
    apply (statementWith_recognizes fuel n (by omega)).bind_shorter (StmtPart.nil_notMem .inner (by decide)) _ hrest.of_subset
    intro s
    apply Recognizes.expect_bind _ hrest
    exact (statementsWith_recognizes fuel (n - 1) closing hclosing (by omega)).bind_one fun rest => .of_pure _
termination_by fuel

end

section Definitions

variable {n : Nat} {follow : List Token.Kind}

theorem statement_recognizes : Recognizes n statement StmtPart.inner.language statementEnd :=
  .of_length (p := fun ts => statementWith (stmtFuel ts)) fun ts =>
    statementWith_recognizes (stmtFuel ts) (ts.length + 1) (by unfold stmtFuel; omega)

theorem statements_recognizes {closing : Token.Kind} (hclosing : closing ∈ [rbrace, returnWord]) :
    Recognizes n (statements closing) StmtPart.inners.language [closing] :=
  .of_length (p := fun ts => statementsWith (stmtFuel ts) closing) fun ts =>
    statementsWith_recognizes (stmtFuel ts) (ts.length + 1) closing hclosing (by unfold stmtFuel; omega)

theorem typedName_recognizes (follow : List Token.Kind) : Recognizes n typedName StmtPart.param.language follow := by
  rw [StmtPart.language_eq]
  exact .take_bind fun first => .take_end fun last => .of_pure _

theorem parametersWith_recognizes (fuel : Nat) (hn : n ≤ fuel) :
    Recognizes n (parametersWith fuel) StmtPart.someParams.language [rpar] := by
  induction fuel generalizing n with
  | zero => exact .exhausted (by omega) StmtPart.someParams.exists_mem
  | succ fuel ih =>
    rw [StmtPart.language_eq, StmtPart.shape, add_comm (1 : Language Token.Kind)]
    apply (typedName_recognizes [comma, rpar]).bind _ (.add .one_mul .nil)
    intro p
    apply Recognizes.expect_bind _ (.add .one_mul .nil)
    apply Recognizes.next_ite [comma] [rpar] _ (.of_pure _) .one_mul .nil
    exact .take_bind fun c => (ih (by omega)).bind_one fun ps => .of_pure _

theorem parameters_recognizes : Recognizes n parameters StmtPart.someParams.language [rpar] :=
  .of_length (p := fun ts => parametersWith (ts.length + 1)) fun ts => parametersWith_recognizes (ts.length + 1) le_rfl

theorem definition_recognizes : Recognizes n definition StmtPart.define.language follow := by
  rw [StmtPart.language_eq]
  refine .take_bind fun first => ?_
  apply (typedName_recognizes [lpar]).bind _ .one_mul
  intro result
  refine .take_bind fun l => ?_
  have hend {n : Nat} (ps : List Stmt) : Recognizes n (do
      let _ ← take [rpar]
      let _ ← take [lbrace]
      let body ← statements returnWord
      let _ ← take [returnWord]
      let e ← value
      let _ ← take [semicolon]
      let last ← take [rbrace]
      return Stmt.define (first.span.join last.span) result.1 (.text result.2.2.text) ps (some body) e)
      (one [rpar] * (one [lbrace] * (StmtPart.inners.language * (one [returnWord] * (ExprPart.value.language *
        (one [semicolon] * one [rbrace])))))) follow := by
    refine .take_bind fun r => ?_
    refine .take_bind fun b => ?_
    apply (statements_recognizes (by decide)).bind _ .one_mul
    intro body
    refine .take_bind fun o => ?_
    exact value_recognizes.bind (fun e => .take_bind fun s => .take_end fun last => .of_pure _) .one_mul
  rw [StmtPart.language_eq .params, StmtPart.shape, add_mul, one_mul]
  apply Recognizes.expect_bind _ (.add .one_mul (.stmt_mul .someParams))
  apply Recognizes.next_ite [rpar] typeWords (hend []) _ .one_mul (.stmt_mul .someParams)
  exact parameters_recognizes.bind hend .one_mul

theorem programWith_recognizes (fuel : Nat) (hn : n ≤ fuel) :
    Recognizes n (programWith fuel) StmtPart.outers.language [ending] := by
  induction fuel generalizing n with
  | zero => exact .exhausted (by omega) StmtPart.outers.exists_mem
  | succ fuel ih =>
    have hrest : Leads StmtPart.outers.language [ending] programNext := by
      rw [StmtPart.language_eq]
      exact .add .nil (.stmt_mul .outer)
    have htail (s : Stmt) : Recognizes (n - 1) (do
        let rest ← programWith fuel
        return s :: rest) StmtPart.outers.language [ending] := (ih (by omega)).bind_one fun rest => .of_pure _
    rw [StmtPart.language_eq]
    apply Recognizes.expect_bind _ (.add .nil (.stmt_mul .outer))
    apply Recognizes.next_ite [ending] (define :: statementFirst) (.of_pure []) _ .nil (.stmt_mul .outer)
    rw [StmtPart.language_eq .outer, StmtPart.shape, add_mul]
    apply Recognizes.next_ite [define] statementFirst _ _ (.stmt_mul .define) (.stmt_mul .inner)
    · exact definition_recognizes.bind_shorter (StmtPart.nil_notMem .define (by decide)) htail hrest
    · exact statement_recognizes.bind_shorter (StmtPart.nil_notMem .inner (by decide)) htail hrest.of_subset

end Definitions

end CheckedScript.Parse
