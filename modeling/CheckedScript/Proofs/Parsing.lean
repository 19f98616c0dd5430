import CheckedScript.Parse
import CheckedScript.Proofs.Plain
import CheckedScript.Proofs.Tokens

/-! What is read from a source is plain: each parser gives a plain tree whenever it gives one. An operator or a type comes from
the text of a token, so this needs that the tokens have the texts of their kinds. -/

namespace CheckedScript

namespace Parse

open Token (Faithful)
open Token.Kind

variable {α β : Type}

/-- From tokens that have the texts of their kinds the parser gives, if anything, something with `P`. -/
def Gives (p : Parser α) (P : α → Prop) : Prop :=
  ∀ ts a rest, (∀ t ∈ ts, Faithful t) → p ts = .ok (a, rest) → P a ∧ ∀ t ∈ rest, Faithful t

section Rules

variable {p : Parser α} {k : α → Parser β} {P Q : α → Prop} {R : β → Prop}

theorem Gives.imp (h : Gives p P) (hpq : ∀ a, P a → Q a) : Gives p Q := by
  intro ts a rest ht ha
  exact ⟨hpq a (h ts a rest ht ha).1, (h ts a rest ht ha).2⟩

theorem Gives.bind (h : Gives p P) (hk : ∀ a, P a → Gives (k a) R) : Gives (p >>= k) R := by
  intro ts b rest ht hb
  simp only [Bind.bind, StateT.bind] at hb
  cases hp : p ts with
  | error e => simp [hp, Except.bind] at hb
  | ok r =>
    obtain ⟨a, ts'⟩ := r
    simp only [hp, Except.bind] at hb
    obtain ⟨ha, ht'⟩ := h ts a ts' ht hp
    exact hk a ha ts' b rest ht' hb

theorem gives_pure {a : α} (h : P a) : Gives (pure a) P := by
  intro ts b rest ht hb
  cases hb
  exact ⟨h, ht⟩

theorem gives_refuse {kinds : List Token.Kind} : Gives (refuse kinds) P := by
  intro ts a rest _ ha
  cases ha

theorem gives_next : Gives next fun _ => True := by
  intro ts k rest ht hk
  unfold next at hk
  split at hk <;> cases hk
  · exact ⟨trivial, ht⟩
  · exact ⟨trivial, ht⟩

theorem gives_expect {kinds : List Token.Kind} : Gives (expect kinds) fun _ => True := by
  refine gives_next.bind fun k _ => ?_
  split
  · exact gives_pure trivial
  · exact gives_refuse

theorem gives_take {kinds : List Token.Kind} : Gives (take kinds) fun t => t.kind ∈ kinds ∧ Faithful t := by
  intro ts t rest ht hk
  unfold take at hk
  split at hk
  · split at hk
    · rename_i hkind
      cases hk
      exact ⟨⟨hkind, ht _ (.head _)⟩, fun t' ht' => ht t' (.tail _ ht')⟩
    · cases hk
  · cases hk

end Rules

section Operators

variable {t : Token}

theorem fits_condition (hk : t.kind ∈ conditionOps) (ht : Faithful t) : (BinaryOp.ofText t.text).Fits .condition := by
  simp only [conditionOps, List.mem_cons, List.not_mem_nil, or_false] at hk
  rcases hk with h | h | h | h | h | h | h | h <;> rw [ht _ (by rw [h]; rfl)] <;> trivial

theorem fits_sum (hk : t.kind ∈ addOps) (ht : Faithful t) : (BinaryOp.ofText t.text).Fits .expression := by
  simp only [addOps, List.mem_cons, List.not_mem_nil, or_false] at hk
  rcases hk with h | h <;> rw [ht _ (by rw [h]; rfl)] <;> trivial

theorem fits_product (hk : t.kind ∈ mulOps) (ht : Faithful t) : (BinaryOp.ofText t.text).Fits .expression := by
  simp only [mulOps, List.mem_cons, List.not_mem_nil, or_false] at hk
  rcases hk with h | h | h <;> rw [ht _ (by rw [h]; rfl)] <;> trivial

theorem fits_step (hk : t.kind ∈ stepOps) (ht : Faithful t) : (UnaryOp.ofText t.text).Fits .expression := by
  simp only [stepOps, List.mem_cons, List.not_mem_nil, or_false] at hk
  rcases hk with h | h <;> rw [ht _ (by rw [h]; rfl)] <;> trivial

theorem known_assign (hk : t.kind ∈ assignOps) (ht : Faithful t) : (AssignOp.ofText t.text).Known := by
  simp only [assignOps, List.mem_cons, List.not_mem_nil, or_false] at hk
  rcases hk with h | h | h | h | h | h <;> rw [ht _ (by rw [h]; rfl)] <;> trivial

theorem simple_type (hk : t.kind ∈ typeWords) (ht : Faithful t) : (Ty.ofKind t.text).Simple := by
  simp only [typeWords, List.mem_cons, List.not_mem_nil, or_false] at hk
  rcases hk with h | h | h <;> rw [ht _ (by rw [h]; rfl)] <;> trivial

end Operators

theorem negate_plain {span : Span} {e : Expr} (h : e.Plain) : (negate span e).Plain := by
  unfold negate
  split
  · rfl
  · exact ⟨trivial, h⟩

mutual

theorem operandWith_plain (fuel : Nat) (place : Place) : Gives (operandWith fuel place) Expr.Plain := by
  cases fuel with
  | zero => exact gives_refuse
  | succ fuel =>
    refine gives_expect.bind fun _ _ => gives_next.bind fun k _ => ?_
    split
    · exact (conditionWith_plain fuel).bind fun e he => gives_expect.bind fun _ _ => gives_pure he
    · exact (sumWith_plain fuel).bind fun e he => gives_expect.bind fun _ _ => gives_pure he
termination_by fuel

theorem conditionWith_plain (fuel : Nat) : Gives (conditionWith fuel) Expr.Plain := by
  cases fuel with
  | zero => exact gives_refuse
  | succ fuel =>
    refine gives_take.bind fun first _ => ?_
    dsimp only
    split
    · refine gives_expect.bind fun _ _ => gives_next.bind fun k _ => ?_
      have finish : ∀ e : Expr, e.Plain → Gives (do
          expect conditionEnd
          return .unary .condition (first.span.join e.span) .not e) Expr.Plain :=
        fun e he => gives_expect.bind fun _ _ => gives_pure ⟨trivial, he⟩
      split
      · exact (conditionWith_plain fuel).bind finish
      · exact (atomWith_plain fuel).bind finish
    · refine (operandWith_plain fuel .side).bind fun left hl => gives_take.bind fun op hop => ?_
      refine (operandWith_plain fuel .side).bind fun right hr => gives_take.bind fun last _ => ?_
      exact gives_expect.bind fun _ _ => gives_pure ⟨fits_condition hop.1 hop.2, hl, hr⟩
termination_by fuel

theorem sumWith_plain (fuel : Nat) : Gives (sumWith fuel) Expr.Plain := by
  cases fuel with
  | zero => exact gives_refuse
  | succ fuel => exact (productWith_plain fuel).bind fun e he => sumRestWith_plain fuel e he
termination_by fuel

theorem sumRestWith_plain (fuel : Nat) (left : Expr) (hl : left.Plain) : Gives (sumRestWith fuel left) Expr.Plain := by
  cases fuel with
  | zero => exact gives_refuse
  | succ fuel =>
    refine gives_next.bind fun k _ => ?_
    split
    · refine gives_take.bind fun op hop => (productWith_plain fuel).bind fun right hr => ?_
      exact sumRestWith_plain fuel _ ⟨fits_sum hop.1 hop.2, hl, hr⟩
    · exact gives_pure hl
termination_by fuel

theorem productWith_plain (fuel : Nat) : Gives (productWith fuel) Expr.Plain := by
  cases fuel with
  | zero => exact gives_refuse
  | succ fuel => exact (factorWith_plain fuel).bind fun e he => productRestWith_plain fuel e he
termination_by fuel

theorem productRestWith_plain (fuel : Nat) (left : Expr) (hl : left.Plain) :
    Gives (productRestWith fuel left) Expr.Plain := by
  cases fuel with
  | zero => exact gives_refuse
  | succ fuel =>
    refine gives_next.bind fun k _ => ?_
    split
    · refine gives_take.bind fun op hop => (factorWith_plain fuel).bind fun right hr => ?_
      exact productRestWith_plain fuel _ ⟨fits_product hop.1 hop.2, hl, hr⟩
    · exact gives_pure hl
termination_by fuel

theorem factorWith_plain (fuel : Nat) : Gives (factorWith fuel) Expr.Plain := by
  cases fuel with
  | zero => exact gives_refuse
  | succ fuel =>
    refine gives_expect.bind fun _ _ => gives_next.bind fun k _ => ?_
    split
    · exact gives_take.bind fun first _ => (factorWith_plain fuel).bind fun e he => gives_pure (negate_plain he)
    · exact atomWith_plain fuel
termination_by fuel

theorem atomWith_plain (fuel : Nat) : Gives (atomWith fuel) Expr.Plain := by
  cases fuel with
  | zero => exact gives_refuse
  | succ fuel =>
    refine gives_take.bind fun t _ => ?_
    dsimp only
    split
    · refine gives_expect.bind fun _ _ => gives_next.bind fun k _ => ?_
      split
      · exact (argumentsWith_plain fuel).bind fun _ ha => gives_pure ha
      · exact gives_pure trivial
    · refine gives_expect.bind fun _ _ => ?_
      split <;> exact gives_pure rfl
termination_by fuel

theorem argumentsWith_plain (fuel : Nat) : Gives (argumentsWith fuel) fun a => Expr.PlainAll a.1 := by
  cases fuel with
  | zero => exact gives_refuse
  | succ fuel =>
    refine gives_take.bind fun _ _ => gives_expect.bind fun _ _ => gives_next.bind fun k _ => ?_
    have finish : ∀ args : List Expr, Expr.PlainAll args → Gives (do
        let last ← take [rpar]
        expect atomEnd
        return (args, last)) fun a => Expr.PlainAll a.1 :=
      fun args ha => gives_take.bind fun _ _ => gives_expect.bind fun _ _ => gives_pure ha
    dsimp only
    split
    · exact finish [] trivial
    · exact (argumentListWith_plain fuel).bind finish
termination_by fuel

theorem argumentListWith_plain (fuel : Nat) : Gives (argumentListWith fuel) Expr.PlainAll := by
  cases fuel with
  | zero => exact gives_refuse
  | succ fuel =>
    refine (operandWith_plain fuel .alone).bind fun e he => gives_expect.bind fun _ _ => gives_next.bind fun k _ => ?_
    split
    · exact gives_take.bind fun _ _ => (argumentListWith_plain fuel).bind fun rest hr => gives_pure ⟨he, hr⟩
    · exact gives_pure ⟨he, trivial⟩
termination_by fuel

end

theorem value_plain : Gives value Expr.Plain := fun ts => operandWith_plain (exprFuel ts) .alone ts

theorem side_plain : Gives side Expr.Plain := fun ts => operandWith_plain (exprFuel ts) .side ts

theorem arguments_plain : Gives arguments fun a => Expr.PlainAll a.1 := fun ts => argumentsWith_plain (exprFuel ts) ts

theorem header_plain : Gives header Expr.Plain := by
  refine side_plain.bind fun left hl => gives_expect.bind fun _ _ => gives_next.bind fun k _ => ?_
  split
  · exact gives_pure hl
  · refine gives_take.bind fun op hop => side_plain.bind fun right hr => gives_expect.bind fun _ _ => ?_
    exact gives_pure ⟨fits_condition hop.1 hop.2, hl, hr⟩

theorem enclosedHeader_plain : Gives enclosedHeader Expr.Plain :=
  gives_take.bind fun _ _ => header_plain.bind fun _ he => gives_take.bind fun _ _ => gives_pure he

theorem declaration_plain {first : Token} (hk : first.kind ∈ typeWords) (hf : Faithful first) :
    Gives (declaration first) Stmt.Plain := by
  refine gives_take.bind fun target _ => gives_expect.bind fun _ _ => gives_next.bind fun k _ => ?_
  have finish : ∀ init, Expr.PlainOption init → Gives (do
      let last ← take [semicolon]
      return Stmt.declare (first.span.join last.span) (Ty.ofKind first.text) (.text target.text) init) Stmt.Plain :=
    fun init hi => gives_take.bind fun _ _ => gives_pure ⟨simple_type hk hf, trivial, hi⟩
  dsimp only
  split
  · exact gives_take.bind fun _ _ => value_plain.bind fun e he => finish (some e) he
  · exact finish none trivial

theorem named_plain (first : Token) : Gives (named first) Stmt.Plain := by
  refine gives_expect.bind fun _ _ => gives_next.bind fun k _ => ?_
  dsimp only
  split
  · exact arguments_plain.bind fun _ ha => gives_take.bind fun _ _ => gives_pure ha
  · split
    · refine gives_take.bind fun op hop => gives_take.bind fun _ _ => ?_
      exact gives_pure ⟨trivial, trivial, fits_step hop.1 hop.2, trivial⟩
    · refine gives_take.bind fun op hop => value_plain.bind fun e he => gives_take.bind fun _ _ => ?_
      exact gives_pure ⟨trivial, known_assign hop.1 hop.2, he⟩

theorem printing_plain (first : Token) : Gives (printing first) Stmt.Plain := by
  refine gives_take.bind fun _ _ => gives_expect.bind fun _ _ => gives_next.bind fun k _ => ?_
  have finish : ∀ operand, Expr.PlainOption operand → Gives (do
      let _ ← take [rpar]
      let last ← take [semicolon]
      return Stmt.print (first.span.join last.span) operand) Stmt.Plain :=
    fun operand ho => gives_take.bind fun _ _ => gives_take.bind fun _ _ => gives_pure ho
  dsimp only
  split
  · exact finish none trivial
  · exact value_plain.bind fun e he => finish (some e) he

mutual

theorem statementWith_plain (fuel : Nat) : Gives (statementWith fuel) Stmt.Plain := by
  cases fuel with
  | zero => exact gives_refuse
  | succ fuel =>
    refine gives_take.bind fun first ⟨hk, hf⟩ => ?_
    have finish : ∀ s : Stmt, s.Plain → Gives (do
        expect statementEnd
        return s) Stmt.Plain := fun s hs => gives_expect.bind fun _ _ => gives_pure hs
    dsimp only
    split
    · exact (printing_plain first).bind finish
    · refine enclosedHeader_plain.bind fun c hc => (blockWith_plain fuel).bind fun a ha => gives_next.bind fun k _ => ?_
      split
      · refine gives_take.bind fun _ _ => (blockWith_plain fuel).bind fun b hb => ?_
        exact finish _ ⟨hc, ha, hb⟩
      · exact finish _ ⟨hc, ha, trivial⟩
    · refine enclosedHeader_plain.bind fun c hc => (blockWith_plain fuel).bind fun b hb => ?_
      exact finish _ ⟨hc, hb⟩
    · exact gives_take.bind fun _ _ => finish _ trivial
    · exact (named_plain first).bind finish
    · refine (declaration_plain ?_ hf).bind finish
      simp_all [statementFirst]
termination_by fuel

theorem blockWith_plain (fuel : Nat) : Gives (blockWith fuel) fun b => Stmt.PlainBlock b.1 := by
  cases fuel with
  | zero => exact gives_refuse
  | succ fuel =>
    refine gives_take.bind fun _ _ => (statementsWith_plain fuel rbrace).bind fun body hb => ?_
    exact gives_take.bind fun _ _ => gives_expect.bind fun _ _ => gives_pure hb
termination_by fuel

theorem statementsWith_plain (fuel : Nat) (closing : Token.Kind) :
    Gives (statementsWith fuel closing) Stmt.PlainBlock := by
  cases fuel with
  | zero => exact gives_refuse
  | succ fuel =>
    refine gives_expect.bind fun _ _ => gives_next.bind fun k _ => ?_
    split
    · exact gives_pure trivial
    · refine (statementWith_plain fuel).bind fun s hs => gives_expect.bind fun _ _ => ?_
      exact (statementsWith_plain fuel closing).bind fun rest hr => gives_pure ⟨hs, hr⟩
termination_by fuel

end

theorem statement_plain : Gives statement Stmt.Plain := fun ts => statementWith_plain (stmtFuel ts) ts

theorem statements_plain (closing : Token.Kind) : Gives (statements closing) Stmt.PlainBlock :=
  fun ts => statementsWith_plain (stmtFuel ts) closing ts

theorem typedName_simple : Gives typedName fun a => a.1.Simple :=
  gives_take.bind fun _ hk => gives_take.bind fun _ _ => gives_pure (simple_type hk.1 hk.2)

theorem parametersWith_plain (fuel : Nat) : Gives (parametersWith fuel) fun params => ∀ p ∈ params, p.IsParam := by
  induction fuel with
  | zero => exact gives_refuse
  | succ fuel ih =>
    refine typedName_simple.bind fun a ha => gives_expect.bind fun _ _ => gives_next.bind fun k _ => ?_
    split
    · refine gives_take.bind fun _ _ => ih.bind fun rest hr => gives_pure fun p hp => ?_
      rcases List.mem_cons.mp hp with rfl | hp
      · exact ⟨ha, trivial⟩
      · exact hr p hp
    · refine gives_pure fun p hp => ?_
      obtain rfl := List.mem_singleton.mp hp
      exact ⟨ha, trivial⟩

theorem definition_plain : Gives definition Stmt.PlainTop := by
  refine gives_take.bind fun first _ => typedName_simple.bind fun a ha => gives_take.bind fun _ _ => ?_
  refine gives_expect.bind fun _ _ => gives_next.bind fun k _ => ?_
  have finish : ∀ params : List Stmt, (∀ p ∈ params, p.IsParam) → Gives (do
      let _ ← take [rpar]
      let _ ← take [lbrace]
      let body ← statements returnWord
      let _ ← take [returnWord]
      let e ← value
      let _ ← take [semicolon]
      let last ← take [rbrace]
      return Stmt.define (first.span.join last.span) a.1 (.text a.2.2.text) params (some body) e) Stmt.PlainTop := by
    intro params hp
    refine gives_take.bind fun _ _ => gives_take.bind fun _ _ => (statements_plain _).bind fun body hb => ?_
    refine gives_take.bind fun _ _ => value_plain.bind fun e he => gives_take.bind fun _ _ => ?_
    exact gives_take.bind fun _ _ => gives_pure ⟨ha, hp, hb, he⟩
  dsimp only
  split
  · exact finish [] (by simp)
  · exact Gives.bind (fun ts => parametersWith_plain (ts.length + 1) ts) finish

theorem programWith_plain (fuel : Nat) : Gives (programWith fuel) fun block => ∀ s ∈ block, s.PlainTop := by
  induction fuel with
  | zero => exact gives_refuse
  | succ fuel ih =>
    refine gives_expect.bind fun _ _ => gives_next.bind fun k _ => ?_
    have finish : ∀ s : Stmt, s.PlainTop → Gives (do
        let rest ← programWith fuel
        return s :: rest) fun block => ∀ s ∈ block, s.PlainTop := by
      intro s hs
      refine ih.bind fun rest hr => gives_pure fun q hq => ?_
      rcases List.mem_cons.mp hq with rfl | hq
      · exact hs
      · exact hr q hq
    split
    · exact gives_pure (by simp)
    · refine gives_next.bind fun k' _ => ?_
      dsimp only
      split
      · exact definition_plain.bind finish
      · exact (statement_plain.imp fun s hs => hs.top).bind finish

end Parse

/-- Every program that a source is read as is plain. -/
theorem Program.plain_of_parse {source : String} {p : Program} (h : Program.parse source = .ok p) : p.Plain := by
  simp only [Program.parse, Program.ofScan] at h
  split at h
  · cases h
  · cases h
  · cases h
  · rename_i statements hs _
    split at h
    · cases h
    · cases h
      unfold Parse.program at hs
      cases hw : Parse.programWith ((Token.scan source).tokens.length + 1) (Token.scan source).tokens with
      | error e =>
        rw [hw] at hs
        cases hs
      | ok r =>
        rw [hw] at hs
        cases hs
        exact (Parse.programWith_plain _ _ _ _ (Token.scan_faithful source) hw).1

end CheckedScript
