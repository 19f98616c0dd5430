import CheckedScript.Proofs.Joining

/-! What parsers are made of, and where a slash is refused. Every parser is put together from a few parts: it looks at the
next token, takes a token, refuses one, and goes on with what came out. So what the parts have and what is kept by doing one
after the other, all parsers have. One such fact is that no parser gets past a slash that has no factor after it: it refuses
the token behind the slash, or one before it, and never finds the end of the tokens. -/

namespace CheckedScript.Parse

open Token.Kind

/-- All parts of parsers have the property, and doing one after the other keeps it. Of a product only the sign with the
factor behind it has to have it. -/
structure OfParts (P : {α : Type} → Parser α → Prop) : Prop where
  pure {α : Type} (a : α) : P (pure a : Parser α)
  refuse {α : Type} (kinds : List Token.Kind) : P (refuse kinds : Parser α)
  next : P next
  take (kinds : List Token.Kind) (hk : slash ∉ kinds := by decide) : P (take kinds)
  bind {α β : Type} {p : Parser α} {k : α → Parser β} (hp : P p) (hk : ∀ a, P (k a)) : P (p >>= k)
  measured {α : Type} {p : Nat → Parser α} (size : List Token → Nat) (hp : ∀ n, P (p n)) : P fun ts => p (size ts) ts
  factor {fuel : Nat} {k : Token → Expr → Parser Expr} (hp : P (factorWith fuel)) (hk : ∀ op e, P (k op e)) :
    P (do let op ← Parse.take mulOps; let e ← factorWith fuel; k op e)

namespace OfParts

variable {P : {α : Type} → Parser α → Prop}

theorem expect (h : OfParts P) (kinds : List Token.Kind) : P (expect kinds) := by
  refine h.bind h.next fun k => ?_
  split
  · exact h.pure ()
  · exact h.refuse kinds

mutual

theorem operandWith (h : OfParts P) (fuel : Nat) (place : Place) : P (operandWith fuel place) := by
  cases fuel with
  | zero => exact h.refuse []
  | succ fuel =>
    refine h.bind (h.expect _) fun _ => h.bind h.next fun k => ?_
    split
    · exact h.bind (h.conditionWith fuel) fun e => h.bind (h.expect _) fun _ => h.pure e
    · exact h.bind (h.sumWith fuel) fun e => h.bind (h.expect _) fun _ => h.pure e
termination_by fuel

theorem conditionWith (h : OfParts P) (fuel : Nat) : P (conditionWith fuel) := by
  cases fuel with
  | zero => exact h.refuse []
  | succ fuel =>
    refine h.bind (h.take conditionFirst) fun first => ?_
    split
    · refine h.bind (h.expect _) fun _ => h.bind h.next fun k => ?_
      dsimp only
      split
      · exact h.bind (h.conditionWith fuel) fun e => h.bind (h.expect _) fun _ => h.pure _
      · exact h.bind (h.atomWith fuel) fun e => h.bind (h.expect _) fun _ => h.pure _
    · refine h.bind (h.operandWith fuel .side) fun left => h.bind (h.take conditionOps) fun op => ?_
      refine h.bind (h.operandWith fuel .side) fun right => h.bind (h.take [rpar]) fun last => ?_
      exact h.bind (h.expect _) fun _ => h.pure _
termination_by fuel

theorem sumWith (h : OfParts P) (fuel : Nat) : P (sumWith fuel) := by
  cases fuel with
  | zero => exact h.refuse []
  | succ fuel => exact h.bind (h.productWith fuel) fun e => h.sumRestWith fuel e
termination_by fuel

theorem sumRestWith (h : OfParts P) (fuel : Nat) (left : Expr) : P (sumRestWith fuel left) := by
  cases fuel with
  | zero => exact h.refuse []
  | succ fuel =>
    refine h.bind h.next fun k => ?_
    split
    · refine h.bind (h.take addOps) fun op => h.bind (h.productWith fuel) fun right => ?_
      exact h.sumRestWith fuel _
    · exact h.pure left
termination_by fuel

theorem productWith (h : OfParts P) (fuel : Nat) : P (productWith fuel) := by
  cases fuel with
  | zero => exact h.refuse []
  | succ fuel => exact h.bind (h.factorWith fuel) fun e => h.productRestWith fuel e
termination_by fuel

theorem productRestWith (h : OfParts P) (fuel : Nat) (left : Expr) : P (productRestWith fuel left) := by
  cases fuel with
  | zero => exact h.refuse []
  | succ fuel =>
    refine h.bind h.next fun k => ?_
    split
    · exact h.factor (h.factorWith fuel) fun op right => h.productRestWith fuel _
    · exact h.pure left
termination_by fuel

theorem factorWith (h : OfParts P) (fuel : Nat) : P (factorWith fuel) := by
  cases fuel with
  | zero => exact h.refuse []
  | succ fuel =>
    refine h.bind (h.expect _) fun _ => h.bind h.next fun k => ?_
    split
    · exact h.bind (h.take [minus]) fun first => h.bind (h.factorWith fuel) fun e => h.pure _
    · exact h.atomWith fuel
termination_by fuel

theorem atomWith (h : OfParts P) (fuel : Nat) : P (atomWith fuel) := by
  cases fuel with
  | zero => exact h.refuse []
  | succ fuel =>
    refine h.bind (h.take atomFirst) fun t => ?_
    split
    · refine h.bind (h.expect _) fun _ => h.bind h.next fun k => ?_
      split
      · exact h.bind (h.argumentsWith fuel) fun _ => h.pure _
      · exact h.pure _
    · refine h.bind (h.expect _) fun _ => ?_
      split <;> exact h.pure _
termination_by fuel

theorem argumentsWith (h : OfParts P) (fuel : Nat) : P (argumentsWith fuel) := by
  cases fuel with
  | zero => exact h.refuse []
  | succ fuel =>
    refine h.bind (h.take [lpar]) fun _ => h.bind (h.expect _) fun _ => h.bind h.next fun k => ?_
    have finish (args : List Expr) : P (do
        let last ← Parse.take [rpar]
        Parse.expect atomEnd
        return (args, last)) :=
      h.bind (h.take [rpar]) fun _ => h.bind (h.expect _) fun _ => h.pure _
    dsimp only
    split
    · exact finish []
    · exact h.bind (h.argumentListWith fuel) finish
termination_by fuel

theorem argumentListWith (h : OfParts P) (fuel : Nat) : P (argumentListWith fuel) := by
  cases fuel with
  | zero => exact h.refuse []
  | succ fuel =>
    refine h.bind (h.operandWith fuel .alone) fun e => h.bind (h.expect _) fun _ => h.bind h.next fun k => ?_
    split
    · exact h.bind (h.take [comma]) fun _ => h.bind (h.argumentListWith fuel) fun rest => h.pure _
    · exact h.pure _
termination_by fuel

end

theorem value (h : OfParts P) : P value := h.measured exprFuel fun n => h.operandWith n .alone

theorem side (h : OfParts P) : P side := h.measured exprFuel fun n => h.operandWith n .side

theorem arguments (h : OfParts P) : P arguments := h.measured exprFuel fun n => h.argumentsWith n

theorem header (h : OfParts P) : P header := by
  refine h.bind h.side fun left => h.bind (h.expect _) fun _ => h.bind h.next fun k => ?_
  split
  · exact h.pure left
  · exact h.bind (h.take conditionOps) fun op => h.bind h.side fun right => h.bind (h.expect _) fun _ => h.pure _

theorem typedName (h : OfParts P) : P typedName :=
  h.bind (h.take typeWords) fun _ => h.bind (h.take [name]) fun _ => h.pure _

theorem declaration (h : OfParts P) (first : Token) : P (declaration first) := by
  refine h.bind (h.take [name]) fun target => h.bind (h.expect _) fun _ => h.bind h.next fun k => ?_
  have finish (init : Option Expr) : P (do
      let last ← Parse.take [semicolon]
      return Stmt.declare (first.span.join last.span) (Ty.ofKind first.text) (.text target.text) init) :=
    h.bind (h.take [semicolon]) fun _ => h.pure _
  dsimp only
  split
  · exact h.bind (h.take [equal]) fun _ => h.bind h.value fun e => finish (some e)
  · exact finish none

theorem named (h : OfParts P) (first : Token) : P (named first) := by
  refine h.bind (h.expect _) fun _ => h.bind h.next fun k => ?_
  split
  · exact h.bind h.arguments fun _ => h.bind (h.take [semicolon]) fun _ => h.pure _
  · split
    · exact h.bind (h.take stepOps) fun _ => h.bind (h.take [semicolon]) fun _ => h.pure _
    · refine h.bind (h.take assignOps) fun _ => h.bind h.value fun _ => ?_
      exact h.bind (h.take [semicolon]) fun _ => h.pure _

theorem printing (h : OfParts P) (first : Token) : P (printing first) := by
  refine h.bind (h.take [lpar]) fun _ => h.bind (h.expect _) fun _ => h.bind h.next fun k => ?_
  have finish (operand : Option Expr) : P (do
      let _ ← Parse.take [rpar]
      let last ← Parse.take [semicolon]
      return Stmt.print (first.span.join last.span) operand) :=
    h.bind (h.take [rpar]) fun _ => h.bind (h.take [semicolon]) fun _ => h.pure _
  dsimp only
  split
  · exact finish none
  · exact h.bind h.value fun e => finish (some e)

theorem enclosedHeader (h : OfParts P) : P enclosedHeader :=
  h.bind (h.take [lpar]) fun _ => h.bind h.header fun _ => h.bind (h.take [rpar]) fun _ => h.pure _

mutual

theorem statementWith (h : OfParts P) (fuel : Nat) : P (statementWith fuel) := by
  cases fuel with
  | zero => exact h.refuse []
  | succ fuel =>
    refine h.bind (h.take statementFirst) fun first => ?_
    have finish (s : Stmt) : P (do Parse.expect statementEnd; return s) := h.bind (h.expect _) fun _ => h.pure s
    dsimp only
    split
    · exact h.bind (h.printing first) finish
    · refine h.bind h.enclosedHeader fun condition => h.bind (h.blockWith fuel) fun block => h.bind h.next fun k => ?_
      split
      · exact h.bind (h.take [elseWord]) fun _ => h.bind (h.blockWith fuel) fun _ => finish _
      · exact finish _
    · exact h.bind h.enclosedHeader fun condition => h.bind (h.blockWith fuel) fun _ => finish _
    · exact h.bind (h.take [semicolon]) fun _ => finish _
    · exact h.bind (h.named first) finish
    · exact h.bind (h.declaration first) finish
termination_by fuel

theorem blockWith (h : OfParts P) (fuel : Nat) : P (blockWith fuel) := by
  cases fuel with
  | zero => exact h.refuse []
  | succ fuel =>
    refine h.bind (h.take [lbrace]) fun _ => h.bind (h.statementsWith fuel rbrace) fun body => ?_
    exact h.bind (h.take [rbrace]) fun _ => h.bind (h.expect _) fun _ => h.pure _
termination_by fuel

theorem statementsWith (h : OfParts P) (fuel : Nat) (closing : Token.Kind) : P (statementsWith fuel closing) := by
  cases fuel with
  | zero => exact h.refuse []
  | succ fuel =>
    refine h.bind (h.expect _) fun _ => h.bind h.next fun k => ?_
    split
    · exact h.pure []
    · refine h.bind (h.statementWith fuel) fun s => h.bind (h.expect _) fun _ => ?_
      exact h.bind (h.statementsWith fuel closing) fun rest => h.pure _
termination_by fuel

end

theorem parametersWith (h : OfParts P) (fuel : Nat) : P (parametersWith fuel) := by
  induction fuel with
  | zero => exact h.refuse []
  | succ fuel ih =>
    refine h.bind h.typedName fun _ => h.bind (h.expect _) fun _ => h.bind h.next fun k => ?_
    split
    · exact h.bind (h.take [comma]) fun _ => h.bind ih fun rest => h.pure _
    · exact h.pure _

theorem definition (h : OfParts P) : P definition := by
  refine h.bind (h.take [define]) fun first => h.bind h.typedName fun typed => h.bind (h.take [lpar]) fun _ => ?_
  refine h.bind (h.expect _) fun _ => h.bind h.next fun k => ?_
  have hbody : P (statements returnWord) := h.measured stmtFuel fun n => h.statementsWith n returnWord
  have hparams : P parameters := h.measured _ h.parametersWith
  have finish (params : List Stmt) : P (do
      let _ ← Parse.take [rpar]
      let _ ← Parse.take [lbrace]
      let body ← statements returnWord
      let _ ← Parse.take [returnWord]
      let e ← Parse.value
      let _ ← Parse.take [semicolon]
      let last ← Parse.take [rbrace]
      return Stmt.define (first.span.join last.span) typed.1 (.text typed.2.2.text) params (some body) e) := by
    refine h.bind (h.take [rpar]) fun _ => h.bind (h.take [lbrace]) fun _ => h.bind hbody fun body => ?_
    refine h.bind (h.take [returnWord]) fun _ => h.bind h.value fun e => h.bind (h.take [semicolon]) fun _ => ?_
    exact h.bind (h.take [rbrace]) fun _ => h.pure _
  dsimp only
  split
  · exact finish []
  · exact h.bind hparams finish

theorem programWith (h : OfParts P) (fuel : Nat) : P (programWith fuel) := by
  induction fuel with
  | zero => exact h.refuse []
  | succ fuel ih =>
    refine h.bind (h.expect _) fun _ => h.bind h.next fun k => ?_
    split
    · exact h.pure []
    · have hstatement : P statement := h.measured stmtFuel fun n => h.statementWith n
      have finish (s : Stmt) : P (do return s :: (← Parse.programWith fuel)) := h.bind ih fun rest => h.pure _
      refine h.bind h.next fun k => ?_
      dsimp only
      split
      · exact h.bind h.definition finish
      · exact h.bind hstatement finish

end OfParts

end CheckedScript.Parse

namespace CheckedScript.Grammar

/-- Behind a slash there is a factor, or nothing yet. -/
def Opens : List Token → Prop
  | [] => True
  | t :: rest => (t.kind = .slash → rest = [] ∨ nextKind rest ∈ Parse.factorFirst) ∧ Opens rest

theorem opens_of_append {u v : List Token} (h : Opens (u ++ v)) : Opens v := by
  induction u with
  | nil => exact h
  | cons t rest ih => exact ih h.2

end CheckedScript.Grammar

namespace CheckedScript.Parse

open Grammar
open Token.Kind

variable {α β : Type}

theorem bind_eq_error {p : Parser α} {k : α → Parser β} {ts : List Token} {r : Refusal} :
    (p >>= k) ts = .error r ↔ p ts = .error r ∨ ∃ a mid, p ts = .ok (a, mid) ∧ k a mid = .error r := by
  simp only [Bind.bind, StateT.bind]
  cases p ts with
  | error e => simp [Except.bind]
  | ok r =>
    obtain ⟨a, mid⟩ := r
    constructor
    · intro h
      exact .inr ⟨a, mid, rfl, h⟩
    · rintro (⟨⟨⟩⟩ | ⟨_, _, ⟨⟩, h⟩)
      exact h

/-- A token that is taken is the first one. -/
theorem take_eq_ok {kinds : List Token.Kind} {ts rest : List Token} {t : Token} :
    take kinds ts = .ok (t, rest) ↔ ts = t :: rest ∧ t.kind ∈ kinds := by
  cases ts with
  | nil => simp [take]
  | cons u v =>
    by_cases hu : u.kind ∈ kinds
    · simp only [take, hu, if_true, Except.ok.injEq, Prod.mk.injEq, List.cons.injEq]
      constructor
      · rintro ⟨rfl, rfl⟩
        exact ⟨⟨rfl, rfl⟩, hu⟩
      · exact fun h => h.1
    · simp only [take, hu, if_false, reduceCtorEq, List.cons.injEq, false_iff]
      rintro ⟨⟨rfl, rfl⟩, ht⟩
      exact hu ht

theorem eq_nil_of_take {kinds expected : List Token.Kind} {ts : List Token} (h : take kinds ts = .error ⟨none, expected⟩) :
    ts = [] := by
  cases ts with
  | nil => rfl
  | cons t rest =>
    by_cases ht : t.kind ∈ kinds <;> simp [take, ht] at h

/-- The parser passes a slash only with a factor behind it, and it does not find the end behind a slash that has something
else there. -/
structure Dividing (p : Parser α) : Prop where
  ok : ∀ {ts a rest}, p ts = .ok (a, rest) → Opens rest → Opens ts
  ended : ∀ {ts expected}, p ts = .error ⟨none, expected⟩ → Opens ts

theorem dividing_pure (a : α) : Dividing (pure a : Parser α) where
  ok := by
    rintro ts _ _ ⟨⟩ h
    exact h
  ended := nofun

theorem dividing_refuse (kinds : List Token.Kind) : Dividing (refuse kinds : Parser α) where
  ok := nofun
  ended := by
    intro ts expected h
    cases ts with
    | nil => trivial
    | cons t rest => cases h

theorem dividing_next : Dividing next where
  ok := by
    intro ts k rest h hrest
    rw [next_eq] at h
    cases h
    exact hrest
  ended := by
    intro ts expected h
    rw [next_eq] at h
    cases h

theorem dividing_take {kinds : List Token.Kind} (hk : slash ∉ kinds) : Dividing (take kinds) where
  ok := by
    intro ts t rest h hrest
    obtain ⟨rfl, ht⟩ := take_eq_ok.mp h
    exact ⟨fun heq => absurd (heq ▸ ht) hk, hrest⟩
  ended := by
    intro ts expected h
    rw [eq_nil_of_take h]
    trivial

theorem Dividing.bind {p : Parser α} {k : α → Parser β} (hp : Dividing p) (hk : ∀ a, Dividing (k a)) :
    Dividing (p >>= k) where
  ok := by
    intro ts b rest h hrest
    obtain ⟨a, mid, ha, hb⟩ := bind_eq_ok.mp h
    exact hp.ok ha ((hk a).ok hb hrest)
  ended := by
    intro ts expected h
    obtain ha | ⟨a, mid, ha, hb⟩ := bind_eq_error.mp h
    · exact hp.ended ha
    · exact hp.ok ha ((hk a).ended hb)

/-- What does not start as a factor does is refused. -/
theorem factorWith_first (fuel : Nat) {ts : List Token} (h : ∀ t expected, factorWith fuel ts ≠ .error ⟨some t, expected⟩) :
    ts = [] ∨ nextKind ts ∈ factorFirst := by
  cases ts with
  | nil => exact .inl rfl
  | cons t rest =>
    refine .inr (Decidable.byContradiction fun hfirst => ?_)
    cases fuel with
    | zero => exact h t [] rfl
    | succ fuel =>
      refine h t factorFirst (bind_eq_error.mpr (.inl ?_))
      exact bind_eq_error.mpr (.inr ⟨_, _, next_eq _, by rw [if_neg hfirst]; rfl⟩)

/-- The one place where a slash is taken. -/
theorem dividing_factor {fuel : Nat} {k : Token → Expr → Parser Expr} (hp : Dividing (factorWith fuel))
    (hk : ∀ op e, Dividing (k op e)) : Dividing (do let op ← take mulOps; let e ← factorWith fuel; k op e) where
  ok := by
    intro ts b rest h hrest
    obtain ⟨op, mid, hop, h'⟩ := bind_eq_ok.mp h
    obtain ⟨rfl, -⟩ := take_eq_ok.mp hop
    obtain ⟨e, after, he, hb⟩ := bind_eq_ok.mp h'
    exact ⟨fun _ => factorWith_first fuel (by simp [he]), hp.ok he ((hk op e).ok hb hrest)⟩
  ended := by
    intro ts expected h
    obtain hop | ⟨op, mid, hop, h'⟩ := bind_eq_error.mp h
    · rw [eq_nil_of_take hop]
      trivial
    · obtain ⟨rfl, -⟩ := take_eq_ok.mp hop
      obtain he | ⟨e, after, he, hb⟩ := bind_eq_error.mp h'
      · exact ⟨fun _ => factorWith_first fuel (by simp [he]), hp.ended he⟩
      · exact ⟨fun _ => factorWith_first fuel (by simp [he]), hp.ok he ((hk op e).ended hb)⟩

theorem dividing_parts : OfParts Dividing where
  pure := dividing_pure
  refuse := dividing_refuse
  next := dividing_next
  take _ hk := dividing_take hk
  bind := Dividing.bind
  measured size hp := ⟨fun {ts} => (hp (size ts)).ok, fun {ts} => (hp (size ts)).ended⟩
  factor := dividing_factor

/-- What a parser leaves are the last ones of its tokens. -/
def Leaving (p : Parser α) : Prop := ∀ ts a rest, p ts = .ok (a, rest) → rest <:+ ts

theorem Leaving.bind {p : Parser α} {k : α → Parser β} (hp : Leaving p) (hk : ∀ a, Leaving (k a)) : Leaving (p >>= k) := by
  intro ts b rest h
  obtain ⟨a, mid, ha, hb⟩ := bind_eq_ok.mp h
  exact (hk a mid b rest hb).trans (hp ts a mid ha)

theorem leaving_take {kinds : List Token.Kind} : Leaving (take kinds) := by
  intro ts t rest h
  obtain ⟨rfl, -⟩ := take_eq_ok.mp h
  exact List.suffix_cons t rest

theorem leaving_parts : OfParts Leaving where
  pure a ts _ rest h := by
    cases h
    exact List.suffix_rfl
  refuse _ _ _ _ h := nomatch h
  next ts k rest h := by
    rw [next_eq] at h
    cases h
    exact List.suffix_rfl
  take _ _ := leaving_take
  bind := Leaving.bind
  measured size hp ts := hp (size ts) ts
  factor hp hk := leaving_take.bind fun op => hp.bind fun e => hk op e

/-- What has something else than a factor behind a slash is refused at a token. -/
theorem program_refused {ts : List Token} (hts : ∀ t ∈ ts, t.Lexical) (h : ¬Opens ts) :
    ∃ t expected, program ts = .error ⟨some t, expected⟩ := by
  have hdividing := dividing_parts.programWith (ts.length + 1)
  unfold program
  cases hp : programWith (ts.length + 1) ts with
  | error r =>
    obtain ⟨_ | t, expected⟩ := r
    · exact absurd (hdividing.ended hp) h
    · exact ⟨t, expected, rfl⟩
  | ok r =>
    obtain ⟨body, rest⟩ := r
    refine absurd (hdividing.ok hp ?_) h
    cases rest with
    | nil => trivial
    | cons t rest =>
      have hmem : t ∈ ts := (leaving_parts.programWith _ ts body _ hp).subset (.head _)
      exact absurd (programWith_rest hp) (hts t hmem).exists_kind

end CheckedScript.Parse
