import CheckedScript.Proofs.DisciplinedStates
import CheckedScript.Proofs.FrontEnd
import CheckedScript.Proofs.History
import CheckedScript.Proofs.WrittenTrees

/-! Numbers that are not finite come only from literals. Every operator but the sign change looks at its result, and the sign
change keeps a finite number finite; variables start with finite numbers. So in a program whose literals are finite every
number of every run is, and the remainder of an infinite number, which the rules of the language say nothing about, is never
asked for. A literal is infinite if its digits say more than a double can hold. -/

namespace CheckedScript

namespace Decimal

open Float.Model (Format UnpackedFloat)
open Float.Model.UnpackedFloat (unpackExponent)

variable {x : Float}

/-- A double is finite if its exponent is not the last one. -/
theorem isFinite_unpack (b : BitVec Format.binary64.numBits) :
    (UnpackedFloat.unpack Format.binary64 b).isFinite = true ↔ unpackExponent b ≠ -1#11 := by
  unfold UnpackedFloat.unpack
  dsimp only
  split_ifs <;> simp only [UnpackedFloat.isFinite, Bool.false_eq_true] <;> tauto

theorem isFinite_iff : x.isFinite = true ↔ x.toBits.toNat / 2 ^ 52 % 2 ^ 11 ≠ 2047 :=
  (isFinite_unpack _).trans unpackExponent_eq_iff.not

theorem not_isInf_of_isFinite (h : x.isFinite = true) : x.isInf = false := by
  rw [Bool.eq_false_iff, Ne, isInf_iff]
  exact fun hinf => isFinite_iff.mp h hinf.1

/-- A number is finite or infinite. -/
theorem isInf_of_not_isFinite (hnumber : x.isNaN = false) (h : x.isFinite = false) : x.isInf = true := by
  rw [Bool.eq_false_iff, Ne, isFinite_iff, not_not] at h
  rw [Bool.eq_false_iff, Ne, isNaN_iff] at hnumber
  exact isInf_iff.mpr ⟨h, not_not.mp fun hmantissa => hnumber ⟨h, hmantissa⟩⟩

theorem unpackExponent_packComponents (s s' : UnpackedFloat.Sign) (e : BitVec 11) (m : BitVec 52) :
    unpackExponent (UnpackedFloat.packComponents Format.binary64 s e m) =
      unpackExponent (UnpackedFloat.packComponents Format.binary64 s' e m) := by
  rw [UnpackedFloat.unpackExponent_packComponents, UnpackedFloat.unpackExponent_packComponents]

/-- A change of the sign keeps the exponent. -/
theorem unpackExponent_pack_neg (u : UnpackedFloat) :
    unpackExponent (u.neg.pack Format.binary64) = unpackExponent (u.pack Format.binary64) := by
  cases u with
  | notANumber => rfl
  | infinity s | zero s => exact unpackExponent_packComponents _ _ _ _
  | finite s m e hm =>
    unfold UnpackedFloat.neg UnpackedFloat.pack
    dsimp only
    split_ifs <;> exact unpackExponent_packComponents _ _ _ _

theorem isFinite_neg (h : x.isFinite = true) : (-x).isFinite = true := by
  have hx : @unpackExponent Format.binary64 x.toBits.toBitVec ≠ -1#11 := (isFinite_unpack _).mp h
  have hbits : @UnpackedFloat.isNaNBits Format.binary64 x.toBits.toBitVec = false := by
    have hnumber : ¬ (@unpackExponent Format.binary64 x.toBits.toBitVec = -1#11 ∧
        @UnpackedFloat.unpackMantissa Format.binary64 x.toBits.toBitVec ≠ 0#52) := fun hnan => hx hnan.1
    simpa [UnpackedFloat.isNaNBits] using hnumber
  have hpack := @UnpackedFloat.pack_unpack Format.binary64 x.toBits.toBitVec (by decide)
  rw [hbits, if_neg Bool.false_ne_true] at hpack
  rw [← hpack, ← unpackExponent_pack_neg] at hx
  exact (isFinite_unpack _).mpr hx

theorem isFinite_zero : (0.0 : Float).isFinite = true := rfl

end Decimal

/-- If the value is a number, it is finite. -/
def Value.Finite : Value → Prop
  | number x => x.isFinite = true
  | _ => True

section Operators

variable {α β : Type} {P : β → Prop} {a b : Value}

/-- If a result comes out, it has `P`. -/
def Yields (P : α → Prop) (r : Except Failure α) : Prop := ∀ x, r = .ok x → P x

theorem yields_ok {P : α → Prop} {x : α} (h : P x) : Yields P (.ok x : Except Failure α) := by
  intro y hy
  cases hy
  exact h

theorem yields_error {P : α → Prop} {f : Failure} : Yields P (.error f : Except Failure α) := by
  intro x hx
  cases hx

theorem yields_bind {r : Except Failure α} {k : α → Except Failure β} (hk : ∀ x, r = .ok x → Yields P (k x)) :
    Yields P (r >>= k) := by
  cases r with
  | error f => exact yields_error
  | ok x => exact hk x rfl

theorem yields_ite {c : Prop} [Decidable c] {r r' : Except Failure β} (h : Yields P r) (h' : Yields P r') :
    Yields P (if c then r else r') := by
  split
  · exact h
  · exact h'

namespace Value

theorem finite_ofResult {op : String} {x : Float} : Yields Value.Finite (ofResult op x) := by
  unfold ofResult
  split
  · rename_i hx
    exact yields_ok hx
  · exact yields_error

theorem finite_concat : Yields Value.Finite (a.concat b) := by
  unfold concat
  split
  · exact yields_ok trivial
  · exact yields_error
  · exact yields_error

end Value

open Value (finite_ofResult finite_concat)

/-- What arithmetic gives is finite, whatever it is applied to. -/
theorem ArithOp.finite_apply (op : ArithOp) : Yields Value.Finite (op.apply a b) := by
  cases op with
  | add =>
    rcases ArithOp.apply_add a b with h | h
    · rw [h]
      exact finite_concat
    · rw [h]
      exact yields_bind fun _ _ => yields_bind fun _ _ => finite_ofResult
  | sub | mul => exact yields_bind fun _ _ => yields_bind fun _ _ => finite_ofResult
  | div => exact yields_bind fun _ _ => yields_ite yields_error (yields_bind fun _ _ => finite_ofResult)
  | mod =>
    refine yields_bind fun _ _ => yields_ite yields_error (yields_bind fun _ _ => ?_)
    exact yields_ite yields_error finite_ofResult

theorem BinaryOp.finite_apply (op : BinaryOp) : Yields Value.Finite (op.apply a b) := by
  cases op with
  | arith o => exact o.finite_apply
  | eq | ne => exact yields_bind fun _ _ => yields_ok trivial
  | gt | ge | lt | le => exact yields_bind fun _ _ => yields_bind fun _ _ => yields_ok trivial
  | and => exact yields_bind fun _ _ => yields_ite (yields_bind fun _ _ => yields_ok trivial) (yields_ok trivial)
  | or => exact yields_bind fun _ _ => yields_ite (yields_ok trivial) (yields_bind fun _ _ => yields_ok trivial)
  | unknown s => exact yields_error

/-- A change of the sign is not looked at, but it keeps a finite number finite. -/
theorem UnaryOp.finite_apply (op : UnaryOp) (ha : a.Finite) : Yields Value.Finite (op.apply a) := by
  cases op with
  | not => exact yields_bind fun _ _ => yields_ok trivial
  | neg =>
    cases a with
    | number x => exact yields_ok (Decimal.isFinite_neg ha)
    | _ => exact yields_error
  | inc | dec => exact yields_bind fun _ _ => finite_ofResult
  | unknown s => exact yields_error

theorem AssignOp.finite_apply (op : AssignOp) (hb : b.Finite) : Yields Value.Finite (op.apply a b) := by
  cases op with
  | set => exact yields_ok hb
  | compound o =>
    rw [AssignOp.apply_compound]
    exact o.finite_apply
  | unknown s => exact yields_error

end Operators

theorem Problem.located_ne (p : Problem) (span : Span) : p.located span ≠ .escape .infiniteDividend := by
  unfold Problem.located Problem.unshown?
  split
  · rename_i e he
    split at he
    · split at he <;> cases he
      simp
    · obtain ⟨k, -, rfl⟩ := Option.map_eq_some_iff.mp he
      simp
  · simp

theorem Failure.orAt_ne {f : Failure} (h : f ≠ .escape .infiniteDividend) (span : Span) :
    f.orAt span ≠ .escape .infiniteDividend := by
  cases f with
  | error e => simp [Failure.orAt]
  | escape e => exact h

theorem Failure.OfOperation.ne {a : Value} (ha : a.Finite) {f : Failure} (h : f.OfOperation a) :
    f ≠ .escape .infiniteDividend := by
  cases h with
  | problem p => exact p.located_ne .zero
  | escape he => simpa using he
  | remainder hnumber hx =>
    rw [hnumber] at ha
    rw [Decimal.not_isInf_of_isFinite ha] at hx
    cases hx

theorem outcome_finite {a : Value} (ha : a.Finite) {span : Span} {r : Except Failure Value}
    (hfails : Excuses (Failure.OfOperation a) r) (hyields : Yields Value.Finite r) :
    Outcome Value.Finite (· ≠ .escape .infiniteDividend) span r :=
  ⟨hyields, fun f hf => Failure.orAt_ne ((hfails f hf).ne ha) span⟩

/-- If the expression is a number literal, it is finite. -/
def Expr.saysFinite : Expr → Bool
  | literal _ (.number x) => x.isFinite
  | _ => true

/-- Literals are finite, so all values are, and no remainder of an infinite number is asked for. -/
def finiteness : Discipline where
  value v := v.Finite
  expr e := e.Plain ∧ e.saysFinite = true
  stmt s := s.PlainTop
  failure f := f ≠ .escape .infiniteDividend
  plain_expr h := h.1
  plain_stmt h := h
  call h := ⟨h, rfl⟩
  default {t v} h := by
    cases t <;> cases h
    · exact Decimal.isFinite_zero
    · trivial
    · trivial
  literal {_ v} h := by
    cases v with
    | number x => exact h.2
    | _ => trivial
  binary {_ _ op _ _} _ _ _ ha _ := outcome_finite ha op.apply_excuses op.finite_apply
  unary {_ _ op _} _ _ ha := outcome_finite ha op.apply_excuses (op.finite_apply ha)
  assign {_ _ op _} _ _ _ ha hb := outcome_finite ha op.apply_excuses (op.finite_apply hb)
  at_expr _ p := p.located_ne _
  at_stmt _ p := p.located_ne _
  escape h := by simpa using h

/-- Every number literal of the program is finite. -/
def Program.FiniteLiterals (p : Program) : Prop := ∀ e ∈ p.exprs, e.saysFinite = true

instance (p : Program) : Decidable p.FiniteLiterals := inferInstanceAs (Decidable (∀ e ∈ p.exprs, e.saysFinite = true))

theorem Program.Plain.admits_finiteness {p : Program} (h : p.Plain) (hfinite : p.FiniteLiterals) :
    ∀ s ∈ p.statements, finiteness.Admits s := by
  intro s hs q hq
  have hstmt : q ∈ p.stmts := mem_stmts.mpr ⟨s, hs, hq⟩
  refine ⟨h.stmts q hstmt, fun e he x hx => ?_⟩
  have hexpr : x ∈ p.exprs := mem_exprs.mpr ⟨q, hstmt, e, he, hx⟩
  exact ⟨h.exprs x hexpr, hfinite x hexpr⟩

namespace Grammar

/-- A number of the tree is one that a token says, up to its sign; so it is finite if that one is. -/
def SaidBy (w : List Token) : Expr → Prop
  | .literal _ (.number z) => ∃ t ∈ w, t.kind = .numberLit ∧ ∃ x, Literal.parse t.text = .ok (.number x) ∧
      (x.isFinite = true → z.isFinite = true)
  | _ => True

section SaidBy

variable {u w : List Token} {e : Expr}

theorem SaidBy.mono (h : SaidBy u e) (huw : ∀ t ∈ u, t ∈ w) : SaidBy w e := by
  cases e with
  | literal span v =>
    cases v with
    | number z =>
      obtain ⟨t, ht, hrest⟩ := h
      exact ⟨t, huw t ht, hrest⟩
    | _ => trivial
  | _ => trivial

/-- All numbers of the trees are said by the tokens. -/
def AllSaidBy (w : List Token) (es : List Expr) : Prop := ∀ e ∈ es, e.Every (SaidBy w)

theorem AllSaidBy.mono {es : List Expr} (h : AllSaidBy u es) (huw : ∀ t ∈ u, t ∈ w) : AllSaidBy w es :=
  fun e he => (h e he).imp fun _ hx => hx.mono huw

theorem AllSaidBy.node (he : SaidBy w e) (h : AllSaidBy w e.children) : AllSaidBy w [e] :=
  List.forall_mem_singleton.mpr (Expr.every_iff.mpr ⟨he, h⟩)

theorem AllSaidBy.append {es es' : List Expr} (h : AllSaidBy w es) (h' : AllSaidBy w es') : AllSaidBy w (es ++ es') :=
  List.forall_mem_append.mpr ⟨h, h'⟩

end SaidBy

theorem Terminal.saidBy {t : Token} {v : Value} (ht : Terminal [.numberLit, .stringLit] t)
    (hv : Literal.parse t.text = .ok v) (span : Span) : SaidBy [t] (.literal span v) := by
  cases v with
  | number z =>
    refine ⟨t, .head _, ?_, z, hv, id⟩
    rcases List.mem_cons.mp ht.kind_mem with hk | hk
    · exact hk
    · rw [ht.lexical.parse_string (List.mem_singleton.mp hk)] at hv
      cases hv
  | _ => trivial

theorem DerivesExpr.saidBy {n : ExprPart} {w : List Token} {e : n.Tree} (h : DerivesExpr n w e) :
    AllSaidBy w (n.trees e) := by
  induction h with
  | value_expr _ ih | value_cond _ ih | side_expr _ ih | side_cond _ ih | header_side _ ih => exact ih
  | negand_atom _ ih | negand_cond _ ih | expr_term _ ih | term_factor _ ih | factor_atom _ ih | atom_call _ ih => exact ih
  | args_some _ ih | someArgs_one _ ih => exact ih
  | header_binary _ _ _ ihu ihv | expr_binary _ _ _ ihu ihv | term_binary _ _ _ ihu ihv =>
    exact .node trivial ((ihu.mono (by simp +contextual)).append (ihv.mono (by simp +contextual)))
  | cond_binary _ _ _ _ _ ihu ihv =>
    exact .node trivial ((ihu.mono (by simp +contextual)).append (ihv.mono (by simp +contextual)))
  | cond_not _ _ ih | factor_negated _ _ _ ih => exact .node trivial (ih.mono (by simp +contextual))
  | factor_folded _ _ ih =>
    -- the number of the token has the same size
    obtain ⟨t, ht, hk, x, hx, hfinite⟩ := (ih _ (.head _)).self
    exact .node ⟨t, .tail _ ht, hk, x, hx, fun h => Decimal.isFinite_neg (hfinite h)⟩ (List.forall_mem_nil _)
  | atom_literal ht hv => exact .node (ht.saidBy hv _) (List.forall_mem_nil _)
  | atom_boolean | atom_name => exact .node trivial (List.forall_mem_nil _)
  | call _ _ _ _ ih => exact .node trivial (ih.mono (by simp +contextual))
  | args_none => exact List.forall_mem_nil _
  | someArgs_more _ _ _ ihu ihv => exact (ihu.mono (by simp +contextual)).append (ihv.mono (by simp +contextual))

end Grammar

open Grammar

/-- Each number of the tree of a source is said by a token of the source. -/
theorem Program.exprs_saidBy {source : String} {p : Program} (h : parse source = .ok p) :
    ∀ x ∈ p.exprs, SaidBy (Token.scan source).tokens x := by
  intro x hx
  obtain ⟨s, hs, e, he, hx⟩ := mem_exprs.mp hx
  rcases springs_of_parse h s hs with hderived | ⟨y, hy⟩
  · obtain ⟨n, u, t, ht, hmem, hsub⟩ := hderived e he
    exact (ht.saidBy e hmem x hx).mono hsub
  · obtain ⟨span, inner, place, name, op, rfl, rfl⟩ := hy
    obtain rfl := List.mem_singleton.mp he
    simp only [Expr.nodes, List.mem_cons, List.not_mem_nil, or_false] at hx
    rcases hx with rfl | rfl <;> trivial

namespace Token

/-- The token is a number that is too large for a double. -/
def Overflows (t : Token) : Prop := t.kind = .numberLit ∧ ∃ x, Literal.parse t.text = .ok (.number x) ∧ x.isInf = true

/-- What a number says is finite unless it is too large. -/
theorem Lexical.isFinite_of_not_overflows {t : Token} (h : t.Lexical) (hk : t.kind = .numberLit) (hfits : ¬t.Overflows)
    {x : Float} (hx : Literal.parse t.text = .ok (.number x)) : x.isFinite = true := by
  by_contra hinfinite
  refine hfits ⟨hk, x, hx, Decimal.isInf_of_not_isFinite ?_ (Bool.eq_false_iff.mpr hinfinite)⟩
  rw [h.parse_number hk] at hx
  split at hx
  · cases hx
    exact Literal.isNaN_number _
  · cases hx

end Token

/-- If no number of a source is too large, all that its program says are finite. -/
theorem Program.finiteLiterals_of_parse {source : String} {p : Program} (h : parse source = .ok p)
    (hfits : ∀ t ∈ (Token.scan source).tokens, ¬t.Overflows) : p.FiniteLiterals := by
  intro e he
  have hsaid := exprs_saidBy h e he
  cases e with
  | literal span v =>
    cases v with
    | number z =>
      obtain ⟨t, ht, hk, x, hx, hfinite⟩ := hsaid
      exact hfinite ((Token.scan_lexical source t ht).isFinite_of_not_overflows hk (hfits t ht) hx)
    | _ => rfl
  | _ => rfl

theorem Program.parse_ne_escape (source : String) (e : Escape) : parse source ≠ .error (.escape e) := by
  intro h
  have hread := read_ofScan (Token.scan source)
  rw [show ofScan (Token.scan source) = .error (.escape e) from h] at hread
  cases hread

namespace Interpreter

variable {p : Program}

/-- All numbers of the runs of a program are finite: those that the variables of all frames have or started with, in each state
that a run goes through, those that functions are called with, and those that the expressions come to. No run ends because the
remainder of an infinite number is asked for, whatever the interpreter did before. -/
structure RunsFinite (settings : Settings) (p : Program) : Prop where
  declarations {n : Machine} : Walk.Visits settings (.statements p.statements) start n →
    ∀ f ∈ n.scopes.allFrames, ∀ d ∈ f, d.value.Finite ∧ d.initial.Finite
  arguments {printing : Bool} {left : Nat} {span : Span} {name : Data} {f : Function} {values : List Value} {m : Machine} :
    Walk.Reaches settings (.statements p.statements) start (.call printing left span name f values) m →
    ∀ v ∈ values, v.Finite
  results {printing : Bool} {left : Nat} {e : Expr} {m n : Machine} {v : Value} :
    Walk.Reaches settings (.statements p.statements) start (.evaluate printing left e) m →
    Walk.evaluate (Walk.callWith settings printing left) e m = .ok v n → v.Finite
  outcome (destination : Destination) (requests : List Request) :
    (((new settings destination).serveAll requests).run p).1 ≠ .error (.escape .infiniteDividend)

theorem Idle.walk_ne_infiniteDividend {i : Interpreter} (hi : i.Idle) (hp : p.Plain) (hfinite : p.FiniteLiterals)
    (execute : Bool) : (i.walk execute p).1 ≠ .error (.escape .infiniteDividend) := by
  intro h
  have hstart : finiteness.Kept i.machine.scopes := by
    rw [hi.machine_eq]
    exact Discipline.kept_empty
  exact Discipline.failure_of_walk (hp.admits_finiteness hfinite) hstart h rfl

theorem runsFinite (hp : p.Plain) (hfinite : p.FiniteLiterals) (settings : Settings) : RunsFinite settings p := by
  have htakes : finiteness.Takes (.statements p.statements) := hp.admits_finiteness hfinite
  have hstart : finiteness.Kept start.scopes := Discipline.kept_empty.enter
  constructor
  case declarations =>
    intro n hn
    exact (htakes.visits hstart hn).values
  case arguments =>
    intro _ _ _ _ _ _ _ hcall
    exact (htakes.reaches hstart hcall).1.2.2
  case results =>
    intro _ _ _ _ _ _ he hv
    obtain ⟨hexpr, hkept⟩ := htakes.reaches hstart he
    exact ((Discipline.keeps_value hexpr).ok hkept hv).1
  case outcome =>
    intro destination requests h
    obtain ⟨hidle, -⟩ := (idle_new settings destination).served requests
    exact hidle.walk_ne_infiniteDividend hp hfinite true (walk_error.mpr (run_error.mp h))

end Interpreter

/-- A tree is processed by a walk of a new interpreter, with the settings of the mode. -/
theorem exists_walk_of_processTree {tokens : List Token} {p : Program} {mode : Mode} {settings : Settings}
    {destination : Destination} {f : Failure} (h : (processTree tokens p mode settings destination).failure = some f) :
    ∃ execute settings', ((Interpreter.new settings' destination).walk execute p).1 = .error f := by
  cases mode <;>
  · unfold processTree at h
    dsimp only at h
    split at h
    · cases h
    · rename_i hw
      cases h
      exact ⟨_, _, hw⟩

/-- An escape comes from the walk of the tree: a text that is no program is refused with an error. -/
theorem exists_walk_of_process {source : String} {mode : Mode} {settings : Settings} {destination : Destination} {e : Escape}
    (h : (process source mode settings destination).failure = some (.escape e)) :
    ∃ p execute settings', Program.parse source = .ok p ∧
      ((Interpreter.new settings' destination).walk execute p).1 = .error (.escape e) := by
  unfold process at h
  split at h
  · rename_i f hf
    obtain ⟨e', -, rfl⟩ := Token.tokenize_eq_error.mp hf
    cases h
  · split at h
    · cases h
    · split at h
      · rename_i f hf
        cases h
        exact absurd hf (Program.parse_ne_escape source e)
      · rename_i p hp
        split at h
        · cases h
        · obtain ⟨execute, settings', hw⟩ := exists_walk_of_processTree h
          exact ⟨p, execute, settings', hp, hw⟩

namespace Interpreter

/-- Numbers that are not finite come only from literals. If all number literals of the program of a source are finite, all
numbers of its runs are, with any settings; and a source whose processing, in any mode, asks for the remainder of an infinite
number has a number among its tokens that is too large for a double. -/
theorem finite_of_literals (source : String) :
    (∀ p, Program.parse source = .ok p → p.FiniteLiterals → ∀ settings, RunsFinite settings p) ∧
      ∀ mode settings destination,
        (process source mode settings destination).failure = some (.escape .infiniteDividend) →
        ∃ t ∈ (Token.scan source).tokens, t.Overflows := by
  refine ⟨fun p hp hfinite => runsFinite (Program.plain_of_parse hp) hfinite, ?_⟩
  intro mode settings destination h
  by_contra hfits
  obtain ⟨p, execute, settings', hp, hw⟩ := exists_walk_of_process h
  have hfinite : p.FiniteLiterals := Program.finiteLiterals_of_parse hp fun t ht hover => hfits ⟨t, ht, hover⟩
  exact (idle_new settings' destination).walk_ne_infiniteDividend (Program.plain_of_parse hp) hfinite execute hw

/-- A function of remainders, called with what a loop and a change of the sign come to. -/
def remainders : String :=
  "def number f(number a) \x7b return a % 3; \x7d number x = -7; while (x < 9) \x7b x += 2.5; \x7d print(f(-f(x)));"

/-- The remainder of a number with 310 digits. -/
def overflowingChars : List Char := "print(1".toList ++ List.replicate 309 '0' ++ " % 2);".toList

def overflowing : String := String.ofList overflowingChars

def overflowingDigits : List Char := '1' :: List.replicate 309 '0'

/-- The tokens, with any text for the long number. -/
def overflowingTokens (text : String) : List Token :=
  [⟨.print, "print", 0, 5⟩, ⟨.lpar, "(", 5, 6⟩, ⟨.numberLit, text, 6, 316⟩, ⟨.percent, "%", 317, 318⟩,
    ⟨.numberLit, "2", 319, 320⟩, ⟨.rpar, ")", 320, 321⟩, ⟨.semicolon, ";", 321, 322⟩]

/-- The tree, with any number for the long one. -/
def overflowingTree (x : Float) : Program :=
  ⟨.ofOffsets 0 322, [.print (.ofOffsets 0 322) (some (.binary .expression (.ofOffsets 6 320) (.ofText "%")
    (.literal (.ofOffsets 6 316) (.number x)) (.literal (.ofOffsets 319 320) (.number (Literal.number ['2'])))))]⟩

-- The kernel takes long to read a long text back from its bytes. So the source and the text of the long number are turned into
-- lists of characters by `String.toList_ofList`, before anything is evaluated.
set_option maxRecDepth 8000 in
theorem scan_overflowing : Token.scan overflowing = ⟨overflowingTokens (String.ofList overflowingDigits), none⟩ := by
  rw [Token.scan, overflowing, String.toList_ofList]
  rfl

theorem ofScan_overflowingTokens {text : String} (h : Literal.isNumber text.toList = true) :
    Program.ofScan ⟨overflowingTokens text, none⟩ = .ok (overflowingTree (Literal.number text.toList)) := by
  have hparsed : Parse.program (overflowingTokens text) = .ok (overflowingTree (Literal.number text.toList)).statements := rfl
  have hforeign : (overflowingTokens text).find? Token.isForeignNumber = none := by
    simp only [overflowingTokens, Token.isForeignNumber, h, List.find?_eq_none, List.forall_mem_cons]
    decide
  simp only [Program.ofScan, hparsed, hforeign]
  rfl

theorem parse_overflowing : Program.parse overflowing = .ok (overflowingTree (Literal.number overflowingDigits)) := by
  have hnumber : Literal.isNumber (String.ofList overflowingDigits).toList = true := by
    rw [String.toList_ofList]
    decide +kernel
  rw [Program.parse, scan_overflowing, ofScan_overflowingTokens hnumber, String.toList_ofList]

def asksInfinite : Option Failure → Bool
  | some (.escape .infiniteDividend) => true
  | _ => false

theorem eq_of_asksInfinite {f : Option Failure} (h : asksInfinite f = true) : f = some (.escape .infiniteDividend) := by
  unfold asksInfinite at h
  split at h
  · rfl
  · cases h

theorem finite_of_literals_remainders :
    (∃ p, Program.parse remainders = .ok p ∧ p.FiniteLiterals ∧
      ((new .standard .stream).run p).1 = .ok #["-1.5"] ∧ RunsFinite .standard p) ∧
    (process overflowing .execute .standard .stream).failure = some (.escape .infiniteDividend) ∧
      ∃ t ∈ (Token.scan overflowing).tokens, t.Overflows := by
  obtain ⟨p, hp, hfinite, hrun⟩ := exists_of_parse remainders rfl
    (fun p => p.FiniteLiterals ∧ ((new .standard .stream).run p).1.toOption = some #["-1.5"]) (by decide +kernel)
  have hasks : (process overflowing .execute .standard .stream).failure = some (.escape .infiniteDividend) := by
    apply eq_of_asksInfinite
    rw [process, Token.tokenize, scan_overflowing, parse_overflowing]
    decide +kernel
  exact ⟨⟨p, hp, hfinite, eq_ok_of_toOption hrun, (finite_of_literals remainders).1 p hp hfinite .standard⟩, hasks,
    (finite_of_literals overflowing).2 _ _ _ hasks⟩

end Interpreter
end CheckedScript
