import CheckedScript.Proofs.Defining
import CheckedScript.Proofs.Reach

/-! Quiet runs: those in which no print changes a variable by what it prints. What is printed changes a variable only if it
calls a function, so a program that prints no call is quiet; for the prints that a run comes to stand in the program or in
the body of a function that the program has defined. -/

namespace CheckedScript

/-- Does the expression call a function? -/
def Expr.calls : Expr → Bool
  | binary _ _ _ left right => left.calls || right.calls
  | unary _ _ _ operand => operand.calls
  | call _ _ _ => true
  | _ => false

namespace Stmt

mutual

/-- Does the statement hold a print of something that calls a function? -/
def printsCall : Stmt → Bool
  | print _ operand => operand.any Expr.calls
  | branch _ _ thenBlock elseBlock => printsCallBlock thenBlock || printsCallElse elseBlock
  | loop _ _ body => printsCallElse body
  | define _ _ _ params body _ => printsCallBlock params || printsCallElse body
  | _ => false

def printsCallBlock : List Stmt → Bool
  | [] => false
  | s :: rest => s.printsCall || printsCallBlock rest

def printsCallElse : Option (List Stmt) → Bool
  | none => false
  | some block => printsCallBlock block

end

end Stmt

/-- A function with a plain definition whose body prints no call. -/
def Function.Calm (f : Function) : Prop :=
  f.Plain ∧ ∀ d, f.definition = some d → Stmt.printsCallElse d.body = false

theorem Definition.Plain.calm {d : Definition} (h : d.Plain) (hc : Stmt.printsCallElse d.body = false) {f : Signature}
    (hf : d.signature? = some f) : Function.Calm ⟨f, some d⟩ :=
  ⟨⟨d, rfl, h, hf⟩, by rintro _ ⟨⟩; exact hc⟩

/-- A frame is open, and no function prints a call. -/
structure Machine.Calm (m : Machine) : Prop where
  isOpen : m.scopes.outline ≠ []
  functions : ∀ f ∈ m.scopes.functions, f.Calm

namespace Machine.Calm

variable {m m' : Machine} {a : List (Data × Ty)}

theorem tame (h : m.Calm) : m.Tame := ⟨h.isOpen, fun f hf => (h.functions f hf).1⟩

theorem keeps (h : m.Calm) (hk : Keeps a m m') : m'.Calm := by
  refine ⟨(hk.tame h.tame).isOpen, ?_⟩
  rw [hk.functions]
  exact h.functions

theorem enter (h : m.Calm) : Calm { m with scopes := m.scopes.enter } := ⟨by simp, by simpa using h.functions⟩

theorem enterCall (h : m.Calm) {n : Nat} : Calm { m with scopes := m.scopes.enterCall, callDepth := n } :=
  ⟨by simp, by simpa using h.functions⟩

/-- A new function that prints no call. -/
theorem defined (h : m.Calm) {f : Function} (hf : f.Calm) {trace : Array String} : (Walk.defined m f trace).Calm := by
  refine ⟨h.isOpen, fun g hg => ?_⟩
  rcases List.mem_append.mp hg with hg | hg
  · exact h.functions g hg
  · obtain rfl := List.mem_singleton.mp hg
    exact hf

end Machine.Calm

namespace Walk

open Machine (Keeps)

variable {settings : Settings} {t t' : Task} {m m' : Machine}

/-- No print that the task comes to changes a variable by what it prints. -/
def Quiet (settings : Settings) (t : Task) (m : Machine) : Prop :=
  ∀ left loop isLast span e m', Reaches settings t m (.run true left loop isLast (.print span (some e))) m' →
    ∀ v m'', evaluate (callWith settings true left) e m' = .ok v m'' → m''.scopes = m'.scopes

theorem Quiet.of_leads (h : Quiet settings t m) (hl : Leads settings t m t' m') : Quiet settings t' m' :=
  fun left loop isLast span e m₁ hr => h left loop isLast span e m₁ (.step hl hr)

/-- What calls no function leaves the state as it is. -/
theorem evaluate_of_calls {call : Caller} (e : Expr) (he : e.calls = false) {m m' : Machine} {v : Value}
    (hv : evaluate call e m = .ok v m') : m' = m := by
  cases e with
  | literal span u =>
    cases hv
    rfl
  | untyped span what => cases hv
  | identifier span name =>
    simp only [evaluate, bind_ok, judge_ok, pure_ok] at hv
    obtain ⟨_, _, ⟨-, rfl⟩, -, rfl⟩ := hv
    rfl
  | binary form span op e₁ e₂ =>
    simp only [Expr.calls, Bool.or_eq_false_iff] at he
    simp only [evaluate, bind_ok, compute_ok] at hv
    obtain ⟨a, m₁, h₁, b, m₂, h₂, -, rfl⟩ := hv
    rw [evaluate_of_calls e₂ he.2 h₂, evaluate_of_calls e₁ he.1 h₁]
  | unary form span op operand =>
    simp only [evaluate, bind_ok, compute_ok] at hv
    obtain ⟨a, m₁, h₁, -, rfl⟩ := hv
    exact evaluate_of_calls operand he h₁
  | call span name args => cases he
  | missing => cases hv
  | misfit what => cases hv
termination_by structural e

/-- A plain task that prints no call itself. -/
def Task.Calm : Task → Prop
  | statements list => (∀ s ∈ list, s.PlainTop) ∧ Stmt.printsCallBlock list = false
  | run _ _ _ _ s => s.PlainTop ∧ s.printsCall = false
  | block _ _ _ list => Stmt.PlainBlock list ∧ Stmt.printsCallBlock list = false
  | passes _ _ _ _ body _ _ _ => Stmt.PlainBlock body ∧ Stmt.printsCallBlock body = false
  | evaluate _ _ _ | evaluateAll _ _ _ => True
  | call _ _ _ _ f _ => f.Calm

section Calm

variable {printing : Bool} {left : Nat} {loop l : Option Loop} {block : List Stmt}

theorem record_calm {level : Int} {line : String} {u : Unit} (hm : m.Calm)
    (h : record settings level line m = .ok u m') : m'.Calm :=
  hm.keeps (keeping_record.ok h)

theorem evaluate_calm {e : Expr} {v : Value} (hm : m.Calm)
    (h : evaluate (callWith settings printing left) e m = .ok v m') : m'.Calm :=
  hm.keeps ((evaluate_keeps (callWith_keeps printing left) e m hm.tame).ok h)

theorem test_calm {condition : Expr} {holds : Bool} (hm : m.Calm)
    (h : test (callWith settings printing left) condition m = .ok holds m') : m'.Calm := by
  simp only [test, bind_ok, pure_ok] at h
  obtain ⟨v, _, hv, -, rfl⟩ := h
  exact evaluate_calm hm hv

theorem runBlock_calm (hm : m.Calm) (hp : Stmt.PlainBlock block)
    (h : runBlock settings (callWith settings printing left) printing loop block m = .ok l m') : m'.Calm :=
  hm.keeps ((runBlock_keeps (callWith_keeps printing left) printing loop block hp m hm.tame).ok h)

theorem run_calm {s : Stmt} {isLast : Bool} (hm : m.Calm) (hp : s.PlainTop) (hc : s.printsCall = false)
    (h : run settings (callWith settings printing left) printing none isLast s m = .ok l m') : m'.Calm := by
  have plain (hp : s.Plain) : m'.Calm :=
    hm.keeps ((run_keeps (callWith_keeps printing left) printing none isLast s hp m hm.tame).ok h)
  cases s with
  | define span result name params body value =>
    simp only [run, runBlock_params hp.params, bind_ok, pure_ok] at h
    obtain ⟨_, m₁, h, -, rfl⟩ := h
    obtain ⟨-, -, trace, rfl⟩ := defineOnly_ok hp hm.isOpen hp.signature h
    simp only [Stmt.printsCall, Bool.or_eq_false_iff] at hc
    exact hm.defined (hp.calm hc.2 hp.signature)
  | _ => exact plain hp

theorem bindParams_calm {d : Definition} {values : List Value} {u : Unit} (hm : m.Calm) (hd : d.Plain)
    (h : bindParams d.params values (called m) = .ok u m') : m'.Calm :=
  hm.enterCall.keeps ((bindParams_keeps d.params hd.params values _).ok h)

end Calm

/-- What a calm task leads to is calm. -/
theorem Leads.calm (h : Leads settings t m t' m') (ht : t.Calm) (hm : m.Calm) : t'.Calm ∧ m'.Calm := by
  cases h with
  | first hk hr =>
    simp only [Task.Calm, Stmt.printsCallBlock, Bool.or_eq_false_iff] at ht
    exact ⟨⟨ht.1 _ (.head _), ht.2.1⟩, record_calm hm hr⟩
  | next hk hr hs =>
    simp only [Task.Calm, Stmt.printsCallBlock, Bool.or_eq_false_iff] at ht
    refine ⟨⟨fun q hq => ht.1 q (.tail _ hq), ht.2.2⟩, ?_⟩
    exact run_calm (record_calm hm hr) (ht.1 _ (.head _)) ht.2.1 hs
  | head =>
    simp only [Task.Calm, Stmt.printsCallBlock, Bool.or_eq_false_iff] at ht
    exact ⟨⟨ht.1.1.top, ht.2.1⟩, hm⟩
  | tail hs =>
    simp only [Task.Calm, Stmt.printsCallBlock, Bool.or_eq_false_iff] at ht
    refine ⟨⟨ht.1.2, ht.2.2⟩, ?_⟩
    exact hm.keeps ((run_keeps (callWith_keeps _ _) _ _ _ _ ht.1.1 m hm.tame).ok hs)
  | initial hd hu => exact ⟨trivial, hm⟩
  | assigned hd => exact ⟨trivial, hm⟩
  | called hf => exact ⟨trivial, hm⟩
  | printed he => exact ⟨trivial, hm⟩
  | params hs =>
    obtain ⟨f, hf, -, rfl⟩ := Scopes.register_ok.mp hs
    simp only [Task.Calm, Stmt.printsCall, Bool.or_eq_false_iff] at ht
    exact ⟨⟨Definition.Plain.plainParams ht.1, ht.2.1⟩, (hm.defined (Definition.Plain.calm ht.1 ht.2.2 hf)).enterCall⟩
  | condition hc => exact ⟨trivial, hm⟩
  | thenBranch hc hv hholds hr he =>
    simp only [Task.Calm, Stmt.printsCall, Bool.or_eq_false_iff] at ht
    have hm₂ := record_calm (evaluate_calm hm hv) hr
    exact ⟨⟨ht.1.2.1, ht.2.1⟩, (hm₂.keeps ((checkElse_keeps ht.1.2.2 hm₂.tame).ok he)).enter⟩
  | elseBranch hc hv hholds hr he =>
    simp only [Task.Calm, Stmt.printsCall, Bool.or_eq_false_iff] at ht
    have hm₂ := record_calm (evaluate_calm hm hv) hr
    exact ⟨⟨ht.1.2.2, ht.2.2⟩, (hm₂.keeps ((checkBlock_keeps ht.1.2.1 hm₂.tame).ok he)).enter⟩
  | loop hc hb => exact ⟨⟨ht.1.2, ht.2⟩, hm.keeps ((checkBlock_keeps ht.1.2 hm.tame).ok hb)⟩
  | test => exact ⟨trivial, hm⟩
  | pass htest hp hr => exact ⟨ht, (record_calm (test_calm hm htest) hr).enter⟩
  | again htest hp hr hb =>
    have hm₂ := record_calm (test_calm hm htest) hr
    obtain ⟨m₃, hblock, rfl⟩ := inScope_ok.mp hb
    have hk := (runBlock_keeps (callWith_keeps _ _) _ _ _ ht.1 _ hm₂.enter.tame).ok hblock
    exact ⟨ht, hm₂.keeps (hk.leave hm₂.isOpen)⟩
  | left => exact ⟨trivial, hm⟩
  | right hv => exact ⟨trivial, evaluate_calm hm hv⟩
  | operand => exact ⟨trivial, hm⟩
  | arguments hf => exact ⟨trivial, hm⟩
  | call hf hv =>
    refine ⟨hm.functions _ (List.mem_of_find?_eq_some (Scopes.resolve_ok.mp hf)), ?_⟩
    exact hm.keeps ((evaluateAll_keeps (callWith_keeps _ _) _ m hm.tame).ok hv)
  | argument => exact ⟨trivial, hm⟩
  | otherArguments hv => exact ⟨trivial, evaluate_calm hm hv⟩
  | body hd hb hr hp =>
    obtain ⟨⟨d, hd', hplain, -⟩, hc⟩ := ht
    obtain rfl := Option.some.inj (hd'.symm.trans hd)
    have hbody := hplain.body
    have hcalm := hc _ hd
    rw [hb] at hbody hcalm
    exact ⟨⟨hbody, hcalm⟩, bindParams_calm (record_calm hm hr) hplain hp⟩
  | result hd hb hr hp hs hc =>
    obtain ⟨⟨d, hd', hplain, -⟩, -⟩ := ht
    obtain rfl := Option.some.inj (hd'.symm.trans hd)
    have hbody := hplain.body
    rw [hb] at hbody
    exact ⟨trivial, runBlock_calm (bindParams_calm (record_calm hm hr) hplain hp) hbody hs⟩

theorem Reaches.calm (h : Reaches settings t m t' m') (ht : t.Calm) (hm : m.Calm) : t'.Calm ∧ m'.Calm := by
  induction h with
  | here => exact ⟨ht, hm⟩
  | step hl _ ih =>
    obtain ⟨ht₁, hm₁⟩ := hl.calm ht hm
    exact ih ht₁ hm₁

/-- A calm task prints nothing that changes a variable. -/
theorem quiet_of_calm (ht : t.Calm) (hm : m.Calm) : Quiet settings t m := by
  intro left loop isLast span e m' hr v m'' hv
  obtain ⟨⟨-, hc⟩, -⟩ := hr.calm ht hm
  simp only [Stmt.printsCall, Option.any_some] at hc
  rw [evaluate_of_calls e hc hv]

end Walk
end CheckedScript
