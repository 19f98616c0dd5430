import CheckedScript.Proofs.Breaks
import CheckedScript.Proofs.Defining
import CheckedScript.Proofs.Parsing

/-! A program that runs to its end is a program that checks. The run looks at a branch that it does not take, at the body of a
loop and at the body of a function by the very checks that are made of a program that is not run, and whatever it runs it
has checked before. So the two walks meet the same questions, though not in the same order; a statement that is run
outside of a loop is one that a check accepts in the same place. -/

namespace CheckedScript

namespace Machine

variable {m n m' n' : Machine} {a : List (Data × Ty)}

/-- Two states that the static rules cannot tell apart. -/
structure Alike (m n : Machine) : Prop where
  outline : n.scopes.outline = m.scopes.outline
  functions : n.scopes.functions = m.scopes.functions

namespace Alike

theorem wider (h : Alike m n) (ho : m.scopes.outline ≠ []) : m.scopes.Wider n.scopes :=
  .of_alike ho h.outline h.functions

theorem of_keeps (h : Keeps [] m n) : Alike m n := ⟨h.same_outline, h.functions⟩

theorem symm (h : Alike m n) : Alike n m := ⟨h.outline.symm, h.functions.symm⟩

/-- What a run adds to one state a check adds to the other. -/
theorem step (h : Alike m n) (hm : Keeps a m m') (hn : Adds a n n') : Alike m' n' :=
  ⟨by rw [hn.outline, hm.outline, h.outline], by rw [hn.functions, hm.functions, h.functions]⟩

theorem isOpen (h : Alike m n) (ho : m.scopes.outline ≠ []) : n.scopes.outline ≠ [] := by
  rw [h.outline]
  exact ho

theorem defining (h : Alike m n) {f : Function} : Alike (Walk.defining m f) (Walk.defining n f) := by
  refine ⟨?_, ?_⟩
  · simp only [Walk.defining, Scopes.outline_enterCall]
    exact congrArg (fun o => [] :: o.getLast?.toList) h.outline
  · simp only [Walk.defining, Scopes.functions_enterCall, h.functions]

theorem defined (h : Alike m n) {f : Function} {trace trace' : Array String} :
    Alike (Walk.defined m f trace) (Walk.defined n f trace') := by
  refine ⟨h.outline, ?_⟩
  simp only [Walk.defined, h.functions]

end Alike
end Machine

namespace Walk

open Machine (Adds Keeps Alike)

variable {settings : Settings} {call : Caller} {printing : Bool} {m n m' : Machine} {loop' : Option Loop}

theorem checkBlock_none {block : List Stmt} (h : checkBlock settings none block m = .ok loop' m') : loop' = none := by
  obtain ⟨rfl, -⟩ := (checkBlock_legal settings none Loop.atMostOne_none block m).ok h
  exact Loop.spend_none

theorem checkElse_none {block : Option (List Stmt)} (h : checkElse settings none block m = .ok loop' m') :
    loop' = none := by
  obtain ⟨rfl, -⟩ := (checkElse_legal settings none Loop.atMostOne_none block m).ok h
  exact Loop.spend_none

theorem run_none {isLast : Bool} {s : Stmt} (h : run settings call printing none isLast s m = .ok loop' m') :
    loop' = none := by
  obtain ⟨hl, -⟩ := (run_spends none Loop.atMostOne_none isLast s m).ok h
  rw [Loop.spend_none] at hl
  exact Option.map_eq_none_iff.mp hl

/-- A declaration with a value is refused for no other reason than one without. -/
theorem declare_none_of_declare {span : Span} {type : Ty} {name : Data} {value : Option Value} {d : Declaration}
    (ho : m.scopes.outline ≠ []) (hu : m.scopes.ensureUndeclared name span = .ok ())
    (h : declare span type name value n = .ok d m') : ∃ d' m₁, declare span type name none m = .ok d' m₁ := by
  simp only [declare, bind_ok, judge_ok] at h ⊢
  obtain ⟨d₁, _, ⟨hd₁, -⟩, -⟩ := h
  obtain ⟨first, hf, -⟩ := Declaration.make_ok.mp hd₁
  have hs := Scopes.declare_of_undeclared (d := ⟨name, type, first, first⟩) ho hu
  exact ⟨_, _, _, m, ⟨Declaration.make_ok.mpr ⟨first, hf, rfl⟩, rfl⟩, (), _, change_ok.mpr ⟨_, hs, rfl⟩, rfl⟩

/-- Both branches of an `if` were accepted, one after the other or not; then so is the `if`. -/
theorem check_branch_of_blocks {settings' : Settings} {isLast : Bool} {span : Span} {condition : Expr}
    {thenBlock : List Stmt} {elseBlock : Option (List Stmt)} (hf : m.scopes.checkCondition condition = .ok ())
    (hw : n.scopes.Wider m.scopes) (hp : (Stmt.branch span condition thenBlock elseBlock).Plain)
    (h : ∃ st₁ st₂, (∃ n₁, checkBlock st₁ none thenBlock { n with scopes := n.scopes.enter } = .ok none n₁) ∧
      ∃ n₂, checkElse st₂ none elseBlock n = .ok none n₂) :
    ∃ m', check settings' none isLast (.branch span condition thenBlock elseBlock) m = .ok none m' := by
  obtain ⟨st₁, st₂, ⟨n₁, ht⟩, n₂, he⟩ := h
  obtain ⟨m₁, hm₁⟩ := checkBlock_wider (n := { m with scopes := m.scopes.enter }) settings' none thenBlock hp.2.1 hw.enter ht
  have hs := inScope_ok.mpr ⟨m₁, hm₁, rfl⟩
  have hback := (inScope_adds hw.right_open (checkBlock_adds settings' none thenBlock hp.2.1 _ (by simp))).ok hs
  obtain ⟨m₂, hm₂⟩ := checkElse_wider settings' none elseBlock hp.2.2 hw he
  rw [hback] at hs
  refine ⟨m₂, ?_⟩
  simp only [check, bind_ok, judge_ok, pure_ok]
  exact ⟨(), m, ⟨hf, rfl⟩, none, m, hs, none, m₂, hm₂, by simp [afterBranch_eq], rfl⟩

mutual

/-- A statement that was run, outside of a loop, is accepted by a check in the same place. -/
theorem check_of_run (hc : CallKeeps call) (settings' : Settings) (isLast : Bool) (s : Stmt) (hp : s.Plain)
    {m m' : Machine} {loop' : Option Loop} (hm : m.Tame)
    (hr : run settings call printing none isLast s m = .ok loop' m') :
    ∃ n, check settings' none isLast s m = .ok none n := by
  cases s with
  | declare span type name init =>
    simp only [run, bind_ok, judge_ok] at hr
    obtain ⟨_, _, ⟨hd, rfl⟩, _, _, ⟨hu, rfl⟩, hr⟩ := hr
    have hdecl : ∃ value d n n', declare span type name value n = .ok d n' := by
      cases init with
      | none =>
        simp only [bind_ok] at hr
        obtain ⟨value, n, -, d, n', hn, -⟩ := hr
        exact ⟨value, d, n, n', hn⟩
      | some e =>
        simp only [bind_ok] at hr
        obtain ⟨_, _, -, value, n, -, d, n', hn, -⟩ := hr
        exact ⟨value, d, n, n', hn⟩
    obtain ⟨value, d, n, n', hn⟩ := hdecl
    obtain ⟨d', m₁, hm₁⟩ := declare_none_of_declare hm.isOpen hu hn
    simp only [check, bind_ok, judge_ok, pure_ok]
    exact ⟨m₁, (), m, ⟨hd, rfl⟩, (), m, ⟨hu, rfl⟩, d', m₁, hm₁, trivial, rfl⟩
  | param span type name =>
    obtain rfl := run_none hr
    exact ⟨m', hr⟩
  | assign span name op e =>
    simp only [run, bind_ok, judge_ok] at hr
    obtain ⟨d, _, ⟨hd, rfl⟩, -⟩ := hr
    simp only [check, bind_ok, judge_ok, pure_ok]
    exact ⟨m, d, m, ⟨hd, rfl⟩, trivial, rfl⟩
  | call span name args =>
    simp only [run, bind_ok, judge_ok] at hr
    obtain ⟨f, _, ⟨hf, rfl⟩, -⟩ := hr
    simp only [check, bind_ok, judge_ok, pure_ok]
    exact ⟨m, f, m, ⟨hf, rfl⟩, trivial, rfl⟩
  | define span result name params body value => exact hp.elim
  | print span operand =>
    simp only [run, bind_ok, judge_ok] at hr
    obtain ⟨_, _, ⟨he, rfl⟩, -⟩ := hr
    simp only [check, bind_ok, judge_ok, pure_ok]
    exact ⟨m, (), m, ⟨he, rfl⟩, trivial, rfl⟩
  | branch span condition thenBlock elseBlock =>
    simp only [run, bind_ok, judge_ok] at hr
    obtain ⟨_, _, ⟨hf, rfl⟩, v, m₁, hv, _, m₂, hrec, hr⟩ := hr
    have hk : Keeps [] m m₂ := by
      obtain ⟨trace, rfl⟩ := record_ok hrec
      exact ((evaluate_keeps hc condition m hm).ok hv).trans .of_scopes
    have hm₂ := hk.tame hm
    refine check_branch_of_blocks hf ((Alike.of_keeps hk).symm.wider hm₂.isOpen) hp ?_
    split at hr <;> simp only [bind_ok] at hr
    · obtain ⟨l₁, m₃, he, l₂, m₄, ht, -⟩ := hr
      obtain rfl := checkElse_none he
      obtain rfl := (checkElse_adds settings none elseBlock hp.2.2 m₂ hm₂.isOpen).ok he
      obtain ⟨_, ht, -⟩ := inScope_ok.mp ht
      exact ⟨settings', settings, checkBlock_of_run hc settings' thenBlock hp.2.1 hm₂.enter ht, _, he⟩
    · obtain ⟨l₁, m₃, ht, l₂, m₄, he, -⟩ := hr
      obtain rfl := (inScope_adds hm₂.isOpen (checkBlock_adds settings none thenBlock hp.2.1 _ (by simp))).ok ht
      obtain ⟨_, ht, -⟩ := inScope_ok.mp ht
      obtain rfl := checkBlock_none ht
      exact ⟨settings, settings', ⟨_, ht⟩, checkElse_of_run hc settings' elseBlock hp.2.2 hm₂ he⟩
  | loop span condition body =>
    cases body with
    | none => exact hp.2.elim
    | some block =>
      simp only [run, bind_ok, judge_ok] at hr
      obtain ⟨_, _, ⟨hf, rfl⟩, l₁, m₁, hb, -⟩ := hr
      have hw := Scopes.Wider.of_alike (s := m.scopes) hm.isOpen rfl rfl
      obtain ⟨n₁, hn₁⟩ := inScope_wider (fun _ _ h => checkBlock_wider settings' (some .fresh) block hp.2 hw.enter h) hb
      simp only [check, bind_ok, judge_ok, pure_ok]
      exact ⟨n₁, (), m, ⟨hf, rfl⟩, l₁, n₁, hn₁, trivial, rfl⟩
  | breakOut span =>
    simp only [run, bind_ok, judge_ok, Loop.checkBreak, reduceCtorEq, false_and, exists_const] at hr
  | misfit what => exact hp.elim
termination_by structural s

theorem checkBlock_of_run (hc : CallKeeps call) (settings' : Settings) (block : List Stmt) (hp : Stmt.PlainBlock block)
    {m m' : Machine} {loop' : Option Loop} (hm : m.Tame)
    (hr : runBlock settings call printing none block m = .ok loop' m') :
    ∃ n, checkBlock settings' none block m = .ok none n := by
  cases block with
  | nil => exact ⟨m, rfl⟩
  | cons s rest =>
    simp only [runBlock, bind_ok] at hr
    obtain ⟨l₁, m₁, h₁, h₂⟩ := hr
    obtain rfl := run_none h₁
    obtain ⟨n₁, hn₁⟩ := check_of_run hc settings' rest.isEmpty s hp.1 hm h₁
    have hk := (run_keeps hc printing none rest.isEmpty s hp.1 m hm).ok h₁
    obtain ⟨n₂, hn₂⟩ := checkBlock_of_run hc settings' rest hp.2 (hk.tame hm) h₂
    -- the check of the rest was found where the run had got to; it holds where the check has got to
    have ha := (check_adds settings' none rest.isEmpty s hp.1 m hm.isOpen).ok hn₁
    have hw := (Alike.step ⟨rfl, rfl⟩ hk ha).wider (hk.tame hm).isOpen
    obtain ⟨n₃, hn₃⟩ := checkBlock_wider settings' none rest hp.2 hw hn₂
    exact ⟨n₃, by simp only [checkBlock, bind_ok]; exact ⟨none, n₁, hn₁, hn₃⟩⟩
termination_by structural block

theorem checkElse_of_run (hc : CallKeeps call) (settings' : Settings) (block : Option (List Stmt))
    (hp : Stmt.PlainElse block) {m m' : Machine} {loop' : Option Loop} (hm : m.Tame)
    (hr : runElse settings call printing none block m = .ok loop' m') :
    ∃ n, checkElse settings' none block m = .ok none n := by
  cases block with
  | none => exact ⟨m, rfl⟩
  | some block =>
    obtain ⟨_, hb, -⟩ := inScope_ok.mp hr
    obtain ⟨n, hn⟩ := checkBlock_of_run hc settings' block hp hm.enter hb
    exact ⟨_, inScope_ok.mpr ⟨n, hn, rfl⟩⟩
termination_by structural block

end

/-- A definition that one state accepts is accepted by a state that is alike, and both stay alike. -/
theorem defineOnly_of_alike (settings' : Settings) {d : Definition} (hd : d.Plain) (hm : m.Tame) (ha : Alike m n) {u : Unit}
    (h : defineOnly settings d m = .ok u m') :
    m'.Tame ∧ ∃ n', defineOnly settings' d n = .ok () n' ∧ Alike m' n' := by
  have hf := hd.signature
  generalize (⟨d.result, d.name, (d.params.flatMap Stmt.declares).map Prod.snd⟩ : Signature) = f at hf
  obtain ⟨hnew, hacc, trace, rfl⟩ := defineOnly_ok hd hm.isOpen hf h
  have hnew' : n.scopes.function? f.name f.params.length = none := by
    rw [Scopes.function?, ha.functions]
    exact hnew
  have hw := (ha.defining (f := ⟨f, some d⟩)).wider (by simp [defining])
  obtain ⟨trace', hn⟩ := defineOnly_of_accepts hd (ha.isOpen hm.isOpen) hf hnew' (hacc.wider hd hw settings')
  exact ⟨hm.defined ⟨d, rfl, hd, hf⟩, _, hn, ha.defined⟩

/-- One statement of the outermost level: what its run accepts its check accepts, and the states stay alike. -/
theorem check_of_run_top (settings' : Settings) {left : Nat} {isLast : Bool} {s : Stmt} (hp : s.PlainTop) (hm : m.Tame)
    (ha : Alike m n) (hr : run settings (callWith settings printing left) printing none isLast s m = .ok loop' m') :
    m'.Tame ∧ ∃ l n', check settings' none isLast s n = .ok l n' ∧ Alike m' n' := by
  have hc : CallKeeps (callWith settings printing left) := callWith_keeps printing left
  have plain (hp : s.Plain) : m'.Tame ∧ ∃ l n', check settings' none isLast s n = .ok l n' ∧ Alike m' n' := by
    obtain ⟨n₁, hn₁⟩ := check_of_run hc settings' isLast s hp hm hr
    obtain ⟨n₂, hn₂⟩ := check_wider settings' none isLast s hp (ha.wider hm.isOpen) hn₁
    have hk := (run_keeps hc printing none isLast s hp m hm).ok hr
    have had := (check_adds settings' none isLast s hp n (ha.isOpen hm.isOpen)).ok hn₂
    exact ⟨hk.tame hm, none, n₂, hn₂, ha.step hk had⟩
  cases s with
  | define span result name params body value =>
    simp only [run, runBlock_params hp.params, bind_ok, pure_ok] at hr
    obtain ⟨_, m₁, hr, -, rfl⟩ := hr
    obtain ⟨hm', n', hn', ha'⟩ := defineOnly_of_alike settings' hp hm ha hr
    refine ⟨hm', none, n', ?_, ha'⟩
    simp only [check, bind_ok, pure_ok]
    exact ⟨(), n', hn', trivial, rfl⟩
  | _ => exact plain hp

theorem statements_of_run (settings' : Settings) {block : List Stmt} (hp : ∀ s ∈ block, s.PlainTop) (hm : m.Tame)
    (ha : Alike m n) {u : Unit} (hr : statements settings true block m = .ok u m') :
    ∃ n', statements settings' false block n = .ok () n' := by
  induction block generalizing m n with
  | nil => exact ⟨n, rfl⟩
  | cons s rest ih =>
    cases hk : s.kind? with
    | none => simp [statements, hk, bind_ok, throw_ok] at hr
    | some k =>
      simp only [statements, hk, if_true, if_false, Bool.false_eq_true, bind_ok] at hr ⊢
      obtain ⟨_, m₁, h₁, l, m₂, h₂, h₃⟩ := hr
      obtain ⟨trace, rfl⟩ := record_ok h₁
      obtain ⟨trace', hn₁⟩ := record_eq settings' 1 s!"statement {k.label} at {s.span.text}" n
      obtain ⟨hm₂, l', n₂, hn₂, ha₂⟩ := check_of_run_top (m := { m with trace }) (n := { n with trace := trace' }) settings'
        (hp s (.head _)) ⟨hm.isOpen, hm.functions⟩ ⟨ha.outline, ha.functions⟩ h₂
      obtain ⟨n₃, hn₃⟩ := ih (fun q hq => hp q (.tail _ hq)) hm₂ ha₂ h₃
      exact ⟨n₃, (), _, hn₁, l', n₂, hn₂, hn₃⟩

/-- A plain program that was run to its end is accepted by the check of a program, with whatever settings either is done. -/
theorem program_of_run (settings' : Settings) {p : Program} (hp : p.Plain) {m n : Machine}
    (hs : m.scopes.functions = []) (hs' : n.scopes.functions = []) (ho : n.scopes.outline = m.scopes.outline)
    {u : Unit} (hr : program settings true p m = .ok u m') : ∃ n', program settings' false p n = .ok () n' := by
  obtain ⟨m₁, h₁, -⟩ := inScope_ok.mp hr
  have hm : Machine.Tame { m with scopes := m.scopes.enter } := ⟨by simp, by simp [hs]⟩
  have ha : Alike { m with scopes := m.scopes.enter } { n with scopes := n.scopes.enter } := ⟨by simp [ho], by simp [hs, hs']⟩
  obtain ⟨n₁, hn₁⟩ := statements_of_run settings' hp hm ha h₁
  exact ⟨_, inScope_ok.mpr ⟨n₁, hn₁, rfl⟩⟩

end Walk
namespace Interpreter

variable {i : Interpreter} {p : Program}

theorem validate_ok : (i.validate p).1 = .ok () ↔ ∃ m, Walk.program i.settings false p i.machine = .ok () m := by
  simp only [validate, walk]
  cases Walk.program i.settings false p i.machine <;> simp

theorem run_ok {output : Array String} :
    (i.run p).1 = .ok output ↔ ∃ m, Walk.program i.settings true p i.machine = .ok () m ∧ m.output = output := by
  simp only [run, walk]
  cases Walk.program i.settings true p i.machine <;> simp [Except.map, after]

theorem run_error {f : Failure} :
    (i.run p).1 = .error f ↔ ∃ m, Walk.program i.settings true p i.machine = .error f m := by
  simp only [run, walk]
  cases Walk.program i.settings true p i.machine <;> simp [Except.map]

/-- The state in which an interpreter starts to walk the statements of its first program. -/
def start : Machine := ⟨Scopes.empty.enter, #[], 0, #[]⟩

theorem new_run_ok {settings : Settings} {dest : Destination} {output : Array String} :
    ((Interpreter.new settings dest).run p).1 = .ok output ↔
      ∃ m, Walk.statements settings true p.statements start = .ok () m ∧ m.output = output := by
  rw [run_ok]
  constructor
  · rintro ⟨m, hm, rfl⟩
    obtain ⟨m₁, hm₁, rfl⟩ := Walk.inScope_ok.mp hm
    exact ⟨m₁, hm₁, rfl⟩
  · rintro ⟨m, hm, rfl⟩
    exact ⟨_, Walk.inScope_ok.mpr ⟨m, hm, rfl⟩, rfl⟩

end Interpreter

/-- Evaluation finds that a source can be read and that its program has the property. The source is given by its characters,
since reading them back from the bytes of a text takes the kernel most of the time. -/
theorem exists_of_parse (source : String) {cs : List Char} (hcs : source = String.ofList cs) (P : Program → Prop)
    [DecidablePred P] (h : (match Program.ofScan (Token.scanFrom 0 0 cs) with
      | .ok p => decide (P p)
      | .error _ => false) = true) : ∃ p, Program.parse source = .ok p ∧ P p := by
  have hparse : Program.parse source = Program.ofScan (Token.scanFrom 0 0 cs) := by
    rw [Program.parse, Token.scan, hcs, String.toList_ofList]
  rw [hparse]
  cases hp : Program.ofScan (Token.scanFrom 0 0 cs) with
  | error e =>
    rw [hp] at h
    cases h
  | ok p =>
    rw [hp] at h
    exact ⟨p, rfl, of_decide_eq_true h⟩

theorem eq_ok_of_toOption {α : Type} {x : Except Failure α} {a : α} (h : x.toOption = some a) : x = .ok a := by
  cases x with
  | error e => cases h
  | ok b =>
    cases h
    rfl

/-- No unchecked code escapes a run that ends well: a program that one interpreter runs to its end is accepted by the check of
any other, whatever the limits of either and whether or not they run it as a script. So what was never reached is legal
too: branches not taken, bodies of loops not entered, functions not called. -/
theorem validate_of_run {source : String} {p : Program} (hp : Program.parse source = .ok p) {runner checker : Settings}
    {dest dest' : Destination} {output : Array String} (hr : ((Interpreter.new runner dest).run p).1 = .ok output) :
    ((Interpreter.new checker dest').validate p).1 = .ok () := by
  obtain ⟨m, hm, -⟩ := Interpreter.run_ok.mp hr
  exact Interpreter.validate_ok.mpr (Walk.program_of_run checker (Program.plain_of_parse hp) rfl rfl rfl hm)

/-- A script whose function is not called, whose loop is not entered and whose branch is not taken. -/
def unreached : String :=
  "boolean g = false; def boolean f(boolean x) \x7b x = g; return x; \x7d while (g) \x7b if (g) \x7b break; \x7d \x7d print(g);"

theorem validate_of_run_unreached : ∃ p, Program.parse unreached = .ok p ∧
    ((Interpreter.new ⟨true, 0, 0, 3⟩ .stream).run p).1 = .ok #["false"] ∧
    ∀ checker dest, ((Interpreter.new checker dest).validate p).1 = .ok () := by
  obtain ⟨p, hp, hr⟩ := exists_of_parse unreached rfl
    (fun p => ((Interpreter.new ⟨true, 0, 0, 3⟩ .stream).run p).1.toOption = some #["false"]) (by decide +kernel)
  have hr := eq_ok_of_toOption hr
  exact ⟨p, hp, hr, fun checker dest => validate_of_run hp hr⟩

end CheckedScript
