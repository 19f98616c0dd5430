import CheckedScript.Proofs.Agreement
import CheckedScript.Proofs.Crossing
import CheckedScript.Proofs.Sound

/-! Type safety. Where the static rules accept an expression, its evaluation gives a value of the type that they say, and where
they accept a statement its run ends well or for a reason that they do not speak of: a limit, arithmetic, or a break. A
statement is checked in the state in which it runs, which is not the one in which the program was checked; but the two
differ in what is wider and in values only, and the rules see neither. -/

namespace CheckedScript

/-- The values have the types, one by one. -/
def Value.Fit : List Value → List Ty → Prop
  | [], [] => True
  | v :: values, t :: types => v.type? = some t ∧ Value.Fit values types
  | _, _ => False

/-- A limit was reached, or the arithmetic of the program went wrong; or a break was refused, and then `C`. -/
def Failure.Permitted (C : Prop) (f : Failure) : Prop := f.IsFault ∨ f.IsBreak ∧ C

namespace Walk

open Machine (Adds Keeps)
open Loop (Ready AtMostOne)

section Rules

variable {α β : Type} {settings : Settings} {C C' : Prop} {m : Machine} {a b : List (Data × Ty)} {w : Walk α}
  {k : α → Walk β} {P : α → Prop} {Q : β → Prop}

/-- If the walk ends well its result has `P`, the state is sound again and the variables `a` were added; if it ends badly, the
reason is a permitted one. -/
def Proceeds (settings : Settings) (C : Prop) (a : List (Data × Ty)) (w : Walk α) (m : Machine) (P : α → Prop) : Prop :=
  Ends w m (fun x m' => P x ∧ Sound settings m' ∧ Keeps a m m') (fun e _ => e.Permitted C)

theorem Proceeds.mono (h : Proceeds settings C a w m P) (hC : C → C') : Proceeds settings C' a w m P :=
  Ends.imp h (fun _ _ hg => hg) fun _ _ he => he.imp_right fun hb => ⟨hb.1, hC hb.2⟩

/-- What comes next may use where the walk has got to. -/
theorem Proceeds.bind (h : Proceeds settings C a w m P)
    (hk : ∀ x m', w m = .ok x m' → P x → Sound settings m' → Keeps a m m' → Proceeds settings C b (k x) m' Q) :
    Proceeds settings C (a ++ b) (w >>= k) m Q := by
  refine ends_bind.mpr (ends_iff.mpr ⟨fun x m' hw => ?_, fun e m' he => h.error he⟩)
  obtain ⟨hx, hm', hkeep⟩ := h.ok hw
  refine Ends.imp (hk x m' hw hx hm' hkeep) ?_ fun _ _ he => he
  rintro y m'' ⟨hy, hm'', hkeep'⟩
  exact ⟨hy, hm'', hkeep.trans hkeep'⟩

/-- After a walk that adds nothing. -/
theorem Proceeds.seq (h : Proceeds settings C [] w m P)
    (hk : ∀ x m', w m = .ok x m' → P x → Sound settings m' → Keeps [] m m' → Proceeds settings C b (k x) m' Q) :
    Proceeds settings C b (w >>= k) m Q := h.bind hk

theorem Proceeds.of_keeping (h : Ends w m (fun x m' => P x ∧ m'.scopes.Sound) (fun e _ => e.Permitted C))
    (hk : Keeping a w m) (hm : Sound settings m) : Proceeds settings C a w m P := by
  refine (h.and hk).imp ?_ fun _ _ he => he.1
  rintro x m' ⟨⟨hx, hs⟩, hkeep⟩
  exact ⟨hx, hm.keeps hkeep hs, hkeep⟩

theorem proceeds_pure {x : α} (h : P x) (hm : Sound settings m) : Proceeds settings C [] (pure x) m P :=
  ⟨h, hm, Keeps.refl m⟩

/-- A rule that says yes leaves the state as it is. -/
theorem proceeds_judge {rule : Scopes → Except Failure α} {x : α} (h : rule m.scopes = .ok x)
    (hk : Proceeds settings C b (k x) m Q) : Proceeds settings C b (judge rule >>= k) m Q :=
  ends_bind.mpr (ends_of_ok (judge_eq h) hk)

theorem proceeds_compute {span : Span} {r : Except Failure Value} {t : Ty} (h : Operates r t) (hm : Sound settings m) :
    Proceeds settings C [] (compute span r) m (fun v => v.type? = some t) := by
  refine ends_compute.mpr ⟨fun v hv => ⟨?_, hm, Keeps.refl m⟩, fun e he => ?_⟩
  · subst hv
    exact h
  · subst he
    exact Or.inl (Failure.IsFault.orAt h span)

theorem proceeds_record {level : Int} {line : String} (hm : Sound settings m) :
    Proceeds settings C [] (record settings level line) m fun _ => True :=
  .of_keeping (ends_record fun _ => ⟨trivial, hm.scopes⟩) keeping_record hm

theorem proceeds_print {line : String} (hm : Sound settings m) : Proceeds settings C [] (print line) m fun _ => True :=
  .of_keeping (ends_print.mpr ⟨trivial, hm.scopes⟩) keeping_print hm

theorem proceeds_declare {span : Span} {type : Ty} {name : Data} {value : Option Value} (ht : type.Simple)
    (hn : name.IsText) (hu : m.scopes.ensureUndeclared name span = .ok ())
    (hv : ∀ v, value = some v → v.type? = some type) (hm : Sound settings m) :
    Proceeds settings C [(name, type)] (declare span type name value) m fun _ => True := by
  have hdefault : ∃ first, type.default? = some first := by
    cases type with
    | other n => exact ht.elim
    | _ => exact ⟨_, rfl⟩
  obtain ⟨first, hf⟩ := hdefault
  have hmake : Declaration.make name type value none = .ok ⟨name, type, value.getD first, first⟩ :=
    Declaration.make_ok.mpr ⟨first, hf, rfl⟩
  have htyped : (value.getD first).type? = some type := by
    cases value with
    | none => exact Ty.default?_type hf
    | some v => exact hv v rfl
  refine .of_keeping ?_ keeping_declare hm
  simp only [declare, ends_bind, ends_judge_match, hmake]
  refine ends_change.mpr ⟨fun s hs => ?_, fun e he => ?_⟩
  · obtain ⟨-, rfl⟩ := Scopes.declare_ok hs
    exact ⟨trivial, hm.scopes.add hn hu htyped⟩
  · rw [Scopes.declare_of_undeclared hm.scopes.isOpen hu] at he
    cases he

theorem proceeds_assign {name : Data} {d : Declaration} {v : Value} (hd : m.scopes.get? name = some d)
    (hv : v.type? = some d.type) (hm : Sound settings m) :
    Proceeds settings C [] (change fun s => .ok (s.assign name v)) m fun _ => True := by
  refine .of_keeping (ends_change.mpr ⟨fun s hs => ?_, fun _ he => nomatch he⟩) keeping_assign hm
  cases hs
  exact ⟨trivial, hm.scopes.assign hd hv⟩

theorem proceeds_inScope (h : Proceeds settings C a w { m with scopes := m.scopes.enter } P) (hm : Sound settings m) :
    Proceeds settings C [] (inScope w) m P := by
  refine ends_inScope.mpr (Ends.imp h ?_ fun _ _ he => he)
  rintro x m' ⟨hx, hm', hk⟩
  have hleave := hk.leave hm.scopes.isOpen
  refine ⟨hx, hm.keeps hleave (hm'.scopes.leave ?_), hleave⟩
  rw [hk.outline]
  simpa using hm.scopes.isOpen

/-- A call leaves sound globals, and the other frames of the caller as they were. -/
theorem proceeds_inCall (h : Proceeds settings C a w (called m) P) (hm : Sound settings m) :
    Proceeds settings C [] (inCall w) m P := by
  refine ends_inCall.mpr (Ends.imp h ?_ fun _ _ he => he)
  rintro x m' ⟨hx, hm', hk⟩
  have hleave := hk.leaveCall hm.scopes.isOpen
  refine ⟨hx, hm.keeps hleave ?_, hleave⟩
  obtain ⟨⟨g, locals⟩, hstack, hsound⟩ := hm.scopes
  obtain ⟨k, hstack', hsound'⟩ := hm'.scopes
  obtain ⟨k₁, hk₁, -, hscopes⟩ := hk.leaveCall_scopes hstack
  obtain rfl : k = k₁ := Option.some.inj (hstack'.symm.trans hk₁)
  exact ⟨⟨k.globals, locals⟩, by rw [hscopes], hsound'.globals, hsound.locals⟩

/-- A check that can only fail at a break, and that gives back the state. -/
theorem proceeds_check (h : Ends w m (fun _ _ => True) fun e _ => e.IsBreak ∧ C)
    (hs : Ends w m (fun _ m' => m' = m) fun _ m' => m' = m) (hm : Sound settings m) :
    Proceeds settings C [] w m fun _ => True := by
  refine (h.and hs).imp ?_ fun _ _ he => Or.inr he.1
  rintro x m' ⟨-, rfl⟩
  exact ⟨trivial, hm, Keeps.refl m'⟩

end Rules

section Run

variable {settings : Settings} {printing : Bool} {left : Nat}

/-- Calls of functions of the state, with values that fit, give values of the result type. -/
def CallSafe (settings : Settings) (printing : Bool) (left : Nat) : Prop :=
  ∀ span name f values m, Sound settings m → f ∈ m.scopes.functions → Value.Fit values f.signature.params →
    Proceeds settings (Crosses settings (.call printing left span name f values) m) []
      (callWith settings printing left span name f values) m fun v => v.type? = some f.signature.result

mutual

theorem evaluate_safe (hc : CallSafe settings printing left) (e : Expr) (he : e.Plain) {m : Machine}
    (hm : Sound settings m) {t : Ty} (ht : m.scopes.infer e = .ok t) :
    Proceeds settings (Crosses settings (.evaluate printing left e) m) [] (evaluate (callWith settings printing left) e) m
      fun v => v.type? = some t := by
  cases e with
  | literal span v =>
    refine proceeds_pure ?_ hm
    simp only [Scopes.infer, Value.typeOf] at ht
    split at ht <;> cases ht
    assumption
  | untyped span what => exact he.elim
  | identifier span name =>
    obtain ⟨d, hd, rfl⟩ := Scopes.infer_identifier_ok.mp ht
    exact proceeds_judge hd (proceeds_pure (hm.scopes.get?_typed (Scopes.lookup_ok.mp hd).2) hm)
  | binary form span op e₁ e₂ =>
    obtain ⟨s₁, h₁, s₂, h₂, hop⟩ := Scopes.infer_binary_ok.mp ht
    refine ((evaluate_safe hc e₁ he.2.1 hm h₁).mono (·.of_leads .left)).seq fun a m₁ hw₁ ha hm₁ hk₁ => ?_
    have h₂' := (hk₁.wider hm.scopes.isOpen).infer e₂ h₂
    refine ((evaluate_safe hc e₂ he.2.2 hm₁ h₂').mono (·.of_leads (.right hw₁))).seq fun b m₂ _ hb hm₂ _ => ?_
    exact proceeds_compute (BinaryOp.apply_operates he.1 ha hb hop) hm₂
  | unary form span op operand =>
    obtain ⟨s₁, h₁, hop⟩ := Scopes.infer_unary_ok.mp ht
    refine ((evaluate_safe hc operand he.2 hm h₁).mono (·.of_leads .operand)).seq fun a m₁ _ ha hm₁ _ => ?_
    exact proceeds_compute (UnaryOp.apply_operates he.1 ha hop) hm₁
  | call span name args =>
    obtain ⟨f, hf, rfl⟩ := Scopes.infer_call_ok.mp ht
    obtain ⟨hr, hargs⟩ := Scopes.checkCall_ok.mp hf
    have hfind := Scopes.resolve_ok.mp hr
    have hlength : args.length = f.signature.params.length := by
      have := List.find?_some hfind
      simp only [Bool.and_eq_true, beq_iff_eq] at this
      omega
    refine proceeds_judge hr ?_
    refine ((evaluateAll_safe hc _ span args he hm _ hlength hargs).mono (·.of_leads (.arguments hr))).seq
      fun values m₁ hw₁ hv hm₁ hk₁ => ?_
    refine (hc span name f values m₁ hm₁ ?_ hv).mono (·.of_leads (.call hr hw₁))
    rw [hk₁.functions]
    exact List.mem_of_find?_eq_some hfind
  | missing => exact he.elim
  | misfit what => exact he.elim
termination_by structural e

theorem evaluateAll_safe (hc : CallSafe settings printing left) (f : Signature) (span : Span) (args : List Expr)
    (he : Expr.PlainAll args) {m : Machine} (hm : Sound settings m) (types : List Ty) (hl : args.length = types.length)
    (ht : m.scopes.checkArguments f span args types = .ok ()) :
    Proceeds settings (Crosses settings (.evaluateAll printing left args) m) []
      (evaluateAll (callWith settings printing left) args) m fun values => Value.Fit values types := by
  cases args with
  | nil =>
    cases types with
    | nil => exact proceeds_pure trivial hm
    | cons t types => cases hl
  | cons e rest =>
    cases types with
    | nil => cases hl
    | cons t types =>
      obtain ⟨⟨s, hs, hsame⟩, hrest⟩ := Scopes.checkArguments_cons_ok.mp ht
      refine ((evaluate_safe hc e he.1 hm hs).mono (·.of_leads .argument)).seq fun v m₁ hw₁ hv hm₁ hk₁ => ?_
      have hrest' := (hk₁.wider hm.scopes.isOpen).checkArguments f span rest types hrest
      refine ((evaluateAll_safe hc f span rest he.2 hm₁ types (Nat.succ.inj hl) hrest').mono
        (·.of_leads (.otherArguments hw₁))).seq fun values m₂ _ hvs hm₂ _ => ?_
      obtain rfl := Ty.eq_of_same (Value.simple_type hv) hsame
      exact proceeds_pure ⟨hv, hvs⟩ hm₂
termination_by structural args

end

theorem checkBlock_proceeds {lc lc' : Option Loop} (hlc : AtMostOne lc) {loop : Option Loop} (hl : AtMostOne loop)
    {block : List Stmt} (hp : Stmt.PlainBlock block) {m mc : Machine} (hm : Sound settings m)
    (hck : checkBlock settings lc block { m with scopes := m.scopes.enter } = .ok lc' mc) :
    Proceeds settings (Stmt.breaksBlock block ∧ ¬Ready loop) [] (inScope (checkBlock settings loop block)) m
      fun _ => True :=
  proceeds_check (ends_inScope.mpr (checkBlock_otherLoop hlc hl block hp (by simp) hck))
    (inScope_adds hm.scopes.isOpen (checkBlock_adds settings loop block hp _ (by simp))) hm

theorem checkElse_proceeds {lc lc' : Option Loop} (hlc : AtMostOne lc) {loop : Option Loop} (hl : AtMostOne loop)
    {block : Option (List Stmt)} (hp : Stmt.PlainElse block) {m mc : Machine} (hm : Sound settings m)
    (hck : checkElse settings lc block m = .ok lc' mc) :
    Proceeds settings (Stmt.breaksElse block ∧ ¬Ready loop) [] (checkElse settings loop block) m fun _ => True :=
  proceeds_check (checkElse_otherLoop hlc hl block hp hck) (checkElse_adds settings loop block hp m hm.scopes.isOpen) hm

/-- The passes of a loop are safe if its test and its body are, wherever the values have got to. -/
theorem passes_safe (span : Span) (condition : Expr) (body : List Stmt) {m : Machine}
    (htest : ∀ m', Sound settings m' → Keeps [] m m' →
      Proceeds settings (Crosses settings (.evaluate printing left condition) m') []
        (evaluate (callWith settings printing left) condition) m' fun _ => True)
    (hbody : ∀ inner m', AtMostOne inner → Sound settings m' → Keeps [] m m' →
      Proceeds settings (Crosses settings (.block printing left inner body) { m' with scopes := m'.scopes.enter } ∨
          Stmt.breaksBlock body ∧ ¬Ready inner) (body.flatMap Stmt.declares)
        (runBlock settings (callWith settings printing left) printing inner body) { m' with scopes := m'.scopes.enter }
        fun _ => True)
    (more done : Nat) (loop : Option Loop) (hl : loop.isSome) {m' : Machine} (hm' : Sound settings m') (hk : Keeps [] m m') :
    Proceeds settings (Crosses settings (.passes printing left span condition body more done loop) m') []
      (passes settings (callWith settings printing left) printing span condition body more done loop) m' fun _ => True := by
  have tested (more done : Nat) (loop : Option Loop) {m' : Machine} (hm' : Sound settings m') (hk : Keeps [] m m') :
      Proceeds settings (Crosses settings (.passes printing left span condition body more done loop) m') []
        (test (callWith settings printing left) condition) m' fun _ => True :=
    ((htest m' hm' hk).mono (·.of_leads .test)).seq fun v m₁ _ _ hm₁ _ => proceeds_pure trivial hm₁
  induction more generalizing done loop m' with
  | zero =>
    rw [passes, iterate_zero]
    refine (tested 0 done loop hm' hk).seq fun holds m₁ _ _ hm₁ _ => ?_
    split
    · split
      · exact proceeds_record hm₁
      · exact Or.inl (Or.inr rfl)
    · exact proceeds_pure trivial hm₁
  | succ more ih =>
    rw [passes, iterate_succ]
    refine (tested (more + 1) done loop hm' hk).seq fun holds m₁ hw₁ _ hm₁ hk₁ => ?_
    cases holds with
    | false => exact proceeds_pure trivial hm₁
    | true =>
      cases hpending : loop.any (0 < ·.pending) with
      | true => exact proceeds_record hm₁
      | false =>
        refine (proceeds_record hm₁).seq fun _ m₂ hw₂ _ hm₂ hk₂ => ?_
        have hk' : Keeps [] m m₂ := (hk.trans hk₁).trans hk₂
        have hone : AtMostOne (loop.map ({ · with budget := 1 })) := Loop.atMostOne_reset
        refine ((proceeds_inScope (hbody _ m₂ hone hm₂ hk') hm₂).mono ?_).seq fun l m₃ hw₃ _ hm₃ hk₃ => ?_
        · rintro (h | ⟨-, h⟩)
          · exact h.of_leads (.pass hw₁ hpending hw₂)
          · exact absurd (Loop.ready_reset hl) h
        · have hsome : l.isSome := by
            obtain ⟨m₄, hw₄, -⟩ := inScope_ok.mp hw₃
            have hspent := ((runBlock_spends _ hone body _).ok hw₄).1
            rw [Loop.budget?_spend] at hspent
            have := congrArg Option.isSome hspent
            simpa [Loop.budget?, hl] using this
          exact (ih (done + 1) l hsome hm₃ (hk'.trans hk₃)).mono (·.of_leads (.again hw₁ hpending hw₂ hw₃))

theorem undeclared_of_declare {span : Span} {type : Ty} {name : Data} {value : Option Value} {d : Declaration}
    {m m' : Machine} (h : declare span type name value m = .ok d m') : m.scopes.ensureUndeclared name span = .ok () := by
  simp only [declare, bind_ok, judge_ok, change_ok] at h
  obtain ⟨d₁, _, ⟨hd₁, rfl⟩, _, _, ⟨s, hs, -⟩, -⟩ := h
  obtain ⟨first, -, rfl⟩ := Declaration.make_ok.mp hd₁
  exact (Scopes.declare_ok hs).1

/-- Where the condition of an `if` holds, its first branch has a break and there was budget for it, but there is none after the
look at the second branch, the second branch has used the budget up. -/
theorem crosses_of_not_ready {loop : Option Loop} (hl : AtMostOne loop) {isLast : Bool} {span : Span} {condition : Expr}
    {thenBlock : List Stmt} {elseBlock : Option (List Stmt)} {m m' : Machine} {v : Value}
    (hv : evaluate (callWith settings printing left) condition m = .ok v m') (ht : v.holds = true)
    (hb : Stmt.breaksBlock thenBlock) (hr : Ready loop) (hn : ¬Ready (Loop.spend (Stmt.spendsElse elseBlock) loop)) :
    Crosses settings (.run printing left loop isLast (.branch span condition thenBlock elseBlock)) m := by
  rw [Loop.ready_spend hl] at hn
  obtain ⟨n, hn', hpos⟩ := hr
  have hone := hl n hn'
  obtain ⟨l, rfl, rfl⟩ := Option.map_eq_some_iff.mp hn'
  refine (Crossing.intro (by omega) hv ht hb ?_).crosses
  simpa using fun h => hn ⟨⟨_, hn', hpos⟩, h⟩

mutual

/-- A statement that a check accepts, with whatever loop around it, runs safely. It is ended by a break only if the run comes to
an `if` whose second branch takes the budget from the first, or if there was none from the start. -/
theorem run_safe (hc : CallSafe settings printing left) {loop : Option Loop} (hl : AtMostOne loop) (isLast : Bool) (s : Stmt)
    (hp : s.Plain) {m : Machine} (hm : Sound settings m) {lc lc' : Option Loop} {mc : Machine} (hlc : AtMostOne lc)
    (hck : check settings lc isLast s m = .ok lc' mc) :
    Proceeds settings (Crosses settings (.run printing left loop isLast s) m ∨ s.breaks ∧ ¬Ready loop) s.declares
      (run settings (callWith settings printing left) printing loop isLast s) m fun _ => True := by
  have ho := hm.scopes.isOpen
  obtain ⟨-, hlegal, -⟩ := (check_legal settings lc hlc isLast s m).ok hck
  have up {t : Task} {m' : Machine} (hl : Leads settings (.run printing left loop isLast s) m t m')
      (h : Crosses settings t m') :
      Crosses settings (.run printing left loop isLast s) m ∨ s.breaks ∧ ¬Ready loop := Or.inl (h.of_leads hl)
  cases s with
  | declare span type name init =>
    simp only [check, bind_ok, judge_ok] at hck
    obtain ⟨_, _, ⟨hd, rfl⟩, _, _, ⟨hu, rfl⟩, -⟩ := hck
    refine proceeds_judge hd (proceeds_judge hu ?_)
    have finish : ∀ C value m₁, Sound settings m₁ → Keeps [] m m₁ → (∀ v, value = some v → v.type? = some type) →
        Proceeds settings C [(name, type)] (do
          let d ← declare span type name value
          record settings 2 s!"declare {name.shown}: {type.text} = {d.value.shown}"
          return loop) m₁ fun _ => True := by
      intro C value m₁ hm₁ hk₁ hv
      have hu₁ := (hk₁.wider ho).ensureUndeclared hu
      refine (proceeds_declare hp.1 hp.2.1 hu₁ hv hm₁).bind fun _ m₂ _ _ hm₂ _ => ?_
      exact (proceeds_record hm₂).seq fun _ m₃ _ _ hm₃ _ => proceeds_pure trivial hm₃
    cases init with
    | none => exact finish _ none m hm (Keeps.refl m) (by simp)
    | some e =>
      obtain ⟨t, ht, hsame⟩ := Scopes.checkDeclaration_ok.mp hd e rfl
      refine ((evaluate_safe hc e hp.2.2 hm ht).mono (up (.initial hd hu))).seq fun v m₁ _ hv hm₁ hk₁ => ?_
      obtain rfl := Ty.eq_of_same (Value.simple_type hv) hsame
      exact finish _ (some v) m₁ hm₁ hk₁ (by rintro _ ⟨⟩; exact hv)
  | param span type name =>
    simp only [check, bind_ok] at hck
    obtain ⟨d, _, hd, -⟩ := hck
    refine (proceeds_declare hp.1 hp.2 (undeclared_of_declare hd) (by simp) hm).bind fun _ m₁ _ _ hm₁ _ => ?_
    exact proceeds_pure trivial hm₁
  | assign span name op e =>
    simp only [check, bind_ok, judge_ok] at hck
    obtain ⟨d, _, ⟨hd, rfl⟩, -⟩ := hck
    obtain ⟨hlook, t, ht, htakes⟩ := Scopes.checkAssignment_ok.mp hd
    refine proceeds_judge hd ?_
    refine ((evaluate_safe hc e hp.2.2 hm ht).mono (up (.assigned hd))).seq fun v m₁ _ hv hm₁ hk₁ => ?_
    obtain ⟨d₁, hd₁, htype⟩ := (hk₁.wider ho).lookup hlook
    have hop : Operates (op.apply d₁.value v) d₁.type :=
      AssignOp.apply_operates hp.2.1 (hm₁.scopes.get?_typed (Scopes.lookup_ok.mp hd₁).2) hv (by rwa [htype])
    refine proceeds_judge hd₁ ((proceeds_compute hop hm₁).seq fun new m₂ _ hnew hm₂ hk₂ => ?_)
    obtain ⟨d₂, hd₂, htype₂⟩ := (hk₂.wider hm₁.scopes.isOpen).lookup hd₁
    refine (proceeds_assign (Scopes.lookup_ok.mp hd₂).2 (by rw [htype₂]; exact hnew) hm₂).seq fun _ m₃ _ _ hm₃ _ => ?_
    exact (proceeds_record hm₃).seq fun _ m₄ _ _ hm₄ _ => proceeds_pure trivial hm₄
  | call span name args =>
    simp only [check, bind_ok, judge_ok] at hck
    obtain ⟨f, _, ⟨hf, rfl⟩, -⟩ := hck
    have ht := Scopes.infer_call_ok.mpr ⟨f, hf, rfl⟩
    refine proceeds_judge hf (((evaluate_safe hc (.call span name args) hp hm ht).mono (up (.called hf))).seq ?_)
    exact fun _ m₁ _ _ hm₁ _ => proceeds_pure trivial hm₁
  | define span result name params body value => exact hp.elim
  | print span operand =>
    simp only [check, bind_ok, judge_ok] at hck
    obtain ⟨_, _, ⟨he, rfl⟩, -⟩ := hck
    refine proceeds_judge he ?_
    cases printing with
    | false => exact proceeds_pure trivial hm
    | true =>
      cases operand with
      | none => exact (proceeds_print hm).seq fun _ m₁ _ _ hm₁ _ => proceeds_pure trivial hm₁
      | some e =>
        obtain ⟨t, ht⟩ := Scopes.checkPrint_ok.mp he e rfl
        refine ((evaluate_safe hc e hp hm ht).mono (up (.printed he))).seq fun v m₁ _ _ hm₁ _ => ?_
        exact (proceeds_print hm₁).seq fun _ m₂ _ _ hm₂ _ => proceeds_pure trivial hm₂
  | branch span condition thenBlock elseBlock =>
    simp only [check, bind_ok, judge_ok] at hck
    obtain ⟨_, _, ⟨hf, rfl⟩, l₁, mt, ht, l₂, me, he, -⟩ := hck
    obtain rfl := (inScope_adds ho (checkBlock_adds settings lc thenBlock hp.2.1 _ (by simp))).ok ht
    obtain ⟨_, ht, -⟩ := inScope_ok.mp ht
    obtain ⟨rfl, -⟩ := (checkBlock_legal settings lc hlc thenBlock _).ok ht
    obtain ⟨t, hcond, -⟩ := Scopes.checkCondition_ok.mp hf
    have breaks_then (h : Stmt.breaksBlock thenBlock) : (Stmt.branch span condition thenBlock elseBlock).breaks := by
      simp [Stmt.breaks, h]
    have breaks_else (h : Stmt.breaksElse elseBlock) : (Stmt.branch span condition thenBlock elseBlock).breaks := by
      simp [Stmt.breaks, h]
    refine proceeds_judge hf ?_
    refine ((evaluate_safe hc condition hp.1 hm hcond).mono (up (.condition hf))).seq fun v m₁ hw₁ _ hm₁ hk₁ => ?_
    refine (proceeds_record hm₁).seq fun _ m₂ hw₂ _ hm₂ hk₂ => ?_
    have hw := (hk₁.trans hk₂).wider ho
    obtain ⟨nt, hnt⟩ := checkBlock_wider (n := { m₂ with scopes := m₂.scopes.enter }) settings lc thenBlock hp.2.1 hw.enter ht
    obtain ⟨ne, hne⟩ := checkElse_wider settings _ elseBlock hp.2.2 hw he
    dsimp only
    cases hv : v.holds with
    | true =>
      simp only [if_true]
      refine ((checkElse_proceeds (hlc.spend _) hl hp.2.2 hm₂ hne).mono ?_).seq fun l m₃ hw₃ _ hm₃ hk₃ => ?_
      · exact fun h => Or.inr ⟨breaks_else h.1, h.2⟩
      obtain ⟨rfl, -⟩ := (checkElse_legal settings loop hl elseBlock m₂).ok hw₃
      obtain ⟨nt', hnt'⟩ := checkBlock_wider (n := { m₃ with scopes := m₃.scopes.enter }) settings lc thenBlock hp.2.1
        (hk₃.wider hm₂.scopes.isOpen).enter hnt
      have hblock := runBlock_safe hc (hl.spend (Stmt.spendsElse elseBlock)) thenBlock hp.2.1 hm₃.enter hlc hnt'
      refine ((proceeds_inScope hblock hm₃).mono ?_).seq fun _ m₄ _ _ hm₄ _ => proceeds_pure trivial hm₄
      rintro (h | ⟨hb, hn⟩)
      · exact up (.thenBranch hf hw₁ hv hw₂ hw₃) h
      · by_cases hr : Ready loop
        · exact Or.inl (crosses_of_not_ready hl hw₁ hv hb hr hn)
        · exact Or.inr ⟨breaks_then hb, hr⟩
    | false =>
      simp only [Bool.false_eq_true, if_false]
      refine ((checkBlock_proceeds hlc hl hp.2.1 hm₂ hnt).mono ?_).seq fun l m₃ hw₃ _ hm₃ hk₃ => ?_
      · exact fun h => Or.inr ⟨breaks_then h.1, h.2⟩
      obtain ⟨_, hw₃', -⟩ := inScope_ok.mp hw₃
      obtain ⟨rfl, -⟩ := (checkBlock_legal settings loop hl thenBlock _).ok hw₃'
      cases elseBlock with
      | none => exact (proceeds_pure (P := fun _ => True) trivial hm₃).seq fun _ m₄ _ _ hm₄ _ => proceeds_pure trivial hm₄
      | some block =>
        obtain ⟨ne', hne'⟩ := checkElse_wider settings _ (some block) hp.2.2 (hk₃.wider hm₂.scopes.isOpen) hne
        obtain ⟨_, hne', -⟩ := inScope_ok.mp hne'
        have hblock := runBlock_safe hc (hl.spend (Stmt.spendsBlock thenBlock)) block hp.2.2 hm₃.enter (hlc.spend _) hne'
        refine ((proceeds_inScope hblock hm₃).mono ?_).seq fun _ m₄ _ _ hm₄ _ => proceeds_pure trivial hm₄
        rintro (h | ⟨hb, hn⟩)
        · exact up (.elseBranch hf hw₁ hv hw₂ hw₃) h
        · exact Or.inr ⟨breaks_else hb, Loop.not_ready_before rfl hlegal.2.2 hb hn⟩
  | loop span condition body =>
    cases body with
    | none => exact hp.2.elim
    | some block =>
      simp only [check, bind_ok, judge_ok] at hck
      obtain ⟨_, _, ⟨hf, rfl⟩, l₁, mb, hb, -⟩ := hck
      obtain ⟨_, hb, -⟩ := inScope_ok.mp hb
      obtain ⟨t, hcond, -⟩ := Scopes.checkCondition_ok.mp hf
      refine proceeds_judge hf ?_
      refine ((checkBlock_proceeds Loop.atMostOne_fresh Loop.atMostOne_fresh hp.2 hm hb).mono ?_).seq
        fun _ m₁ hw₁ _ hm₁ hk₁ => ?_
      · exact fun h => absurd Loop.ready_fresh h.2
      refine ((passes_safe span condition block ?_ ?_ settings.maxIterations.toNat 0 (some .fresh) rfl hm₁
        (Keeps.refl m₁)).mono (up (.loop hf hw₁))).seq fun _ m₂ _ _ hm₂ _ => proceeds_pure trivial hm₂
      · intro m₂ hm₂ hk₂
        have hcond₂ := ((hk₁.trans hk₂).wider ho).infer condition hcond
        exact Ends.imp (evaluate_safe hc condition hp.1 hm₂ hcond₂) (fun _ _ h => ⟨trivial, h.2⟩) fun _ _ he => he
      · intro inner m₂ hone hm₂ hk₂
        obtain ⟨nb, hnb⟩ := checkBlock_wider (n := { m₂ with scopes := m₂.scopes.enter }) settings (some .fresh) block
          hp.2 ((hk₁.trans hk₂).wider ho).enter hb
        exact runBlock_safe hc hone block hp.2 hm₂.enter Loop.atMostOne_fresh hnb
  | breakOut span =>
    refine Proceeds.seq (P := fun _ => True) ?_ fun _ m₁ _ _ hm₁ _ => proceeds_pure trivial hm₁
    refine ends_judge.mpr ⟨fun _ _ => ⟨trivial, hm, Keeps.refl m⟩, fun e he => Or.inr ⟨checkBreak_isBreak he, Or.inr ⟨rfl, ?_⟩⟩⟩
    intro hr
    rw [Loop.checkBreak_ok.mpr ⟨hr, hlegal⟩] at he
    cases he
  | misfit what => exact hp.elim
termination_by structural s

theorem runBlock_safe (hc : CallSafe settings printing left) {loop : Option Loop} (hl : AtMostOne loop) (block : List Stmt)
    (hp : Stmt.PlainBlock block) {m : Machine} (hm : Sound settings m) {lc lc' : Option Loop} {mc : Machine}
    (hlc : AtMostOne lc) (hck : checkBlock settings lc block m = .ok lc' mc) :
    Proceeds settings (Crosses settings (.block printing left loop block) m ∨ Stmt.breaksBlock block ∧ ¬Ready loop)
      (block.flatMap Stmt.declares) (runBlock settings (callWith settings printing left) printing loop block) m
      fun _ => True := by
  obtain ⟨-, hlegal, -⟩ := (checkBlock_legal settings lc hlc block m).ok hck
  cases block with
  | nil => exact proceeds_pure trivial hm
  | cons s rest =>
    simp only [checkBlock, bind_ok] at hck
    obtain ⟨l₁, mc₁, h₁, h₂⟩ := hck
    obtain ⟨rfl, -⟩ := (check_legal settings lc hlc rest.isEmpty s m).ok h₁
    rw [List.flatMap_cons]
    refine ((run_safe hc hl rest.isEmpty s hp.1 hm hlc h₁).mono ?_).bind fun l m₁ hw₁ _ hm₁ hk₁ => ?_
    · rintro (h | ⟨hb, hn⟩)
      · exact Or.inl (h.of_leads .head)
      · exact Or.inr ⟨by simp [Stmt.breaksBlock, hb], hn⟩
    have ha := (check_adds settings lc rest.isEmpty s hp.1 m hm.scopes.isOpen).ok h₁
    have hw := (Machine.Alike.step ⟨rfl, rfl⟩ hk₁ ha).symm.wider (ha.isOpen hm.scopes.isOpen)
    obtain ⟨n₂, hn₂⟩ := checkBlock_wider settings _ rest hp.2 hw h₂
    obtain ⟨hspent, -⟩ := (run_spends loop hl rest.isEmpty s m).ok hw₁
    refine (runBlock_safe hc ((hl.spend _).congr hspent) rest hp.2 hm₁ (hlc.spend _) hn₂).mono ?_
    rintro (h | ⟨hb, hn⟩)
    · exact Or.inl (h.of_leads (.tail hw₁))
    · exact Or.inr ⟨by simp [Stmt.breaksBlock, hb], Loop.not_ready_before hspent hlegal.2.2 hb hn⟩
termination_by structural block

end

/-- Parameters that a check accepts can be bound to values that fit. -/
theorem bindParams_safe {C : Prop} {params : List Stmt} (hp : ∀ p ∈ params, p.IsParam) {values : List Value}
    {m n n' : Machine} {lc lc' : Option Loop} (hm : Sound settings m) (hw : n.scopes.Wider m.scopes)
    (hv : Value.Fit values ((params.flatMap Stmt.declares).map Prod.snd))
    (hck : checkBlock settings lc params n = .ok lc' n') :
    Proceeds settings C (params.flatMap Stmt.declares) (bindParams params values) m fun _ => True := by
  induction params generalizing values m n lc with
  | nil =>
    cases values with
    | nil => exact proceeds_pure trivial hm
    | cons v values => exact hv.elim
  | cons p params ih =>
    cases p with
    | param span type name =>
      cases values with
      | nil => exact hv.elim
      | cons v values =>
        simp only [checkBlock, bind_ok] at hck
        obtain ⟨l₁, n₁, h₁, h₂⟩ := hck
        have hplain : (Stmt.param span type name).IsParam := hp _ (.head _)
        have ha := (check_adds settings lc _ _ hplain.plain n hw.left_open).ok h₁
        simp only [check, bind_ok] at h₁
        obtain ⟨d, _, hd, -⟩ := h₁
        have hu := hw.ensureUndeclared (undeclared_of_declare hd)
        have hfirst : ∀ u, some v = some u → u.type? = some type := by
          rintro _ ⟨⟩
          exact hv.1
        refine (proceeds_declare hplain.1 hplain.2 hu hfirst hm).bind fun _ m₁ _ _ hm₁ hk₁ => ?_
        have hw₁ := hw.grow ha.outline ha.functions hk₁.outline hk₁.functions
        exact ih (fun q hq => hp q (.tail _ hq)) hm₁ hw₁ hv.2 h₂
    | _ => exact (hp _ (.head _)).elim

/-- Calls are safe, whatever number of calls may still be made. -/
theorem callWith_safe (printing : Bool) (left : Nat) : CallSafe settings printing left := by
  induction left with
  | zero => exact fun _ _ _ _ _ _ _ _ => Or.inl (Or.inr rfl)
  | succ left ih =>
    intro span name f values m hm hf hv
    refine (proceeds_record hm).seq fun _ m₁ hw₁ _ hm₁ hk₁ => ?_
    obtain ⟨d, hd, hp, hs, hacc⟩ := hm₁.functions f (by rw [hk₁.functions]; exact hf)
    have hsignature := Option.some.inj (hp.signature.symm.trans hs)
    obtain ⟨l₁, c₁, l₂, c₂, h₁, h₂, h₃, ha₁, -⟩ := hacc.adds hp (by simp)
    obtain ⟨span', result, name', params, _ | body, value⟩ := d
    · exact hp.body.elim
    simp only [hd]
    rw [← hsignature] at hv ⊢
    have hopen : (Scopes.enterCall m₁.scopes).outline ≠ [] := by simp
    have hw : (Scopes.enterCall m₁.scopes).Wider (Scopes.enterCall m₁.scopes) := .of_alike hopen rfl rfl
    refine proceeds_inCall ((bindParams_safe hp.params hm₁.enterCall hw hv h₁).bind (b := body.flatMap Stmt.declares ++ [])
      fun _ m₂ hw₂ _ hm₂ hk₂ => ?_) hm₁
    have hwide₂ := hw.grow ha₁.outline ha₁.functions hk₂.outline hk₂.functions
    obtain ⟨n₂, hn₂⟩ := checkBlock_wider settings none body hp.body hwide₂ h₂
    have hbody := runBlock_safe ih Loop.atMostOne_none body hp.body hm₂ Loop.atMostOne_none hn₂
    refine (hbody.mono ?_).bind fun _ m₃ hw₃ _ hm₃ hk₃ => ?_
    · rintro (h | ⟨hb, -⟩)
      · exact h.of_leads (.body hd rfl hw₁ hw₂)
      · exact absurd (((checkBlock_legal settings none Loop.atMostOne_none body m₂).ok hn₂).2.2 hb) Loop.not_ready_none
    have ha₂ := (checkBlock_adds settings none body hp.body c₁ hwide₂.left_open).ok h₂
    have hwide₃ := hwide₂.grow ha₂.outline ha₂.functions hk₃.outline hk₃.functions
    have hreturn := hwide₃.checkReturn h₃
    refine proceeds_judge hreturn ?_
    obtain ⟨t, ht, hsame⟩ := Scopes.checkReturn_ok.mp hreturn
    refine Ends.imp ((evaluate_safe ih value hp.value hm₃ ht).mono (·.of_leads (.result hd rfl hw₁ hw₂ hw₃ hreturn))) ?_
      fun _ _ he => he
    rintro v m₄ ⟨hvt, hm₄⟩
    obtain rfl := Ty.eq_of_same (Value.simple_type hvt) hsame
    exact ⟨hvt, hm₄⟩

/-- A statement of the outermost level that a check accepts in a state that is alike. -/
theorem run_safe_top {settings₀ : Settings} (left : Nat) (printing : Bool) {isLast : Bool} {s : Stmt} (hp : s.PlainTop)
    {m n n' : Machine} (hm : Sound settings m) (hn : n.Tame) (ha : Machine.Alike m n) {l : Option Loop}
    (hck : check settings₀ none isLast s n = .ok l n') :
    Ends (run settings (callWith settings printing left) printing none isLast s) m
      (fun _ m' => Sound settings m' ∧ n'.Tame ∧ Machine.Alike m' n')
      (fun e _ => e.Permitted (Crosses settings (.run printing left none isLast s) m)) := by
  have plain (hp : s.Plain) : Ends (run settings (callWith settings printing left) printing none isLast s) m
      (fun _ m' => Sound settings m' ∧ n'.Tame ∧ Machine.Alike m' n')
      (fun e _ => e.Permitted (Crosses settings (.run printing left none isLast s) m)) := by
    obtain ⟨m₁, hm₁⟩ := check_wider settings none isLast s hp (ha.symm.wider hn.isOpen) hck
    have hsafe := run_safe (callWith_safe printing left) Loop.atMostOne_none isLast s hp hm Loop.atMostOne_none hm₁
    refine Ends.imp (hsafe.mono ?_) ?_ fun _ _ he => he
    · rintro (h | ⟨hb, -⟩)
      · exact h
      · exact absurd (((check_legal settings none Loop.atMostOne_none isLast s m).ok hm₁).2.2 hb) Loop.not_ready_none
    · rintro _ m' ⟨-, hm', hk⟩
      have had := (check_adds settings₀ none isLast s hp n hn.isOpen).ok hck
      exact ⟨hm', (Keeps.of_adds had).tame hn, ha.step hk had⟩
  cases s with
  | define span result name params body value =>
    simp only [check, bind_ok, pure_ok] at hck
    obtain ⟨_, _, hck, -, rfl⟩ := hck
    obtain ⟨hn', m', hm', ha'⟩ := defineOnly_of_alike settings hp hn ha.symm hck
    obtain ⟨-, hacc, trace, rfl⟩ := defineOnly_ok hp hm.scopes.isOpen hp.signature hm'
    simp only [run, runBlock_params hp.params, ends_bind, ends_pure]
    exact ends_of_ok hm' ⟨hm.defined hp hp.signature hacc trace, hn', ha'.symm⟩
  | _ => exact plain hp

theorem statements_safe {settings₀ : Settings} {block : List Stmt} (hp : ∀ s ∈ block, s.PlainTop) {m n n' : Machine}
    (hm : Sound settings m) (hn : n.Tame) (ha : Machine.Alike m n) {u : Unit}
    (hck : statements settings₀ false block n = .ok u n') :
    Ends (statements settings true block) m (fun _ _ => True)
      (fun e _ => e.Permitted (Crosses settings (.statements block) m)) := by
  induction block generalizing m n with
  | nil => trivial
  | cons s rest ih =>
    cases hkind : s.kind? with
    | none => simp [statements, hkind, bind_ok, throw_ok] at hck
    | some k =>
      simp only [statements, hkind, Bool.false_eq_true, if_false, if_true, bind_ok] at hck ⊢
      obtain ⟨_, n₁, h₁, l, n₂, h₂, h₃⟩ := hck
      obtain ⟨trace, rfl⟩ := record_ok h₁
      obtain ⟨trace', hw₁⟩ := record_eq settings 1 s!"statement {k.label} at {s.span.text}" m
      have htop := run_safe_top settings.maxCallDepth.toNat (!settings.script || rest.isEmpty)
        (m := { m with trace := trace' }) (n := { n with trace }) (hp s (.head _)) (hm.keeps Keeps.of_scopes hm.scopes)
        ⟨hn.isOpen, hn.functions⟩ ⟨ha.outline, ha.functions⟩ h₂
      refine ends_bind.mpr (ends_of_ok hw₁ (ends_bind.mpr (ends_iff.mpr ⟨fun l' m₂ hw₂ => ?_, fun e _ he => ?_⟩)))
      · obtain ⟨hm₂, hn₂, ha₂⟩ := htop.ok hw₂
        refine (ih (fun q hq => hp q (.tail _ hq)) hm₂ hn₂ ha₂ h₃).imp (fun _ _ h => h) fun _ _ he => ?_
        exact he.imp_right fun hb => ⟨hb.1, hb.2.of_leads (.next hkind hw₁ hw₂)⟩
      · exact (htop.error he).imp_right fun hb => ⟨hb.1, hb.2.of_leads (.first hkind hw₁)⟩

/-- A plain program that was accepted runs safely. -/
theorem program_safe {settings₀ : Settings} {p : Program} (hp : p.Plain) {m n n' : Machine}
    (hs : m.scopes = .empty) (hs' : n.scopes = .empty) {u : Unit} (hck : program settings₀ false p n = .ok u n') :
    Ends (program settings true p) m (fun _ _ => True)
      (fun e _ => e.Permitted (Crosses settings (.statements p.statements) { m with scopes := m.scopes.enter })) := by
  obtain ⟨n₁, hn₁, -⟩ := inScope_ok.mp hck
  refine ends_inScope.mpr ?_
  refine statements_safe hp ⟨⟨⟨[], []⟩, by rw [hs]; rfl, Frame.sound_nil, by simp⟩, ?_⟩ ⟨by simp, ?_⟩ ⟨?_, ?_⟩ hn₁
  · simp [hs, Scopes.empty]
  · simp [hs', Scopes.empty]
  · rw [hs, hs']
  · rw [hs, hs']

end Run

end Walk

namespace Interpreter

/-- What can end the run of a program that was accepted. -/
theorem permitted_of_validate {p : Program} (hp : p.Plain) {checker : Settings} {dest : Destination}
    (hv : ((Interpreter.new checker dest).validate p).1 = .ok ()) {runner : Settings} {dest' : Destination} {f : Failure}
    (hr : ((Interpreter.new runner dest').run p).1 = .error f) :
    f.Permitted (Walk.Crosses runner (.statements p.statements) start) := by
  obtain ⟨n, hn⟩ := validate_ok.mp hv
  obtain ⟨m, hm⟩ := run_error.mp hr
  exact (Walk.program_safe hp rfl rfl hn).error hm

end Interpreter

/-- A function that calls itself and changes a global, called by the test of a loop that is left by a break. -/
def recursive : String :=
  "boolean g; def boolean f(boolean x) \x7b if (x) \x7b g = f(!x); \x7d return g; \x7d while (!f(!g)) \x7b break; \x7d"

end CheckedScript
