import CheckedScript.Proofs.Agreement

/-! Programs without their breaks. What is left of a program when its breaks are taken out is accepted if the program breaks
no other rule than that of breaks, since no other rule looks at them. So from a check of what is left one knows how a check
of the program can fail: only at a break, and only if a break stands where it may not stand. -/

namespace CheckedScript

namespace Stmt

/-- Is the statement a break? -/
def isBreak : Stmt → Bool
  | breakOut _ => true
  | _ => false

mutual

/-- The statement without the breaks inside it. -/
def withoutBreaks : Stmt → Stmt
  | branch span condition thenBlock elseBlock => branch span condition (withoutBlock thenBlock) (withoutElse elseBlock)
  | loop span condition body => loop span condition (withoutElse body)
  | define span result name params body value => define span result name params (withoutElse body) value
  | s => s

def withoutBlock : List Stmt → List Stmt
  | [] => []
  | s :: rest => if s.isBreak then withoutBlock rest else s.withoutBreaks :: withoutBlock rest

def withoutElse : Option (List Stmt) → Option (List Stmt)
  | none => none
  | some block => some (withoutBlock block)

end

theorem withoutBlock_break {s : Stmt} {rest : List Stmt} (h : s.isBreak = true) :
    withoutBlock (s :: rest) = withoutBlock rest := by
  simp [withoutBlock, h]

theorem withoutBlock_cons {s : Stmt} {rest : List Stmt} (h : s.isBreak = false) :
    withoutBlock (s :: rest) = s.withoutBreaks :: withoutBlock rest := by
  simp [withoutBlock, h]

theorem declares_withoutBreaks (s : Stmt) : s.withoutBreaks.declares = s.declares := by
  cases s <;> rfl

theorem declares_of_isBreak {s : Stmt} (h : s.isBreak = true) : s.declares = [] := by
  cases s with
  | breakOut span => rfl
  | _ => cases h

mutual

theorem Plain.withoutBreaks {s : Stmt} (h : s.Plain) : s.withoutBreaks.Plain := by
  cases s with
  | branch span condition thenBlock elseBlock => exact ⟨h.1, PlainBlock.withoutBlock h.2.1, PlainElse.withoutElse h.2.2⟩
  | loop span condition body =>
    cases body with
    | none => exact h.2.elim
    | some block => exact ⟨h.1, PlainBlock.withoutBlock h.2⟩
  | _ => exact h
termination_by structural s

theorem PlainBlock.withoutBlock {block : List Stmt} (h : PlainBlock block) : PlainBlock (withoutBlock block) := by
  cases block with
  | nil => trivial
  | cons s rest =>
    cases hs : s.isBreak with
    | true =>
      rw [withoutBlock_break hs]
      exact PlainBlock.withoutBlock h.2
    | false =>
      rw [withoutBlock_cons hs]
      exact ⟨Plain.withoutBreaks h.1, PlainBlock.withoutBlock h.2⟩
termination_by structural block

theorem PlainElse.withoutElse {block : Option (List Stmt)} (h : PlainElse block) : PlainElse (withoutElse block) := by
  cases block with
  | none => trivial
  | some block => exact PlainBlock.withoutBlock (show PlainBlock block from h)
termination_by structural block

end

end Stmt

/-- The program without its breaks. -/
def Program.withoutBreaks (p : Program) : Program := { p with statements := Stmt.withoutBlock p.statements }

/-- The function without its definition. -/
def Function.bare (f : Function) : Function := ⟨f.signature, none⟩

namespace Scopes

variable {s t : Scopes} {name : Data} {span : Span}

/-- The scopes as far as the static rules look: of the functions they see the signatures. -/
def bare (s : Scopes) : Scopes := { s with functions := s.functions.map Function.bare }

theorem resolve_bare (s : Scopes) (name : Data) (arity : Int) (span : Span) :
    s.bare.resolve name arity span = (s.resolve name arity span).map Function.bare := by
  have hfind : s.bare.function? name arity = (s.function? name arity).map Function.bare := by
    simp only [function?, bare, List.find?_map]
    rfl
  simp only [resolve, hfind]
  cases s.function? name arity <;> rfl

mutual

theorem infer_bare (s : Scopes) (e : Expr) : s.bare.infer e = s.infer e := by
  cases e with
  | binary form span op left right => simp only [infer, infer_bare s left, infer_bare s right]
  | unary form span op operand => simp only [infer, infer_bare s operand]
  | call span name args =>
    simp only [infer, resolve_bare]
    cases s.resolve name args.length span with
    | error e => rfl
    | ok f => exact congrArg (· >>= fun _ => pure f.signature.result) (checkArguments_bare s f.signature span args _)
  | _ => rfl
termination_by structural e

theorem checkArguments_bare (s : Scopes) (f : Signature) (span : Span) (args : List Expr) (types : List Ty) :
    s.bare.checkArguments f span args types = s.checkArguments f span args types := by
  cases args with
  | nil => simp only [checkArguments]
  | cons e rest =>
    cases types with
    | nil => simp only [checkArguments]
    | cons t types => simp only [checkArguments, infer_bare s e, checkArguments_bare s f span rest types]
termination_by structural args

end

theorem checkCall_bare (s : Scopes) (span : Span) (name : Data) (args : List Expr) :
    s.bare.checkCall span name args = (s.checkCall span name args).map Function.bare := by
  simp only [checkCall, resolve_bare, checkArguments_bare]
  cases s.resolve name args.length span with
  | error e => rfl
  | ok f =>
    simp only [Except.map, bind, Except.bind, Function.bare]
    cases s.checkArguments f.signature span args f.signature.params <;> rfl

/-- The same variables are declared with the same types, and the same signatures are known. -/
structure Agree (s t : Scopes) : Prop where
  outline : t.outline = s.outline
  signatures : t.functions.map (·.signature) = s.functions.map (·.signature)

namespace Agree

theorem bare (h : Agree s t) : t.bare.functions = s.bare.functions := by
  have hbare : ∀ u : Scopes, u.bare.functions = (u.functions.map (·.signature)).map fun f => ⟨f, none⟩ := by
    intro u
    simp only [Scopes.bare, List.map_map]
    rfl
  rw [hbare, hbare, h.signatures]

theorem wider (h : Agree s t) (ho : s.outline ≠ []) : Wider s.bare t.bare :=
  .of_alike (s := s.bare) ho h.outline h.bare

theorem isOpen (h : Agree s t) (ho : s.outline ≠ []) : t.outline ≠ [] := by
  rw [h.outline]
  exact ho

theorem enter (h : Agree s t) : Agree s.enter t.enter := ⟨by simp [h.outline], by simp [h.signatures]⟩

theorem ensureUndeclared (h : Agree s t) (ho : s.outline ≠ []) (hu : s.ensureUndeclared name span = .ok ()) :
    t.ensureUndeclared name span = .ok () :=
  (h.wider ho).ensureUndeclared hu

theorem infer (h : Agree s t) (ho : s.outline ≠ []) {e : Expr} {τ : Ty} (he : s.infer e = .ok τ) : t.infer e = .ok τ := by
  rw [← infer_bare] at he ⊢
  exact (h.wider ho).infer e he

theorem checkCondition (h : Agree s t) (ho : s.outline ≠ []) {e : Expr} (hc : s.checkCondition e = .ok ()) :
    t.checkCondition e = .ok () := by
  obtain ⟨a, ha, hb⟩ := checkCondition_ok.mp hc
  exact checkCondition_ok.mpr ⟨a, h.infer ho ha, hb⟩

theorem checkDeclaration (h : Agree s t) (ho : s.outline ≠ []) {type : Ty} {init : Option Expr}
    (hc : s.checkDeclaration span type name init = .ok ()) : t.checkDeclaration span type name init = .ok () := by
  refine checkDeclaration_ok.mpr fun e he => ?_
  obtain ⟨a, ha, hs⟩ := checkDeclaration_ok.mp hc e he
  exact ⟨a, h.infer ho ha, hs⟩

theorem checkAssignment (h : Agree s t) (ho : s.outline ≠ []) {op : AssignOp} {e : Expr} {d : Declaration}
    (hc : s.checkAssignment span name op e = .ok d) : ∃ d', t.checkAssignment span name op e = .ok d' := by
  obtain ⟨hd, a, ha, ht⟩ := checkAssignment_ok.mp hc
  obtain ⟨d', hd', htype⟩ := (h.wider ho).lookup (s := s.bare) hd
  exact ⟨d', checkAssignment_ok.mpr ⟨hd', a, h.infer ho ha, by rwa [htype]⟩⟩

theorem checkCall (h : Agree s t) (ho : s.outline ≠ []) {args : List Expr} {f : Function}
    (hc : s.checkCall span name args = .ok f) : ∃ f', t.checkCall span name args = .ok f' := by
  have hs : s.bare.checkCall span name args = .ok f.bare := by
    rw [checkCall_bare, hc]
    rfl
  have ht := (h.wider ho).checkCall hs
  rw [checkCall_bare] at ht
  cases hf : t.checkCall span name args with
  | ok f' => exact ⟨f', rfl⟩
  | error e =>
    rw [hf] at ht
    cases ht

theorem checkPrint (h : Agree s t) (ho : s.outline ≠ []) {operand : Option Expr} (hc : s.checkPrint operand = .ok ()) :
    t.checkPrint operand = .ok () := by
  refine checkPrint_ok.mpr fun e he => ?_
  obtain ⟨a, ha⟩ := checkPrint_ok.mp hc e he
  exact ⟨a, h.infer ho ha⟩

theorem checkReturn (h : Agree s t) (ho : s.outline ≠ []) {d d' : Definition} (hv : d'.value = d.value)
    (hr : d'.result = d.result) (hc : s.checkReturn d = .ok ()) : t.checkReturn d' = .ok () := by
  obtain ⟨a, ha, hs⟩ := checkReturn_ok.mp hc
  exact checkReturn_ok.mpr ⟨a, by rw [hv]; exact h.infer ho ha, by rwa [hr]⟩

/-- What both declare in their innermost frames keeps them in agreement. -/
theorem grow {a : List (Data × Ty)} {m n m' n' : Machine} (h : Agree m.scopes n.scopes) (hm : m.Adds a m')
    (hn : n.Adds a n') : Agree m'.scopes n'.scopes :=
  ⟨by rw [hm.outline, hn.outline, h.outline], by rw [hm.functions, hn.functions, h.signatures]⟩

end Agree
end Scopes

namespace Walk

open Loop Machine

section Breakless

variable {settings settings' : Settings}

theorem declare_of_agree {span : Span} {type : Ty} {name : Data} {value : Option Value} {d : Declaration} {m n n' : Machine}
    (ha : n.scopes.Agree m.scopes) (ho : n.scopes.outline ≠ []) (hd : declare span type name value n = .ok d n') :
    ∃ d' m', declare span type name none m = .ok d' m' := by
  have hu : n.scopes.ensureUndeclared name span = .ok () := by
    simp only [declare, bind_ok, judge_ok, change_ok] at hd
    obtain ⟨d₁, _, ⟨hd₁, rfl⟩, _, _, ⟨s', hs', -⟩, -⟩ := hd
    obtain ⟨first, -, rfl⟩ := Declaration.make_ok.mp hd₁
    exact (Scopes.declare_ok hs').1
  exact declare_none_of_declare (ha.isOpen ho) (ha.ensureUndeclared ho hu) hd

/-- A break fails only at a break, and only if it does not stand last or its loop has no budget left. -/
theorem check_break {loop : Option Loop} {isLast : Bool} {s : Stmt} (hs : s.isBreak = true) (m : Machine) :
    Ends (check settings loop isLast s) m (fun _ m' => m' = m)
      (fun e _ => e.IsBreak ∧ ¬(s.Legal isLast ∧ (s.breaks → Ready loop))) := by
  cases s with
  | breakOut span =>
    simp only [check, ends_bind, ends_judge, ends_pure]
    refine ⟨fun _ _ => trivial, fun e he => ⟨checkBreak_isBreak he, ?_⟩⟩
    rintro ⟨hlast, hready⟩
    rw [checkBreak_ok.mpr ⟨hready rfl, hlast⟩] at he
    cases he
  | _ => cases hs

/-- What is legal after a statement that is legal finds the budget that it needs. -/
theorem ready_after {loop : Option Loop} (hl : AtMostOne loop) {spends first breaks : Bool}
    (hspends : spends = true → breaks = false) (hready : (first || breaks) = true → Ready loop) (h : breaks = true) :
    Ready (spend spends loop) := by
  rw [ready_spend hl]
  refine ⟨hready (by simp [h]), ?_⟩
  cases spends with
  | false => rfl
  | true => exact absurd (hspends rfl) (by simp [h])

mutual

/-- If a statement is accepted without its breaks, a check of it fails only at a break, and only if a break stands where it
may not stand. -/
theorem check_of_withoutBreaks {loop loop₀ : Option Loop} (hl : AtMostOne loop) (isLast isLast₀ : Bool) (s : Stmt)
    (hp : s.Plain) {m n n' : Machine} {l : Option Loop} (ha : n.scopes.Agree m.scopes) (ho : n.scopes.outline ≠ [])
    (hs : s.isBreak = false) (hc : check settings' loop₀ isLast₀ s.withoutBreaks n = .ok l n') :
    Ends (check settings loop isLast s) m (fun _ _ => True)
      (fun e _ => e.IsBreak ∧ ¬(s.Legal isLast ∧ (s.breaks → Ready loop))) := by
  cases s with
  | declare span type name init =>
    simp only [Stmt.withoutBreaks, check, bind_ok, judge_ok, pure_ok] at hc
    obtain ⟨_, _, ⟨hd, rfl⟩, _, _, ⟨hu, rfl⟩, d, _, hm, -, -⟩ := hc
    obtain ⟨d', m', hm'⟩ := declare_of_agree ha ho hm
    simp only [check, ends_bind, ends_judge_match, ha.checkDeclaration ho hd, ha.ensureUndeclared ho hu, ends_pure]
    exact ends_of_ok hm' trivial
  | param span type name =>
    simp only [Stmt.withoutBreaks, check, bind_ok, pure_ok] at hc
    obtain ⟨d, _, hm, -, -⟩ := hc
    obtain ⟨d', m', hm'⟩ := declare_of_agree ha ho hm
    simp only [check, ends_bind, ends_pure]
    exact ends_of_ok hm' trivial
  | assign span name op e =>
    simp only [Stmt.withoutBreaks, check, bind_ok, judge_ok, pure_ok] at hc
    obtain ⟨d, _, ⟨hd, rfl⟩, -, -⟩ := hc
    obtain ⟨d', hd'⟩ := ha.checkAssignment ho hd
    simp only [check, ends_bind, ends_judge_match, hd', ends_pure]
  | call span name args =>
    simp only [Stmt.withoutBreaks, check, bind_ok, judge_ok, pure_ok] at hc
    obtain ⟨f, _, ⟨hf, rfl⟩, -, -⟩ := hc
    obtain ⟨f', hf'⟩ := ha.checkCall ho hf
    simp only [check, ends_bind, ends_judge_match, hf', ends_pure]
  | define span result name params body value => exact hp.elim
  | print span operand =>
    simp only [Stmt.withoutBreaks, check, bind_ok, judge_ok, pure_ok] at hc
    obtain ⟨_, _, ⟨he, rfl⟩, -, -⟩ := hc
    simp only [check, ends_bind, ends_judge_match, ha.checkPrint ho he, ends_pure]
  | branch span condition thenBlock elseBlock =>
    simp only [Stmt.withoutBreaks, check, bind_ok, judge_ok, pure_ok] at hc
    obtain ⟨_, _, ⟨hf, rfl⟩, l₁, n₁, ht, l₂, n₂, he, -, -⟩ := hc
    have hpt := Stmt.PlainBlock.withoutBlock hp.2.1
    obtain rfl := (inScope_adds ho (checkBlock_adds settings' loop₀ _ hpt _ (by simp))).ok ht
    obtain ⟨n₃, ht, -⟩ := inScope_ok.mp ht
    have hback := inScope_adds (ha.isOpen ho) (checkBlock_adds settings loop thenBlock hp.2.1 _ (by simp))
    have hspend := always_inScope (checkBlock_legal settings loop hl thenBlock) m
    have hthen : Ends (inScope (checkBlock settings loop thenBlock)) m (fun _ _ => True)
        (fun e _ => e.IsBreak ∧ ¬(Stmt.LegalBlock thenBlock ∧ (Stmt.breaksBlock thenBlock → Ready loop))) :=
      ends_inScope.mpr (checkBlock_of_withoutBlock hl thenBlock hp.2.1 ha.enter (by simp) ht)
    simp only [check, ends_bind, ends_judge_match, ha.checkCondition ho hf, ends_pure, Stmt.breaks]
    refine ((hback.and hspend).and hthen).imp ?_ fun e _ h => ⟨h.2.1, fun hgood => h.2.2 ?_⟩
    · rintro _ _ ⟨⟨rfl, rfl, -⟩, -⟩
      have helse := checkElse_of_withoutElse (hl.spend (Stmt.spendsBlock thenBlock)) elseBlock hp.2.2 ha he
      refine helse.imp (fun _ _ h => h) fun e _ h => ⟨h.1, fun hgood => h.2 ?_⟩
      obtain ⟨⟨-, hlegal, hspends⟩, hready⟩ := hgood
      exact ⟨hlegal, ready_after hl hspends hready⟩
    · exact ⟨hgood.1.1, fun hb => hgood.2 (by simp [hb])⟩
  | loop span condition body =>
    cases body with
    | none => exact hp.2.elim
    | some block =>
      simp only [Stmt.withoutBreaks, Stmt.withoutElse, check, checkBody, bind_ok, judge_ok, pure_ok] at hc
      obtain ⟨_, _, ⟨hf, rfl⟩, l₁, n₁, hb, -, -⟩ := hc
      obtain ⟨n₂, hb, -⟩ := inScope_ok.mp hb
      simp only [check, checkBody, ends_bind, ends_judge_match, ha.checkCondition ho hf, ends_pure, Stmt.breaks]
      have hbody := checkBlock_of_withoutBlock (m := { m with scopes := m.scopes.enter }) atMostOne_fresh block hp.2 ha.enter
        (by simp) hb
      refine ends_inScope.mpr (hbody.imp (fun _ _ h => h) fun e _ h => ⟨h.1, fun hgood => h.2 ?_⟩)
      exact ⟨hgood.1, fun _ => ready_fresh⟩
  | breakOut span => cases hs
  | misfit what => exact hp.elim
termination_by structural s

theorem checkBlock_of_withoutBlock {loop loop₀ : Option Loop} (hl : AtMostOne loop) (block : List Stmt)
    (hp : Stmt.PlainBlock block) {m n n' : Machine} {l : Option Loop} (ha : n.scopes.Agree m.scopes)
    (ho : n.scopes.outline ≠ []) (hc : checkBlock settings' loop₀ (Stmt.withoutBlock block) n = .ok l n') :
    Ends (checkBlock settings loop block) m (fun _ _ => True)
      (fun e _ => e.IsBreak ∧ ¬(Stmt.LegalBlock block ∧ (Stmt.breaksBlock block → Ready loop))) := by
  cases block with
  | nil => trivial
  | cons s rest =>
    -- what is left of the rest was accepted where the states agree again
    have hrest : ∃ l₁ n₁, Adds s.declares n n₁ ∧ checkBlock settings' l₁ (Stmt.withoutBlock rest) n₁ = .ok l n' := by
      cases hs : s.isBreak with
      | true =>
        rw [Stmt.withoutBlock_break hs] at hc
        exact ⟨loop₀, n, Stmt.declares_of_isBreak hs ▸ Adds.refl n, hc⟩
      | false =>
        rw [Stmt.withoutBlock_cons hs] at hc
        simp only [checkBlock, bind_ok] at hc
        obtain ⟨l₁, n₁, h₁, h₂⟩ := hc
        have hadds := (check_adds settings' loop₀ _ _ (Stmt.Plain.withoutBreaks hp.1) n ho).ok h₁
        rw [Stmt.declares_withoutBreaks] at hadds
        exact ⟨l₁, n₁, hadds, h₂⟩
    have hfirst : Ends (check settings loop rest.isEmpty s) m (fun _ _ => True)
        (fun e _ => e.IsBreak ∧ ¬(s.Legal rest.isEmpty ∧ (s.breaks → Ready loop))) := by
      cases hs : s.isBreak with
      | true => exact (check_break hs m).imp (fun _ _ _ => trivial) fun _ _ h => h
      | false =>
        rw [Stmt.withoutBlock_cons hs] at hc
        simp only [checkBlock, bind_ok] at hc
        obtain ⟨l₁, n₁, h₁, -⟩ := hc
        exact check_of_withoutBreaks hl rest.isEmpty _ s hp.1 ha ho hs h₁
    obtain ⟨l₁, n₁, hn, hrest⟩ := hrest
    have hadds := check_adds settings loop rest.isEmpty s hp.1 m (ha.isOpen ho)
    have hspend := check_legal settings loop hl rest.isEmpty s m
    simp only [checkBlock, ends_bind, Stmt.breaksBlock]
    refine ((hadds.and hspend).and hfirst).imp ?_ fun e _ h => ⟨h.2.1, fun hgood => h.2.2 ?_⟩
    · rintro _ m₁ ⟨⟨hm, rfl, -⟩, -⟩
      have htail := checkBlock_of_withoutBlock (hl.spend s.spends) rest hp.2 (ha.grow hn hm) (hn.isOpen ho) hrest
      refine htail.imp (fun _ _ h => h) fun e _ h => ⟨h.1, fun hgood => h.2 ?_⟩
      obtain ⟨⟨-, hlegal, hspends⟩, hready⟩ := hgood
      exact ⟨hlegal, ready_after hl hspends hready⟩
    · exact ⟨hgood.1.1, fun hb => hgood.2 (by simp [hb])⟩
termination_by structural block

theorem checkElse_of_withoutElse {loop loop₀ : Option Loop} (hl : AtMostOne loop) (block : Option (List Stmt))
    (hp : Stmt.PlainElse block) {m n n' : Machine} {l : Option Loop} (ha : n.scopes.Agree m.scopes)
    (hc : checkElse settings' loop₀ (Stmt.withoutElse block) n = .ok l n') :
    Ends (checkElse settings loop block) m (fun _ _ => True)
      (fun e _ => e.IsBreak ∧ ¬(Stmt.LegalElse block ∧ (Stmt.breaksElse block → Ready loop))) := by
  cases block with
  | none => trivial
  | some block =>
    obtain ⟨_, hb, -⟩ := inScope_ok.mp hc
    exact ends_inScope.mpr (checkBlock_of_withoutBlock hl block hp ha.enter (by simp) hb)
termination_by structural block

end

end Breakless
end Walk
end CheckedScript
