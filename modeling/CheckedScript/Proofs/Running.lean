import CheckedScript.Proofs.Checking

/-! What running a plain statement leaves as it was. However it ends, the frames around it keep their names and types, the
frames of the callers and the functions stay as they are, and the count of calls is back at its old value. Only
values change, and what the statement declares is added to the innermost frame. -/

namespace CheckedScript

namespace Scopes

variable {s : Scopes}

/-- Closing a frame that is not the last one leaves the frames of the callers alone. -/
theorem suspended_leave (h : s.outline.tail ≠ []) : s.leave.suspended = s.suspended := by
  obtain ⟨_ | ⟨g, _ | ⟨f, rest⟩⟩, suspended, functions⟩ := s
  · rfl
  · simp [outline] at h
  · rfl

@[simp] theorem suspended_enter (s : Scopes) : s.enter.suspended = s.suspended := by
  obtain ⟨_ | k, suspended, functions⟩ := s <;> rfl

end Scopes

namespace Machine

variable {m m₁ m₂ : Machine} {a b : List (Data × Ty)}

/-- From the first state to the second, values may have changed and the variables `a` were added to the innermost frame. -/
structure Keeps (a : List (Data × Ty)) (m m' : Machine) : Prop where
  outline : m'.scopes.outline = m.scopes.outline.modifyHead (· ++ a)
  functions : m'.scopes.functions = m.scopes.functions
  suspended : m'.scopes.suspended = m.scopes.suspended
  callDepth : m'.callDepth = m.callDepth

/-- A frame is open, and all functions were made for plain definitions. -/
structure Tame (m : Machine) : Prop where
  isOpen : m.scopes.outline ≠ []
  functions : ∀ f ∈ m.scopes.functions, f.Plain

theorem Tame.enter (hm : m.Tame) : Tame { m with scopes := m.scopes.enter } :=
  ⟨by simp, by simpa using hm.functions⟩

theorem Tame.enterCall (hm : m.Tame) {n : Nat} : Tame { m with scopes := m.scopes.enterCall, callDepth := n } :=
  ⟨by simp, by simpa using hm.functions⟩

namespace Keeps

theorem refl (m : Machine) : Keeps [] m m := ⟨by cases m.scopes.outline <;> simp, rfl, rfl, rfl⟩

theorem trans (h : Keeps a m m₁) (h' : Keeps b m₁ m₂) : Keeps (a ++ b) m m₂ := by
  refine ⟨?_, h'.functions.trans h.functions, h'.suspended.trans h.suspended, h'.callDepth.trans h.callDepth⟩
  rw [h'.outline, h.outline, List.modifyHead_modifyHead]
  congr 1
  funext f
  exact List.append_assoc f a b

theorem same_outline (h : Keeps [] m m₁) : m₁.scopes.outline = m.scopes.outline := by
  rw [h.outline]
  cases m.scopes.outline <;> simp

theorem tame (h : Keeps a m m₁) (hm : m.Tame) : m₁.Tame := by
  refine ⟨?_, ?_⟩
  · rw [h.outline]
    simpa using hm.isOpen
  · rw [h.functions]
    exact hm.functions

theorem wider (h : Keeps [] m m₁) (ho : m.scopes.outline ≠ []) : m.scopes.Wider m₁.scopes :=
  .of_alike ho h.same_outline h.functions

theorem of_adds (h : Adds a m m₁) : Keeps a m m₁ := by
  refine ⟨h.outline, h.functions, ?_, ?_⟩ <;>
  · obtain ⟨ds, -, -, rfl⟩ := h
    rfl

/-- A line in the trace or in the output is of no account. -/
theorem of_scopes {output trace : Array String} : Keeps [] m { m with output, trace } :=
  ⟨(refl m).outline, rfl, rfl, rfl⟩

theorem leave (h : Keeps a { m with scopes := m.scopes.enter } m₁) (ho : m.scopes.outline ≠ []) :
    Keeps [] m { m₁ with scopes := m₁.scopes.leave } := by
  have hout : m₁.scopes.outline.tail = m.scopes.outline := by
    rw [h.outline]
    simp
  refine ⟨?_, ?_, ?_, h.callDepth⟩
  · rw [Scopes.outline_leave, hout, (refl m).outline]
    cases m.scopes.outline <;> simp
  · rw [Scopes.functions_leave, h.functions, Scopes.functions_enter]
  · rw [Scopes.suspended_leave (by rw [hout]; exact ho), h.suspended, Scopes.suspended_enter]

/-- Back from a call: the globals are those that the call left, the other frames are those of the caller. -/
theorem leaveCall_scopes {g : Frame} {locals : List Frame} (hk : m.scopes.stack = some ⟨g, locals⟩)
    (h : Keeps a { m with scopes := m.scopes.enterCall, callDepth := m.callDepth + 1 } m₁) :
    ∃ k₁, m₁.scopes.stack = some k₁ ∧ k₁.globals.outline = g.outline ∧
      m₁.scopes.leaveCall = ⟨some ⟨k₁.globals, locals⟩, m.scopes.suspended, m.scopes.functions⟩ := by
  have hout := h.outline
  have hs := h.suspended
  have hf := h.functions
  simp only [Scopes.outline_enterCall, Scopes.functions_enterCall] at hout hf
  simp only [Scopes.outline_of_stack hk, List.getLast?_append, List.getLast?_singleton, Option.some_or,
    Option.toList_some, List.modifyHead_cons, List.nil_append] at hout
  simp only [Scopes.enterCall, hk] at hs
  obtain ⟨k₁, hk₁⟩ := Scopes.exists_stack (s := m₁.scopes) (by rw [hout]; simp)
  refine ⟨k₁, hk₁, ?_, ?_⟩
  · rw [Scopes.outline_of_stack hk₁] at hout
    have hlast := congrArg List.getLast? hout
    simpa using hlast
  · simp only [Scopes.leaveCall, hs, hk₁, hf]

theorem leaveCall (h : Keeps a { m with scopes := m.scopes.enterCall, callDepth := m.callDepth + 1 } m₁)
    (ho : m.scopes.outline ≠ []) :
    Keeps [] m { m₁ with scopes := m₁.scopes.leaveCall, callDepth := m₁.callDepth - 1 } := by
  obtain ⟨⟨g, locals⟩, hk⟩ := Scopes.exists_stack ho
  obtain ⟨k₁, hk₁, hg, he⟩ := leaveCall_scopes hk h
  refine ⟨?_, by rw [he], by rw [he], ?_⟩
  · rw [he, (refl m).outline, Scopes.outline_of_stack hk]
    cases locals <;> simp [Scopes.outline, hg]
  · simp only [h.callDepth, Nat.add_sub_cancel]

end Keeps
end Machine

namespace Walk

open Machine (Keeps Tame)

section Rules

variable {α β : Type} {m : Machine} {a b : List (Data × Ty)} {w : Walk α} {k : α → Walk β}

/-- If the walk ends well it adds the variables `a`, and however it ends it keeps everything else. -/
def Keeping (a : List (Data × Ty)) (w : Walk α) (m : Machine) : Prop :=
  Ends w m (fun _ m' => Keeps a m m') (fun _ m' => ∃ b, Keeps b m m')

theorem Keeping.after {m' : Machine} (h : Keeping b w m') (hm : Keeps a m m') :
    Ends w m' (fun _ m'' => Keeps (a ++ b) m m'') (fun _ m'' => ∃ c, Keeps c m m'') := by
  refine Ends.imp h (fun _ _ hm' => hm.trans hm') ?_
  rintro _ m'' ⟨c, hc⟩
  exact ⟨a ++ c, hm.trans hc⟩

theorem Keeping.bind (h : Keeping a w m) (hk : ∀ x m', Keeps a m m' → Keeping b (k x) m') :
    Keeping (a ++ b) (w >>= k) m :=
  ends_bind.mpr (Ends.imp h (fun x m' hm => (hk x m' hm).after hm) fun _ _ hb => hb)

/-- After a walk that adds nothing. -/
theorem Keeping.seq (h : Keeping [] w m) (hk : ∀ x m', Keeps [] m m' → Keeping b (k x) m') : Keeping b (w >>= k) m :=
  h.bind hk

theorem keeping_pure {x : α} : Keeping [] (pure x : Walk α) m := Keeps.refl m

theorem keeping_throw {e : Failure} : Keeping a (throw e : Walk α) m := ⟨[], Keeps.refl m⟩

theorem keeping_judge {rule : Scopes → Except Failure α} : Keeping [] (judge rule) m :=
  ends_judge.mpr ⟨fun _ _ => Keeps.refl m, fun _ _ => ⟨[], Keeps.refl m⟩⟩

theorem keeping_compute {span : Span} {r : Except Failure Value} : Keeping [] (compute span r) m :=
  ends_compute.mpr ⟨fun _ _ => Keeps.refl m, fun _ _ => ⟨[], Keeps.refl m⟩⟩

theorem keeping_record {settings : Settings} {level : Int} {line : String} : Keeping [] (record settings level line) m :=
  ends_record fun _ => Keeps.of_scopes

theorem keeping_print {line : String} : Keeping [] (print line) m := ends_print.mpr Keeps.of_scopes

theorem keeping_declare {span : Span} {type : Ty} {name : Data} {value : Option Value} :
    Keeping [(name, type)] (declare span type name value) m := by
  refine ends_declare (fun d hd _ => ?_) fun _ => ⟨[], Keeps.refl m⟩
  obtain ⟨first, -, rfl⟩ := Declaration.make_ok.mp hd
  exact ⟨by simp [Frame.outline], rfl, rfl, rfl⟩

theorem keeping_assign {name : Data} {v : Value} : Keeping [] (change fun s => .ok (s.assign name v)) m := by
  refine ends_change.mpr ⟨fun s hs => ?_, fun _ he => nomatch he⟩
  obtain rfl := Except.ok.inj hs
  refine ⟨?_, rfl, rfl, rfl⟩
  rw [Scopes.outline_assign]
  exact (Keeps.refl m).outline

theorem keeping_inScope (h : Keeping a w { m with scopes := m.scopes.enter }) (ho : m.scopes.outline ≠ []) :
    Keeping [] (inScope w) m := by
  refine ends_inScope.mpr (Ends.imp h (fun _ _ hm => hm.leave ho) ?_)
  rintro _ _ ⟨b, hb⟩
  exact ⟨[], hb.leave ho⟩

theorem keeping_inCall (h : Keeping a w { m with scopes := m.scopes.enterCall, callDepth := m.callDepth + 1 })
    (ho : m.scopes.outline ≠ []) : Keeping [] (inCall w) m := by
  refine ends_inCall.mpr (Ends.imp h (fun _ _ hm => hm.leaveCall ho) ?_)
  rintro _ _ ⟨b, hb⟩
  exact ⟨[], hb.leaveCall ho⟩

/-- A check keeps even more. -/
theorem keeping_of_adds {a : List (Data × Ty)}
    (h : Ends w m (fun _ m' => m.Adds a m') (fun _ m' => ∃ b, m.Adds b m')) : Keeping a w m := by
  refine h.imp (fun _ _ hm => .of_adds hm) ?_
  rintro _ _ ⟨b, hb⟩
  exact ⟨b, .of_adds hb⟩

theorem keeping_iterate {settings : Settings} {span : Span} {test : Walk Bool} {pass : Option Loop → Walk (Option Loop)}
    {left done : Nat} {loop : Option Loop} (htest : ∀ m', Keeps [] m m' → Keeping [] test m')
    (hpass : ∀ inner m', Keeps [] m m' → Keeping [] (pass inner) m') :
    Keeping [] (iterate settings span test pass left done loop) m := by
  refine (ends_iterate (I := fun _ m' => Keeps [] m m') ?_ ?_ ?_ ?_ (Keeps.refl m)).imp ?_ fun _ _ hb => hb
  · exact fun _ m' _ h => h.trans .of_scopes
  · exact fun _ m' h => (htest m' h).after h
  · exact fun _ m' h => (hpass _ m' h).after h
  · exact fun _ m' h => ⟨[], h⟩
  · rintro _ m' ⟨_, h⟩
    exact h

end Rules

/-- Calls of plain functions keep everything. -/
def CallKeeps (call : Caller) : Prop :=
  ∀ span name f values m, f.Plain → m.Tame → Keeping [] (call span name f values) m

section Run

variable {settings : Settings} {call : Caller} {m : Machine}

mutual

theorem evaluate_keeps (hc : CallKeeps call) (e : Expr) (m : Machine) (hm : m.Tame) :
    Keeping [] (evaluate call e) m := by
  cases e with
  | literal span v => exact keeping_pure
  | untyped span what => exact keeping_throw
  | identifier span name => exact keeping_judge.seq fun _ _ _ => keeping_pure
  | binary form span op left right =>
    refine (evaluate_keeps hc left m hm).seq fun _ m₁ h₁ => ?_
    exact (evaluate_keeps hc right m₁ (h₁.tame hm)).seq fun _ _ _ => keeping_compute
  | unary form span op operand => exact (evaluate_keeps hc operand m hm).seq fun _ _ _ => keeping_compute
  | call span name args =>
    simp only [evaluate]
    unfold Keeping
    rw [ends_bind, ends_judge]
    refine ⟨fun f hf => ?_, fun _ _ => ⟨[], .refl m⟩⟩
    have hplain : f.Plain := hm.functions f (List.mem_of_find?_eq_some (Scopes.resolve_ok.mp hf))
    exact (evaluateAll_keeps hc args m hm).seq fun values m₁ h₁ => hc span name f values m₁ hplain (h₁.tame hm)
  | missing => exact keeping_throw
  | misfit what => exact keeping_throw
termination_by structural e

theorem evaluateAll_keeps (hc : CallKeeps call) (args : List Expr) (m : Machine) (hm : m.Tame) :
    Keeping [] (evaluateAll call args) m := by
  cases args with
  | nil => exact keeping_pure
  | cons e rest =>
    refine (evaluate_keeps hc e m hm).seq fun _ m₁ h₁ => ?_
    exact (evaluateAll_keeps hc rest m₁ (h₁.tame hm)).seq fun _ _ _ => keeping_pure
termination_by structural args

end

theorem checkBlock_keeps {loop : Option Loop} {block : List Stmt} (hp : Stmt.PlainBlock block) (hm : m.Tame) :
    Keeping [] (inScope (checkBlock settings loop block)) m :=
  keeping_inScope (keeping_of_adds (checkBlock_adds settings loop block hp _ (by simp))) hm.isOpen

theorem checkElse_keeps {loop : Option Loop} {block : Option (List Stmt)} (hp : Stmt.PlainElse block) (hm : m.Tame) :
    Keeping [] (checkElse settings loop block) m := by
  cases block with
  | none => exact keeping_pure
  | some block => exact checkBlock_keeps hp hm

mutual

/-- Running a plain statement adds what it declares and keeps everything else but values. -/
theorem run_keeps (hc : CallKeeps call) (printing : Bool) (loop : Option Loop) (isLast : Bool) (s : Stmt) (hp : s.Plain)
    (m : Machine) (hm : m.Tame) : Keeping s.declares (run settings call printing loop isLast s) m := by
  cases s with
  | declare span type name init =>
    refine keeping_judge.seq fun _ m₁ h₁ => keeping_judge.seq fun _ m₂ h₂ => ?_
    have hm₂ : m₂.Tame := (h₁.trans h₂).tame hm
    have finish : ∀ value m₃, Keeping [(name, type)] (do
        let d ← declare span type name value
        record settings 2 s!"declare {name.shown}: {type.text} = {d.value.shown}"
        return loop) m₃ :=
      fun value m₃ => keeping_declare.bind fun _ _ _ => keeping_record.seq fun _ _ _ => keeping_pure
    cases init with
    | none => exact finish none m₂
    | some e => exact (evaluate_keeps hc e m₂ hm₂).seq fun v m₃ _ => finish (some v) m₃
  | param span type name => exact keeping_declare.bind fun _ _ _ => keeping_pure
  | assign span name op e =>
    refine keeping_judge.seq fun _ m₁ h₁ => (evaluate_keeps hc e m₁ (h₁.tame hm)).seq fun _ _ _ => ?_
    refine keeping_judge.seq fun _ _ _ => keeping_compute.seq fun _ _ _ => keeping_assign.seq fun _ _ _ => ?_
    exact keeping_record.seq fun _ _ _ => keeping_pure
  | call span name args =>
    refine keeping_judge.seq fun _ m₁ h₁ => ?_
    exact (evaluate_keeps hc (.call span name args) m₁ (h₁.tame hm)).seq fun _ _ _ => keeping_pure
  | define span result name params body value => exact hp.elim
  | print span operand =>
    refine keeping_judge.seq fun _ m₁ h₁ => ?_
    cases printing with
    | false => exact keeping_pure
    | true =>
      cases operand with
      | none => exact keeping_print.seq fun _ _ _ => keeping_pure
      | some e =>
        refine (evaluate_keeps hc e m₁ (h₁.tame hm)).seq fun _ _ _ => ?_
        exact keeping_print.seq fun _ _ _ => keeping_pure
  | branch span condition thenBlock elseBlock =>
    refine keeping_judge.seq fun _ m₁ h₁ => (evaluate_keeps hc condition m₁ (h₁.tame hm)).seq fun v m₂ h₂ => ?_
    refine keeping_record.seq fun _ m₃ h₃ => ?_
    have hm₃ : m₃.Tame := ((h₁.trans h₂).trans h₃).tame hm
    dsimp only
    split
    · refine (checkElse_keeps hp.2.2 hm₃).seq fun l m₄ h₄ => ?_
      have hm₄ := h₄.tame hm₃
      have hb := runBlock_keeps hc printing l thenBlock hp.2.1 _ hm₄.enter
      exact (keeping_inScope hb hm₄.isOpen).seq fun _ _ _ => keeping_pure
    · refine (checkBlock_keeps hp.2.1 hm₃).seq fun l m₄ h₄ => ?_
      exact (runElse_keeps hc printing l elseBlock hp.2.2 m₄ (h₄.tame hm₃)).seq fun _ _ _ => keeping_pure
  | loop span condition body =>
    cases body with
    | none => exact hp.2.elim
    | some block =>
      refine keeping_judge.seq fun _ m₁ h₁ => (checkBlock_keeps hp.2 (h₁.tame hm)).seq fun _ m₂ h₂ => ?_
      have hm₂ : m₂.Tame := (h₁.trans h₂).tame hm
      refine (keeping_iterate (fun m₃ h₃ => ?_) fun inner m₃ h₃ => ?_).seq fun _ _ _ => keeping_pure
      · exact (evaluate_keeps hc condition m₃ (h₃.tame hm₂)).seq fun _ _ _ => keeping_pure
      · have hm₃ := h₃.tame hm₂
        exact keeping_inScope (runBlock_keeps hc printing inner block hp.2 _ hm₃.enter) hm₃.isOpen
  | breakOut span => exact keeping_judge.seq fun _ _ _ => keeping_pure
  | misfit what => exact hp.elim
termination_by structural s

theorem runBlock_keeps (hc : CallKeeps call) (printing : Bool) (loop : Option Loop) (block : List Stmt)
    (hp : Stmt.PlainBlock block) (m : Machine) (hm : m.Tame) :
    Keeping (block.flatMap Stmt.declares) (runBlock settings call printing loop block) m := by
  cases block with
  | nil => exact keeping_pure
  | cons s rest =>
    rw [List.flatMap_cons]
    refine (run_keeps hc printing loop rest.isEmpty s hp.1 m hm).bind fun l m₁ h₁ => ?_
    exact runBlock_keeps hc printing l rest hp.2 m₁ (h₁.tame hm)
termination_by structural block

theorem runElse_keeps (hc : CallKeeps call) (printing : Bool) (loop : Option Loop) (block : Option (List Stmt))
    (hp : Stmt.PlainElse block) (m : Machine) (hm : m.Tame) :
    Keeping [] (runElse settings call printing loop block) m := by
  cases block with
  | none => exact keeping_pure
  | some block => exact keeping_inScope (runBlock_keeps hc printing loop block hp _ hm.enter) hm.isOpen
termination_by structural block

end

theorem bindParams_keeps (params : List Stmt) (hp : ∀ p ∈ params, p.IsParam) (values : List Value) (m : Machine) :
    Keeping ((params.take values.length).flatMap Stmt.declares) (bindParams params values) m := by
  induction params generalizing values m with
  | nil =>
    cases values <;> exact keeping_pure
  | cons p params ih =>
    cases values with
    | nil =>
      simp only [bindParams]
      exact keeping_pure
    | cons v values =>
      cases p with
      | param span type name =>
        have hd : Keeping [(name, type)] (declare span type name (some v)) m := keeping_declare
        exact hd.bind fun _ m₁ _ => ih (fun q hq => hp q (.tail _ hq)) values m₁
      | _ => exact (hp _ (.head _)).elim

/-- Calls keep everything, whatever number of calls may still be made. -/
theorem callWith_keeps (printing : Bool) (left : Nat) : CallKeeps (callWith settings printing left) := by
  induction left with
  | zero => exact fun _ _ _ _ _ _ _ => keeping_throw
  | succ left ih =>
    rintro span name f values m ⟨⟨span', result, name', params, _ | body, value⟩, hd, hp, -⟩ hm
    · exact hp.body.elim
    · refine keeping_record.seq fun _ m₁ h₁ => ?_
      have hm₁ := h₁.tame hm
      simp only [hd]
      have hparams := bindParams_keeps params hp.params values
      refine keeping_inCall ((hparams _).bind (b := body.flatMap Stmt.declares ++ []) fun _ m₂ h₂ => ?_) hm₁.isOpen
      have hm₂ := h₂.tame hm₁.enterCall
      refine (runBlock_keeps ih printing none body hp.body m₂ hm₂).bind fun _ m₃ h₃ => ?_
      refine keeping_judge.seq fun _ m₄ h₄ => ?_
      exact evaluate_keeps ih value m₄ ((h₃.trans h₄).tame hm₂)

end Run

end Walk
end CheckedScript
