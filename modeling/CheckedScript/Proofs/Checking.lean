import CheckedScript.Proofs.Plain
import CheckedScript.Proofs.Widening

/-! What checking a plain statement does. It declares in the innermost frame what the statement declares there, each variable
with the value of its type, and changes nothing else; so a check in a frame of its own changes nothing at all. If it ends
well from one state, it ends well from every state with wider scopes. -/

namespace CheckedScript

/-- Every variable of the frame has a value of its type. -/
def Frame.Typed (f : Frame) : Prop := ∀ d ∈ f, d.value.type? = some d.type

theorem Frame.typed_nil : Frame.Typed [] := by simp [Frame.Typed]

theorem Frame.typed_append {f g : Frame} : Frame.Typed (f ++ g) ↔ f.Typed ∧ g.Typed := by
  simp only [Frame.Typed, List.mem_append]
  constructor
  · intro h
    exact ⟨fun d hd => h d (Or.inl hd), fun d hd => h d (Or.inr hd)⟩
  · rintro ⟨hf, hg⟩ d (hd | hd)
    · exact hf d hd
    · exact hg d hd

theorem Ty.default?_type {t : Ty} {v : Value} (h : t.default? = some v) : v.type? = some t := by
  cases t <;> simp [Ty.default?] at h <;> subst h <;> rfl

theorem Declaration.make_ok {name : Data} {type : Ty} {value : Option Value} {d : Declaration} :
    Declaration.make name type value none = .ok d ↔
      ∃ first, type.default? = some first ∧ d = ⟨name, type, value.getD first, first⟩ := by
  unfold Declaration.make Literal.defaultFor
  cases type.default? <;> simp [bind, Except.bind, pure, Except.pure, eq_comm]

namespace Machine

variable {m m₁ m₂ : Machine} {a b : List (Data × Ty)}

/-- The second state is the first with the variables `a` added to the innermost frame. -/
def Adds (a : List (Data × Ty)) (m m' : Machine) : Prop :=
  ∃ ds : Frame, ds.Typed ∧ ds.outline = a ∧ m' = { m with scopes := m.scopes.extend ds }

namespace Adds

theorem refl (m : Machine) : Adds [] m m := ⟨[], Frame.typed_nil, rfl, by simp⟩

theorem trans (h : Adds a m m₁) (h' : Adds b m₁ m₂) : Adds (a ++ b) m m₂ := by
  obtain ⟨ds, ht, ho, rfl⟩ := h
  obtain ⟨es, ht', ho', rfl⟩ := h'
  exact ⟨ds ++ es, Frame.typed_append.mpr ⟨ht, ht'⟩, by rw [Frame.outline_append, ho, ho'], by simp⟩

theorem outline (h : Adds a m m₁) : m₁.scopes.outline = m.scopes.outline.modifyHead (· ++ a) := by
  obtain ⟨ds, -, rfl, rfl⟩ := h
  simp

theorem functions (h : Adds a m m₁) : m₁.scopes.functions = m.scopes.functions := by
  obtain ⟨ds, -, -, rfl⟩ := h
  rfl

theorem isOpen (h : Adds a m m₁) (ho : m.scopes.outline ≠ []) : m₁.scopes.outline ≠ [] := by
  rw [h.outline]
  simpa using ho

/-- Nothing is left of what was added in a frame of its own. -/
theorem leave (h : Adds a { m with scopes := m.scopes.enter } m₁) (ho : m.scopes.outline ≠ []) :
    { m₁ with scopes := m₁.scopes.leave } = m := by
  obtain ⟨ds, -, -, rfl⟩ := h
  simp only [Scopes.leave_extend_enter ho]

end Adds
end Machine

namespace Walk

open Machine (Adds)

variable {settings : Settings} {m : Machine}

theorem ends_declare {span : Span} {type : Ty} {name : Data} {value : Option Value}
    {good : Declaration → Machine → Prop} {bad : Failure → Machine → Prop}
    (hg : ∀ d, Declaration.make name type value none = .ok d → m.scopes.ensureUndeclared name span = .ok () →
      good d { m with scopes := m.scopes.extend [d] })
    (hb : ∀ e, bad e m) : Ends (declare span type name value) m good bad := by
  simp only [declare, ends_bind, ends_judge, ends_change, ends_pure]
  refine ⟨fun d hd => ⟨fun s' hs' => ?_, fun e _ => hb e⟩, fun e _ => hb e⟩
  obtain ⟨hu, rfl⟩ := Scopes.declare_ok hs'
  obtain ⟨first, -, hd'⟩ := Declaration.make_ok.mp hd
  exact hg d hd (by simpa [hd'] using hu)

theorem declare_adds {span : Span} {type : Ty} {name : Data} :
    Ends (declare span type name none) m (fun _ m' => Adds [(name, type)] m m') (fun _ m' => m' = m) := by
  refine ends_declare (fun d hd _ => ?_) fun _ => rfl
  obtain ⟨first, hf, rfl⟩ := Declaration.make_ok.mp hd
  refine ⟨_, ?_, ?_, rfl⟩
  · simp [Frame.Typed, Ty.default?_type hf]
  · rfl

theorem inScope_adds {α : Type} {w : Walk α} {added : List (Data × Ty)} (ho : m.scopes.outline ≠ [])
    (h : Ends w { m with scopes := m.scopes.enter } (fun _ m' => Adds added { m with scopes := m.scopes.enter } m')
      (fun _ m' => ∃ a, Adds a { m with scopes := m.scopes.enter } m')) :
    Ends (inScope w) m (fun _ m' => m' = m) (fun _ m' => m' = m) := by
  rw [ends_inScope]
  refine h.imp (fun _ _ ha => ha.leave ho) ?_
  · rintro _ m' ⟨a, ha⟩
    exact ha.leave ho

mutual

theorem check_adds (settings : Settings) (loop : Option Loop) (isLast : Bool) (s : Stmt) (hp : s.Plain) (m : Machine)
    (ho : m.scopes.outline ≠ []) :
    Ends (check settings loop isLast s) m (fun _ m' => Adds s.declares m m') (fun _ m' => ∃ a, Adds a m m') := by
  have stay : ∃ a, Adds a m m := ⟨[], Adds.refl m⟩
  cases s with
  | declare span type name init =>
    simp only [check, ends_bind, ends_judge, ends_pure]
    refine ⟨fun _ _ => ⟨fun _ _ => ?_, fun _ _ => stay⟩, fun _ _ => stay⟩
    exact declare_adds.imp (fun _ _ h => h) fun _ _ h => h ▸ stay
  | param span type name =>
    simp only [check, ends_bind, ends_pure]
    exact declare_adds.imp (fun _ _ h => h) fun _ _ h => h ▸ stay
  | assign span name op e =>
    simp only [check, ends_bind, ends_judge, ends_pure]
    exact ⟨fun _ _ => Adds.refl m, fun _ _ => stay⟩
  | call span name args =>
    simp only [check, ends_bind, ends_judge, ends_pure]
    exact ⟨fun _ _ => Adds.refl m, fun _ _ => stay⟩
  | define span result name params body value => exact hp.elim
  | print span operand =>
    simp only [check, ends_bind, ends_judge, ends_pure]
    exact ⟨fun _ _ => Adds.refl m, fun _ _ => stay⟩
  | branch span condition thenBlock elseBlock =>
    simp only [check, ends_bind, ends_judge, ends_pure]
    refine ⟨fun _ _ => ?_, fun _ _ => stay⟩
    have ht := inScope_adds ho (checkBlock_adds settings loop thenBlock hp.2.1 _ (by simp))
    refine ht.imp (fun loop' m' hm => ?_) fun _ m' hm => hm ▸ stay
    subst hm
    refine (checkElse_adds settings loop' elseBlock hp.2.2 m' ho).imp (fun _ _ h => ?_) fun _ _ h => h ▸ stay
    exact h ▸ Adds.refl m'
  | loop span condition body =>
    cases body with
    | none => exact hp.2.elim
    | some block =>
      simp only [check, ends_bind, ends_judge, ends_pure]
      refine ⟨fun _ _ => ?_, fun _ _ => stay⟩
      have hb := inScope_adds ho (checkBlock_adds settings (some .fresh) block hp.2 _ (by simp))
      exact hb.imp (fun _ _ h => h ▸ Adds.refl m) fun _ _ h => h ▸ stay
  | breakOut span =>
    simp only [check, ends_bind, ends_judge, ends_pure]
    exact ⟨fun _ _ => Adds.refl m, fun _ _ => stay⟩
  | misfit what => exact hp.elim
termination_by structural s

theorem checkBlock_adds (settings : Settings) (loop : Option Loop) (block : List Stmt) (hp : Stmt.PlainBlock block)
    (m : Machine) (ho : m.scopes.outline ≠ []) :
    Ends (checkBlock settings loop block) m (fun _ m' => Adds (block.flatMap Stmt.declares) m m')
      (fun _ m' => ∃ a, Adds a m m') := by
  cases block with
  | nil => exact Adds.refl m
  | cons s rest =>
    simp only [checkBlock, ends_bind]
    refine (check_adds settings loop rest.isEmpty s hp.1 m ho).imp (fun loop' m₁ h₁ => ?_) fun _ _ h => h
    refine (checkBlock_adds settings loop' rest hp.2 m₁ (h₁.isOpen ho)).imp (fun _ m₂ h₂ => ?_) ?_
    · rw [List.flatMap_cons]
      exact h₁.trans h₂
    · rintro _ m₂ ⟨a, ha⟩
      exact ⟨_, h₁.trans ha⟩
termination_by structural block

theorem checkElse_adds (settings : Settings) (loop : Option Loop) (block : Option (List Stmt)) (hp : Stmt.PlainElse block)
    (m : Machine) (ho : m.scopes.outline ≠ []) :
    Ends (checkElse settings loop block) m (fun _ m' => m' = m) (fun _ m' => m' = m) := by
  cases block with
  | none => rfl
  | some block => exact inScope_adds ho (checkBlock_adds settings loop block hp _ (by simp))
termination_by structural block

end

/-- Declaring without a value fails only if the type has none or the name is taken. -/
theorem declare_wider {span : Span} {type : Ty} {name : Data} {d : Declaration} {m n m' : Machine}
    (hw : m.scopes.Wider n.scopes) (hd : declare span type name none m = .ok d m') :
    ∃ d' n', declare span type name none n = .ok d' n' := by
  simp only [declare, bind_ok, judge_ok, change_ok, pure_ok] at hd
  obtain ⟨d, _, ⟨hm, rfl⟩, _, _, ⟨s', hs', -⟩, -, -⟩ := hd
  obtain ⟨hu, -⟩ := Scopes.declare_ok hs'
  have hn := Scopes.declare_of_undeclared hw.right_open (hw.ensureUndeclared hu)
  refine ⟨d, { n with scopes := n.scopes.extend [d] }, ?_⟩
  simp only [declare, bind_ok, judge_ok, change_ok, pure_ok]
  exact ⟨d, n, ⟨hm, rfl⟩, (), _, ⟨_, hn, rfl⟩, rfl, rfl⟩

theorem inScope_wider {α : Type} {w w' : Walk α} {m n : Machine}
    (h : ∀ a m', w { m with scopes := m.scopes.enter } = .ok a m' →
      ∃ n', w' { n with scopes := n.scopes.enter } = .ok a n')
    {a : α} {m' : Machine} (hc : inScope w m = .ok a m') : ∃ n', inScope w' n = .ok a n' := by
  simp only [inScope_ok] at hc ⊢
  obtain ⟨m₁, h₁, -⟩ := hc
  obtain ⟨n₁, hn₁⟩ := h a m₁ h₁
  exact ⟨_, n₁, hn₁, rfl⟩

mutual

/-- A check that ends well goes on to do so, and with the same loop, where the scopes are wider. -/
theorem check_wider (settings' : Settings) (loop : Option Loop) (isLast : Bool) (s : Stmt) (hp : s.Plain) {m n : Machine}
    (hw : m.scopes.Wider n.scopes) {loop' : Option Loop} {m' : Machine}
    (hc : check settings loop isLast s m = .ok loop' m') :
    ∃ n', check settings' loop isLast s n = .ok loop' n' := by
  cases s with
  | declare span type name init =>
    simp only [check, bind_ok, judge_ok, pure_ok] at hc ⊢
    obtain ⟨_, _, ⟨hd, rfl⟩, _, _, ⟨hu, rfl⟩, d, _, hm, rfl, -⟩ := hc
    obtain ⟨d', n', hn⟩ := declare_wider hw hm
    exact ⟨n', (), n, ⟨hw.checkDeclaration hd, rfl⟩, (), n, ⟨hw.ensureUndeclared hu, rfl⟩, d', n', hn, rfl, rfl⟩
  | param span type name =>
    simp only [check, bind_ok, pure_ok] at hc ⊢
    obtain ⟨d, _, hm, rfl, -⟩ := hc
    obtain ⟨d', n', hn⟩ := declare_wider hw hm
    exact ⟨n', d', n', hn, rfl, rfl⟩
  | assign span name op e =>
    simp only [check, bind_ok, judge_ok, pure_ok] at hc ⊢
    obtain ⟨d, _, ⟨hd, rfl⟩, rfl, -⟩ := hc
    obtain ⟨d', hd'⟩ := hw.checkAssignment hd
    exact ⟨n, d', n, ⟨hd', rfl⟩, rfl, rfl⟩
  | call span name args =>
    simp only [check, bind_ok, judge_ok, pure_ok] at hc ⊢
    obtain ⟨f, _, ⟨hf, rfl⟩, rfl, -⟩ := hc
    exact ⟨n, f, n, ⟨hw.checkCall hf, rfl⟩, rfl, rfl⟩
  | define span result name params body value => exact hp.elim
  | print span operand =>
    simp only [check, bind_ok, judge_ok, pure_ok] at hc ⊢
    obtain ⟨_, _, ⟨he, rfl⟩, rfl, -⟩ := hc
    exact ⟨n, (), n, ⟨hw.checkPrint he, rfl⟩, rfl, rfl⟩
  | branch span condition thenBlock elseBlock =>
    simp only [check, bind_ok, judge_ok, pure_ok] at hc ⊢
    obtain ⟨_, _, ⟨hf, rfl⟩, l₁, m₁, ht, l₂, m₂, he, rfl, -⟩ := hc
    obtain rfl := (inScope_adds hw.left_open (checkBlock_adds settings loop thenBlock hp.2.1 _ (by simp))).ok ht
    obtain ⟨n₁, hn₁⟩ := inScope_wider (fun _ _ h => checkBlock_wider settings' loop thenBlock hp.2.1 hw.enter h) ht
    obtain rfl := (inScope_adds hw.right_open (checkBlock_adds settings' loop thenBlock hp.2.1 _ (by simp))).ok hn₁
    obtain ⟨n₂, hn₂⟩ := checkElse_wider settings' l₁ elseBlock hp.2.2 hw he
    exact ⟨n₂, (), n₁, ⟨hw.checkCondition hf, rfl⟩, l₁, n₁, hn₁, l₂, n₂, hn₂, rfl, rfl⟩
  | loop span condition body =>
    cases body with
    | none => exact hp.2.elim
    | some block =>
      simp only [check, bind_ok, judge_ok, pure_ok] at hc ⊢
      obtain ⟨_, _, ⟨hf, rfl⟩, l₁, m₁, hb, rfl, -⟩ := hc
      obtain ⟨n₁, hn₁⟩ := inScope_wider (fun _ _ h => checkBlock_wider settings' (some .fresh) block hp.2 hw.enter h) hb
      exact ⟨n₁, (), n, ⟨hw.checkCondition hf, rfl⟩, l₁, n₁, hn₁, rfl, rfl⟩
  | breakOut span =>
    simp only [check, bind_ok, judge_ok, pure_ok] at hc ⊢
    obtain ⟨_, _, ⟨hf, rfl⟩, rfl, -⟩ := hc
    exact ⟨n, (), n, ⟨hf, rfl⟩, rfl, rfl⟩
  | misfit what => exact hp.elim
termination_by structural s

theorem checkBlock_wider (settings' : Settings) (loop : Option Loop) (block : List Stmt) (hp : Stmt.PlainBlock block)
    {m n : Machine} (hw : m.scopes.Wider n.scopes) {loop' : Option Loop} {m' : Machine}
    (hc : checkBlock settings loop block m = .ok loop' m') :
    ∃ n', checkBlock settings' loop block n = .ok loop' n' := by
  cases block with
  | nil =>
    simp only [checkBlock, pure_ok] at hc ⊢
    exact ⟨n, hc.1, rfl⟩
  | cons s rest =>
    simp only [checkBlock, bind_ok] at hc ⊢
    obtain ⟨l₁, m₁, h₁, h₂⟩ := hc
    obtain ⟨n₁, hn₁⟩ := check_wider settings' loop rest.isEmpty s hp.1 hw h₁
    have ha := (check_adds settings loop rest.isEmpty s hp.1 m hw.left_open).ok h₁
    have hb := (check_adds settings' loop rest.isEmpty s hp.1 n hw.right_open).ok hn₁
    have hw₁ := hw.grow ha.outline ha.functions hb.outline hb.functions
    obtain ⟨n₂, hn₂⟩ := checkBlock_wider settings' l₁ rest hp.2 hw₁ h₂
    exact ⟨n₂, l₁, n₁, hn₁, hn₂⟩
termination_by structural block

theorem checkElse_wider (settings' : Settings) (loop : Option Loop) (block : Option (List Stmt))
    (hp : Stmt.PlainElse block) {m n : Machine} (hw : m.scopes.Wider n.scopes) {loop' : Option Loop} {m' : Machine}
    (hc : checkElse settings loop block m = .ok loop' m') :
    ∃ n', checkElse settings' loop block n = .ok loop' n' := by
  cases block with
  | none =>
    simp only [checkElse, pure_ok] at hc ⊢
    exact ⟨n, hc.1, rfl⟩
  | some block => exact inScope_wider (fun _ _ h => checkBlock_wider settings' loop block hp hw.enter h) hc
termination_by structural block

end

end Walk
end CheckedScript
