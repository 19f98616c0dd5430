import CheckedScript.Proofs.Running

/-! Definitions. A definition enters the table of functions and then its body is checked on the globals and a fresh frame, of
which nothing is left afterwards. A body that was accepted once is accepted wherever more globals and more functions are
known, so it is accepted at every call. -/

namespace CheckedScript

/-- What was declared in the frame of a body is gone when the body is left. -/
theorem Scopes.leaveCall_extend_enterCall {s : Scopes} (ho : s.outline ≠ []) (ds : List Declaration) :
    (s.enterCall.extend ds).leaveCall = s := by
  obtain ⟨_ | ⟨g, locals⟩, suspended, functions⟩ := s
  · exact absurd rfl ho
  · rfl

theorem Scopes.register_ok {s s' : Scopes} {d : Definition} : s.register d = .ok s' ↔
    ∃ f, d.signature? = some f ∧ s.function? f.name f.params.length = none ∧
      s' = { s with functions := s.functions ++ [⟨f, some d⟩] } := by
  unfold register
  cases d.signature? with
  | none => simp
  | some f =>
    simp only [declareFunction, Option.some.injEq, exists_eq_left']
    cases s.function? f.name f.params.length with
    | none => simp [eq_comm]
    | some existing =>
      simp only [reduceCtorEq, false_and, iff_false]
      split <;> simp

theorem Stmt.IsParam.plain {p : Stmt} (h : p.IsParam) : p.Plain := by
  cases p with
  | param span type name => exact h
  | _ => exact h.elim

theorem Stmt.plainBlock_iff {block : List Stmt} : PlainBlock block ↔ ∀ s ∈ block, s.Plain := by
  induction block with
  | nil => simp [PlainBlock]
  | cons s rest ih => simp [PlainBlock, ih]

theorem Definition.Plain.plainParams {d : Definition} (h : d.Plain) : Stmt.PlainBlock d.params :=
  Stmt.plainBlock_iff.mpr fun p hp => (h.params p hp).plain

/-- A plain definition has a signature: its parameters declare what the types of the signature say. -/
theorem Definition.Plain.signature {d : Definition} (h : d.Plain) :
    d.signature? = some ⟨d.result, d.name, (d.params.flatMap Stmt.declares).map Prod.snd⟩ := by
  have hmap : ∀ params : List Stmt, (∀ p ∈ params, p.IsParam) →
      params.mapM Stmt.declaredType? = some ((params.flatMap Stmt.declares).map Prod.snd) := by
    intro params hp
    induction params with
    | nil => rfl
    | cons p rest ih =>
      have hr := ih fun q hq => hp q (.tail _ hq)
      cases p with
      | param span type name => simp [List.mapM_cons, Stmt.declaredType?, Stmt.declares, hr]
      | _ => exact (hp _ (.head _)).elim
  rw [signature?, hmap d.params h.params]
  rfl

namespace Walk

open Machine (Adds Keeps)

variable {settings : Settings} {d : Definition} {m n : Machine}

/-- The parameters, the body and the returned value of a definition are accepted on the frames of the state. -/
def Accepts (settings : Settings) (d : Definition) (m : Machine) : Prop :=
  ∃ l₁ m₁ l₂ m₂, checkBlock settings none d.params m = .ok l₁ m₁ ∧ checkBody settings none d.body m₁ = .ok l₂ m₂ ∧
    m₂.scopes.checkReturn d = .ok ()

theorem checkBody_adds (settings : Settings) (loop : Option Loop) {body : Option (List Stmt)} (hp : Stmt.PlainBody body)
    (ho : m.scopes.outline ≠ []) :
    Ends (checkBody settings loop body) m (fun _ m' => ∃ a, Adds a m m') (fun _ m' => ∃ a, Adds a m m') := by
  cases body with
  | none => exact hp.elim
  | some block => exact (checkBlock_adds settings loop block hp m ho).imp (fun _ _ h => ⟨_, h⟩) fun _ _ h => h

/-- Wherever more globals and functions are known, a definition goes on to be accepted. -/
theorem Accepts.wider (h : Accepts settings d m) (hd : d.Plain) (hw : m.scopes.Wider n.scopes) (settings' : Settings) :
    Accepts settings' d n := by
  obtain ⟨l₁, m₁, l₂, m₂, h₁, h₂, h₃⟩ := h
  obtain ⟨span, result, name, params, _ | body, value⟩ := d
  · exact hd.body.elim
  obtain ⟨n₁, hn₁⟩ := checkBlock_wider settings' none params hd.plainParams hw h₁
  have ha := (checkBlock_adds settings none params hd.plainParams m hw.left_open).ok h₁
  have hb := (checkBlock_adds settings' none params hd.plainParams n hw.right_open).ok hn₁
  have hw₁ := hw.grow ha.outline ha.functions hb.outline hb.functions
  obtain ⟨n₂, hn₂⟩ := checkBlock_wider settings' none body hd.body hw₁ h₂
  have ha₂ := (checkBlock_adds settings none body hd.body m₁ hw₁.left_open).ok h₂
  have hb₂ := (checkBlock_adds settings' none body hd.body n₁ hw₁.right_open).ok hn₂
  have hw₂ := hw₁.grow ha₂.outline ha₂.functions hb₂.outline hb₂.functions
  exact ⟨l₁, n₁, l₂, n₂, hn₁, hn₂, hw₂.checkReturn h₃⟩

/-- The parameters of a definition are run as they are checked. -/
theorem runBlock_params {call : Caller} {printing : Bool} {loop : Option Loop} {params : List Stmt}
    (hp : ∀ p ∈ params, p.IsParam) : runBlock settings call printing loop params = checkBlock settings loop params := by
  induction params generalizing loop with
  | nil => rfl
  | cons p rest ih =>
    cases p with
    | param span type name =>
      simp only [runBlock, checkBlock, run]
      exact congrArg _ (funext fun l => ih fun q hq => hp q (.tail _ hq))
    | _ => exact (hp _ (.head _)).elim

/-- The state in which the body of a new function is walked. -/
def defining (m : Machine) (f : Function) : Machine :=
  { m with scopes := Scopes.enterCall { m.scopes with functions := m.scopes.functions ++ [f] } }

/-- The state after a function was defined. -/
def defined (m : Machine) (f : Function) (trace : Array String) : Machine :=
  { m with scopes := { m.scopes with functions := m.scopes.functions ++ [f] }, trace }

/-- The walk of a definition that only looks at its body. -/
def defineOnly (settings : Settings) (d : Definition) : Walk Unit :=
  define settings d (checkBlock settings none d.params) (checkBody settings none d.body)

/-- Nothing is left of the frame in which the body was looked at. -/
theorem leaveCall_defining {f : Function} {a : List (Data × Ty)} {m' : Machine} (ho : m.scopes.outline ≠ [])
    (h : Adds a (defining m f) m') :
    { m' with scopes := m'.scopes.leaveCall } = defined m f m.trace := by
  obtain ⟨ds, -, -, rfl⟩ := h
  simp only [defining, defined]
  rw [Scopes.leaveCall_extend_enterCall]
  exact ho

theorem Accepts.adds (h : Accepts settings d m) (hd : d.Plain) (ho : m.scopes.outline ≠ []) :
    ∃ l₁ m₁ l₂ m₂, checkBlock settings none d.params m = .ok l₁ m₁ ∧ checkBody settings none d.body m₁ = .ok l₂ m₂ ∧
      m₂.scopes.checkReturn d = .ok () ∧ Adds (d.params.flatMap Stmt.declares) m m₁ ∧ ∃ a, Adds a m₁ m₂ := by
  obtain ⟨l₁, m₁, l₂, m₂, h₁, h₂, h₃⟩ := h
  have ha := (checkBlock_adds settings none d.params hd.plainParams m ho).ok h₁
  exact ⟨l₁, m₁, l₂, m₂, h₁, h₂, h₃, ha, (checkBody_adds settings none hd.body (ha.isOpen ho)).ok h₂⟩

/-- A definition ends well if its name is new and its body is accepted, and then the function is all that was added. -/
theorem defineOnly_ok (hd : d.Plain) (ho : m.scopes.outline ≠ []) {f : Signature} (hf : d.signature? = some f)
    {u : Unit} {m' : Machine} (h : defineOnly settings d m = .ok u m') :
    m.scopes.function? f.name f.params.length = none ∧ Accepts settings d (defining m ⟨f, some d⟩) ∧
      ∃ trace, m' = defined m ⟨f, some d⟩ trace := by
  simp only [defineOnly, define, bind_ok, change_ok, inBody_ok, judge_ok] at h
  obtain ⟨_, _, ⟨s', hs', rfl⟩, _, _, ⟨_, ⟨l₁, _, h₁, l₂, _, h₂, h₃, rfl⟩, rfl⟩, hr⟩ := h
  obtain ⟨f', hf', hnew, rfl⟩ := Scopes.register_ok.mp hs'
  obtain rfl : f' = f := Option.some.inj (hf'.symm.trans hf)
  have hacc : Accepts settings d (defining m ⟨f', some d⟩) := ⟨l₁, _, l₂, _, h₁, h₂, h₃⟩
  have ha := (checkBlock_adds settings none d.params hd.plainParams _ (by simp)).ok h₁
  obtain ⟨b, hb⟩ := (checkBody_adds settings none hd.body (ha.isOpen (by simp))).ok h₂
  obtain ⟨trace, rfl⟩ := record_ok hr
  rw [leaveCall_defining (f := ⟨f', some d⟩) ho (ha.trans hb)]
  exact ⟨hnew, hacc, trace, rfl⟩

theorem defineOnly_of_accepts (hd : d.Plain) (ho : m.scopes.outline ≠ []) {f : Signature} (hf : d.signature? = some f)
    (hnew : m.scopes.function? f.name f.params.length = none) (hacc : Accepts settings d (defining m ⟨f, some d⟩)) :
    ∃ trace, defineOnly settings d m = .ok () (defined m ⟨f, some d⟩ trace) := by
  obtain ⟨l₁, m₁, l₂, m₂, h₁, h₂, h₃, ha, b, hb⟩ := hacc.adds hd (by simp [defining])
  have hs := Scopes.register_ok.mpr ⟨f, hf, hnew, rfl⟩
  obtain ⟨trace, ht⟩ := record_eq settings 2 s!"define function {d.name.shown}/{d.params.length}"
    (defined m ⟨f, some d⟩ m.trace)
  refine ⟨trace, ?_⟩
  simp only [defineOnly, define, bind_ok, change_ok, inBody_ok, judge_ok]
  refine ⟨(), _, ⟨_, hs, rfl⟩, (), _, ⟨m₂, ⟨l₁, m₁, h₁, l₂, m₂, h₂, h₃, rfl⟩, rfl⟩, ?_⟩
  rw [leaveCall_defining ho (ha.trans hb)]
  exact ht

end Walk

theorem Machine.Tame.defined {m : Machine} (hm : m.Tame) {f : Function} (hf : f.Plain) {trace : Array String} :
    (Walk.defined m f trace).Tame := by
  refine ⟨hm.isOpen, fun g hg => ?_⟩
  rcases List.mem_append.mp hg with hg | hg
  · exact hm.functions g hg
  · obtain rfl := List.mem_singleton.mp hg
    exact hf

end CheckedScript
