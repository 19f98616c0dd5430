import CheckedScript.Interpreter

/-! How walks end. A walk from a state ends well, with a result, or badly, with a failure, and in both cases it leaves
a state. `Ends` says what holds of either end. Each step that walks are made of has one rule here, so that a fact about a
whole walk is read off the facts about its steps, and no later proof opens the step itself. -/

namespace CheckedScript.Walk

variable {α β : Type} {m m' : Machine} {good good' : α → Machine → Prop} {bad bad' : Failure → Machine → Prop}

/-- The walk from `m` ends well with `good`, or badly with `bad`. -/
def Ends (w : Walk α) (m : Machine) (good : α → Machine → Prop) (bad : Failure → Machine → Prop) : Prop :=
  match w m with
  | .ok a m' => good a m'
  | .error e m' => bad e m'

theorem ends_iff {w : Walk α} : Ends w m good bad ↔
    (∀ a m', w m = .ok a m' → good a m') ∧ (∀ e m', w m = .error e m' → bad e m') := by
  unfold Ends
  cases w m <;> simp

theorem Ends.ok {w : Walk α} (h : Ends w m good bad) {a : α} (he : w m = .ok a m') : good a m' :=
  (ends_iff.mp h).1 a m' he

theorem Ends.error {w : Walk α} (h : Ends w m good bad) {e : Failure} (he : w m = .error e m') : bad e m' :=
  (ends_iff.mp h).2 e m' he

theorem ends_of_ok {w : Walk α} {a : α} (h : w m = .ok a m') (hg : good a m') : Ends w m good bad := by
  simp only [Ends, h, hg]

theorem Ends.imp {w : Walk α} (h : Ends w m good bad) (hg : ∀ a m', good a m' → good' a m')
    (hb : ∀ e m', bad e m' → bad' e m') : Ends w m good' bad' :=
  ends_iff.mpr ⟨fun a m' he => hg a m' (h.ok he), fun e m' he => hb e m' (h.error he)⟩

theorem Ends.and {w : Walk α} (h : Ends w m good bad) (h' : Ends w m good' bad') :
    Ends w m (fun a m' => good a m' ∧ good' a m') (fun e m' => bad e m' ∧ bad' e m') :=
  ends_iff.mpr ⟨fun _ _ he => ⟨h.ok he, h'.ok he⟩, fun _ _ he => ⟨h.error he, h'.error he⟩⟩

section Rules

variable {w : Walk α} {k : α → Walk β} {goodb : β → Machine → Prop}

theorem ends_bind : Ends (w >>= k) m goodb bad ↔ Ends w m (fun a m' => Ends (k a) m' goodb bad) bad := by
  simp only [Ends, bind, EStateM.bind]
  cases w m <;> rfl

theorem ends_pure {a : α} : Ends (pure a : Walk α) m good bad ↔ good a m := Iff.rfl

theorem ends_throw {e : Failure} : Ends (throw e : Walk α) m good bad ↔ bad e m := Iff.rfl

theorem ends_judge {rule : Scopes → Except Failure α} : Ends (judge rule) m good bad ↔
    (∀ a, rule m.scopes = .ok a → good a m) ∧ (∀ e, rule m.scopes = .error e → bad e m) := by
  simp only [Ends, judge]
  cases rule m.scopes <;> simp

/-- The same with the outcome of the rule to be looked up, for rules whose outcome is known. -/
theorem ends_judge_match {rule : Scopes → Except Failure α} : Ends (judge rule) m good bad ↔
    match rule m.scopes with
    | .ok a => good a m
    | .error e => bad e m := by
  simp only [Ends, judge]
  cases rule m.scopes <;> rfl

theorem ends_change {f : Scopes → Except Failure Scopes} {good : Unit → Machine → Prop} :
    Ends (change f) m good bad ↔
      (∀ s, f m.scopes = .ok s → good () { m with scopes := s }) ∧ (∀ e, f m.scopes = .error e → bad e m) := by
  simp only [Ends, change]
  cases f m.scopes <;> simp

theorem ends_compute {span : Span} {r : Except Failure Value} {good : Value → Machine → Prop} :
    Ends (compute span r) m good bad ↔
      (∀ v, r = .ok v → good v m) ∧ (∀ e, r = .error e → bad (e.orAt span) m) := by
  cases r <;> simp [compute, ends_pure, ends_throw]

theorem record_apply (settings : Settings) (level : Int) (line : String) (m : Machine) :
    record settings level line m =
      .ok () { m with trace := if level ≤ settings.traceLevel then m.trace.push line else m.trace } := by
  have h : record settings level line m =
      .ok () (if level ≤ settings.traceLevel then { m with trace := m.trace.push line } else m) := rfl
  rw [h]
  split <;> rfl

/-- A line of the trace changes the trace and nothing else. -/
theorem record_eq (settings : Settings) (level : Int) (line : String) (m : Machine) :
    ∃ trace, record settings level line m = .ok () { m with trace } :=
  ⟨_, record_apply settings level line m⟩

theorem ends_record {settings : Settings} {level : Int} {line : String} {good : Unit → Machine → Prop}
    (h : ∀ trace, good () { m with trace }) : Ends (record settings level line) m good bad := by
  obtain ⟨trace, ht⟩ := record_eq settings level line m
  rw [Ends, ht]
  exact h trace

theorem ends_print {line : String} {good : Unit → Machine → Prop} :
    Ends (print line) m good bad ↔ good () { m with output := m.output.push line } := Iff.rfl

theorem ends_bracket {before after : Machine → Machine} : Ends (bracket before after w) m good bad ↔
    Ends w (before m) (fun a m' => good a (after m')) (fun e m' => bad e (after m')) := by
  simp only [Ends, bracket]
  cases w (before m) <;> rfl

theorem ends_inScope : Ends (inScope w) m good bad ↔
    Ends w { m with scopes := m.scopes.enter } (fun a m' => good a { m' with scopes := m'.scopes.leave })
      (fun e m' => bad e { m' with scopes := m'.scopes.leave }) := ends_bracket

theorem ends_inBody : Ends (inBody w) m good bad ↔
    Ends w { m with scopes := m.scopes.enterCall } (fun a m' => good a { m' with scopes := m'.scopes.leaveCall })
      (fun e m' => bad e { m' with scopes := m'.scopes.leaveCall }) := ends_bracket

theorem ends_inCall : Ends (inCall w) m good bad ↔
    Ends w { m with scopes := m.scopes.enterCall, callDepth := m.callDepth + 1 }
      (fun a m' => good a { m' with scopes := m'.scopes.leaveCall, callDepth := m'.callDepth - 1 })
      (fun e m' => bad e { m' with scopes := m'.scopes.leaveCall, callDepth := m'.callDepth - 1 }) := by
  rw [inCall, ends_bracket, ends_inBody]

end Rules

section Inversion

variable {w : Walk α} {k : α → Walk β} {a : α} {b : β} {e : Failure}

theorem bind_ok : (w >>= k) m = .ok b m' ↔ ∃ a m₁, w m = .ok a m₁ ∧ k a m₁ = .ok b m' := by
  simp only [bind, EStateM.bind]
  cases w m <;> simp [and_assoc]

theorem bind_error : (w >>= k) m = .error e m' ↔
    w m = .error e m' ∨ ∃ a m₁, w m = .ok a m₁ ∧ k a m₁ = .error e m' := by
  simp only [bind, EStateM.bind]
  cases w m <;> simp [and_assoc]

theorem bind_of_ok (h : w m = .ok a m') : (w >>= k) m = k a m' := by
  simp only [bind, EStateM.bind, h]

theorem pure_ok {c : α} : (pure c : Walk α) m = .ok a m' ↔ c = a ∧ m = m' := by
  simp [pure, EStateM.pure]

theorem throw_ok : (throw e : Walk α) m = .ok a m' ↔ False := ⟨nofun, False.elim⟩

theorem judge_ok {rule : Scopes → Except Failure α} : judge rule m = .ok a m' ↔ rule m.scopes = .ok a ∧ m = m' := by
  simp only [judge]
  cases rule m.scopes <;> simp

theorem compute_ok {span : Span} {r : Except Failure Value} {v : Value} :
    compute span r m = .ok v m' ↔ r = .ok v ∧ m = m' := by
  cases r <;> simp [compute, pure_ok, throw_ok]

theorem change_ok {f : Scopes → Except Failure Scopes} {u : Unit} :
    change f m = .ok u m' ↔ ∃ s, f m.scopes = .ok s ∧ { m with scopes := s } = m' := by
  simp only [change]
  cases f m.scopes <;> simp

theorem record_ok {settings : Settings} {level : Int} {line : String} {u : Unit}
    (h : record settings level line m = .ok u m') : ∃ trace, m' = { m with trace } := by
  obtain ⟨trace, ht⟩ := record_eq settings level line m
  rw [ht] at h
  exact ⟨trace, by injection h with _ h; exact h.symm⟩

theorem inScope_ok : inScope w m = .ok a m' ↔
    ∃ m₁, w { m with scopes := m.scopes.enter } = .ok a m₁ ∧ { m₁ with scopes := m₁.scopes.leave } = m' := by
  simp only [inScope, bracket]
  cases w { m with scopes := m.scopes.enter } <;> simp [and_assoc]

theorem inBody_ok : inBody w m = .ok a m' ↔
    ∃ m₁, w { m with scopes := m.scopes.enterCall } = .ok a m₁ ∧ { m₁ with scopes := m₁.scopes.leaveCall } = m' := by
  simp only [inBody, bracket]
  cases w { m with scopes := m.scopes.enterCall } <;> simp [and_assoc]

end Inversion

section Always

variable {w : Walk α} {k : α → Walk β} {goods goods' : α → Prop} {goodsb : β → Prop} {bads bads' : Failure → Prop}

/-- From whatever state it starts, the walk ends well with `goods` of its result, or badly with `bads` of its failure. -/
def Always (w : Walk α) (goods : α → Prop) (bads : Failure → Prop) : Prop :=
  ∀ m, Ends w m (fun a _ => goods a) (fun e _ => bads e)

theorem Always.imp (h : Always w goods bads) (hg : ∀ a, goods a → goods' a) (hb : ∀ e, bads e → bads' e) :
    Always w goods' bads' :=
  fun m => (h m).imp (fun a _ => hg a) (fun e _ => hb e)

theorem always_any (w : Walk α) : Always w (fun _ => True) (fun _ => True) := by
  intro m
  rw [ends_iff]
  exact ⟨fun _ _ _ => trivial, fun _ _ _ => trivial⟩

theorem Always.bind (h : Always w goods bads) (hk : ∀ a, goods a → Always (k a) goodsb bads) :
    Always (w >>= k) goodsb bads :=
  fun m => ends_bind.mpr ((h m).imp (fun a m' ha => hk a ha m') fun _ _ hb => hb)

/-- Where failures are of no account, a step can be passed over. -/
theorem always_skip (hk : ∀ a, Always (k a) goodsb fun _ => True) : Always (w >>= k) goodsb fun _ => True :=
  (always_any w).bind fun a _ => hk a

theorem always_pure {a : α} (h : goods a) : Always (pure a) goods bads := fun _ => h

theorem always_throw {e : Failure} (h : bads e) : Always (throw e) goods bads := fun _ => h

theorem always_judge {rule : Scopes → Except Failure α} (hg : ∀ s a, rule s = .ok a → goods a)
    (hb : ∀ s e, rule s = .error e → bads e) : Always (judge rule) goods bads :=
  fun m => ends_judge.mpr ⟨hg m.scopes, hb m.scopes⟩

theorem always_bracket {before after : Machine → Machine} (h : Always w goods bads) :
    Always (bracket before after w) goods bads :=
  fun m => ends_bracket.mpr (h (before m))

theorem always_inScope (h : Always w goods bads) : Always (inScope w) goods bads := always_bracket h

end Always

theorem iterate_zero {settings : Settings} {span : Span} {test : Walk Bool}
    {pass : Option Loop → Walk (Option Loop)} {done : Nat} {loop : Option Loop} :
    iterate settings span test pass 0 done loop = do
      if ← test then
        if loop.any (0 < ·.pending) then record settings 3 "while loop left by break"
        else throw (Problem.located (.tooManyIterations settings.maxIterations) span)
      else return () := rfl

theorem iterate_succ {settings : Settings} {span : Span} {test : Walk Bool}
    {pass : Option Loop → Walk (Option Loop)} {left done : Nat} {loop : Option Loop} :
    iterate settings span test pass (left + 1) done loop = do
      if ← test then
        if loop.any (0 < ·.pending) then record settings 3 "while loop left by break"
        else
          record settings 3 s!"while iteration {done + 1}"
          let loop ← pass (loop.map ({ · with budget := 1 }))
          iterate settings span test pass left (done + 1) loop
      else return () := rfl

/-- The rule of loops: what the test and each pass keep holds when the loop is left. -/
theorem ends_iterate {settings : Settings} {span : Span} {test : Walk Bool} {pass : Option Loop → Walk (Option Loop)}
    {I : Option Loop → Machine → Prop} (htrace : ∀ loop m trace, I loop m → I loop { m with trace })
    (htest : ∀ loop m, I loop m → Ends test m (fun _ m' => I loop m') bad)
    (hpass : ∀ loop m, I loop m → Ends (pass (loop.map ({ · with budget := 1 }))) m I bad)
    (hlimit : ∀ loop m, I loop m → bad (Problem.located (.tooManyIterations settings.maxIterations) span) m)
    {left done : Nat} {loop : Option Loop} (h : I loop m) :
    Ends (iterate settings span test pass left done loop) m (fun _ m' => ∃ loop, I loop m') bad := by
  induction left generalizing done loop m with
  | zero =>
    rw [iterate_zero, ends_bind]
    refine (htest loop m h).imp (fun b m' hm => ?_) fun _ _ hb => hb
    split
    · split
      · exact ends_record fun trace => ⟨loop, htrace loop m' trace hm⟩
      · exact hlimit loop m' hm
    · exact ⟨loop, hm⟩
  | succ left ih =>
    rw [iterate_succ, ends_bind]
    refine (htest loop m h).imp (fun b m' hm => ?_) fun _ _ hb => hb
    split
    · split
      · exact ends_record fun trace => ⟨loop, htrace loop m' trace hm⟩
      · rw [ends_bind]
        refine ends_record fun trace => ?_
        rw [ends_bind]
        exact (hpass loop _ (htrace loop m' trace hm)).imp (fun loop' m'' hm' => ih hm') fun _ _ hb => hb
    · exact ⟨loop, hm⟩

end CheckedScript.Walk
