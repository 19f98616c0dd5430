import CheckedScript.Proofs.Defining
import CheckedScript.Proofs.Steps

/-! What a walk leaves behind. However a walk ends, and whatever tree it walks, as many frames are open as before, the frames that
were set aside for callers are the same, and so is the number of calls under way: every bracket is closed on the way out.
So an interpreter has no open frame after any number of walks, and the next walk starts where the first one did. -/

namespace CheckedScript

namespace Machine

variable {m m₁ m₂ : Machine}

/-- Both states have a frame open. They have the same number of frames, the same callers and the same count of calls. -/
structure Level (m m' : Machine) : Prop where
  isOpen : m.scopes.outline ≠ []
  depth : m'.scopes.outline.length = m.scopes.outline.length
  suspended : m'.scopes.suspended = m.scopes.suspended
  callDepth : m'.callDepth = m.callDepth

namespace Level

theorem refl (ho : m.scopes.outline ≠ []) : Level m m := ⟨ho, rfl, rfl, rfl⟩

theorem still_open (h : Level m m₁) : m₁.scopes.outline ≠ [] := by
  have hpos := List.length_pos_iff.mpr h.isOpen
  rw [← h.depth] at hpos
  exact List.ne_nil_of_length_pos hpos

theorem trans (h : Level m m₁) (h' : Level m₁ m₂) : Level m m₂ :=
  ⟨h.isOpen, h'.depth.trans h.depth, h'.suspended.trans h.suspended, h'.callDepth.trans h.callDepth⟩

/-- What is added to the innermost frame opens none. -/
theorem of_extend (ho : m.scopes.outline ≠ []) (ds : List Declaration) :
    Level m { m with scopes := m.scopes.extend ds } :=
  ⟨ho, by simp, rfl, rfl⟩

theorem leave (ho : m.scopes.outline ≠ []) (h : Level { m with scopes := m.scopes.enter } m₁) :
    Level m { m₁ with scopes := m₁.scopes.leave } := by
  have hdepth : m₁.scopes.outline.length = m.scopes.outline.length + 1 := by simpa using h.depth
  have hpos := List.length_pos_iff.mpr ho
  refine ⟨ho, ?_, ?_, h.callDepth⟩
  · rw [Scopes.outline_leave, List.length_tail]
    omega
  · rw [Scopes.suspended_leave, h.suspended, Scopes.suspended_enter]
    apply List.ne_nil_of_length_pos
    rw [List.length_tail]
    omega

/-- A body leaves its globals to the caller, whose other frames were set aside. -/
theorem leaveCall (ho : m.scopes.outline ≠ []) (h : Level { m with scopes := m.scopes.enterCall } m₁) :
    Level m { m₁ with scopes := m₁.scopes.leaveCall } := by
  obtain ⟨⟨g, locals⟩, hk⟩ := Scopes.exists_stack ho
  obtain ⟨k₁, hk₁⟩ := Scopes.exists_stack h.still_open
  have hs : m₁.scopes.suspended = .sharing locals :: m.scopes.suspended := by
    simpa [Scopes.enterCall, hk] using h.suspended
  refine ⟨ho, ?_, ?_, h.callDepth⟩
  · simp [Scopes.leaveCall, hs, hk₁, Scopes.outline, hk]
  · simp [Scopes.leaveCall, hs, hk₁]

end Level
end Machine

namespace Walk

open Machine (Level)

section Rules

variable {α β : Type} {w : Walk α} {k : α → Walk β}

/-- However the walk ends, it closes what it opened. -/
def Balanced (w : Walk α) : Prop :=
  ∀ m : Machine, m.scopes.outline ≠ [] → Ends w m (fun _ m' => Level m m') (fun _ m' => Level m m')

theorem Balanced.bind (h : Balanced w) (hk : ∀ a, Balanced (k a)) : Balanced (w >>= k) := by
  intro m ho
  rw [ends_bind]
  refine (h m ho).imp (fun a m₁ h₁ => ?_) fun _ _ hb => hb
  exact (hk a m₁ h₁.still_open).imp (fun _ _ h₂ => h₁.trans h₂) fun _ _ h₂ => h₁.trans h₂

theorem balanced_pure {a : α} : Balanced (pure a : Walk α) := fun _ ho => Level.refl ho

theorem balanced_throw {e : Failure} : Balanced (throw e : Walk α) := fun _ ho => Level.refl ho

theorem balanced_judge {rule : Scopes → Except Failure α} : Balanced (judge rule) :=
  fun _ ho => ends_judge.mpr ⟨fun _ _ => .refl ho, fun _ _ => .refl ho⟩

theorem balanced_record {settings : Settings} {level : Int} {line : String} : Balanced (record settings level line) :=
  fun _ ho => ends_record fun _ => ⟨ho, rfl, rfl, rfl⟩

theorem balanced_print {line : String} : Balanced (print line) := fun _ ho => ends_print.mpr ⟨ho, rfl, rfl, rfl⟩

theorem balanced_change {f : Scopes → Except Failure Scopes} (h : Change f) : Balanced (change f) := by
  intro m ho
  refine ends_change.mpr ⟨fun s hs => ?_, fun _ _ => .refl ho⟩
  cases h with
  | declare d span =>
    obtain ⟨-, rfl⟩ := Scopes.declare_ok hs
    exact .of_extend ho [d]
  | assign name v =>
    obtain rfl := Except.ok.inj hs
    exact ⟨ho, by rw [Scopes.outline_assign], rfl, rfl⟩
  | register d =>
    obtain ⟨f, -, -, rfl⟩ := Scopes.register_ok.mp hs
    exact ⟨ho, rfl, rfl, rfl⟩

theorem balanced_inScope (h : Balanced w) : Balanced (inScope w) := by
  intro m ho
  exact ends_inScope.mpr ((h _ (by simp)).imp (fun _ _ h₁ => h₁.leave ho) fun _ _ h₁ => h₁.leave ho)

theorem balanced_inBody (h : Balanced w) : Balanced (inBody w) := by
  intro m ho
  exact ends_inBody.mpr ((h _ (by simp)).imp (fun _ _ h₁ => h₁.leaveCall ho) fun _ _ h₁ => h₁.leaveCall ho)

theorem balanced_inCall (h : Balanced w) : Balanced (inCall w) := by
  intro m ho
  have back {m₁ : Machine} (h₁ : Level { m with callDepth := m.callDepth + 1 } m₁) :
      Level m { m₁ with callDepth := m₁.callDepth - 1 } :=
    ⟨ho, h₁.depth, h₁.suspended, by simp only [h₁.callDepth, Nat.add_sub_cancel]⟩
  have hbody := balanced_inBody h { m with callDepth := m.callDepth + 1 } ho
  exact ends_bracket.mpr (hbody.imp (fun _ _ h₁ => back h₁) fun _ _ h₁ => back h₁)

end Rules

/-- So every walk closes what it opened. -/
theorem balanced_steps : OfSteps Balanced where
  pure _ := balanced_pure
  throw _ := balanced_throw
  bind := Balanced.bind
  judge _ := balanced_judge
  change := balanced_change
  record _ _ _ := balanced_record
  print _ := balanced_print
  inScope := balanced_inScope
  inBody := balanced_inBody
  inCall := balanced_inCall

end Walk

namespace Interpreter

/-- No frame is open, no caller waits and no call is under way. -/
structure Idle (i : Interpreter) : Prop where
  stack : i.scopes.stack = none
  suspended : i.scopes.suspended = []
  callDepth : i.callDepth = 0

variable {i : Interpreter}

theorem idle_new (settings : Settings) (destination : Destination) : (new settings destination).Idle := ⟨rfl, rfl, rfl⟩

/-- An idle interpreter starts its walks where every interpreter starts its first one. -/
theorem Idle.machine_eq (h : i.Idle) : i.machine = ⟨.empty, #[], 0, #[]⟩ := by
  simp only [machine, h.stack, h.suspended]
  rfl

/-- The frame of the globals is closed last, however the walk ends. -/
theorem Idle.after (h : i.Idle) {m : Machine} (hm : Machine.Level { i.machine with scopes := i.machine.scopes.enter } m) :
    (i.after { m with scopes := m.scopes.leave }).Idle := by
  have hdepth : m.scopes.outline.length = 1 := by rw [hm.depth, h.machine_eq]; rfl
  have hs : m.scopes.suspended = [] := by rw [hm.suspended, h.machine_eq]; rfl
  have hcalls : m.callDepth = 0 := by rw [hm.callDepth, h.machine_eq]
  obtain ⟨⟨g, locals⟩, hk⟩ := Scopes.exists_stack hm.still_open
  have hl : locals = [] := by simpa [Scopes.outline_of_stack hk] using hdepth
  subst hl
  refine ⟨?_, ?_, hcalls⟩
  · simp [Interpreter.after, Scopes.leave, Scopes.leave?, hk, hs]
  · simp [Interpreter.after, Scopes.leave, Scopes.leave?, hk, hs]

/-- One walk leaves an idle interpreter idle. -/
theorem Idle.walk (h : i.Idle) (execute : Bool) (p : Program) : (i.walk execute p).2.Idle := by
  have hw : Walk.Ends (Walk.program i.settings execute p) i.machine (fun _ m => (i.after m).Idle)
      (fun _ m => (i.after m).Idle) :=
    Walk.ends_inScope.mpr ((Walk.balanced_steps.statements i.settings execute p.statements _ (by simp)).imp
      (fun _ _ hm => h.after hm) fun _ _ hm => h.after hm)
  unfold Interpreter.walk
  cases hp : Walk.program i.settings execute p i.machine with
  | ok u m => exact hw.ok hp
  | error e m => exact hw.error hp

/-- What an interpreter can be asked for. -/
inductive Request where
  | run (p : Program)
  | validate (p : Program)

/-- The interpreter after a request. -/
def serve (i : Interpreter) : Request → Interpreter
  | .run p => (i.run p).2
  | .validate p => (i.validate p).2

/-- The interpreter after requests, one after the other. -/
def serveAll (i : Interpreter) (requests : List Request) : Interpreter := requests.foldl serve i

theorem settings_walk (i : Interpreter) (execute : Bool) (p : Program) : (i.walk execute p).2.settings = i.settings := by
  unfold Interpreter.walk
  cases Walk.program i.settings execute p i.machine <;> rfl

/-- However many requests came before, an interpreter that was idle is idle again and has its settings. -/
theorem Idle.served (h : i.Idle) (requests : List Request) :
    (i.serveAll requests).Idle ∧ (i.serveAll requests).settings = i.settings := by
  induction requests generalizing i with
  | nil => exact ⟨h, rfl⟩
  | cons r rest ih =>
    rw [serveAll, List.foldl_cons]
    cases r with
    | run p =>
      have hrest := ih (h.walk true p)
      exact ⟨hrest.1, hrest.2.trans (settings_walk i true p)⟩
    | validate p =>
      have hrest := ih (h.walk false p)
      exact ⟨hrest.1, hrest.2.trans (settings_walk i false p)⟩

end Interpreter
end CheckedScript
