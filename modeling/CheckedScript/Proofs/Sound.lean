import CheckedScript.Proofs.Defining
import CheckedScript.Proofs.Operators

/-! Sound states. In a sound state every variable has a value of its type, and every function has a body that is accepted on the
globals of the state. Steps that do what the static rules allow keep a state sound, and so do the brackets around them; the
functions need no look at all, since a body goes on to be accepted when globals and functions are added. -/

namespace CheckedScript

/-- Whatever a name is looked up as in a frame, every declaration of the name there is of that type. -/
def Coherent (o : List (Data × Ty)) : Prop :=
  ∀ p ∈ o, ∀ name, p.1.equal name = true → (o.find? (·.1.equal name)).map Prod.snd = some p.2

theorem Data.equal_text {a b : Data} (ha : a.IsText) (h : a.equal b = true) : a = b := by
  cases a with
  | text s =>
    cases b with
    | text t =>
      simp only [Data.equal, beq_iff_eq] at h
      rw [h]
    | _ => simp [Data.equal, Data.asNumber?] at h
  | _ => exact ha.elim

/-- A new name can be added. -/
theorem Coherent.add {o : List (Data × Ty)} (h : Coherent o) {name : Data} {type : Ty} (hn : name.IsText)
    (hnew : o.find? (·.1.equal name) = none) : Coherent (o ++ [(name, type)]) := by
  intro p hp other he
  rw [List.find?_append]
  rcases List.mem_append.mp hp with hp | hp
  · have hold := h p hp other he
    obtain ⟨q, hq, hq'⟩ := Option.map_eq_some_iff.mp hold
    simp [hq, hq']
  · obtain rfl := List.mem_singleton.mp hp
    obtain rfl := Data.equal_text hn he
    simp [hnew, he]

/-- Every variable of the frame has a value of its type, and names are not used for two types. -/
structure Frame.Sound (f : Frame) : Prop where
  typed : f.Typed
  coherent : Coherent f.outline

namespace Frame

variable {f : Frame} {name : Data} {d : Declaration} {v : Value}

theorem sound_nil : Frame.Sound [] := ⟨typed_nil, by simp [Coherent]⟩

theorem Sound.add (h : f.Sound) (hn : d.name.IsText) (hnew : f.get? d.name = none) (hd : d.value.type? = some d.type) :
    Frame.Sound (f ++ [d]) := by
  refine ⟨typed_append.mpr ⟨h.typed, by simpa [Typed] using hd⟩, ?_⟩
  rw [outline_append]
  exact h.coherent.add hn ((get?_none f d.name).mp hnew)

theorem Sound.update (h : f.Sound) (hd : f.get? name = some d) (hv : v.type? = some d.type) :
    Frame.Sound (f.update name fun d => { d with value := v }) := by
  refine ⟨?_, by rw [outline_update]; exact h.coherent⟩
  intro e' he'
  obtain ⟨e, he, rfl⟩ := List.mem_map.mp he'
  split
  · rename_i heq
    have hc := h.coherent (e.name, e.type) (List.mem_map.mpr ⟨e, he, rfl⟩) name heq
    rw [← get?_type, hd] at hc
    rw [hv]
    exact hc
  · exact h.typed e he

end Frame

structure Stack.Sound (k : Stack) : Prop where
  globals : k.globals.Sound
  locals : ∀ f ∈ k.locals, f.Sound

namespace Stack

variable {k : Stack} {name : Data} {d : Declaration} {v : Value}

theorem updateFirst_sound {fs fs' : List Frame} (h : ∀ f ∈ fs, f.Sound) (hd : fs.findSome? (Frame.get? · name) = some d)
    (hv : v.type? = some d.type) (hu : updateFirst name (fun d => { d with value := v }) fs = some fs') :
    ∀ f ∈ fs', f.Sound := by
  induction fs generalizing fs' with
  | nil => cases hd
  | cons f rest ih =>
    simp only [updateFirst, List.findSome?_cons] at hu hd
    cases hf : f.get? name with
    | some e =>
      simp only [hf, Option.isSome_some, if_true, Option.some.injEq] at hu hd
      subst hu hd
      intro g hg
      rcases List.mem_cons.mp hg with rfl | hg
      · exact (h f (.head _)).update hf hv
      · exact h g (.tail _ hg)
    | none =>
      simp only [hf, Option.isSome_none, Bool.false_eq_true, if_false] at hu hd
      obtain ⟨rest', hr, rfl⟩ := Option.map_eq_some_iff.mp hu
      intro g hg
      rcases List.mem_cons.mp hg with rfl | hg
      · exact h g (.head _)
      · exact ih (fun g hg => h g (.tail _ hg)) hd hr g hg

theorem updateFirst_none {fs : List Frame} {change : Declaration → Declaration} :
    updateFirst name change fs = none ↔ fs.findSome? (Frame.get? · name) = none := by
  induction fs with
  | nil => simp [updateFirst]
  | cons f rest ih =>
    simp only [updateFirst, List.findSome?_cons]
    cases hf : f.get? name <;> simp [ih]

/-- A variable can be given another value of its type. -/
theorem Sound.update (h : k.Sound) (hd : k.get? name = some d) (hv : v.type? = some d.type) :
    Stack.Sound (k.update name fun d => { d with value := v }) := by
  unfold get? at hd
  unfold Stack.update
  cases hu : updateFirst name (fun d => { d with value := v }) k.locals with
  | none =>
    rw [updateFirst_none.mp hu] at hd
    exact ⟨h.globals.update hd hv, h.locals⟩
  | some locals' =>
    cases hl : k.locals.findSome? (Frame.get? · name) with
    | none =>
      rw [updateFirst_none.mpr hl] at hu
      cases hu
    | some e =>
      simp only [hl, Option.some.injEq] at hd
      subst hd
      exact ⟨h.globals, updateFirst_sound h.locals hl hv hu⟩

theorem Sound.get?_typed (h : k.Sound) (hd : k.get? name = some d) : d.value.type? = some d.type := by
  unfold get? at hd
  split at hd
  · rename_i e hl
    cases hd
    obtain ⟨f, hf, hfd⟩ := List.exists_of_findSome?_eq_some hl
    exact (h.locals f hf).typed d (List.mem_of_find?_eq_some hfd)
  · exact h.globals.typed d (List.mem_of_find?_eq_some hd)

theorem Sound.add (h : k.Sound) (hn : d.name.IsText) (hnew : k.innermost.get? d.name = none)
    (hd : d.value.type? = some d.type) : (k.extend [d]).Sound := by
  obtain ⟨g, _ | ⟨f, rest⟩⟩ := k
  · exact ⟨h.globals.add hn hnew hd, h.locals⟩
  · refine ⟨h.globals, fun e he => ?_⟩
    rcases List.mem_cons.mp he with rfl | he
    · exact (h.locals f (.head _)).add hn hnew hd
    · exact h.locals e (.tail _ he)

end Stack

/-- A frame is open, and all frames are sound. -/
def Scopes.Sound (s : Scopes) : Prop := ∃ k, s.stack = some k ∧ k.Sound

namespace Scopes.Sound

variable {s : Scopes} {name : Data} {d : Declaration} {v : Value}

theorem isOpen (h : s.Sound) : s.outline ≠ [] := by
  obtain ⟨k, hk, -⟩ := h
  simp [outline_of_stack hk]

theorem enter (h : s.Sound) : s.enter.Sound := by
  obtain ⟨k, hk, hs⟩ := h
  refine ⟨{ k with locals := [] :: k.locals }, by simp only [Scopes.enter, hk], hs.globals, fun f hf => ?_⟩
  rcases List.mem_cons.mp hf with rfl | hf
  · exact Frame.sound_nil
  · exact hs.locals f hf

theorem leave (h : s.Sound) (ht : s.outline.tail ≠ []) : s.leave.Sound := by
  obtain ⟨⟨g, _ | ⟨f, rest⟩⟩, hk, hs⟩ := h
  · simp [outline_of_stack hk] at ht
  · refine ⟨⟨g, rest⟩, ?_, hs.globals, fun e he => hs.locals e (.tail _ he)⟩
    simp only [Scopes.leave, Scopes.leave?, hk, Option.getD_some]

theorem enterCall (h : s.Sound) : s.enterCall.Sound := by
  obtain ⟨k, hk, hs⟩ := h
  refine ⟨⟨k.globals, [[]]⟩, by simp only [Scopes.enterCall, hk], hs.globals, fun f hf => ?_⟩
  obtain rfl := List.mem_singleton.mp hf
  exact Frame.sound_nil

theorem assign (h : s.Sound) (hd : s.get? name = some d) (hv : v.type? = some d.type) : (s.assign name v).Sound := by
  obtain ⟨k, hk, hs⟩ := h
  simp only [get?, hk, Option.bind_some] at hd
  exact ⟨_, by simp only [Scopes.assign, Scopes.update, hk, Option.map_some], hs.update hd hv⟩

theorem get?_typed (h : s.Sound) (hd : s.get? name = some d) : d.value.type? = some d.type := by
  obtain ⟨k, hk, hs⟩ := h
  simp only [get?, hk, Option.bind_some] at hd
  exact hs.get?_typed hd

theorem add {span : Span} (h : s.Sound) (hn : d.name.IsText) (hu : s.ensureUndeclared d.name span = .ok ())
    (hd : d.value.type? = some d.type) : (s.extend [d]).Sound := by
  obtain ⟨k, hk, hs⟩ := h
  have hnew := (ensureUndeclared_ok.mp hu).2
  simp only [hk, Option.bind_some] at hnew
  exact ⟨_, by simp only [extend, hk, Option.map_some], hs.add hn hnew hd⟩

end Scopes.Sound

namespace Walk

open Machine (Keeps)

/-- The function was made for a plain definition that is accepted on the globals of the state. -/
def Callable (settings : Settings) (m : Machine) (f : Function) : Prop :=
  ∃ d, f.definition = some d ∧ d.Plain ∧ d.signature? = some f.signature ∧
    Accepts settings d { m with scopes := m.scopes.enterCall }

/-- The frames of the state are sound, and its functions can be called. -/
structure Sound (settings : Settings) (m : Machine) : Prop where
  scopes : m.scopes.Sound
  functions : ∀ f ∈ m.scopes.functions, Callable settings m f

variable {settings : Settings} {m m' : Machine} {f : Function} {a b : List (Data × Ty)}

/-- What the body of a function sees of the second state is no less than what it sees of the first. -/
theorem wider_enterCall {s t : Scopes} {g g' : List (Data × Ty)} (hs : s.outline.getLast? = some g)
    (ht : t.outline.getLast? = some g') (hg : g <+: g') (hf : s.functions <+: t.functions) :
    s.enterCall.Wider t.enterCall :=
  ⟨by simpa using hf, [[]], g, g', by simp [hs], by simp [ht], hg, by simp⟩

theorem Callable.wider (h : Callable settings m f) (hw : m.scopes.enterCall.Wider m'.scopes.enterCall) :
    Callable settings m' f := by
  obtain ⟨d, hd, hp, hs, ha⟩ := h
  exact ⟨d, hd, hp, hs, ha.wider hp hw settings⟩

/-- Adding variables to the innermost frame takes nothing from what bodies see. -/
theorem wider_enterCall_of_keeps (h : Keeps a m m') (ho : m.scopes.outline ≠ []) :
    m.scopes.enterCall.Wider m'.scopes.enterCall := by
  have hf : m.scopes.functions <+: m'.scopes.functions := h.functions ▸ List.prefix_refl _
  have hout := h.outline
  cases hm : m.scopes.outline with
  | nil => exact absurd hm ho
  | cons x rest =>
    rw [hm, List.modifyHead_cons] at hout
    cases rest with
    | nil => exact wider_enterCall (by rw [hm]; rfl) (by rw [hout]; rfl) (List.prefix_append x a) hf
    | cons y rest =>
      refine wider_enterCall (g := (y :: rest).getLast (by simp)) ?_ ?_ (List.prefix_refl _) hf
      · rw [hm, List.getLast?_cons_cons, List.getLast?_eq_some_getLast]
      · rw [hout, List.getLast?_cons_cons, List.getLast?_eq_some_getLast]

namespace Sound

theorem keeps (h : Sound settings m) (hk : Keeps a m m') (hs : m'.scopes.Sound) : Sound settings m' := by
  refine ⟨hs, fun f hf => ?_⟩
  rw [hk.functions] at hf
  exact (h.functions f hf).wider (wider_enterCall_of_keeps hk h.scopes.isOpen)

/-- The globals and the functions are the same, and no more is needed for the functions. -/
theorem same_globals (h : Sound settings m) (hs : m'.scopes.Sound)
    (hg : m'.scopes.outline.getLast? = m.scopes.outline.getLast?) (hf : m'.scopes.functions = m.scopes.functions) :
    Sound settings m' := by
  refine ⟨hs, fun f hf' => ?_⟩
  rw [hf] at hf'
  have hlast := List.getLast?_eq_some_getLast h.scopes.isOpen
  exact (h.functions f hf').wider
    (wider_enterCall hlast (hg.trans hlast) (List.prefix_refl _) ⟨[], by rw [List.append_nil, hf]⟩)

theorem enter (h : Sound settings m) : Sound settings { m with scopes := m.scopes.enter } := by
  refine h.same_globals h.scopes.enter ?_ (Scopes.functions_enter _)
  obtain ⟨x, rest, hx⟩ := List.exists_cons_of_ne_nil h.scopes.isOpen
  rw [Scopes.outline_enter, hx, List.getLast?_cons_cons]

theorem enterCall (h : Sound settings m) {n : Nat} :
    Sound settings { m with scopes := m.scopes.enterCall, callDepth := n } := by
  refine h.same_globals h.scopes.enterCall ?_ (Scopes.functions_enterCall _)
  rw [Scopes.outline_enterCall, List.getLast?_eq_some_getLast h.scopes.isOpen]
  rfl

/-- A definition that is accepted adds a function that can be called. -/
theorem defined (h : Sound settings m) {d : Definition} (hd : d.Plain) {f : Signature} (hf : d.signature? = some f)
    (hacc : Accepts settings d (defining m ⟨f, some d⟩)) (trace : Array String) :
    Sound settings (defined m ⟨f, some d⟩ trace) := by
  refine ⟨h.scopes, fun g hg => ?_⟩
  rcases List.mem_append.mp hg with hg | hg
  · have hlast := List.getLast?_eq_some_getLast h.scopes.isOpen
    exact (h.functions g hg).wider (wider_enterCall hlast hlast (List.prefix_refl _) (List.prefix_append _ _))
  · obtain rfl := List.mem_singleton.mp hg
    refine ⟨d, rfl, hd, hf, hacc.wider hd ?_ settings⟩
    exact .of_alike (by simp [defining]) rfl rfl

end Sound

end Walk
end CheckedScript
