import CheckedScript.Proofs.Outcome

/-! What the static rules see of the scopes: the names that each frame declares with their types, and the functions. Values
are of no account to them. A rule that holds goes on to hold when globals or functions are added behind those that are
there, since the first declaration of a name is the one that counts. -/

namespace CheckedScript

/-- The names that a frame declares, with their types. -/
def Frame.outline (f : Frame) : List (Data × Ty) := f.map fun d => (d.name, d.type)

namespace Frame

@[simp] theorem outline_nil : Frame.outline [] = [] := rfl

theorem outline_append (f g : Frame) : Frame.outline (f ++ g) = f.outline ++ g.outline := List.map_append

theorem outline_update (f : Frame) (name : Data) (v : Value) :
    (f.update name fun d => { d with value := v }).outline = f.outline := by
  simp only [outline, update, List.map_map]
  refine List.map_congr_left fun d _ => ?_
  simp only [Function.comp_apply]
  split <;> rfl

/-- The type that a frame gives to a name is read off its outline. -/
theorem get?_type (f : Frame) (name : Data) :
    (f.get? name).map (·.type) = (f.outline.find? (·.1.equal name)).map Prod.snd := by
  simp only [get?, outline, List.find?_map, Option.map_map]
  rfl

theorem get?_none (f : Frame) (name : Data) : f.get? name = none ↔ f.outline.find? (·.1.equal name) = none := by
  have h := get?_type f name
  constructor
  · intro hn
    simpa [hn] using h.symm
  · intro hn
    simpa [hn] using h

end Frame

theorem Stack.outline_updateFirst {name : Data} {v : Value} {fs fs' : List Frame}
    (h : updateFirst name (fun d => { d with value := v }) fs = some fs') :
    fs'.map Frame.outline = fs.map Frame.outline := by
  induction fs generalizing fs' with
  | nil => simp [updateFirst] at h
  | cons f rest ih =>
    simp only [updateFirst] at h
    split at h
    · cases h
      simp [Frame.outline_update]
    · obtain ⟨rest', hr, rfl⟩ := Option.map_eq_some_iff.mp h
      simp [ih hr]

namespace Scopes

variable {s t : Scopes} {name : Data} {span : Span}

/-- The outlines of the frames that are open, the innermost first. -/
def outline (s : Scopes) : List (List (Data × Ty)) :=
  match s.stack with
  | none => []
  | some k => k.locals.map Frame.outline ++ [k.globals.outline]

theorem outline_of_stack {k : Stack} (h : s.stack = some k) :
    s.outline = k.locals.map Frame.outline ++ [k.globals.outline] := by
  simp only [outline, h]

theorem exists_stack (h : s.outline ≠ []) : ∃ k, s.stack = some k := by
  cases hs : s.stack with
  | none => simp [outline, hs] at h
  | some k => exact ⟨k, rfl⟩

@[simp] theorem outline_enter (s : Scopes) : s.enter.outline = [] :: s.outline := by
  cases hs : s.stack <;> simp [outline, enter, hs]

@[simp] theorem outline_leave (s : Scopes) : s.leave.outline = s.outline.tail := by
  obtain ⟨stack, suspended, functions⟩ := s
  rcases stack with _ | ⟨g, _ | ⟨f, rest⟩⟩
  · rfl
  · rcases suspended with _ | ⟨_ | _, _⟩ <;> rfl
  · rfl

@[simp] theorem outline_enterCall (s : Scopes) : s.enterCall.outline = [] :: s.outline.getLast?.toList := by
  cases hs : s.stack <;> simp [outline, enterCall, hs]

@[simp] theorem functions_enter (s : Scopes) : s.enter.functions = s.functions := by
  cases hs : s.stack <;> simp [enter, hs]

@[simp] theorem functions_leave (s : Scopes) : s.leave.functions = s.functions := by
  obtain ⟨stack, suspended, functions⟩ := s
  rcases stack with _ | ⟨g, _ | ⟨f, rest⟩⟩
  · rfl
  · rcases suspended with _ | ⟨_ | _, _⟩ <;> rfl
  · rfl

@[simp] theorem functions_enterCall (s : Scopes) : s.enterCall.functions = s.functions := by
  cases hs : s.stack <;> simp [enterCall, hs]

/-- The type that the scopes give to a name is read off their outline. -/
theorem get?_type (s : Scopes) (name : Data) :
    (s.get? name).map (·.type) = (s.outline.flatten.find? (·.1.equal name)).map Prod.snd := by
  cases hs : s.stack with
  | none => simp [get?, outline, hs]
  | some k =>
    have hl : (k.locals.findSome? (Frame.get? · name)).map (·.type) =
        ((k.locals.map Frame.outline).flatten.find? (·.1.equal name)).map Prod.snd := by
      simp only [List.find?_flatten, List.findSome?_map, List.map_findSome?]
      congr 1
      funext f
      exact Frame.get?_type f name
    simp only [get?, hs, Option.bind_some, Stack.get?, outline, List.flatten_append, List.flatten_cons,
      List.flatten_nil, List.append_nil, List.find?_append, Option.map_or, ← hl, ← Frame.get?_type]
    cases k.locals.findSome? (Frame.get? · name) <;> rfl

end Scopes

/-- Adds declarations to the innermost frame. -/
def Stack.extend (k : Stack) (ds : List Declaration) : Stack :=
  match k.locals with
  | f :: rest => { k with locals := (f ++ ds) :: rest }
  | [] => { k with globals := k.globals ++ ds }

namespace Scopes

variable {s : Scopes} {name : Data} {span : Span}

/-- Adds declarations to the innermost frame, if one is open. -/
def extend (s : Scopes) (ds : List Declaration) : Scopes := { s with stack := s.stack.map (Stack.extend · ds) }

@[simp] theorem extend_nil (s : Scopes) : s.extend [] = s := by
  obtain ⟨_ | ⟨g, _ | ⟨f, rest⟩⟩, suspended, functions⟩ := s <;> simp [extend, Stack.extend]

@[simp] theorem extend_extend (s : Scopes) (ds es : List Declaration) :
    (s.extend ds).extend es = s.extend (ds ++ es) := by
  obtain ⟨_ | ⟨g, _ | ⟨f, rest⟩⟩, suspended, functions⟩ := s <;> simp [extend, Stack.extend]

@[simp] theorem outline_extend (s : Scopes) (ds : List Declaration) :
    (s.extend ds).outline = s.outline.modifyHead (· ++ Frame.outline ds) := by
  obtain ⟨_ | ⟨g, _ | ⟨f, rest⟩⟩, suspended, functions⟩ := s <;>
    simp [extend, Stack.extend, outline, Frame.outline_append]

/-- What was declared in a frame of its own is gone when the frame is closed. -/
theorem leave_extend_enter (ho : s.outline ≠ []) (ds : List Declaration) : (s.enter.extend ds).leave = s := by
  obtain ⟨_ | k, suspended, functions⟩ := s
  · exact absurd rfl ho
  · rfl

theorem declare_ok {d : Declaration} {s' : Scopes} (h : s.declare d span = .ok s') :
    s.ensureUndeclared d.name span = .ok () ∧ s' = s.extend [d] := by
  unfold declare at h
  cases hu : s.ensureUndeclared d.name span with
  | error e => simp [hu, bind, Except.bind] at h
  | ok _ =>
    cases hk : s.stack with
    | none => simp [hu, hk, bind, Except.bind, throw, throwThe, MonadExceptOf.throw] at h
    | some k =>
      simp only [hu, hk, bind, Except.bind, pure, Except.pure, Except.ok.injEq] at h
      refine ⟨rfl, ?_⟩
      rw [← h, extend, hk]
      obtain ⟨g, _ | ⟨f, rest⟩⟩ := k <;> rfl

theorem declare_of_undeclared {d : Declaration} (ho : s.outline ≠ []) (h : s.ensureUndeclared d.name span = .ok ()) :
    s.declare d span = .ok (s.extend [d]) := by
  obtain ⟨k, hk⟩ := exists_stack ho
  simp only [declare, h, hk, bind, Except.bind, pure, Except.pure, extend]
  obtain ⟨g, _ | ⟨f, rest⟩⟩ := k <;> rfl

@[simp] theorem outline_assign (s : Scopes) (name : Data) (v : Value) : (s.assign name v).outline = s.outline := by
  obtain ⟨_ | ⟨g, locals⟩, suspended, functions⟩ := s
  · rfl
  · simp only [assign, update, outline, Option.map_some, Stack.update]
    cases hl : Stack.updateFirst name (fun d => { d with value := v }) locals with
    | none => simp [Frame.outline_update]
    | some locals' => simp [Stack.outline_updateFirst hl]

end Scopes
end CheckedScript
