import CheckedScript.Proofs.Running
import CheckedScript.Proofs.Sessions

/-! Brackets of frames. In a session frames are opened for a block or for a call and closed again. Between the two ends of a
bracket, steps may declare variables, look them up and change them, and may open and close brackets of their own. After
the second end the frames are those of before: as many, with the same names, types and initial values. What happened to the
values of shared frames stays, and all that was declared inside is gone. A call works on the globals and on what is
declared inside of it, so of the frames of its caller only the outermost can have changed. -/

namespace CheckedScript

/-- The imprints of the declarations of a frame. -/
def Frame.imprint (f : Frame) : List (Data × Ty × Value) := f.map Declaration.imprint

section Changes

variable {change : Declaration → Declaration} {name : Data}

theorem Frame.imprint_update (hc : ∀ d, (change d).imprint = d.imprint) (f : Frame) :
    (f.update name change).imprint = f.imprint := by
  simp only [imprint, update, List.map_map]
  refine List.map_congr_left fun d _ => ?_
  simp only [Function.comp_apply]
  split
  · exact hc d
  · rfl

theorem Stack.imprint_updateFirst (hc : ∀ d, (change d).imprint = d.imprint) {fs fs' : List Frame}
    (h : updateFirst name change fs = some fs') : fs'.map Frame.imprint = fs.map Frame.imprint := by
  induction fs generalizing fs' with
  | nil => cases h
  | cons f rest ih =>
    rw [updateFirst] at h
    split at h
    · cases h
      simp [Frame.imprint_update hc]
    · obtain ⟨rest', hrest, rfl⟩ := Option.map_eq_some_iff.mp h
      simp [ih hrest]

end Changes

namespace Scopes

/-- The imprints of the frames that are open, the innermost first. -/
def imprint (s : Scopes) : List (List (Data × Ty × Value)) := (s.frames.map Frame.imprint).reverse

variable {s : Scopes}

theorem imprint_of_stack {k : Stack} (h : s.stack = some k) :
    s.imprint = k.locals.map Frame.imprint ++ [k.globals.imprint] := by
  simp [imprint, frames, h, Stack.frames]

theorem imprint_eq_nil : s.imprint = [] ↔ s.stack = none := by
  cases h : s.stack with
  | none => simp [imprint, frames, h]
  | some k => simp [imprint_of_stack h]

theorem length_outline (s : Scopes) : s.outline.length = s.imprint.length := by
  cases h : s.stack with
  | none => simp [outline, imprint, frames, h]
  | some k => simp [outline_of_stack h, imprint_of_stack h]

theorem length_imprint (s : Scopes) : s.imprint.length = s.depth := by simp [imprint, depth]

theorem imprint_enter (s : Scopes) : s.enter.imprint = [] :: s.imprint := by
  obtain ⟨_ | k, suspended, functions⟩ := s <;> simp [imprint, frames, enter, Stack.frames, Frame.imprint]

theorem imprint_leave (s : Scopes) : s.leave.imprint = s.imprint.tail := by
  obtain ⟨_ | ⟨g, _ | ⟨f, rest⟩⟩, suspended, functions⟩ := s
  · rfl
  · obtain _ | ⟨_ | _, _⟩ := suspended <;> rfl
  · simp [imprint, frames, leave, leave?, Stack.frames]

theorem enter_open (s : Scopes) : s.enter.stack ≠ none := by
  obtain ⟨_ | k, suspended, functions⟩ := s <;> simp [enter]

theorem enterCall_open (s : Scopes) : s.enterCall.stack ≠ none := by
  obtain ⟨_ | k, suspended, functions⟩ := s <;> simp [enterCall]

theorem leave?_of_open (h : s.stack ≠ none) : s.leave? = some s.leave := by
  obtain ⟨_ | ⟨g, _ | ⟨f, rest⟩⟩, suspended, functions⟩ := s
  · exact absurd rfl h
  · obtain _ | ⟨_ | _, _⟩ := suspended <;> rfl
  · rfl

theorem imprint_enterCall (s : Scopes) : s.enterCall.imprint = [] :: s.imprint.getLast?.toList := by
  obtain ⟨_ | k, suspended, functions⟩ := s <;> simp [imprint, frames, enterCall, Stack.frames, Frame.imprint]

theorem imprint_extend (s : Scopes) (ds : List Declaration) :
    (s.extend ds).imprint = s.imprint.modifyHead (· ++ Frame.imprint ds) := by
  obtain ⟨_ | ⟨g, _ | ⟨f, rest⟩⟩, suspended, functions⟩ := s
  · rfl
  · simp [imprint, frames, extend, Stack.extend, Stack.frames, Frame.imprint]
  · rw [imprint_of_stack rfl, imprint_of_stack rfl]
    simp [Stack.extend, Frame.imprint]

theorem imprint_update {change : Declaration → Declaration} (hc : ∀ d, (change d).imprint = d.imprint) (s : Scopes)
    (name : Data) : (s.update name change).imprint = s.imprint := by
  obtain ⟨_ | ⟨g, locals⟩, suspended, functions⟩ := s
  · rfl
  · rw [imprint_of_stack rfl, imprint_of_stack rfl]
    cases hl : Stack.updateFirst name change locals with
    | none => simp [Stack.update, hl, Frame.imprint_update hc]
    | some locals' => simp [Stack.update, hl, Stack.imprint_updateFirst hc hl]

/-- The frame that the others stand on. -/
def outermost (s : Scopes) : Frame := s.frames.headD []

/-- A variable that is found is one of a frame that is open. -/
theorem mem_of_lookup {name : Data} {span : Span} {d : Declaration} (h : s.lookup name span = .ok d) :
    d ∈ s.outermost ∨ d.imprint ∈ s.imprint.dropLast.flatten := by
  obtain ⟨k, hk, hd⟩ := Option.bind_eq_some_iff.mp (lookup_ok.mp h).2
  unfold Stack.get? at hd
  split at hd
  · rename_i d' hd'
    cases hd
    obtain ⟨f, hf, hd⟩ := List.exists_of_findSome?_eq_some hd'
    right
    rw [imprint_of_stack hk, List.dropLast_concat]
    exact List.mem_flatten.mpr ⟨f.imprint, List.mem_map_of_mem hf, List.mem_map_of_mem (List.mem_of_find?_eq_some hd)⟩
  · left
    simpa [outermost, frames, hk, Stack.frames] using List.mem_of_find?_eq_some hd

theorem imprint_getLast? (s : Scopes) : s.imprint.getLast?.toList.flatten = s.outermost.imprint := by
  cases hs : s.stack with
  | none => simp [imprint, frames, hs, outermost, Frame.imprint]
  | some k => simp [imprint, frames, hs, outermost, Stack.frames]

theorem mem_imprint_of_outermost {d : Declaration} (h : d ∈ s.outermost) : d.imprint ∈ s.imprint.flatten := by
  cases hs : s.stack with
  | none => simp [outermost, frames, hs] at h
  | some k =>
    have hd : d ∈ k.globals := by simpa [outermost, frames, hs, Stack.frames] using h
    rw [imprint_of_stack hs]
    exact List.mem_flatten.mpr ⟨k.globals.imprint, by simp, List.mem_map_of_mem hd⟩

end Scopes

namespace Session

/-- Steps in which every bracket that is entered is left, and no other frame is opened or closed. -/
inductive Bracketed : List Step → Prop where
  | nil : Bracketed []
  | steady {step : Step} {rest : List Step} (h : step.Steady) (hr : Bracketed rest) : Bracketed (step :: rest)
  | declare {name : Data} {type : Ty} {value initial : Option Value} {span : Span} {rest : List Step}
      (hr : Bracketed rest) : Bracketed (.declare name type value initial span :: rest)
  | bracket (b : Bracket) {inner rest : List Step} (hi : Bracketed inner) (hr : Bracketed rest) :
      Bracketed (.enter b :: (inner ++ .leave :: rest))

/-- The declaration that a step makes, if it is one that declares and it succeeds. -/
def declared? (s : Session) : Step → Option Declaration
  | .declare name type value initial span =>
    match (s.step (.declare name type value initial span)).1 with
    | .ok (.declaration d) => some d
    | _ => none
  | _ => none

/-- The declarations that steps make. -/
def declared (s : Session) : List Step → List Declaration
  | [] => []
  | step :: rest => (s.declared? step).toList ++ (s.step step).2.declared rest

theorem declared_append (s : Session) (a b : List Step) : s.declared (a ++ b) = s.declared a ++ (s.after a).declared b := by
  induction a generalizing s with
  | nil => rfl
  | cons step rest ih => simp [declared, ih]

/-- From one session to another only values have changed, and the innermost frame has got new declarations. A stack that is open
also has the same callers behind it. -/
structure Level (new : List Declaration) (s s' : Session) : Prop where
  brackets : s'.brackets = s.brackets
  imprint : s'.scopes.imprint = s.scopes.imprint.modifyHead (· ++ Frame.imprint new)
  suspended : s.scopes.stack ≠ none → s'.scopes.suspended = s.scopes.suspended

namespace Level

variable {s s' s'' : Session} {new new' : List Declaration}

theorem of_same (hb : s'.brackets = s.brackets) (hi : s'.scopes.imprint = s.scopes.imprint)
    (hs : s'.scopes.suspended = s.scopes.suspended) : Level [] s s' := by
  refine ⟨hb, ?_, fun _ => hs⟩
  cases himprint : s.scopes.imprint <;> simp [hi, himprint, Frame.imprint]

theorem refl (s : Session) : Level [] s s := of_same rfl rfl rfl

theorem isOpen (h : Level new s s') (ho : s.scopes.stack ≠ none) : s'.scopes.stack ≠ none := by
  intro hn
  have himprint := h.imprint
  rw [Scopes.imprint_eq_nil.mpr hn] at himprint
  cases hs : s.scopes.imprint with
  | nil => exact ho (Scopes.imprint_eq_nil.mp hs)
  | cons f rest => simp [hs] at himprint

theorem trans (h : Level new s s') (h' : Level new' s' s'') : Level (new ++ new') s s'' := by
  refine ⟨h'.brackets.trans h.brackets, ?_, fun ho => (h'.suspended (h.isOpen ho)).trans (h.suspended ho)⟩
  rw [h'.imprint, h.imprint]
  cases s.scopes.imprint <;> simp [Frame.imprint]

end Level

section Steps

variable {s : Session} {step : Step}

/-- A step that answers, changes a value or adds a function leaves the frames with what they declare. -/
theorem level_of_steady (s : Session) (h : step.Steady) : Level [] s (s.step step).2 := by
  obtain ⟨a, s', hs, hm⟩ | ⟨e, brackets, hs, hb⟩ := s.step_cases step
  · rw [hs]
    cases hm with
    | changed _ hc name => exact .of_same rfl (Scopes.imprint_update hc _ name) rfl
    | defined | answered => exact .of_same rfl rfl rfl
    | _ => exact h.elim
  · have hl : step ≠ .leave := by
      rintro rfl
      exact h
    rw [hs]
    exact .of_same (hb hl) rfl rfl

theorem level_of_declare (s : Session) (name : Data) (type : Ty) (value initial : Option Value) (span : Span) :
    Level (s.declared? (.declare name type value initial span)).toList s
      (s.step (.declare name type value initial span)).2 := by
  obtain ⟨a, s', hs, hm⟩ | ⟨e, brackets, hs, hb⟩ := s.step_cases (.declare name type value initial span)
  · simp only [declared?, hs]
    cases hm with
    | declared => exact ⟨rfl, Scopes.imprint_extend _ _, fun _ => rfl⟩
    | changed h | defined h | answered h => exact h.elim
  · simp only [declared?, hs]
    exact .of_same (hb (by simp)) rfl rfl

end Steps

/-- What is declared after a bracket is among what is declared from its beginning on. -/
theorem declared_after_bracket (s : Session) (b : Bracket) (inner post : List Step) :
    (((s.step (.enter b)).2.after inner).step .leave).2.declared post ⊆ s.declared (.enter b :: (inner ++ .leave :: post)) := by
  rw [declared, declared_append, declared]
  intro d hd
  exact List.mem_append_right _ (List.mem_append_right _ (List.mem_append_right _ hd))

section Brackets

variable {s t : Session} {new : List Declaration}

theorem imprint_in_scope (h : Level new (s.step (.enter .scope)).2 t) :
    t.scopes.imprint = Frame.imprint new :: s.scopes.imprint := by
  have hi : t.scopes.imprint = s.scopes.enter.imprint.modifyHead (· ++ Frame.imprint new) := h.imprint
  simpa [Scopes.imprint_enter] using hi

theorem leave_of_scope (h : Level new (s.step (.enter .scope)).2 t) :
    t.step .leave = (.ok .none, { t with scopes := t.scopes.leave, brackets := s.brackets }) := by
  have hb : t.brackets = .scope :: s.brackets := h.brackets
  have ho : t.scopes.stack ≠ none := h.isOpen s.scopes.enter_open
  refine step_of_ok ?_
  simp only [perform, hb, Session.closed, Scopes.leave?_of_open ho]
  rfl

/-- What is done in a frame of its own leaves only changed values behind. -/
theorem level_of_scope (h : Level new (s.step (.enter .scope)).2 t) : Level [] s (t.step .leave).2 := by
  have himprint := imprint_in_scope h
  rw [leave_of_scope h]
  refine ⟨rfl, ?_, fun hs => ?_⟩
  · rw [Scopes.imprint_leave, himprint]
    cases s.scopes.imprint <;> simp [Frame.imprint]
  · -- the frame was opened on one that is still there
    have htail : t.scopes.outline.tail ≠ [] := by
      rw [← List.length_pos_iff, List.length_tail, Scopes.length_outline, himprint]
      exact List.length_pos_iff.mpr fun hn => hs (Scopes.imprint_eq_nil.mp hn)
    calc t.scopes.leave.suspended = t.scopes.suspended := Scopes.suspended_leave htail
      _ = s.scopes.enter.suspended := h.suspended s.scopes.enter_open
      _ = s.scopes.suspended := s.scopes.suspended_enter

/-- The caller has its own frames back as they were, and the globals with what the call did to them. -/
theorem leaveCall_of_level {s t : Scopes} {new : List (Data × Ty × Value)}
    (hi : t.imprint = s.enterCall.imprint.modifyHead (· ++ new)) (hs : t.suspended = s.enterCall.suspended) :
    t.leaveCall.imprint = s.imprint ∧ t.leaveCall.suspended = s.suspended ∧ t.leaveCall.frames.tail = s.frames.tail := by
  obtain ⟨stack, suspended, functions⟩ := t
  obtain rfl : suspended = _ := hs
  cases hstack : s.stack with
  | none =>
    have hcall : s.enterCall.suspended = .apart none :: s.suspended := by simp [Scopes.enterCall, hstack]
    simp [Scopes.leaveCall, hcall, Scopes.imprint, Scopes.frames, hstack]
  | some k =>
    have hcall : s.enterCall.suspended = .sharing k.locals :: s.suspended := by simp [Scopes.enterCall, hstack]
    have hopen : s.imprint = k.locals.map Frame.imprint ++ [k.globals.imprint] := Scopes.imprint_of_stack hstack
    rw [Scopes.imprint_enterCall, hopen] at hi
    cases stack with
    | none => simp [Scopes.imprint, Scopes.frames] at hi
    | some k' =>
      rw [Scopes.imprint_of_stack rfl] at hi
      have hglobals : k'.globals.imprint = k.globals.imprint := by simpa using congrArg List.getLast? hi
      have hback : (Scopes.leaveCall ⟨some k', s.enterCall.suspended, functions⟩).stack = some ⟨k'.globals, k.locals⟩ := by
        simp [Scopes.leaveCall, hcall]
      refine ⟨?_, by simp [Scopes.leaveCall, hcall], ?_⟩
      · rw [Scopes.imprint_of_stack hback, hopen, hglobals]
      · simp [Scopes.frames, hback, hstack, Stack.frames]

theorem leave_of_call (h : Level new (s.step (.enter .call)).2 t) :
    t.step .leave = (.ok .none, { t with scopes := t.scopes.leaveCall, brackets := s.brackets }) := by
  have hb : t.brackets = .call :: s.brackets := h.brackets
  refine step_of_ok ?_
  simp only [perform, hb]

/-- What is done in a call leaves only changed values behind, and those in the globals. -/
theorem level_of_call (h : Level new (s.step (.enter .call)).2 t) :
    Level [] s (t.step .leave).2 ∧ (t.step .leave).2.scopes.frames.tail = s.scopes.frames.tail := by
  obtain ⟨hi, hs, hf⟩ := leaveCall_of_level h.imprint (h.suspended s.scopes.enterCall_open)
  rw [leave_of_call h]
  exact ⟨.of_same rfl hi hs, hf⟩

theorem level_of_bracket (b : Bracket) (h : Level new (s.step (.enter b)).2 t) :
    Level [] s (t.step .leave).2 ∧ (t.step .leave).1 = .ok .none := by
  cases b with
  | scope => exact ⟨level_of_scope h, by rw [leave_of_scope h]⟩
  | call => exact ⟨(level_of_call h).1, by rw [leave_of_call h]⟩

/-- Bracketed steps stay on their level: all that they add are declarations of their own in the innermost frame. -/
theorem Bracketed.level {steps : List Step} (h : Bracketed steps) (s : Session) :
    ∃ new, new ⊆ s.declared steps ∧ Level new s (s.after steps) := by
  induction h generalizing s with
  | nil => exact ⟨[], List.nil_subset _, .refl s⟩
  | @steady step rest h _ ih =>
    obtain ⟨new, hsub, hl⟩ := ih (s.step step).2
    refine ⟨new, fun d hd => ?_, (level_of_steady s h).trans hl⟩
    exact List.mem_append_right _ (hsub hd)
  | @declare name type value initial span rest _ ih =>
    obtain ⟨new, hsub, hl⟩ := ih (s.step (.declare name type value initial span)).2
    refine ⟨_, ?_, (level_of_declare s name type value initial span).trans hl⟩
    exact List.append_subset.mpr ⟨List.subset_append_left _ _, fun d hd => List.mem_append_right _ (hsub hd)⟩
  | @bracket b inner rest _ _ ihi ihr =>
    obtain ⟨new, -, hi⟩ := ihi (s.step (.enter b)).2
    obtain ⟨hb, -⟩ := level_of_bracket b hi
    obtain ⟨new', hsub, hr⟩ := ihr _
    refine ⟨new', fun d hd => s.declared_after_bracket b inner rest (hsub hd), ?_⟩
    rw [after_cons, after_append, after_cons]
    exact hb.trans hr

end Brackets

section Inside

/-- A part of the imprints that grows only by what is declared: opening a frame or a call adds nothing to it. -/
structure Part (part : List (List (Data × Ty × Value)) → List (Data × Ty × Value)) : Prop where
  declare {frames : List (List (Data × Ty × Value))} {new : List (Data × Ty × Value)} :
    part (frames.modifyHead (· ++ new)) ⊆ part frames ++ new
  enter {frames : List (List (Data × Ty × Value))} : part ([] :: frames) ⊆ part frames
  call {frames : List (List (Data × Ty × Value))} : part ([] :: frames.getLast?.toList) ⊆ part frames

theorem part_all : Part List.flatten where
  declare {frames new} := by
    cases frames with
    | nil => simp
    | cons f rest =>
      intro x hx
      simp only [List.modifyHead_cons, List.flatten_cons, List.mem_append] at hx ⊢
      grind
  enter {frames} := by simp
  call {frames} := by
    cases hl : frames.getLast? with
    | none => simp
    | some g =>
      intro x hx
      exact List.mem_flatten.mpr ⟨g, List.mem_of_getLast? hl, by simpa using hx⟩

/-- All but the outermost frame. -/
theorem part_locals : Part fun frames => frames.dropLast.flatten where
  declare {frames new} := by
    obtain _ | ⟨f, _ | ⟨f', rest⟩⟩ := frames
    · simp
    · simp
    · intro x hx
      simp only [List.modifyHead_cons, List.dropLast_cons_cons, List.flatten_cons, List.mem_append] at hx ⊢
      grind
  enter {frames} := by cases frames <;> simp
  call {frames} := by cases hl : frames.getLast? <;> simp

/-- In the part, the second session has nothing but what the first has there and the new declarations. -/
def Covers (part : List (List (Data × Ty × Value)) → List (Data × Ty × Value)) (new : List Declaration) (s s' : Session) :
    Prop :=
  part s'.scopes.imprint ⊆ part s.scopes.imprint ++ Frame.imprint new

variable {part : List (List (Data × Ty × Value)) → List (Data × Ty × Value)} {s s' s'' : Session}
  {new new' : List Declaration}

theorem Covers.refl (s : Session) : Covers part new s s := List.subset_append_left _ _

theorem Covers.trans (h : Covers part new s s') (h' : Covers part new' s' s'') : Covers part (new ++ new') s s'' := by
  intro x hx
  simp only [Frame.imprint, List.map_append, List.mem_append]
  rcases List.mem_append.mp (h' hx) with hx | hx
  · rcases List.mem_append.mp (h hx) with hx | hx
    · exact .inl hx
    · exact .inr (.inl hx)
  · exact .inr (.inr hx)

theorem Covers.mono (h : Covers part new s s') (hn : new ⊆ new') : Covers part new' s s' := by
  intro x hx
  rcases List.mem_append.mp (h hx) with hx | hx
  · exact List.mem_append_left _ hx
  · exact List.mem_append_right _ (List.map_subset _ hn hx)

theorem Part.level (hp : Part part) (h : Level new s s') : Covers part new s s' := by
  unfold Covers
  rw [h.imprint]
  exact hp.declare

theorem Part.entered (hp : Part part) (s : Session) (b : Bracket) : Covers part [] s (s.step (.enter b)).2 := by
  refine List.Subset.trans ?_ (List.subset_append_left _ _)
  cases b with
  | scope =>
    change part s.scopes.enter.imprint ⊆ _
    rw [Scopes.imprint_enter]
    exact hp.enter
  | call =>
    change part s.scopes.enterCall.imprint ⊆ _
    rw [Scopes.imprint_enterCall]
    exact hp.call

/-- At every point of bracketed steps, between whichever of their brackets, nothing is there but what was there before and
what was declared since. -/
theorem Bracketed.covers (hp : Part part) {steps : List Step} (h : Bracketed steps) (s : Session) {pre : List Step}
    (hpre : pre <+: steps) : Covers part (s.declared pre) s (s.after pre) := by
  induction h generalizing s pre with
  | nil =>
    obtain rfl := List.prefix_nil.mp hpre
    exact .refl s
  | steady h _ ih =>
    rcases List.prefix_cons_iff.mp hpre with rfl | ⟨more, rfl, hmore⟩
    · exact .refl s
    · exact ((hp.level (level_of_steady s h)).trans (ih _ hmore)).mono (List.subset_append_right _ _)
  | declare _ ih =>
    rcases List.prefix_cons_iff.mp hpre with rfl | ⟨more, rfl, hmore⟩
    · exact .refl s
    · exact (hp.level (level_of_declare s _ _ _ _ _)).trans (ih _ hmore)
  | @bracket b inner rest hi _ ihi ihr =>
    rcases List.prefix_cons_iff.mp hpre with rfl | ⟨more, rfl, hmore⟩
    · exact .refl s
    have inside {pre : List Step} (h : pre <+: inner) :
        Covers part (s.declared (.enter b :: pre)) s (s.after (.enter b :: pre)) := (hp.entered s b).trans (ihi _ h)
    rcases List.prefix_or_prefix_of_prefix hmore (List.prefix_append inner _) with hinner | ⟨post, rfl⟩
    · exact inside hinner
    rcases List.prefix_cons_iff.mp ((List.prefix_append_right_inj inner).mp hmore) with rfl | ⟨post, rfl, hpost⟩
    · exact inside (by simp)
    -- the bracket is closed, and its own declarations are gone with it
    obtain ⟨new, -, hl⟩ := hi.level (s.step (.enter b)).2
    rw [after_cons, after_append, after_cons]
    refine ((hp.level (level_of_bracket b hl).1).trans (ihr _ hpost)).mono ?_
    exact s.declared_after_bracket b inner post

/-- A variable that is found inside of a call is one of the globals or was declared there. -/
theorem lookup_in_call (s : Session) {inner pre : List Step} (h : Bracketed inner) (hpre : pre <+: inner) {name : Data}
    {span : Span} {d : Declaration} (hd : (s.after (.enter .call :: pre)).scopes.lookup name span = .ok d) :
    (d ∈ (s.after (.enter .call :: pre)).scopes.outermost ∧ d.imprint ∈ s.scopes.outermost.imprint) ∨
      ∃ d' ∈ (s.after [.enter .call]).declared pre, d'.imprint = d.imprint := by
  have himprint : (s.after [.enter .call]).scopes.imprint = [] :: s.scopes.imprint.getLast?.toList := s.scopes.imprint_enterCall
  have hnew {x : Data × Ty × Value} (hx : x ∈ Frame.imprint ((s.after [.enter .call]).declared pre)) :
      ∃ d' ∈ (s.after [.enter .call]).declared pre, d'.imprint = x := List.mem_map.mp hx
  rcases Scopes.mem_of_lookup hd with hd | hd
  · rcases List.mem_append.mp (h.covers part_all (s.after [.enter .call]) hpre (Scopes.mem_imprint_of_outermost hd)) with hx | hx
    · rw [himprint, List.flatten_cons, List.nil_append, Scopes.imprint_getLast?] at hx
      exact .inl ⟨hd, hx⟩
    · exact .inr (hnew hx)
  · rcases List.mem_append.mp (h.covers part_locals (s.after [.enter .call]) hpre hd) with hx | hx
    · -- a call begins with an empty frame on the globals
      rw [himprint] at hx
      cases hl : s.scopes.imprint.getLast? <;> simp [hl] at hx
    · exact .inr (hnew hx)

end Inside

/-- After the second end of a bracket there are as many frames as before the first, and every frame has the same names, types and
initial values. If it is the bracket of a call, all frames but the outermost have the same values too, and what is looked up
inside, between whichever brackets, is a variable of the outermost frame or one that was declared inside. The second end of a
bracket never fails, and no step that fails has changed anything. -/
theorem bracket_restores_frames (s : Session) (b : Bracket) {inner : List Step} (h : Bracketed inner) :
    (s.after (.enter b :: inner ++ [.leave])).scopes.depth = s.scopes.depth ∧
    (s.after (.enter b :: inner ++ [.leave])).scopes.frames.map Frame.imprint = s.scopes.frames.map Frame.imprint ∧
    (b = .call → (s.after (.enter b :: inner ++ [.leave])).scopes.frames.tail = s.scopes.frames.tail ∧
      ∀ pre, pre <+: inner → ∀ (name : Data) (span : Span) (d : Declaration),
        (s.after (.enter b :: pre)).scopes.lookup name span = .ok d →
        (d ∈ (s.after (.enter b :: pre)).scopes.outermost ∧ d.imprint ∈ s.scopes.outermost.imprint) ∨
          ∃ d' ∈ (s.after [.enter b]).declared pre, d'.imprint = d.imprint) ∧
    ((s.after (.enter b :: inner)).step .leave).1 = .ok .none ∧
    ∀ (t : Session) (step : Step) (e : Failure), (t.step step).1 = .error e →
      (t.step step).2.scopes = t.scopes ∧ (step ≠ .leave → (t.step step).2 = t) := by
  obtain ⟨new, -, hl⟩ := h.level (s.step (.enter b)).2
  obtain ⟨hb, hok⟩ := level_of_bracket b hl
  have hend : s.after (.enter b :: inner ++ [.leave]) = (((s.step (.enter b)).2.after inner).step .leave).2 := by simp
  have himprint : (s.after (.enter b :: inner ++ [.leave])).scopes.imprint = s.scopes.imprint := by
    rw [hend, hb.imprint]
    cases s.scopes.imprint <;> simp [Frame.imprint]
  refine ⟨?_, List.reverse_inj.mp himprint, ?_, hok, fun t step e => step_fails⟩
  · rw [← Scopes.length_imprint, ← Scopes.length_imprint, himprint]
  · rintro rfl
    rw [hend]
    exact ⟨(level_of_call hl).2, fun pre hpre name span d hd => s.lookup_in_call h hpre hd⟩

/-- A global that a variable of a block hides. -/
def hidden : Session := start.after [.enter .scope, .declare (.text "x") .boolean none none .zero, .enter .scope,
  .declare (.text "x") .string none none .zero]

/-- Changes the global of a call, and declares a variable of its own, which only a block can declare again. -/
def visit : List Step := [.set (.text "x") (.boolean true) .zero, .declare (.text "y") .string none none .zero,
  .enter .scope, .declare (.text "y") .boolean none none .zero, .leave, .declare (.text "y") .boolean none none .zero]

theorem bracketed_visit : Bracketed visit :=
  .steady trivial (.declare (.bracket .scope (.declare .nil) (.declare .nil)))

theorem bracket_restores_frames_hidden : Bracketed visit ∧
    (hidden.after (.enter .call :: visit ++ [.leave])).scopes.frames.tail = hidden.scopes.frames.tail ∧
    (hidden.after (.enter .call :: visit ++ [.leave])).scopes.frames.map Frame.imprint =
      hidden.scopes.frames.map Frame.imprint ∧
    (hidden.after (.enter .call :: visit ++ [.leave])).scopes.outermost.map (·.value) = [.boolean true] ∧
    hidden.scopes.outermost.map (·.value) = [.boolean false] := by
  obtain ⟨-, himprint, hcall, -⟩ := bracket_restores_frames hidden .call bracketed_visit
  exact ⟨bracketed_visit, (hcall rfl).1, himprint, rfl, rfl⟩

end Session
end CheckedScript
