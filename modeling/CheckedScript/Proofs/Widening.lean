import CheckedScript.Proofs.Rules

/-! A rule that holds of the scopes goes on to hold of wider ones: scopes with more globals and more functions behind
those that are there. This is how the body of a function, which was checked where the function was defined, stays
legal wherever the function is called. -/

namespace CheckedScript

namespace Scopes

variable {s t : Scopes} {name : Data} {span : Span}

/-- The scopes `t` have the frames of `s`, but perhaps more globals and more functions. Where the globals are the
innermost frame they are the same, since a declaration may still be refused because of them. -/
structure Wider (s t : Scopes) : Prop where
  functions : s.functions <+: t.functions
  outline : ∃ inner g g', s.outline = inner ++ [g] ∧ t.outline = inner ++ [g'] ∧ g <+: g' ∧ (inner = [] → g = g')

namespace Wider

theorem of_alike (ho : s.outline ≠ []) (h : t.outline = s.outline) (hf : t.functions = s.functions) : Wider s t := by
  refine ⟨hf ▸ List.prefix_refl _, s.outline.dropLast, s.outline.getLast ho, s.outline.getLast ho, ?_, ?_, List.prefix_refl _,
    fun _ => rfl⟩
  · exact (List.dropLast_concat_getLast ho).symm
  · rw [h]; exact (List.dropLast_concat_getLast ho).symm

theorem left_open (h : Wider s t) : s.outline ≠ [] := by
  obtain ⟨inner, g, g', hs, -⟩ := h.outline
  simp [hs]

theorem right_open (h : Wider s t) : t.outline ≠ [] := by
  obtain ⟨inner, g, g', -, ht, -⟩ := h.outline
  simp [ht]

theorem enter (h : Wider s t) : Wider s.enter t.enter := by
  obtain ⟨inner, g, g', hs, ht, hg, -⟩ := h.outline
  refine ⟨by simpa using h.functions, [] :: inner, g, g', by simp [hs], by simp [ht], hg, by simp⟩

/-- What both declare in their innermost frames keeps one wider than the other. -/
theorem grow {s' t' : Scopes} {added : List (Data × Ty)} (h : Wider s t)
    (hs : s'.outline = s.outline.modifyHead (· ++ added)) (hfs : s'.functions = s.functions)
    (ht : t'.outline = t.outline.modifyHead (· ++ added)) (hft : t'.functions = t.functions) : Wider s' t' := by
  obtain ⟨inner, g, g', hso, hto, hg, he⟩ := h.outline
  refine ⟨by rw [hfs, hft]; exact h.functions, ?_⟩
  cases inner with
  | nil =>
    have hgg : g = g' := he rfl
    exact ⟨[], g ++ added, g ++ added, by simp [hs, hso], by simp [ht, hto, hgg], List.prefix_refl _, fun _ => rfl⟩
  | cons f rest =>
    exact ⟨(f ++ added) :: rest, g, g', by simp [hs, hso], by simp [ht, hto], hg, by simp⟩

theorem get? {τ : Ty} (h : Wider s t) (hd : (s.get? name).map (·.type) = some τ) :
    (t.get? name).map (·.type) = some τ := by
  obtain ⟨inner, g, g', hs, ht, ⟨more, hg⟩, -⟩ := h.outline
  have hp : s.outline.flatten <+: t.outline.flatten := ⟨more, by simp [hs, ht, ← hg]⟩
  rw [get?_type] at hd ⊢
  obtain ⟨x, hx, rfl⟩ := Option.map_eq_some_iff.mp hd
  rw [hp.find?_eq_some hx]
  rfl

end Wider

theorem ensureKey_of_open (ho : s.outline ≠ []) (ht : t.outline ≠ []) : t.ensureKey name = s.ensureKey name := by
  obtain ⟨k, hk⟩ := exists_stack ho
  obtain ⟨k', hk'⟩ := exists_stack ht
  simp [ensureKey, hk, hk']

/-- The innermost frame declares a name if its outline does. -/
theorem innermost_none : (s.stack.bind fun k => k.innermost.get? name) = none ↔
    ∀ f ∈ s.outline.head?, f.find? (·.1.equal name) = none := by
  obtain ⟨_ | ⟨g, locals⟩, suspended, functions⟩ := s
  · simp [outline]
  · cases locals <;> simp only [outline, Stack.innermost, Option.bind_some, List.head?_nil, List.head?_cons,
      Option.getD_none, Option.getD_some, Frame.get?_none, List.map_nil, List.map_cons, List.nil_append,
      List.cons_append, Option.mem_def, Option.some.injEq, forall_eq']

namespace Wider

theorem lookup {d : Declaration} (h : Wider s t) (hd : s.lookup name span = .ok d) :
    ∃ d', t.lookup name span = .ok d' ∧ d'.type = d.type := by
  obtain ⟨hk, hg⟩ := lookup_ok.mp hd
  have hs : (s.get? name).map (·.type) = some d.type := by rw [hg]; rfl
  have ht := h.get? hs
  obtain ⟨d', hd', htype⟩ := Option.map_eq_some_iff.mp ht
  exact ⟨d', lookup_ok.mpr ⟨by rw [ensureKey_of_open h.left_open h.right_open, hk], hd'⟩, htype⟩

theorem resolve {arity : Int} {f : Function} (h : Wider s t) (hf : s.resolve name arity span = .ok f) :
    t.resolve name arity span = .ok f :=
  resolve_ok.mpr (h.functions.find?_eq_some (resolve_ok.mp hf))

theorem ensureUndeclared (h : Wider s t) (hu : s.ensureUndeclared name span = .ok ()) :
    t.ensureUndeclared name span = .ok () := by
  obtain ⟨hk, hn⟩ := ensureUndeclared_ok.mp hu
  refine ensureUndeclared_ok.mpr ⟨by rw [ensureKey_of_open h.left_open h.right_open, hk], ?_⟩
  rw [innermost_none] at hn ⊢
  obtain ⟨inner, g, g', hs, ht, -, he⟩ := h.outline
  cases inner with
  | nil => simpa [hs, ht, he rfl] using hn
  | cons f rest => simpa [hs, ht] using hn

mutual

theorem infer (h : Wider s t) (e : Expr) {τ : Ty} (he : s.infer e = .ok τ) : t.infer e = .ok τ := by
  cases e with
  | literal span v => exact he
  | untyped span what => exact he
  | identifier span name =>
    obtain ⟨d, hd, hτ⟩ := infer_identifier_ok.mp he
    obtain ⟨d', hd', htype⟩ := h.lookup hd
    exact infer_identifier_ok.mpr ⟨d', hd', htype.trans hτ⟩
  | binary form span op left right =>
    obtain ⟨a, ha, b, hb, hτ⟩ := infer_binary_ok.mp he
    exact infer_binary_ok.mpr ⟨a, h.infer left ha, b, h.infer right hb, hτ⟩
  | unary form span op operand =>
    obtain ⟨a, ha, hτ⟩ := infer_unary_ok.mp he
    exact infer_unary_ok.mpr ⟨a, h.infer operand ha, hτ⟩
  | call span name args =>
    obtain ⟨f, hf, hτ⟩ := infer_call_ok.mp he
    obtain ⟨hr, ha⟩ := checkCall_ok.mp hf
    exact infer_call_ok.mpr ⟨f, checkCall_ok.mpr ⟨h.resolve hr, h.checkArguments _ _ args _ ha⟩, hτ⟩
  | missing => exact he
  | misfit what => exact he
termination_by structural e

theorem checkArguments (h : Wider s t) (f : Signature) (span : Span) (args : List Expr) (types : List Ty)
    (ha : s.checkArguments f span args types = .ok ()) : t.checkArguments f span args types = .ok () := by
  cases args with
  | nil => simp only [Scopes.checkArguments]
  | cons e rest =>
    cases types with
    | nil => simp only [Scopes.checkArguments]
    | cons τ types =>
      obtain ⟨⟨a, he, hs⟩, hr⟩ := checkArguments_cons_ok.mp ha
      exact checkArguments_cons_ok.mpr ⟨⟨a, h.infer e he, hs⟩, h.checkArguments f span rest types hr⟩
termination_by structural args

end

theorem checkCall {args : List Expr} {f : Function} (h : Wider s t) (hc : s.checkCall span name args = .ok f) :
    t.checkCall span name args = .ok f := by
  obtain ⟨hr, ha⟩ := checkCall_ok.mp hc
  exact checkCall_ok.mpr ⟨h.resolve hr, h.checkArguments _ _ _ _ ha⟩

theorem checkCondition {e : Expr} (h : Wider s t) (hc : s.checkCondition e = .ok ()) : t.checkCondition e = .ok () := by
  obtain ⟨a, ha, hb⟩ := checkCondition_ok.mp hc
  exact checkCondition_ok.mpr ⟨a, h.infer e ha, hb⟩

theorem checkDeclaration {type : Ty} {init : Option Expr} (h : Wider s t)
    (hc : s.checkDeclaration span type name init = .ok ()) : t.checkDeclaration span type name init = .ok () := by
  refine checkDeclaration_ok.mpr fun e he => ?_
  obtain ⟨a, ha, hs⟩ := checkDeclaration_ok.mp hc e he
  exact ⟨a, h.infer e ha, hs⟩

theorem checkAssignment {op : AssignOp} {e : Expr} {d : Declaration} (h : Wider s t)
    (hc : s.checkAssignment span name op e = .ok d) : ∃ d', t.checkAssignment span name op e = .ok d' := by
  obtain ⟨hd, a, ha, ht⟩ := checkAssignment_ok.mp hc
  obtain ⟨d', hd', htype⟩ := h.lookup hd
  exact ⟨d', checkAssignment_ok.mpr ⟨hd', a, h.infer e ha, by rwa [htype]⟩⟩

theorem checkPrint {operand : Option Expr} (h : Wider s t) (hc : s.checkPrint operand = .ok ()) :
    t.checkPrint operand = .ok () := by
  refine checkPrint_ok.mpr fun e he => ?_
  obtain ⟨a, ha⟩ := checkPrint_ok.mp hc e he
  exact ⟨a, h.infer e ha⟩

theorem checkReturn {d : Definition} (h : Wider s t) (hc : s.checkReturn d = .ok ()) : t.checkReturn d = .ok () := by
  obtain ⟨a, ha, hs⟩ := checkReturn_ok.mp hc
  exact checkReturn_ok.mpr ⟨a, h.infer d.value ha, hs⟩

end Wider
end Scopes
end CheckedScript
