import CheckedScript.Proofs.Deriving

/-! What is derived is read. A part of a program is read from the front of the tokens whenever a token that may follow it comes
next and the fuel suffices for its tokens. A sum is read factor by factor while its tree grows to the left: after a part
that derives some tree, the reading stands where the rest of a sum with that tree on its left is to be read. -/

namespace CheckedScript.Parse

open Grammar
open Token (extent)
open Token.Kind

section Steps

variable {α β : Type} {p : Parser α} {k : α → Parser β} {kinds : List Token.Kind} {ts rest : List Token} {t : Token}

theorem bind_step {a : α} (h : p ts = .ok (a, rest)) : (p >>= k) ts = k a rest := by
  simp only [Bind.bind, StateT.bind, h, Except.bind]

theorem ite_bind_step {P : Prop} [Decidable P] {p' : Parser α} {a : α} (h : (if P then p else p') ts = .ok (a, rest)) :
    (if P then p >>= k else p' >>= k) ts = k a rest := by
  split at h
  · rename_i hP
    rw [if_pos hP, bind_step h]
  · rename_i hP
    rw [if_neg hP, bind_step h]

theorem next_step {k : Token.Kind → Parser β} : (next >>= k) ts = k (nextKind ts) ts := bind_step (next_eq ts)

theorem expect_eq (h : nextKind ts ∈ kinds) : expect kinds ts = .ok ((), ts) := by
  unfold expect
  rw [next_step, if_pos h]
  rfl

theorem expect_step {k : Unit → Parser β} (h : nextKind ts ∈ kinds) : (expect kinds >>= k) ts = k () ts :=
  bind_step (expect_eq h)

theorem take_step {k : Token → Parser β} (h : t.kind ∈ kinds) : (take kinds >>= k) (t :: rest) = k t rest := by
  refine bind_step ?_
  simp only [take, h, if_true]

end Steps

-- A parser is by definition its first step and what comes after it. So the proofs below open a parser with the lemma of that
-- step, and not with an equation of its own.

/-- The fuel that a part needs, and what it is then read as before a token that may follow it. -/
def Taken : (n : ExprPart) → List Token → n.Tree → Prop
  | .value, w, e => ∀ fuel r, 8 * w.length + 4 ≤ fuel → nextKind r ∈ valueEnd →
      operandWith fuel .alone (w ++ r) = .ok (e, r)
  | .side, w, e => ∀ fuel r, 8 * w.length + 4 ≤ fuel → nextKind r ∈ sideEnd →
      operandWith fuel .side (w ++ r) = .ok (e, r)
  | .header, w, e => ∀ r, nextKind r = rpar → header (w ++ r) = .ok (e, r)
  | .cond, w, e => ∀ fuel r, 8 * w.length ≤ fuel → nextKind r ∈ conditionEnd → conditionWith fuel (w ++ r) = .ok (e, r)
  | .negand, w, e => ∀ fuel r, 8 * w.length ≤ fuel → nextKind r ∈ conditionEnd →
      (if nextKind w ∈ conditionFirst then conditionWith fuel else atomWith fuel) (w ++ r) = .ok (e, r)
  | .expr, w, e => ∀ fuel r, 8 * w.length + 3 ≤ fuel → nextKind r ∈ conditionEnd ++ addOps →
      ∃ left, fuel ≤ left + 8 * w.length ∧ sumWith fuel (w ++ r) = sumRestWith left e r
  | .term, w, e => ∀ fuel r, 8 * w.length + 2 ≤ fuel → nextKind r ∈ atomEnd →
      ∃ left, fuel ≤ left + 8 * w.length ∧ productWith fuel (w ++ r) = productRestWith left e r
  | .factor, w, e => ∀ fuel r, 8 * w.length + 1 ≤ fuel → nextKind r ∈ atomEnd → factorWith fuel (w ++ r) = .ok (e, r)
  | .atom, w, e | .call, w, e => ∀ fuel r, 8 * w.length ≤ fuel → nextKind r ∈ atomEnd →
      atomWith fuel (w ++ r) = .ok (e, r)
  | .args, w, es => ∀ fuel l r rest, 8 * w.length + 16 ≤ fuel → l.kind = lpar → r.kind = rpar → nextKind rest ∈ atomEnd →
      argumentsWith fuel (l :: (w ++ r :: rest)) = .ok ((es, r), rest)
  | .someArgs, w, es => ∀ fuel r, 8 * w.length + 5 ≤ fuel → nextKind r = rpar →
      argumentListWith fuel (w ++ r) = .ok (es, r)

theorem exists_succ_of_pos (fuel : Nat) (h : 0 < fuel) : ∃ left, fuel = left + 1 := ⟨fuel - 1, by omega⟩

theorem Place.ends_conditionEnd (place : Place) : ∀ k ∈ place.ends, k ∈ conditionEnd := by
  cases place <;> decide

section Sums

variable {w : List Token} {e : Expr} {fuel : Nat} {r : List Token}

theorem sumRestWith_end (hf : 0 < fuel) (hr : nextKind r ∉ addOps) : sumRestWith fuel e r = .ok (e, r) := by
  obtain ⟨fuel, rfl⟩ := exists_succ_of_pos fuel hf
  refine next_step.trans ?_
  rw [if_neg hr]
  rfl

theorem productRestWith_end (hf : 0 < fuel) (hr : nextKind r ∉ mulOps) : productRestWith fuel e r = .ok (e, r) := by
  obtain ⟨fuel, rfl⟩ := exists_succ_of_pos fuel hf
  refine next_step.trans ?_
  rw [if_neg hr]
  rfl

theorem Taken.sum (h : Taken .expr w e) (hf : 8 * w.length + 3 ≤ fuel) (hr : nextKind r ∈ conditionEnd) :
    sumWith fuel (w ++ r) = .ok (e, r) := by
  obtain ⟨left, hleft, heq⟩ := h fuel r hf (List.mem_append_left _ hr)
  rw [heq]
  have hdisjoint : ∀ k ∈ conditionEnd, k ∉ addOps := by decide
  exact sumRestWith_end (by omega) (hdisjoint _ hr)

theorem Taken.product (h : Taken .term w e) (hf : 8 * w.length + 2 ≤ fuel) (hr : nextKind r ∈ conditionEnd ++ addOps) :
    productWith fuel (w ++ r) = .ok (e, r) := by
  obtain ⟨left, hleft, heq⟩ := h fuel r hf (List.mem_append_left _ hr)
  rw [heq]
  have hdisjoint : ∀ k ∈ conditionEnd ++ addOps, k ∉ mulOps := by decide
  exact productRestWith_end (by omega) (hdisjoint _ hr)

theorem taken_sum (hw : w ≠ []) (h : Taken .term w e) : Taken .expr w e := by
  intro fuel r hf hr
  have hlength := List.length_pos_iff.mpr hw
  obtain ⟨fuel, rfl⟩ := exists_succ_of_pos fuel (by omega)
  refine ⟨fuel, by omega, ?_⟩
  exact bind_step (h.product (by omega) hr)

theorem taken_sum_binary {u v : List Token} {o : Token} {x y : Expr} (hu : Taken .expr u x) (ho : Terminal addOp o)
    (hv : Taken .term v y) :
    Taken .expr (u ++ o :: v) (.binary .expression (x.span.join y.span) (.ofText o.text) x y) := by
  intro fuel r hf hr
  simp only [List.length_append, List.length_cons] at hf ⊢
  have ho' : o.kind ∈ addOps := ho.kind_mem
  obtain ⟨left, hleft, heq⟩ := hu fuel (o :: (v ++ r)) (by omega) (List.mem_append_right _ ho')
  obtain ⟨left, rfl⟩ := exists_succ_of_pos left (by omega)
  refine ⟨left, by omega, ?_⟩
  rw [List.append_assoc, List.cons_append, heq]
  refine next_step.trans ?_
  rw [nextKind_cons, if_pos ho', take_step ho', bind_step (hv.product (by omega) hr)]

theorem taken_product (hw : w ≠ []) (h : Taken .factor w e) : Taken .term w e := by
  intro fuel r hf hr
  have hlength := List.length_pos_iff.mpr hw
  obtain ⟨fuel, rfl⟩ := exists_succ_of_pos fuel (by omega)
  refine ⟨fuel, by omega, ?_⟩
  exact bind_step (h fuel r (by omega) hr)

theorem taken_product_binary {u v : List Token} {o : Token} {x y : Expr} (hu : Taken .term u x) (ho : Terminal mulOp o)
    (hv : Taken .factor v y) :
    Taken .term (u ++ o :: v) (.binary .expression (x.span.join y.span) (.ofText o.text) x y) := by
  intro fuel r hf hr
  simp only [List.length_append, List.length_cons] at hf ⊢
  have ho' : o.kind ∈ mulOps := ho.kind_mem
  obtain ⟨left, hleft, heq⟩ := hu fuel (o :: (v ++ r)) (by omega) (List.mem_append_right _ ho')
  obtain ⟨left, rfl⟩ := exists_succ_of_pos left (by omega)
  refine ⟨left, by omega, ?_⟩
  rw [List.append_assoc, List.cons_append, heq]
  refine next_step.trans ?_
  rw [nextKind_cons, if_pos ho', take_step ho', bind_step (hv left r (by omega) hr)]

end Sums

section Operands

variable {u v w r : List Token} {o t : Token} {e x y : Expr} {fuel : Nat}

theorem operandWith_of_sum (place : Place) (hfirst : nextKind w ∈ factorFirst) (h : Taken .expr w e)
    (hf : 8 * w.length + 4 ≤ fuel) (hr : nextKind r ∈ place.ends) : operandWith fuel place (w ++ r) = .ok (e, r) := by
  obtain ⟨fuel, rfl⟩ := exists_succ_of_pos fuel (by omega)
  have hvalue : nextKind (w ++ r) ∈ valueFirst := nextKind_append_mem r hfirst (by decide) (by decide)
  have hcondition : nextKind (w ++ r) ∉ conditionFirst := by
    rw [nextKind_append (ne_nil_of_nextKind hfirst (by decide))]
    exact (by decide : ∀ k ∈ factorFirst, k ∉ conditionFirst) _ hfirst
  refine (expect_step hvalue).trans ?_
  rw [next_step, if_neg hcondition, bind_step (h.sum (by omega) (place.ends_conditionEnd _ hr)),
    expect_step (List.mem_append_right _ hr)]
  rfl

theorem operandWith_of_condition (place : Place) (hfirst : nextKind w ∈ conditionFirst) (h : Taken .cond w e)
    (hf : 8 * w.length + 4 ≤ fuel) (hr : nextKind r ∈ place.ends) : operandWith fuel place (w ++ r) = .ok (e, r) := by
  obtain ⟨fuel, rfl⟩ := exists_succ_of_pos fuel (by omega)
  have hvalue : nextKind (w ++ r) ∈ valueFirst := nextKind_append_mem r hfirst (by decide) (by decide)
  have hcondition : nextKind (w ++ r) ∈ conditionFirst := nextKind_append_mem r hfirst (by decide) (by decide)
  refine (expect_step hvalue).trans ?_
  rw [next_step, if_pos hcondition, bind_step (h fuel r (by omega) (place.ends_conditionEnd _ hr)), expect_step hr]
  rfl

theorem value_eq (h : Taken .value w e) (hr : nextKind r ∈ valueEnd) : value (w ++ r) = .ok (e, r) := by
  refine h _ r ?_ hr
  simp only [exprFuel, List.length_append]
  omega

theorem side_eq (h : Taken .side w e) (hr : nextKind r ∈ sideEnd) : side (w ++ r) = .ok (e, r) := by
  refine h _ r ?_ hr
  simp only [exprFuel, List.length_append]
  omega

theorem taken_header (h : Taken .side w e) : Taken .header w e := by
  intro r hr
  rw [header, bind_step (side_eq h (by rw [hr]; decide)), expect_step (by rw [hr]; decide), next_step, if_pos hr]
  rfl

theorem taken_header_binary (hx : Taken .side u x) (ho : Terminal condOp o) (hy : Taken .side v y) :
    Taken .header (u ++ o :: v) (.binary .condition (x.span.join y.span) (.ofText o.text) x y) := by
  intro r hr
  have ho' : o.kind ∈ conditionOps := ho.kind_mem
  have hne : o.kind ≠ rpar := (by decide : ∀ k ∈ conditionOps, k ≠ rpar) _ ho'
  have hend : nextKind (o :: (v ++ r)) ∈ rpar :: conditionOps := List.mem_cons_of_mem _ ho'
  rw [List.append_assoc, List.cons_append, header, bind_step (side_eq hx hend), expect_step hend, next_step, nextKind_cons,
    if_neg hne, take_step ho', bind_step (side_eq hy (by rw [hr]; decide)), expect_step (by rw [hr]; decide)]
  rfl

theorem taken_condition {l c : Token} (hl : Terminal [lpar] l) (hx : Taken .side u x) (ho : Terminal condOp o)
    (hy : Taken .side v y) (hc : Terminal [rpar] c) :
    Taken .cond (l :: (u ++ o :: (v ++ [c]))) (.binary .condition (l.span.join c.span) (.ofText o.text) x y) := by
  intro fuel r hf hr
  simp only [List.length_append, List.length_cons, List.length_nil] at hf
  obtain ⟨fuel, rfl⟩ := exists_succ_of_pos fuel (by omega)
  have hl' : l.kind = lpar := hl.kind_eq
  have ho' : o.kind ∈ conditionOps := ho.kind_mem
  have hne : l.kind ≠ bang := by rw [hl']; decide
  have hleft := hx fuel (o :: (v ++ c :: r)) (by omega) (List.mem_cons_of_mem _ ho')
  have hright := hy fuel (c :: r) (by omega) (mem_of_all hc.kind_mem (by decide))
  simp only [List.cons_append, List.append_assoc, List.nil_append]
  refine (take_step (by rw [hl']; decide)).trans ?_
  rw [if_neg hne, bind_step hleft, take_step ho', bind_step hright, take_step hc.kind_mem, expect_step hr]
  rfl

theorem taken_not {b : Token} (hb : Terminal [bang] b) (hfirst : nextKind w ∈ negatedFirst) (h : Taken .negand w e) :
    Taken .cond (b :: w) (.unary .condition (b.span.join e.span) .not e) := by
  intro fuel r hf hr
  simp only [List.length_cons] at hf
  obtain ⟨fuel, rfl⟩ := exists_succ_of_pos fuel (by omega)
  have hb' : b.kind = bang := hb.kind_eq
  have hnext : nextKind (w ++ r) = nextKind w := nextKind_append (ne_nil_of_nextKind hfirst (by decide)) r
  have hnegand := h fuel r (by omega) hr
  rw [List.cons_append]
  refine (take_step (by rw [hb']; decide)).trans ?_
  rw [if_pos hb', expect_step (by rwa [hnext]), next_step, hnext]
  dsimp only
  rw [ite_bind_step hnegand, expect_step hr]
  rfl

theorem taken_negand_atom (hfirst : nextKind w ∈ atomFirst) (h : Taken .atom w e) : Taken .negand w e := by
  intro fuel r hf hr
  rw [if_neg ((by decide : ∀ k ∈ atomFirst, k ∉ conditionFirst) _ hfirst)]
  exact h fuel r hf (mem_of_all hr (by decide))

theorem taken_negand_condition (hfirst : nextKind w ∈ conditionFirst) (h : Taken .cond w e) : Taken .negand w e := by
  intro fuel r hf hr
  rw [if_pos hfirst]
  exact h fuel r hf hr

end Operands

section Atoms

variable {w r : List Token} {m t : Token} {e : Expr} {fuel : Nat}

theorem taken_factor (hfirst : nextKind w ∈ atomFirst) (h : Taken .atom w e) : Taken .factor w e := by
  intro fuel r hf hr
  obtain ⟨fuel, rfl⟩ := exists_succ_of_pos fuel (by omega)
  have hne : nextKind (w ++ r) ≠ minus := by
    rw [nextKind_append (ne_nil_of_nextKind hfirst (by decide))]
    exact (by decide : ∀ k ∈ atomFirst, k ≠ minus) _ hfirst
  refine (expect_step (nextKind_append_mem r hfirst (by decide) (by decide))).trans ?_
  rw [next_step, if_neg hne]
  exact h fuel r (by omega) hr

theorem taken_negate (hm : Terminal [minus] m) (h : Taken .factor w e) :
    Taken .factor (m :: w) (negate (m.span.join e.span) e) := by
  intro fuel r hf hr
  simp only [List.length_cons] at hf
  obtain ⟨fuel, rfl⟩ := exists_succ_of_pos fuel (by omega)
  have hm' : m.kind = minus := hm.kind_eq
  rw [List.cons_append]
  refine (expect_step (by rw [nextKind_cons, hm']; decide)).trans ?_
  rw [next_step, nextKind_cons, if_pos hm', take_step hm.kind_mem, bind_step (h fuel r (by omega) hr)]
  rfl

theorem taken_name (ht : Terminal [name] t) : Taken .atom [t] (.identifier t.span (.text t.text)) := by
  intro fuel r hf hr
  simp only [List.length_cons, List.length_nil] at hf
  obtain ⟨fuel, rfl⟩ := exists_succ_of_pos fuel (by omega)
  have ht' : t.kind = name := ht.kind_eq
  have hne : nextKind r ≠ lpar := (by decide : ∀ k ∈ atomEnd, k ≠ lpar) _ hr
  rw [List.singleton_append]
  refine (take_step (by rw [ht']; decide)).trans ?_
  rw [if_pos ht', expect_step (List.mem_cons_of_mem _ hr), next_step, if_neg hne]
  rfl

/-- The literal that a token is read as. -/
def literalOf (t : Token) : Value :=
  match t.kind with
  | numberLit => .number (Literal.number t.text.toList)
  | stringLit => .text (unquote t.text)
  | _ => .boolean (t.kind == trueWord)

theorem taken_literal (ht : t.kind ∈ [numberLit, stringLit, trueWord, falseWord]) :
    Taken .atom [t] (.literal t.span (literalOf t)) := by
  intro fuel r hf hr
  simp only [List.length_cons, List.length_nil] at hf
  obtain ⟨fuel, rfl⟩ := exists_succ_of_pos fuel (by omega)
  have hne : t.kind ≠ name := (by decide : ∀ k ∈ [numberLit, stringLit, trueWord, falseWord], k ≠ name) _ ht
  rw [List.singleton_append]
  refine (take_step (mem_of_all ht (by decide))).trans ?_
  rw [if_neg hne, expect_step hr]
  simp only [List.mem_cons, List.not_mem_nil, or_false] at ht
  rcases ht with ht | ht | ht | ht <;> simp only [literalOf, ht] <;> rfl

theorem taken_call {f l c : Token} {es : List Expr} (hf : Terminal [name] f) (hl : Terminal [lpar] l) (h : Taken .args w es)
    (hc : Terminal [rpar] c) : Taken .call (f :: l :: (w ++ [c])) (.call (f.span.join c.span) (.text f.text) es) := by
  intro fuel r hfuel hr
  simp only [List.length_append, List.length_cons, List.length_nil] at hfuel
  obtain ⟨fuel, rfl⟩ := exists_succ_of_pos fuel (by omega)
  have hf' : f.kind = name := hf.kind_eq
  have hl' : l.kind = lpar := hl.kind_eq
  have hc' : c.kind = rpar := hc.kind_eq
  simp only [List.cons_append, List.append_assoc, List.nil_append]
  refine (take_step (by rw [hf']; decide)).trans ?_
  rw [if_pos hf', expect_step (by rw [nextKind_cons, hl']; decide), next_step, nextKind_cons, if_pos hl',
    bind_step (h fuel l c r (by omega) hl' hc' hr)]
  rfl

theorem taken_args_none : Taken .args [] [] := by
  intro fuel l c rest hf hl hc hr
  obtain ⟨fuel, rfl⟩ := exists_succ_of_pos fuel (by omega)
  refine (take_step (by rw [hl]; decide)).trans ?_
  rw [List.nil_append, expect_step (by rw [nextKind_cons, hc]; decide), next_step, nextKind_cons]
  dsimp only
  rw [if_pos hc, pure_bind, take_step (by rw [hc]; decide), expect_step hr]
  rfl

theorem taken_args_some {es : List Expr} (hfirst : nextKind w ∈ valueFirst) (h : Taken .someArgs w es) :
    Taken .args w es := by
  intro fuel l c rest hf hl hc hr
  obtain ⟨fuel, rfl⟩ := exists_succ_of_pos fuel (by omega)
  have hfirst' : nextKind (w ++ c :: rest) ∈ valueFirst := nextKind_append_mem _ hfirst (by decide) (by decide)
  have hne : nextKind (w ++ c :: rest) ≠ rpar := (by decide : ∀ k ∈ valueFirst, k ≠ rpar) _ hfirst'
  refine (take_step (by rw [hl]; decide)).trans ?_
  rw [expect_step (List.mem_cons_of_mem _ hfirst'), next_step]
  dsimp only
  rw [if_neg hne, bind_step (h fuel (c :: rest) (by omega) hc), take_step (by rw [hc]; decide), expect_step hr]
  rfl

theorem taken_someArgs_one (h : Taken .value w e) : Taken .someArgs w [e] := by
  intro fuel r hf hr
  obtain ⟨fuel, rfl⟩ := exists_succ_of_pos fuel (by omega)
  have hne : nextKind r ≠ comma := by rw [hr]; decide
  refine (bind_step (h fuel r (by omega) (by rw [hr]; decide))).trans ?_
  rw [expect_step (by rw [hr]; decide), next_step, if_neg hne]
  rfl

theorem taken_someArgs_more {u v : List Token} {c : Token} {es : List Expr} (hu : Taken .value u e)
    (hc : Terminal [comma] c) (hv : Taken .someArgs v es) : Taken .someArgs (u ++ c :: v) (e :: es) := by
  intro fuel r hf hr
  simp only [List.length_append, List.length_cons] at hf
  obtain ⟨fuel, rfl⟩ := exists_succ_of_pos fuel (by omega)
  have hc' : c.kind = comma := hc.kind_eq
  have hvalue := hu fuel (c :: (v ++ r)) (by omega) (by rw [nextKind_cons, hc']; decide)
  rw [List.append_assoc, List.cons_append]
  refine (bind_step hvalue).trans ?_
  rw [expect_step (by rw [nextKind_cons, hc']; decide), next_step, nextKind_cons, if_pos hc', take_step hc.kind_mem,
    bind_step (hv fuel r (by omega) hr)]
  rfl

end Atoms

theorem literalOf_eq {t : Token} {v : Value} (ht : Terminal [numberLit, stringLit] t) (hv : Literal.parse t.text = .ok v) :
    literalOf t = v := by
  have hk : t.kind = numberLit ∨ t.kind = stringLit := by simpa using ht.kind_mem
  rcases hk with hk | hk
  · rw [ht.lexical.parse_number hk] at hv
    split at hv <;> cases hv
    simp only [literalOf, hk]
  · rw [ht.lexical.parse_string hk] at hv
    cases hv
    simp only [literalOf, hk]

theorem literalOf_boolean {t : Token} (ht : Terminal [trueWord, falseWord] t) : literalOf t = .boolean (t.text == "true") := by
  have hk : t.kind = trueWord ∨ t.kind = falseWord := by simpa using ht.kind_mem
  rcases hk with hk | hk <;>
  · rw [ht.lexical.faithful _ (by rw [hk]; rfl)]
    simp only [literalOf, hk]
    rfl

theorem negate_eq {span : Span} {e : Expr} (he : ∀ span z, e ≠ .literal span (.number z)) :
    negate span e = .unary .expression span .neg e := by
  unfold negate
  split
  · exact absurd rfl (he _ _)
  · rfl

/-- What a part of a value derives is what the part is read as. -/
theorem taken_of_derives {n : ExprPart} {w : List Token} {e : n.Tree} (h : DerivesExpr n w e) : Taken n w e := by
  induction h with
  | value_expr h ih => exact fun fuel r => operandWith_of_sum .alone h.first ih
  | value_cond h ih => exact fun fuel r => operandWith_of_condition .alone h.first ih
  | side_expr h ih => exact fun fuel r => operandWith_of_sum .side h.first ih
  | side_cond h ih => exact fun fuel r => operandWith_of_condition .side h.first ih
  | header_side _ ih => exact taken_header ih
  | header_binary hu ho hv ihu ihv =>
    rw [extent_between hu.first hv.first, ← hu.span, ← hv.span]
    exact taken_header_binary ihu ho ihv
  | @cond_binary l u o v c x y hl _ ho _ hr ihu ihv =>
    rw [extent_cons c (by simp [List.getLast?_cons])]
    exact taken_condition hl ihu ho ihv hr
  | cond_not hb hw ih =>
    rw [extent_before hw.first, ← hw.span]
    exact taken_not hb hw.first ih
  | negand_atom h ih => exact taken_negand_atom h.first ih
  | negand_cond h ih => exact taken_negand_condition h.first ih
  | expr_term h ih => exact taken_sum (ne_nil_of_nextKind h.first (by decide)) ih
  | expr_binary hu ho hv ihu ihv =>
    rw [extent_between hu.first hv.first, ← hu.span, ← hv.span]
    exact taken_sum_binary ihu ho ihv
  | term_factor h ih => exact taken_product (ne_nil_of_nextKind h.first (by decide)) ih
  | term_binary hu ho hv ihu ihv =>
    rw [extent_between hu.first hv.first, ← hu.span, ← hv.span]
    exact taken_product_binary ihu ho ihv
  | factor_atom h ih => exact taken_factor h.first ih
  | factor_folded hm hw ih =>
    rw [extent_before hw.first, ← hw.span]
    exact taken_negate hm ih
  | factor_negated hm hw he ih =>
    rw [extent_before hw.first, ← hw.span, ← negate_eq he]
    exact taken_negate hm ih
  | atom_literal ht hv =>
    rw [← literalOf_eq ht hv]
    exact taken_literal (mem_of_all ht.kind_mem (by decide))
  | atom_boolean ht =>
    rw [← literalOf_boolean ht]
    exact taken_literal (mem_of_all ht.kind_mem (by decide))
  | atom_call _ ih => exact ih
  | atom_name ht => exact taken_name ht
  | @call f l w c es hf hl _ hr ih =>
    rw [extent_cons c (by simp [List.getLast?_cons])]
    exact taken_call hf hl ih hr
  | args_none => exact taken_args_none
  | args_some h ih => exact taken_args_some h.first ih
  | someArgs_one _ ih => exact taken_someArgs_one ih
  | someArgs_more _ hc _ ihu ihv => exact taken_someArgs_more ihu hc ihv

end CheckedScript.Parse
