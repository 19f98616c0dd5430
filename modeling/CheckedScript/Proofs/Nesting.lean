import CheckedScript.Proofs.Agreement
import CheckedScript.Proofs.Coverage
import CheckedScript.Proofs.Recognition

/-! The ranges of a tree that was read from a source. A node spans tokens, from the start of one to the end of another, and
the tokens of its children are among its own, those of one child after those of the child before. So the ranges nest: a
child lies within its parent, and the children of a node lie one after the other. -/

namespace CheckedScript

/-- The ranges of a tree: that of a node, and the trees of its children in the order of its fields. -/
inductive RangeTree where
  | node (span : Span) (children : List RangeTree)

namespace RangeTree

def span : RangeTree → Span
  | node s _ => s

def children : RangeTree → List RangeTree
  | node _ cs => cs

/-- The nodes of a tree. -/
inductive Has : RangeTree → RangeTree → Prop
  | self (r : RangeTree) : Has r r
  | child {r c n : RangeTree} (hc : c ∈ r.children) (h : Has c n) : Has r n

end RangeTree

namespace Expr

mutual

def ranges : Expr → RangeTree
  | literal s _ | untyped s _ | identifier s _ => .node s []
  | binary _ s _ a b => .node s [ranges a, ranges b]
  | unary _ s _ a => .node s [ranges a]
  | call s _ args => .node s (allRanges args)
  | missing => .node .zero []
  | misfit what => .node what.span []

def allRanges : List Expr → List RangeTree
  | [] => []
  | e :: rest => ranges e :: allRanges rest

end
end Expr

namespace Stmt

mutual

/-- The children of a branch are its condition and the statements of its blocks; those of a definition are its parameters,
the statements of its body and the expression that it returns. -/
def ranges : Stmt → RangeTree
  | declare s _ _ init => .node s (init.map Expr.ranges).toList
  | param s _ _ | breakOut s => .node s []
  | assign s _ _ e => .node s [e.ranges]
  | call s _ args => .node s (Expr.allRanges args)
  | define s _ _ params body e => .node s (allRanges params ++ (blockRanges body ++ [e.ranges]))
  | print s e => .node s (e.map Expr.ranges).toList
  | branch s c thenBlock elseBlock => .node s (c.ranges :: (allRanges thenBlock ++ blockRanges elseBlock))
  | loop s c body => .node s (c.ranges :: blockRanges body)
  | misfit what => .node what.span []

def allRanges : List Stmt → List RangeTree
  | [] => []
  | s :: rest => ranges s :: allRanges rest

def blockRanges : Option (List Stmt) → List RangeTree
  | none => []
  | some body => allRanges body

end
end Stmt

def Program.ranges (p : Program) : RangeTree := .node p.span (Stmt.allRanges p.statements)

namespace Grammar

open Token (extent)

/-- Each node spans some tokens, and those of its children are, in their order, among them. -/
inductive Spans : List Token → RangeTree → Prop
  | node {w : List Token} {cs : List (List Token × RangeTree)} (hw : w ≠ []) (hsub : (cs.map Prod.fst).flatten.Sublist w)
      (hcs : ∀ c ∈ cs, Spans c.1 c.2) : Spans w (.node (extent w) (cs.map Prod.snd))

/-- The trees span, one after the other, some of the tokens. -/
def Lays (w : List Token) (rs : List RangeTree) : Prop :=
  ∃ cs : List (List Token × RangeTree), (cs.map Prod.fst).flatten.Sublist w ∧ (∀ c ∈ cs, Spans c.1 c.2) ∧ cs.map Prod.snd = rs

namespace Lays

variable {u v w : List Token} {rs qs : List RangeTree}

theorem nil : Lays w [] := ⟨[], List.nil_sublist w, by simp, rfl⟩

theorem spans (h : Lays w rs) (hw : w ≠ []) : Spans w (.node (extent w) rs) := by
  obtain ⟨cs, hsub, hcs, rfl⟩ := h
  exact .node hw hsub hcs

theorem node (hw : w ≠ []) (h : Lays w rs) : Lays w [.node (extent w) rs] :=
  ⟨[(w, .node (extent w) rs)], by simp, List.forall_mem_singleton.mpr (h.spans hw), rfl⟩

theorem append (hu : Lays u rs) (hv : Lays v qs) : Lays (u ++ v) (rs ++ qs) := by
  obtain ⟨cs, hsub, hcs, rfl⟩ := hu
  obtain ⟨ds, hsub', hds, rfl⟩ := hv
  refine ⟨cs ++ ds, ?_, List.forall_mem_append.mpr ⟨hcs, hds⟩, List.map_append⟩
  rw [List.map_append, List.flatten_append]
  exact hsub.append hsub'

theorem mono (h : Lays u rs) (hsub : u.Sublist w) : Lays w rs := by
  obtain ⟨cs, hcs, hrest⟩ := h
  exact ⟨cs, hcs.trans hsub, hrest⟩

theorem cons (t : Token) (h : Lays w rs) : Lays (t :: w) rs := h.mono (List.sublist_cons_self t w)

theorem right (h : Lays w rs) (v : List Token) : Lays (w ++ v) rs := h.mono (List.sublist_append_left w v)

end Lays

/-- The trees of a part. -/
def ExprPart.ranges : (n : ExprPart) → n.Tree → List RangeTree
  | .args, es | .someArgs, es => Expr.allRanges es
  | .value, e | .side, e | .header, e | .cond, e | .negand, e | .expr, e | .term, e | .factor, e | .atom, e | .call, e =>
    [Expr.ranges e]

def StmtPart.ranges : (n : StmtPart) → n.Tree → List RangeTree
  | .inner, s | .param, s | .define, s | .outer, s => [Stmt.ranges s]
  | .inners, ss | .block, ss | .params, ss | .someParams, ss | .outers, ss => Stmt.allRanges ss
  | .start, p => Stmt.allRanges (Program.statements p)

theorem DerivesExpr.lays {n : ExprPart} {w : List Token} {e : n.Tree} (h : DerivesExpr n w e) : Lays w (n.ranges e) := by
  induction h with
  | value_expr _ ih | value_cond _ ih | side_expr _ ih | side_cond _ ih | header_side _ ih => exact ih
  | negand_atom _ ih | negand_cond _ ih | expr_term _ ih | term_factor _ ih | factor_atom _ ih | atom_call _ ih => exact ih
  | args_some _ ih | someArgs_one _ ih => exact ih
  | args_none => exact .nil
  | header_binary _ _ _ ihu ihv | expr_binary _ _ _ ihu ihv | term_binary _ _ _ ihu ihv =>
    exact .node (by simp) (ihu.append (ihv.cons _))
  | cond_binary _ _ _ _ _ ihu ihv => exact .node (by simp) (.cons _ (ihu.append (.cons _ (ihv.right _))))
  | cond_not _ _ ih | factor_negated _ _ _ ih => exact .node (by simp) (ih.cons _)
  | factor_folded | atom_literal | atom_boolean | atom_name => exact .node (by simp) .nil
  | call _ _ _ _ ih => exact .node (by simp) (.cons _ (.cons _ (ih.right _)))
  | someArgs_more _ _ _ ihu ihv => exact ihu.append (ihv.cons _)

theorem DerivesStmt.lays {n : StmtPart} {w : List Token} {s : n.Tree} (h : DerivesStmt n w s) : Lays w (n.ranges s) := by
  induction h with
  | declare | print | breakOut | param => exact .node (by simp) .nil
  | declare_init _ _ _ _ hw _ => exact .node (by simp) (.cons _ (.cons _ (.cons _ (hw.lays.right _))))
  | assign _ _ hw _ => exact .node (by simp) (.cons _ (.cons _ (hw.lays.right _)))
  | @step a o s _ _ _ =>
    -- the operation spans the whole statement, and the name is the first of its tokens
    have hname : Lays [a] [.node (extent [a]) []] := .node (by simp) .nil
    exact .node (by simp) (.node (by simp) (hname.right [o, s]))
  | call hw _ => exact hw.lays.right _
  | print_value _ _ hw _ _ => exact .node (by simp) (.cons _ (.cons _ (hw.lays.right _)))
  | @branch _ _ _ _ u _ first _ _ hw _ _ ih =>
    have hblock : Lays u (Stmt.allRanges first ++ Stmt.blockRanges none) := by
      rw [Stmt.blockRanges, List.append_nil]
      exact ih
    exact .node (by simp) (.cons _ (.cons _ (hw.lays.append (hblock.cons _))))
  | loop _ _ hw _ _ ih => exact .node (by simp) (.cons _ (.cons _ (hw.lays.append (ih.cons _))))
  | branch_else _ _ hw _ _ _ _ ihu ihv =>
    exact .node (by simp) (.cons _ (.cons _ (hw.lays.append (.cons _ (ihu.append (ihv.cons _))))))
  | inners_none | params_none | outers_none => exact .nil
  | inners_more _ _ ihu ihv | outers_more _ _ ihu ihv => exact ihu.append ihv
  | block _ _ _ ih => exact .cons _ (ih.right _)
  | params_some _ ih | someParams_one _ ih | outer_inner _ ih | outer_define _ ih | start _ ih => exact ih
  | someParams_more _ _ _ ihu ihv => exact ihu.append (ihv.cons _)
  | define _ _ _ _ _ _ _ _ _ _ hv _ _ ihu ihw =>
    refine .node (by simp) (.cons _ (.cons _ (.cons _ (.cons _ (ihu.append (.cons _ (.cons _ ?_)))))))
    exact ihw.append (.cons _ (hv.lays.right _))

/-- The nodes of a tree span tokens of the tree. -/
theorem Spans.has {w : List Token} {r n : RangeTree} (h : Spans w r) (hn : r.Has n) : ∃ u, u.Sublist w ∧ Spans u n := by
  induction hn generalizing w with
  | self r => exact ⟨w, List.Sublist.refl w, h⟩
  | child hc _ ih =>
    cases h with
    | node _ hsub hcs =>
      obtain ⟨c, hmem, rfl⟩ := List.mem_map.mp hc
      obtain ⟨u, hu, hn⟩ := ih (hcs c hmem)
      have hflat : c.1.Sublist _ := List.sublist_flatten_of_mem (List.mem_map_of_mem hmem)
      exact ⟨u, hu.trans (hflat.trans hsub), hn⟩

/-- The tokens have their texts one after the other. -/
structure InOrder (w : List Token) : Prop where
  ordered : w.Pairwise fun a b => a.stop ≤ b.start
  proper : ∀ t ∈ w, t.start < t.stop

theorem InOrder.sublist {u w : List Token} (h : InOrder w) (hu : u.Sublist w) : InOrder u :=
  ⟨h.ordered.sublist hu, fun t ht => h.proper t (hu.subset ht)⟩

/-- The offsets are the first and the last that the tokens have. -/
structure Hull (w : List Token) (start stop : Nat) : Prop where
  start_le : ∀ t ∈ w, start ≤ t.start
  le_stop : ∀ t ∈ w, t.stop ≤ stop
  exists_start : ∃ t ∈ w, t.start = start
  exists_stop : ∃ t ∈ w, t.stop = stop

namespace Hull

variable {u v w : List Token} {a b c d : Nat}

theorem within (hu : Hull u a b) (hw : Hull w c d) (hsub : ∀ t ∈ u, t ∈ w) : c ≤ a ∧ b ≤ d := by
  obtain ⟨first, hfirst, rfl⟩ := hu.exists_start
  obtain ⟨last, hlast, rfl⟩ := hu.exists_stop
  exact ⟨hw.start_le first (hsub first hfirst), hw.le_stop last (hsub last hlast)⟩

theorem before (hu : Hull u a b) (hv : Hull v c d) (huv : ∀ s ∈ u, ∀ t ∈ v, s.stop ≤ t.start) : b ≤ c := by
  obtain ⟨last, hlast, rfl⟩ := hu.exists_stop
  obtain ⟨first, hfirst, rfl⟩ := hv.exists_start
  exact huv last hlast first hfirst

theorem lt (h : Hull w a b) (hproper : ∀ t ∈ w, t.start < t.stop) : a < b := by
  obtain ⟨first, hfirst, rfl⟩ := h.exists_start
  exact Nat.lt_of_lt_of_le (hproper first hfirst) (h.le_stop first hfirst)

end Hull

/-- Tokens in their order span the range from the first to the last of their offsets. -/
theorem hull_extent {w : List Token} (hw : w ≠ []) (h : InOrder w) :
    ∃ start stop : Nat, extent w = .ofOffsets start stop ∧ Hull w start stop := by
  obtain ⟨first, rest, rfl⟩ := List.exists_cons_of_ne_nil hw
  obtain ⟨init, last, hlast⟩ : ∃ init last, first :: rest = init ++ [last] :=
    ⟨_, _, (List.dropLast_append_getLast hw).symm⟩
  refine ⟨first.start, last.stop, ?_, ?_, ?_, ⟨first, .head _, rfl⟩, ⟨last, by simp [hlast], rfl⟩⟩
  · have hend : (first :: rest).getLast? = some last := by simp [hlast]
    rw [extent, hend]
    rfl
  · intro t ht
    rcases List.mem_cons.mp ht with rfl | ht
    · exact le_rfl
    · have hafter := (List.pairwise_cons.mp h.ordered).1 t ht
      have hfirst := h.proper first (.head _)
      omega
  · intro t ht
    rw [hlast] at ht
    rcases List.mem_append.mp ht with ht | ht
    · have hordered := h.ordered
      rw [hlast] at hordered
      have hbefore := (List.pairwise_append.mp hordered).2.2 t ht last (.head _)
      have hproper := h.proper last (by simp [hlast])
      omega
    · rw [List.mem_singleton.mp ht]

theorem Spans.hull {w : List Token} {r : RangeTree} (h : Spans w r) (hw : InOrder w) :
    ∃ start stop : Nat, r.span = .ofOffsets start stop ∧ Hull w start stop := by
  cases h with
  | node hne _ _ => exact hull_extent hne hw

end Grammar

namespace Span

/-- The range lies within the other. -/
def Within (s t : Span) : Prop := ∃ a b c d : Nat, s = ofOffsets a b ∧ t = ofOffsets c d ∧ c ≤ a ∧ b ≤ d

/-- The range ends before the other starts. -/
def Before (s t : Span) : Prop := ∃ a b c d : Nat, s = ofOffsets a b ∧ t = ofOffsets c d ∧ b ≤ c

end Span

namespace Grammar.Spans

variable {w : List Token} {r : RangeTree}

theorem within (h : Spans w r) (hw : InOrder w) : ∀ c ∈ r.children, c.span.Within r.span := by
  obtain ⟨start, stop, hspan, hhull⟩ := h.hull hw
  cases h with
  | node _ hsub hcs =>
    intro d hd
    obtain ⟨c, hc, rfl⟩ := List.mem_map.mp hd
    have hflat := (List.sublist_flatten_of_mem (List.mem_map_of_mem hc)).trans hsub
    obtain ⟨a, b, heq, hchild⟩ := (hcs c hc).hull (hw.sublist hflat)
    exact ⟨a, b, start, stop, heq, hspan, hchild.within hhull fun t ht => hflat.subset ht⟩

theorem before (h : Spans w r) (hw : InOrder w) : r.children.Pairwise fun c d => c.span.Before d.span := by
  cases h with
  | @node _ cs _ hsub hcs =>
    have hchild (c : List Token × RangeTree) (hc : c ∈ cs) :
        ∃ start stop : Nat, c.2.span = .ofOffsets start stop ∧ Hull c.1 start stop :=
      (hcs c hc).hull (hw.sublist ((List.sublist_flatten_of_mem (List.mem_map_of_mem hc)).trans hsub))
    have hparts := (List.pairwise_flatten.mp (hw.sublist hsub).ordered).2
    rw [List.pairwise_map] at hparts
    refine List.pairwise_map.mpr (hparts.imp_of_mem ?_)
    intro c d hc hd hcd
    obtain ⟨a, b, hac, hull⟩ := hchild c hc
    obtain ⟨a', b', hbd, hull'⟩ := hchild d hd
    exact ⟨a, b, a', b', hac, hbd, hull.before hull' hcd⟩

end Grammar.Spans

open Grammar

namespace Program

theorem spans_of_derives {w : List Token} {p : Program} (h : DerivesStmt .start w p) (hne : p.statements ≠ []) :
    Spans w p.ranges := by
  have hlays := h.lays
  cases h with
  | start h =>
    refine hlays.spans fun hnil => ?_
    cases h with
    | outers_none => exact hne rfl
    | outers_more hu _ =>
      obtain ⟨rfl, -⟩ := List.append_eq_nil_iff.mp hnil
      exact absurd hu.first (by decide)

/-- The ranges of a tree nest. Every node of a program with statements starts where a token starts and ends where a token ends,
and its children lie within it, one after the other. -/
theorem parse_nests {source : String} {p : Program} (h : parse source = .ok p) (hne : p.statements ≠ []) (n : RangeTree)
    (hn : p.ranges.Has n) : ∃ start stop : Nat, n.span = .ofOffsets start stop ∧ start < stop ∧ stop ≤ source.length ∧
      (∃ t ∈ (Token.scan source).tokens, t.start = start) ∧ (∃ t ∈ (Token.scan source).tokens, t.stop = stop) ∧
      (∀ c ∈ n.children, c.span.Within n.span) ∧ n.children.Pairwise fun c d => c.span.Before d.span := by
  obtain ⟨herror, hderives⟩ := (parse_iff_derives source p).mp h
  have hcovers := Token.scanFrom_covers source.toList 0 (Nat.zero_le _) herror
  have horder : InOrder (Token.scan source).tokens := ⟨hcovers.ordered, fun t ht => (hcovers.inside t ht).2.1⟩
  obtain ⟨w, hw, hspans⟩ := (spans_of_derives hderives hne).has hn
  have hplaced := horder.sublist hw
  obtain ⟨start, stop, hspan, hhull⟩ := hspans.hull hplaced
  obtain ⟨first, hfirst, hstart⟩ := hhull.exists_start
  obtain ⟨last, hlast, hstop⟩ := hhull.exists_stop
  have hinside : stop ≤ source.length := hstop ▸ (hcovers.inside last (hw.subset hlast)).2.2
  exact ⟨start, stop, hspan, hhull.lt hplaced.proper, hinside, ⟨first, hw.subset hfirst, hstart⟩,
    ⟨last, hw.subset hlast, hstop⟩, hspans.within hplaced, hspans.before hplaced⟩

/-- A branch with a call that leaves out its semicolon, a step whose operation spans the statement, and a folded literal. -/
def branches : String := "if (!a) \x7b f(-1, b); y++; \x7d else \x7b y = 2 - -1; \x7d"

/-- The children of the branch are its condition, the statements of the one block and that of the other. -/
theorem parse_nests_branches : ∃ p, parse branches = .ok p ∧ p.statements ≠ [] ∧ ∃ n, p.ranges.Has n ∧
    n.children.map (·.span.offsets?) = [some (4, 6), some (10, 18), some (20, 24), some (34, 45)] ∧
    ∃ start stop : Nat, n.span = .ofOffsets start stop ∧ start < stop ∧ stop ≤ branches.length ∧
      (∃ t ∈ (Token.scan branches).tokens, t.start = start) ∧ (∃ t ∈ (Token.scan branches).tokens, t.stop = stop) ∧
      (∀ c ∈ n.children, c.span.Within n.span) ∧ n.children.Pairwise fun c d => c.span.Before d.span := by
  obtain ⟨p, hp, hlength, hfirst⟩ := exists_of_parse branches rfl (fun p => p.statements.length = 1 ∧
    (p.ranges.children.head?.map fun n => n.children.map (·.span.offsets?)) =
      some [some (4, 6), some (10, 18), some (20, 24), some (34, 45)]) (by decide +kernel)
  have hne : p.statements ≠ [] := List.ne_nil_of_length_eq_add_one hlength
  obtain ⟨n, hn, hchildren⟩ := Option.map_eq_some_iff.mp hfirst
  have hhas : p.ranges.Has n := .child (List.mem_of_head? hn) (.self n)
  exact ⟨p, hp, hne, n, hhas, hchildren, parse_nests hp hne n hhas⟩

end Program
end CheckedScript
