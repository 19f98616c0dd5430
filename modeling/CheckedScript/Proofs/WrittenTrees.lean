import CheckedScript.Node.Encode
import CheckedScript.Node.Program
import CheckedScript.Proofs.DataText
import CheckedScript.Proofs.Plain
import CheckedScript.Proofs.Recognition

/-! The trees of sources as data. A token ends where the source goes on, so the marks of a tree are no longer than the length
of its source; a number that is read is one, whatever its size; and the fields of a node have names of their own. So the
data of a tree can be written to a file. -/

namespace CheckedScript

namespace Token

namespace Lexeme

theorem commentLength?_le {cs : List Char} {n : ℕ} (h : commentLength? cs = some n) : n ≤ cs.length := by
  fun_induction commentLength? cs generalizing n with
  | case1 => cases h
  | case2 rest =>
    cases h
    simp
  | case3 c rest _ ih =>
    obtain ⟨m, hm, rfl⟩ := Option.map_eq_some_iff.mp h
    exact Nat.succ_le_succ (ih hm)

theorem stringLit?_length {cs : List Char} {l : Lexeme} (h : stringLit? cs = some l) : l.length ≤ cs.length := by
  unfold stringLit? at h
  split at h
  · rename_i rest
    split at h
    · rename_i hquote
      cases h
      obtain ⟨after, hafter⟩ := List.head?_eq_some_iff.mp hquote
      have hlength := congrArg List.length (List.takeWhile_append_dropWhile (p := Literal.isSafe) (l := rest))
      rw [hafter, List.length_append, List.length_cons] at hlength
      simp only [List.length_cons]
      omega
    · cases h
  · cases h

theorem numberLit?_length {cs : List Char} {l : Lexeme} (h : numberLit? cs = some l) : l.length ≤ cs.length := by
  rw [numberLit?_eq] at h
  split at h
  · cases h
  · cases h
    have hinitial := (fraction_initial cs).length_le
    rw [List.length_append] at hinitial
    dsimp only
    split_ifs at hinitial ⊢ <;> simpa using hinitial

/-- A rule takes no more than what is left. -/
theorem first?_length {cs : List Char} {l : Lexeme} (h : first? cs = some l) : l.length ≤ cs.length := by
  simp only [first?, HOrElse.hOrElse, OrElse.orElse, Option.orElse_eq_or, Option.or_eq_some_iff] at h
  rcases h with h | ⟨-, h | ⟨-, h | ⟨-, h | ⟨-, h | ⟨-, h | ⟨-, h | ⟨-, h⟩⟩⟩⟩⟩⟩⟩
  · exact stringLit?_length h
  · unfold blockComment? at h
    split at h
    · obtain ⟨n, hn, rfl⟩ := Option.map_eq_some_iff.mp h
      exact Nat.succ_le_succ (Nat.succ_le_succ (commentLength?_le hn))
    · cases h
  · simp only [word?] at h
    split at h
    · cases h
    · cases h
      exact (run_append cs).length_le
  · simp only [space?] at h
    split at h
    · cases h
    · cases h
      exact (List.takeWhile_prefix _).length_le
  · exact numberLit?_length h
  · unfold lineComment? at h
    split at h
    · cases h
      exact Nat.succ_le_succ (Nat.succ_le_succ (List.takeWhile_prefix _).length_le)
    · cases h
  · unfold pair? at h
    split at h
    · obtain ⟨k, -, rfl⟩ := Option.map_eq_some_iff.mp h
      simp
    · cases h
  · unfold single? at h
    split at h
    · obtain ⟨k, -, rfl⟩ := Option.map_eq_some_iff.mp h
      simp
    · cases h

end Lexeme

/-- The token ends no later than at an offset. -/
structure Within (length : ℕ) (t : Token) : Prop where
  start_le : t.start ≤ length
  stop_le : t.stop ≤ length

theorem add_length_cons (start : ℕ) (c : Char) (rest : List Char) :
    start + (c :: rest).length = start + 1 + rest.length := by
  rw [List.length_cons, Nat.add_comm rest.length, Nat.add_assoc]

theorem scanFrom_within (start taken : ℕ) (cs : List Char) :
    ∀ t ∈ (scanFrom start taken cs).tokens, t.Within (start + cs.length) := by
  fun_induction scanFrom start taken cs with
  | case1 => simp
  | case2 start taken c rest ih =>
    rw [add_length_cons]
    exact ih
  | case3 => simp
  | case4 start c rest n hf ih =>
    rw [add_length_cons]
    exact ih
  | case5 start c rest kind n hf ih =>
    intro t ht
    rcases List.mem_cons.mp ht with rfl | ht
    · exact ⟨Nat.le_add_right _ _, Nat.add_le_add_left (Lexeme.first?_length hf) start⟩
    · rw [add_length_cons]
      exact ih t ht

/-- Every token of a source lies within it. -/
theorem scan_within (source : String) : ∀ t ∈ (scan source).tokens, t.Within source.length := by
  intro t ht
  have h := scanFrom_within 0 0 source.toList t ht
  rwa [Nat.zero_add, String.length_toList] at h

end Token

section Marks

open Data (digitLimit Writable)

variable {length : ℕ}

theorem Data.writable_offset {n : ℕ} (hn : n ≤ length) (hlength : length < 10 ^ digitLimit) : Writable (.int n) :=
  .int (by rw [Int.natAbs_natCast]; exact lt_of_le_of_lt hn hlength)

theorem Span.writable_ofOffsets {start stop : ℕ} (hstart : start ≤ length) (hstop : stop ≤ length)
    (hlength : length < 10 ^ digitLimit) : (Span.ofOffsets start stop).toData.Writable := by
  apply Writable.list
  intro d hd
  simp only [Span.ofOffsets, List.mem_cons, List.not_mem_nil, or_false] at hd
  rcases hd with rfl | rfl
  · exact Data.writable_offset hstart hlength
  · exact Data.writable_offset hstop hlength

theorem Token.writable_extent {w : List Token} (hw : ∀ t ∈ w, t.Within length) (hlength : length < 10 ^ digitLimit) :
    (Token.extent w).toData.Writable := by
  cases w with
  | nil => exact Span.writable_ofOffsets (Nat.zero_le _) (Nat.zero_le _) hlength
  | cons first w =>
    obtain ⟨last, hlast⟩ : ∃ last, (first :: w).getLast? = some last := ⟨_, List.getLast?_cons⟩
    have hextent : Token.extent (first :: w) = .ofOffsets first.start last.stop := by
      simp only [Token.extent, List.head?_cons, hlast]
      rfl
    rw [hextent]
    exact Span.writable_ofOffsets (hw first (by simp)).start_le (hw last (List.mem_of_getLast? hlast)).stop_le hlength

end Marks

section Fields

open Data (Writable)

theorem Node.writable_encodeAs (kind : NodeKind) {span : Span} {fields : List (String × Data)}
    (hspan : span.toData.Writable) (hkeys : ("type" :: "span" :: fields.map Prod.fst).Nodup)
    (h : ∀ f ∈ fields, f.2.Writable) : (encodeAs kind span fields).Writable :=
  .object hkeys (List.forall_mem_cons.mpr ⟨.text _, List.forall_mem_cons.mpr ⟨hspan, h⟩⟩)

theorem Literal.isNaN_number (cs : List Char) : (Literal.number cs).isNaN = false := by
  unfold Literal.number
  split <;> exact Decimal.isNaN_ofDecimal _ _ _

theorem Literal.writable_parse {text : String} {v : Value} (h : Literal.parse text = .ok v) : v.toData.Writable := by
  unfold Literal.parse at h
  cases hc : Literal.classify text with
  | error e =>
    rw [hc] at h
    cases h
  | ok t =>
    rw [hc] at h
    cases t with
    | string =>
      cases h
      exact .text _
    | number =>
      cases h
      exact .float (Literal.isNaN_number _)
    | boolean =>
      cases h
      exact .bool _
    | other n => cases h

theorem Ty.writable_encode {t : Ty} (h : t.Simple) : t.toNode.encode.Writable := by
  have hkind (kind : String) : (Node.typeTag (.text kind)).encode.Writable := by
    rw [Node.encode]
    have hvalue : Writable (.object [("kind", .text kind)]) := .object (by simp) (by simp [Writable.text])
    exact .object (by simp) (by simp [Writable.text, hvalue])
  cases t with
  | other n => exact h.elim
  | _ => exact hkind _

theorem Literal.simple_typeNamed {name : String} {t : Ty} (h : Literal.typeNamed name = .ok t) : t.Simple := by
  unfold Literal.typeNamed Ty.ofKeyword? at h
  cases hk : Ty.ofKind name with
  | other n =>
    rw [hk] at h
    cases h
  | _ =>
    rw [hk] at h
    cases h
    trivial

theorem Expr.encodeList_toNodes (es : List Expr) : Node.encodeList (toNodes es) = es.map fun e => e.toNode.encode := by
  induction es with
  | nil => rfl
  | cons e es ih => rw [toNodes, Node.encodeList, ih, List.map_cons]

theorem Stmt.encodeList_toNodes (ss : List Stmt) : Node.encodeList (toNodes ss) = ss.map fun s => s.toNode.encode := by
  induction ss with
  | nil => rfl
  | cons s ss ih => rw [toNodes, Node.encodeList, ih, List.map_cons]

namespace Expr

/-- The data of the expression can be written. -/
def Written (e : Expr) : Prop := e.toNode.encode.Writable

variable {span : Span} {e e' : Expr} {es : List Expr}

theorem written_literal {v : Value} (hspan : span.toData.Writable) (hv : v.toData.Writable) : (literal span v).Written :=
  Node.writable_encodeAs .literal hspan (by simp) (by simpa [Node.encode] using hv)

theorem isNaN_of_written {x : Float} (h : (literal span (.number x)).Written) : x.isNaN = false := by
  cases h with
  | object _ hfields =>
    cases hfields ("value", .float x) (by simp [Node.encode, Value.toData]) with
    | float hx => exact hx

theorem written_identifier (name : String) (hspan : span.toData.Writable) : (identifier span (.text name)).Written :=
  Node.writable_encodeAs .identifier hspan (by simp) (by simp [Writable.text])

theorem written_binary (form : Form) (op : BinaryOp) (hspan : span.toData.Writable) (he : e.Written) (he' : e'.Written) :
    (binary form span op e e').Written :=
  Node.writable_encodeAs (Node.binaryKind form) hspan (by simp)
    (List.forall_mem_cons.mpr ⟨.text op.text, by simpa using ⟨he, he'⟩⟩)

theorem written_unary (form : Form) (op : UnaryOp) (hspan : span.toData.Writable) (he : e.Written) :
    (unary form span op e).Written :=
  Node.writable_encodeAs (Node.unaryKind form) hspan (by simp)
    (List.forall_mem_cons.mpr ⟨.text op.text, List.forall_mem_singleton.mpr he⟩)

theorem writable_args (h : ∀ e ∈ es, e.Written) : Writable (.list (Node.encodeList (toNodes es))) := by
  rw [encodeList_toNodes]
  exact .list (List.forall_mem_map.mpr h)

/-- What may be absent can be written either way. -/
theorem writable_optional {o : Option Expr} (h : ∀ e ∈ o, e.Written) :
    ((o.map toNode).getD .nothing).encode.Writable := by
  cases o with
  | none => exact .null
  | some e => exact h e rfl

theorem written_call (name : String) (hspan : span.toData.Writable) (h : ∀ e ∈ es, e.Written) :
    (call span (.text name) es).Written :=
  Node.writable_encodeAs .call hspan (by simp) (by simpa using ⟨.text name, writable_args h⟩)

end Expr

namespace Stmt

/-- The data of the statement can be written. -/
def Written (s : Stmt) : Prop := s.toNode.encode.Writable

variable {span : Span} {type : Ty} {e : Expr} {ss ss' : List Stmt}

theorem writable_block (h : ∀ s ∈ ss, s.Written) : Writable (.list (Node.encodeList (toNodes ss))) := by
  rw [encodeList_toNodes]
  exact .list (List.forall_mem_map.mpr h)

theorem written_declare (name : String) {init : Option Expr} (hspan : span.toData.Writable) (htype : type.Simple)
    (h : ∀ e ∈ init, e.Written) : (declare span type (.text name) init).Written :=
  Node.writable_encodeAs .variableDecl hspan (by simp)
    (by simpa using ⟨Ty.writable_encode htype, .text name, Expr.writable_optional h⟩)

theorem written_param (name : String) (hspan : span.toData.Writable) (htype : type.Simple) :
    (param span type (.text name)).Written :=
  Node.writable_encodeAs .paramDecl hspan (by simp) (by simpa using ⟨Ty.writable_encode htype, .text name⟩)

theorem written_assign (name : String) (op : AssignOp) (hspan : span.toData.Writable) (h : e.Written) :
    (assign span (.text name) op e).Written :=
  Node.writable_encodeAs .assignment hspan (by simp) (by simpa using ⟨.text name, .text op.text, h⟩)

theorem written_print {operand : Option Expr} (hspan : span.toData.Writable) (h : ∀ e ∈ operand, e.Written) :
    (print span operand).Written :=
  Node.writable_encodeAs .print hspan (by simp) (List.forall_mem_singleton.mpr (Expr.writable_optional h))

theorem written_branch {second : Option (List Stmt)} (hspan : span.toData.Writable) (hc : e.Written)
    (h : ∀ s ∈ ss, s.Written) (h' : ∀ block ∈ second, ∀ s ∈ block, s.Written) : (branch span e ss second).Written := by
  have hsecond : (Node.encodeBlock (toBlock second)).Writable := by
    cases second with
    | none => exact .null
    | some block => exact writable_block (h' block rfl)
  exact Node.writable_encodeAs .branch hspan (by simp) (by simpa using ⟨hc, writable_block h, hsecond⟩)

theorem written_loop (hspan : span.toData.Writable) (hc : e.Written) (h : ∀ s ∈ ss, s.Written) :
    (loop span e (some ss)).Written :=
  Node.writable_encodeAs .loop hspan (by simp) (by simpa using ⟨hc, writable_block h⟩)

theorem written_breakOut (hspan : span.toData.Writable) : (breakOut span).Written :=
  Node.writable_encodeAs .breakOut hspan (by simp) (List.forall_mem_nil _)

theorem written_define (name : String) (hspan : span.toData.Writable) (htype : type.Simple) (h : ∀ s ∈ ss, s.Written)
    (h' : ∀ s ∈ ss', s.Written) (he : e.Written) : (define span type (.text name) ss (some ss') e).Written :=
  Node.writable_encodeAs .definition hspan (by simp)
    (by simpa using ⟨Ty.writable_encode htype, .text name, writable_block h, writable_block h', he⟩)

end Stmt

end Fields

namespace Grammar

open Data (digitLimit)
open Token (writable_extent)

variable {length : ℕ}

/-- The data of a part can be written. -/
def ExprPart.Written : (n : ExprPart) → n.Tree → Prop
  | args, es | someArgs, es => ∀ e ∈ (es : List Expr), e.Written
  | value, e | side, e | header, e | cond, e | negand, e | expr, e | term, e | factor, e | atom, e | call, e =>
    Expr.Written e

theorem DerivesExpr.written {n : ExprPart} {w : List Token} {e : n.Tree} (h : DerivesExpr n w e)
    (hlength : length < 10 ^ digitLimit) (hw : ∀ t ∈ w, t.Within length) : n.Written e := by
  induction h with
  | value_expr _ ih | value_cond _ ih | side_expr _ ih | side_cond _ ih | header_side _ ih => exact ih hw
  | negand_atom _ ih | negand_cond _ ih | expr_term _ ih | term_factor _ ih | factor_atom _ ih | atom_call _ ih => exact ih hw
  | header_binary _ _ _ ihu ihv | expr_binary _ _ _ ihu ihv | term_binary _ _ _ ihu ihv =>
    obtain ⟨hu, hv⟩ := List.forall_mem_append.mp hw
    exact Expr.written_binary _ _ (writable_extent hw hlength) (ihu hu) (ihv (List.forall_mem_cons.mp hv).2)
  | cond_binary _ _ _ _ _ ihu ihv =>
    obtain ⟨hu, hmore⟩ := List.forall_mem_append.mp (List.forall_mem_cons.mp hw).2
    obtain ⟨hv, -⟩ := List.forall_mem_append.mp (List.forall_mem_cons.mp hmore).2
    exact Expr.written_binary _ _ (writable_extent hw hlength) (ihu hu) (ihv hv)
  | cond_not _ _ ih | factor_negated _ _ _ ih =>
    exact Expr.written_unary _ _ (writable_extent hw hlength) (ih (List.forall_mem_cons.mp hw).2)
  | factor_folded _ _ ih =>
    have hnumber := Expr.isNaN_of_written (ih (List.forall_mem_cons.mp hw).2)
    exact Expr.written_literal (writable_extent hw hlength) (.float (Decimal.isNaN_neg hnumber))
  | atom_literal _ hv => exact Expr.written_literal (writable_extent hw hlength) (Literal.writable_parse hv)
  | atom_boolean _ => exact Expr.written_literal (writable_extent hw hlength) (.bool _)
  | atom_name _ => exact Expr.written_identifier _ (writable_extent hw hlength)
  | call _ _ _ _ ih =>
    obtain ⟨-, hargs⟩ := List.forall_mem_cons.mp (List.forall_mem_cons.mp hw).2
    exact Expr.written_call _ (writable_extent hw hlength) (ih (List.forall_mem_append.mp hargs).1)
  | args_none => exact List.forall_mem_nil _
  | args_some _ ih => exact ih hw
  | someArgs_one _ ih => exact List.forall_mem_singleton.mpr (ih hw)
  | someArgs_more _ _ _ ihu ihv =>
    obtain ⟨hu, hv⟩ := List.forall_mem_append.mp hw
    exact List.forall_mem_cons.mpr ⟨ihu hu, ihv (List.forall_mem_cons.mp hv).2⟩

def StmtPart.Written : (n : StmtPart) → n.Tree → Prop
  | inner, s | param, s | define, s | outer, s => Stmt.Written s
  | inners, ss | block, ss | params, ss | someParams, ss | outers, ss => ∀ s ∈ (ss : List Stmt), s.Written
  | start, p => (Program.toNode p).encode.Writable

theorem DerivesStmt.written {n : StmtPart} {w : List Token} {s : n.Tree} (h : DerivesStmt n w s)
    (hlength : length < 10 ^ digitLimit) (hw : ∀ t ∈ w, t.Within length) : n.Written s := by
  induction h with
  | declare _ htype _ _ =>
    exact Stmt.written_declare _ (writable_extent hw hlength) (Literal.simple_typeNamed htype) (by simp)
  | declare_init _ htype _ _ he _ =>
    have hspan := writable_extent hw hlength
    simp only [List.forall_mem_cons, List.forall_mem_append] at hw
    have hvalue : Expr.Written _ := he.written hlength hw.2.2.2.1
    exact Stmt.written_declare _ hspan (Literal.simple_typeNamed htype) (by simpa using hvalue)
  | assign _ _ he _ =>
    have hspan := writable_extent hw hlength
    simp only [List.forall_mem_cons, List.forall_mem_append] at hw
    exact Stmt.written_assign _ _ hspan (he.written hlength hw.2.2.1)
  | step _ _ _ =>
    have hspan := writable_extent hw hlength
    have hname := writable_extent (List.forall_mem_singleton.mpr (List.forall_mem_cons.mp hw).1) hlength
    exact Stmt.written_assign _ _ hspan (Expr.written_unary _ _ hspan (Expr.written_identifier _ hname))
  | call he _ => exact he.written hlength (List.forall_mem_append.mp hw).1
  | print => exact Stmt.written_print (writable_extent hw hlength) (by simp)
  | print_value _ _ he _ _ =>
    have hspan := writable_extent hw hlength
    simp only [List.forall_mem_cons, List.forall_mem_append] at hw
    have hvalue : Expr.Written _ := he.written hlength hw.2.2.1
    exact Stmt.written_print hspan (by simpa using hvalue)
  | branch _ _ he _ _ ih =>
    have hspan := writable_extent hw hlength
    simp only [List.forall_mem_cons, List.forall_mem_append] at hw
    obtain ⟨-, -, hheader, -, hfirst⟩ := hw
    exact Stmt.written_branch hspan (he.written hlength hheader) (ih hfirst) (by simp)
  | branch_else _ _ he _ _ _ _ ih ih' =>
    have hspan := writable_extent hw hlength
    simp only [List.forall_mem_cons, List.forall_mem_append] at hw
    obtain ⟨-, -, hheader, -, hfirst, -, hsecond⟩ := hw
    have hblock : ∀ s ∈ _, Stmt.Written s := ih' hsecond
    exact Stmt.written_branch hspan (he.written hlength hheader) (ih hfirst) (by simpa using hblock)
  | loop _ _ he _ _ ih =>
    have hspan := writable_extent hw hlength
    simp only [List.forall_mem_cons, List.forall_mem_append] at hw
    obtain ⟨-, -, hheader, -, hbody⟩ := hw
    exact Stmt.written_loop hspan (he.written hlength hheader) (ih hbody)
  | breakOut => exact Stmt.written_breakOut (writable_extent hw hlength)
  | inners_none | params_none | outers_none => exact List.forall_mem_nil _
  | inners_more _ _ ihu ihv | outers_more _ _ ihu ihv =>
    obtain ⟨hu, hv⟩ := List.forall_mem_append.mp hw
    exact List.forall_mem_cons.mpr ⟨ihu hu, ihv hv⟩
  | block _ _ _ ih => exact ih (List.forall_mem_append.mp (List.forall_mem_cons.mp hw).2).1
  | params_some _ ih | outer_inner _ ih | outer_define _ ih => exact ih hw
  | someParams_one _ ih => exact List.forall_mem_singleton.mpr (ih hw)
  | someParams_more _ _ _ ihu ihv =>
    obtain ⟨hu, hv⟩ := List.forall_mem_append.mp hw
    exact List.forall_mem_cons.mpr ⟨ihu hu, ihv (List.forall_mem_cons.mp hv).2⟩
  | param _ htype _ => exact Stmt.written_param _ (writable_extent hw hlength) (Literal.simple_typeNamed htype)
  | define _ _ htype _ _ _ _ _ _ _ he _ _ ihparams ihbody =>
    have hspan := writable_extent hw hlength
    simp only [List.forall_mem_cons, List.forall_mem_append] at hw
    obtain ⟨-, -, -, -, hparams, -, -, hbody, -, hvalue, -⟩ := hw
    exact Stmt.written_define _ hspan (Literal.simple_typeNamed htype) (ihparams hparams) (ihbody hbody)
      (he.written hlength hvalue)
  | start _ ih =>
    exact Node.writable_encodeAs .program (writable_extent hw hlength) (by simp)
      (List.forall_mem_singleton.mpr (Stmt.writable_block (ih hw)))

end Grammar

/-- The tree of a source can be written, unless the source is so long that its offsets are. -/
theorem Program.writable_of_parse {source : String} {p : Program} (h : Program.parse source = .ok p)
    (hlength : source.length < 10 ^ Data.digitLimit) : p.toNode.encode.Writable :=
  ((Program.parse_iff_derives source p).mp h).2.written hlength (Token.scan_within source)

end CheckedScript
