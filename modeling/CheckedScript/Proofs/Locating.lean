import CheckedScript.Proofs.Discipline

/-! Where the errors of a program are. A rule that is broken is reported at the node that breaks it, an operation that goes wrong
at the operation, and a limit at the loop or the call that reaches it; what a called function does wrong is reported in the
function. So every error of a run or of a check is at a node of the program, and since each node of a source spans text, none
is without a place. -/

namespace CheckedScript

theorem Problem.location_of_located {p : Problem} {span : Span} {e : Error} (h : p.located span = .error e) :
    e.location = span := by
  unfold Problem.located at h
  split at h
  · cases h
  · cases h
    rfl

/-- A problem that an operation has without a place is put where the operation is. -/
theorem Failure.location_of_orAt {a : Value} {f : Failure} (h : f.OfOperation a) {span : Span} {e : Error}
    (he : f.orAt span = .error e) : e.location = span := by
  cases h with
  | problem p =>
    cases hp : p.located .zero with
    | escape e' =>
      rw [hp] at he
      cases he
    | error e' =>
      have hzero : e'.location.isZero = true := by
        rw [Problem.location_of_located hp]
        rfl
      rw [hp, Failure.orAt, if_pos hzero] at he
      cases he
      rfl
  | escape => cases he
  | remainder => cases he

namespace Program

/-- The ranges of the nodes of a program. -/
def places (p : Program) : List Span := p.stmts.map Stmt.span ++ p.exprs.map Expr.span

theorem outcome_placed {p : Program} {a : Value} {span : Span} {r : Except Failure Value}
    (h : Excuses (Failure.OfOperation a) r) (hspan : span ∈ p.places) :
    Outcome (fun _ => True) (fun f => ∀ e, f = .error e → e.location ∈ p.places) span r := by
  refine ⟨fun _ _ => trivial, fun f hf e he => ?_⟩
  rw [Failure.location_of_orAt (h f hf) he]
  exact hspan

/-- Nodes are plain and have their places in the program, and so have errors. -/
def locating (p : Program) : Discipline where
  value _ := True
  expr e := e.Plain ∧ e.span ∈ p.places
  stmt s := s.PlainTop ∧ s.span ∈ p.places
  failure f := ∀ e, f = .error e → e.location ∈ p.places
  plain_expr h := h.1
  plain_stmt h := h.1
  call h := h
  default _ := trivial
  literal _ := trivial
  binary {_ _ op _ _} h _ _ _ _ := outcome_placed op.apply_excuses h.2
  unary {_ _ op _} h _ _ := outcome_placed op.apply_excuses h.2
  assign {_ _ op _} h _ _ _ _ := outcome_placed op.apply_excuses h.2
  at_expr h p e he := by
    rw [Problem.location_of_located he]
    exact h.2
  at_stmt h p e he := by
    rw [Problem.location_of_located he]
    exact h.2
  escape _ e he := by cases he

variable {source : String} {p : Program}

theorem Plain.admits_locating (h : p.Plain) : ∀ s ∈ p.statements, p.locating.Admits s := by
  intro s hs q hq
  have hstmt : q ∈ p.stmts := mem_stmts.mpr ⟨s, hs, hq⟩
  refine ⟨⟨h.stmts q hstmt, List.mem_append_left _ (List.mem_map_of_mem hstmt)⟩, fun e he x hx => ?_⟩
  have hexpr : x ∈ p.exprs := mem_exprs.mpr ⟨q, hstmt, e, he, hx⟩
  exact ⟨h.exprs x hexpr, List.mem_append_right _ (List.mem_map_of_mem hexpr)⟩

/-- Each node of a source spans some of its text. -/
theorem offsets_of_mem_places (h : parse source = .ok p) {span : Span} (hspan : span ∈ p.places) :
    ∃ start stop : ℕ, span = .ofOffsets start stop ∧ start < stop ∧ stop ≤ source.length := by
  obtain ⟨n, hn, rfl⟩ : ∃ n, p.ranges.Has n ∧ n.span = span := by
    rcases List.mem_append.mp hspan with hspan | hspan
    · obtain ⟨s, hs, rfl⟩ := List.mem_map.mp hspan
      exact ⟨s.ranges, has_ranges_stmt hs, by cases s <;> rfl⟩
    · obtain ⟨x, hx, rfl⟩ := List.mem_map.mp hspan
      exact ⟨x.ranges, has_ranges_expr hx, by rw [Expr.ranges_eq]; rfl⟩
  have hne : p.statements ≠ [] := by
    intro hnil
    simp [places, stmts, exprs, hnil] at hspan
  obtain ⟨herror, hderives⟩ := (parse_iff_derives source p).mp h
  have hcovers := Token.scanFrom_covers source.toList 0 (Nat.zero_le _) herror
  have horder : Grammar.InOrder (Token.scan source).tokens :=
    ⟨hcovers.ordered, fun t ht => (hcovers.inside t ht).2.1⟩
  obtain ⟨w, hw, hspans⟩ := (spans_of_derives hderives hne).has hn
  have hplaced := horder.sublist hw
  obtain ⟨start, stop, heq, hhull⟩ := hspans.hull hplaced
  obtain ⟨last, hlast, rfl⟩ := hhull.exists_stop
  exact ⟨start, last.stop, heq, hhull.lt hplaced.proper, (hcovers.inside last (hw.subset hlast)).2.2⟩

end Program

namespace Interpreter

variable {source : String} {p : Program} {i : Interpreter}

/-- Whatever the interpreter did before, it walks with no function known, so all that it comes to is of the program. -/
theorem mem_places_of_walk (hp : p.Plain) {execute : Bool} {e : Error} (h : (i.walk execute p).1 = .error (.error e)) :
    e.location ∈ p.places := by
  have hstart : p.locating.Kept i.machine.scopes := ⟨fun _ _ _ _ => ⟨trivial, trivial⟩, List.forall_mem_nil _⟩
  exact Discipline.failure_of_walk hp.admits_locating hstart h e rfl

/-- Every error points at code. Whatever its limits and its mode, and whatever it did before, an interpreter that runs or checks
the program of a source fails, if with an error, then with one at a statement or an expression of the program, which spans
some text of the source. -/
theorem error_location (h : Program.parse source = .ok p) (i : Interpreter) {e : Error}
    (he : (i.run p).1 = .error (.error e) ∨ (i.validate p).1 = .error (.error e)) :
    ((∃ s ∈ p.stmts, s.span = e.location) ∨ ∃ x ∈ p.exprs, x.span = e.location) ∧ e.location ≠ .zero ∧
      ∃ start stop : ℕ, e.location = .ofOffsets start stop ∧ start < stop ∧ stop ≤ source.length := by
  have hplace : e.location ∈ p.places := by
    rcases he with he | he
    · exact mem_places_of_walk (Program.plain_of_parse h) (walk_error.mpr (run_error.mp he))
    · exact mem_places_of_walk (Program.plain_of_parse h) he
  obtain ⟨start, stop, heq, hlt, hle⟩ := Program.offsets_of_mem_places h hplace
  refine ⟨(List.mem_append.mp hplace).imp List.mem_map.mp List.mem_map.mp, ?_, start, stop, heq, hlt, hle⟩
  rw [heq]
  intro hzero
  injection hzero with hstart hstop
  injection hstart with hstart
  injection hstop with hstop
  omega

/-- The offsets of the error that is the outcome. -/
def errorOffsets? {α : Type} : Except Failure α → Option (Int × Int)
  | .error (.error e) => e.location.offsets?
  | _ => none

theorem exists_of_errorOffsets? {α : Type} {r : Except Failure α} {o : Int × Int} (h : errorOffsets? r = some o) :
    ∃ e, r = .error (.error e) ∧ e.location.offsets? = some o := by
  unfold errorOffsets? at h
  split at h
  · exact ⟨_, rfl, h⟩
  · cases h

/-- A program whose second call divides by zero in the body of the function. -/
def dividing : String := "def number f(number a) \x7b return 1 / a; \x7d print(f(1)); print(f(0));"

theorem error_location_dividing : ∃ p e, Program.parse dividing = .ok p ∧
    ((new .standard .stream).run p).1 = .error (.error e) ∧ e.location.offsets? = some (32, 37) ∧
    ((∃ s ∈ p.stmts, s.span = e.location) ∨ ∃ x ∈ p.exprs, x.span = e.location) ∧ e.location ≠ .zero ∧
      ∃ start stop : ℕ, e.location = .ofOffsets start stop ∧ start < stop ∧ stop ≤ dividing.length := by
  obtain ⟨p, hp, hoffsets⟩ := exists_of_parse dividing rfl
    (fun p => errorOffsets? ((new .standard .stream).run p).1 = some (32, 37)) (by decide +kernel)
  obtain ⟨e, he, hoffsets⟩ := exists_of_errorOffsets? hoffsets
  exact ⟨p, e, hp, he, hoffsets, error_location hp _ (.inl he)⟩

end Interpreter
end CheckedScript
