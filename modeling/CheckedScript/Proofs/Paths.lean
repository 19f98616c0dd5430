import CheckedScript.CommandLine
import Mathlib

/-! Paths in their normal form. The normal form of a path is its own normal form. If the last part of a path is the name of a
file, an ending that is added to the path is added to its normal form. -/

namespace CheckedScript.CommandLine

section Parts

variable {cs : List Char}

theorem splitOn_cons (c : Char) (cs : List Char) :
    (c :: cs).splitOn '/' = if c = '/' then [] :: cs.splitOn '/' else (cs.splitOn '/').modifyHead (c :: ·) := by
  rw [List.splitOn_cons_eq_if_modifyHead]
  simp only [beq_iff_eq]

theorem notMem_of_mem_splitOn {part : List Char} (h : part ∈ cs.splitOn '/') : '/' ∉ part := by
  induction cs generalizing part with
  | nil =>
    rw [List.splitOn_nil, List.mem_singleton] at h
    simp [h]
  | cons c cs ih =>
    obtain ⟨first, parts, hparts⟩ := List.exists_cons_of_ne_nil (List.splitOn_ne_nil '/' cs)
    rw [splitOn_cons, hparts] at h
    rw [hparts] at ih
    by_cases hc : c = '/'
    · rw [if_pos hc, List.mem_cons] at h
      rcases h with rfl | h
      · exact List.not_mem_nil
      · exact ih h
    · rw [if_neg hc, List.modifyHead_cons, List.mem_cons] at h
      rcases h with rfl | h
      · simp [Ne.symm hc, ih]
      · exact ih (List.mem_cons_of_mem first h)

/-- What is added to a path without a slash belongs to its last part. -/
theorem splitOn_append (cs : List Char) : ∃ parts last, cs.splitOn '/' = parts ++ [last] ∧
    (last ≠ [] → ∃ c ∈ cs, c ≠ '/') ∧
    ∀ ending, '/' ∉ ending → (cs ++ ending).splitOn '/' = parts ++ [last ++ ending] := by
  induction cs with
  | nil => exact ⟨[], [], rfl, fun h => absurd rfl h, fun ending h => List.splitOn_eq_singleton h⟩
  | cons c cs ih =>
    obtain ⟨parts, last, hsplit, hlast, happend⟩ := ih
    by_cases hc : c = '/'
    · refine ⟨[] :: parts, last, ?_, ?_, ?_⟩
      · rw [splitOn_cons, if_pos hc, hsplit, List.cons_append]
      · intro h
        obtain ⟨d, hd, hne⟩ := hlast h
        exact ⟨d, List.mem_cons_of_mem c hd, hne⟩
      · intro ending h
        rw [List.cons_append, splitOn_cons, if_pos hc, happend ending h, List.cons_append]
    · cases parts with
      | nil =>
        refine ⟨[], c :: last, ?_, fun _ => ⟨c, by simp, hc⟩, ?_⟩
        · rw [splitOn_cons, if_neg hc, hsplit, List.nil_append, List.modifyHead_cons, List.nil_append]
        · intro ending h
          rw [List.cons_append, splitOn_cons, if_neg hc, happend ending h, List.nil_append, List.modifyHead_cons,
            List.nil_append, List.cons_append]
      | cons first parts =>
        refine ⟨(c :: first) :: parts, last, ?_, fun _ => ⟨c, by simp, hc⟩, ?_⟩
        · rw [splitOn_cons, if_neg hc, hsplit, List.cons_append, List.modifyHead_cons, List.cons_append]
        · intro ending h
          rw [List.cons_append, splitOn_cons, if_neg hc, happend ending h, List.cons_append, List.modifyHead_cons,
            List.cons_append]

/-- What stands after the last slash of a path. -/
def baseName (cs : List Char) : List Char := ((cs.splitOn '/').getLast?).getD []

theorem pathParts_append (h : baseName cs ≠ []) (h' : baseName cs ≠ ['.']) : ∃ parts, ∀ ending, '/' ∉ ending →
    pathParts (cs ++ ending) = parts ++ [baseName cs ++ ending] := by
  obtain ⟨parts, last, hsplit, -, happend⟩ := splitOn_append cs
  have hbase : baseName cs = last := by simp [baseName, hsplit]
  rw [hbase] at h h' ⊢
  refine ⟨parts.filter fun part => part ≠ [] ∧ part ≠ ['.'], ?_⟩
  intro ending hending
  obtain ⟨c, more, rfl⟩ := List.exists_cons_of_ne_nil h
  have hkept : (c :: more) ++ ending ≠ [] ∧ (c :: more) ++ ending ≠ ['.'] := by
    simp only [List.cons_append, ne_eq, reduceCtorEq, not_false_eq_true, List.cons.injEq, List.append_eq_nil_iff,
      true_and]
    rintro ⟨rfl, rfl, -⟩
    exact h' rfl
  rw [pathParts, happend ending hending, List.filter_append, List.filter_singleton, decide_eq_true hkept, cond_true]

theorem pathParts_slash (cs : List Char) : pathParts ('/' :: cs) = pathParts cs := by
  simp [pathParts, splitOn_cons]

theorem pathParts_join {parts : List (List Char)} (hne : parts ≠ [])
    (h : ∀ part ∈ parts, '/' ∉ part ∧ part ≠ [] ∧ part ≠ ['.']) : pathParts (['/'].intercalate parts) = parts := by
  rw [pathParts, List.splitOn_intercalate '/' (fun part hpart => (h part hpart).1) hne, List.filter_eq_self]
  intro part hpart
  simpa using (h part hpart).2

theorem head_join {parts : List (List Char)} (h : ∀ part ∈ parts, '/' ∉ part ∧ part ≠ [] ∧ part ≠ ['.']) :
    ∀ c ∈ (['/'].intercalate parts).head?, c ≠ '/' := by
  cases parts with
  | nil => simp
  | cons part parts =>
    obtain ⟨hslash, hne, -⟩ := h part (by simp)
    obtain ⟨c, more, rfl⟩ := List.exists_cons_of_ne_nil hne
    have hc : c ≠ '/' := fun hc => hslash (by simp [hc])
    cases parts with
    | nil => simpa using hc
    | cons next parts => simpa using hc

theorem proper_of_mem_pathParts {part : List Char} (h : part ∈ pathParts cs) : '/' ∉ part ∧ part ≠ [] ∧ part ≠ ['.'] := by
  rw [pathParts, List.mem_filter, decide_eq_true_eq] at h
  exact ⟨notMem_of_mem_splitOn h.1, h.2⟩

end Parts

section Normal

variable {cs : List Char}

/-- The slashes that a path keeps at its start. -/
def root (cs : List Char) : List Char :=
  let slashes := (cs.takeWhile (· = '/')).length
  if slashes = 2 then ['/', '/'] else if slashes = 0 then [] else ['/']

theorem normalPath_toList {path : String} (h : pathParts path.toList ≠ []) :
    (normalPath path).toList = root path.toList ++ ['/'].intercalate (pathParts path.toList) := by
  simp only [normalPath, root, List.isEmpty_iff, h, if_false, String.toList_append, String.toList_intercalate, List.map_map]
  have hparts : (pathParts path.toList).map (String.toList ∘ String.ofList) = pathParts path.toList := by
    simp [Function.comp_def]
  rw [hparts]
  split_ifs <;> rfl

theorem root_append (h : ∃ c ∈ cs, c ≠ '/') (ending : List Char) : root (cs ++ ending) = root cs := by
  have htake : (cs ++ ending).takeWhile (· = '/') = cs.takeWhile (· = '/') := by
    obtain ⟨c, hc, hne⟩ := h
    rw [List.takeWhile_append, if_neg]
    intro hlength
    have hall := List.takeWhile_eq_self_iff.mp ((List.takeWhile_prefix _).eq_of_length hlength)
    exact hne (by simpa using hall c hc)
  simp only [root, htake]

theorem intercalate_concat (parts : List (List Char)) (last ending : List Char) :
    ['/'].intercalate (parts ++ [last ++ ending]) = ['/'].intercalate (parts ++ [last]) ++ ending := by
  induction parts with
  | nil => simp
  | cons part parts ih =>
    cases parts with
    | nil => simp
    | cons next parts => simpa using ih

/-- An ending is added to the name of the file. -/
theorem normalPath_append {path ending : String} (h : baseName path.toList ≠ []) (h' : baseName path.toList ≠ ['.'])
    (hending : '/' ∉ ending.toList) : normalPath (path ++ ending) = normalPath path ++ ending := by
  obtain ⟨parts, hparts⟩ := pathParts_append h h'
  have hall := hparts ending.toList hending
  have hown := hparts [] List.not_mem_nil
  rw [List.append_nil, List.append_nil] at hown
  have hroot : ∃ c ∈ path.toList, c ≠ '/' := by
    obtain ⟨_, last, hsplit, hlast, -⟩ := splitOn_append path.toList
    exact hlast (by simpa [baseName, hsplit] using h)
  rw [← String.toList_inj, String.toList_append, normalPath_toList (by simp [hall]), normalPath_toList (by simp [hown]),
    String.toList_append, hall, hown, root_append hroot, List.append_assoc, intercalate_concat]

/-- The normal form keeps the slashes at the start that it has. -/
theorem root_root_append (cs : List Char) {more : List Char} (h : ∀ c ∈ more.head?, c ≠ '/') :
    root (root cs ++ more) = root cs := by
  have hmore : more.takeWhile (· = '/') = [] := by
    cases more with
    | nil => rfl
    | cons c more => simp [h c rfl]
  have hroot : ∀ c ∈ root cs, decide (c = '/') = true := by
    unfold root
    dsimp only
    split_ifs <;> simp
  rw [root, List.takeWhile_append_of_pos hroot, hmore, List.append_nil]
  unfold root
  dsimp only
  split_ifs <;> simp_all

theorem pathParts_root_append (cs more : List Char) : pathParts (root cs ++ more) = pathParts more := by
  unfold root
  dsimp only
  split_ifs <;> simp [pathParts_slash]

theorem normalPath_normalPath (path : String) : normalPath (normalPath path) = normalPath path := by
  by_cases h : pathParts path.toList = []
  · have hshort : normalPath path = "." ∨ normalPath path = "/" ∨ normalPath path = "//" := by
      simp only [normalPath, h, List.isEmpty_nil, if_true]
      split_ifs <;> simp
    rcases hshort with hshort | hshort | hshort <;>
    · rw [hshort]
      decide
  · have hproper : ∀ part ∈ pathParts path.toList, '/' ∉ part ∧ part ≠ [] ∧ part ≠ ['.'] :=
      fun part hpart => proper_of_mem_pathParts hpart
    have hhead := head_join hproper
    have hsame : pathParts (normalPath path).toList = pathParts path.toList := by
      rw [normalPath_toList h, pathParts_root_append, pathParts_join h hproper]
    rw [← String.toList_inj, normalPath_toList (hsame ▸ h), hsame, normalPath_toList h, root_root_append _ hhead]

end Normal

end CheckedScript.CommandLine
