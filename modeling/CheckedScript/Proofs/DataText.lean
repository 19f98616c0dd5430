import CheckedScript.Data.Writer
import CheckedScript.Proofs.Numerals

/-! Data files. Data are read as they were written if no whole number in them is too long, each double is a number and no
object has two fields of one name. The fuel of the reader covers any text that is no longer: each call that takes one count
away stands for a character of its own. A written text holds no return, so that its line ends stay as they are. -/

namespace CheckedScript.Data

/-- Data that a file can hold. -/
inductive Writable : Data → Prop where
  | null : Writable .null
  | bool (b : Bool) : Writable (.bool b)
  | int {i : Int} (h : i.natAbs < 10 ^ digitLimit) : Writable (.int i)
  | float {x : Float} (h : x.isNaN = false) : Writable (.float x)
  | text (s : String) : Writable (.text s)
  | list {items : List Data} (h : ∀ d ∈ items, Writable d) : Writable (.list items)
  | object {fields : List (String × Data)} (hkeys : (fields.map Prod.fst).Nodup) (h : ∀ f ∈ fields, Writable f.2) :
    Writable (.object fields)

section Texts

variable {read rest : List Char}

/-- A control character has the two digits of its number at the end. -/
theorem hex_control : ∀ n < 0x20, (Text.hex 4 n).toList = ['0', '0', (n / 16).digitChar, (n % 16).digitChar] ∧
    hexNumber? '0' '0' (n / 16).digitChar (n % 16).digitChar = some n := by
  decide

theorem readText_code {c : Char} (hc : c.toNat < 0x20) :
    readText none read ('\\' :: 'u' :: ((Text.hex 4 c.toNat).toList ++ rest)) = readText none (c :: read) rest := by
  obtain ⟨htext, hnumber⟩ := hex_control c.toNat hc
  have hhigh : isHighHalf c.toNat = false := by
    simp [isHighHalf]
    omega
  have hlow : isLowHalf c.toNat = false := by
    simp [isLowHalf]
    omega
  rw [htext]
  simp [readText, hnumber, hhigh, addCode, hlow]

theorem readText_char (c : Char) :
    readText none read ((escapedChar c).toList ++ rest) = readText none (c :: read) rest := by
  unfold escapedChar
  split_ifs with hquote hslash hline hreturn htab hfeed hback hcontrol
  · subst hquote
    rfl
  · subst hslash
    rfl
  · subst hline
    rfl
  · subst hreturn
    rfl
  · subst htab
    rfl
  · subst hfeed
    rfl
  · subst hback
    rfl
  · rw [String.toList_append]
    exact readText_code hcontrol
  · simp [readText, hslash, hcontrol, settle]

theorem readText_chars (s : List Char) :
    readText none read (s.flatMap (fun c => (escapedChar c).toList) ++ '"' :: rest) =
      .ok (String.ofList (read.reverse ++ s), rest) := by
  induction s generalizing read with
  | nil =>
    rw [List.append_nil]
    rfl
  | cons c s ih => rw [List.flatMap_cons, List.append_assoc, readText_char, ih, List.reverse_cons, List.append_assoc,
      List.singleton_append]

theorem writeText_toList (s : String) :
    (writeText s).toList = '"' :: (s.toList.flatMap (fun c => (escapedChar c).toList) ++ ['"']) := by
  simp [writeText, String.toList_join, List.flatMap_map]

/-- What follows the first quote of a written text is read as that text. -/
theorem readText_writeText (s : String) (rest : List Char) :
    ∃ inside, (writeText s).toList ++ rest = '"' :: inside ∧ readText none [] inside = .ok (s, rest) := by
  refine ⟨s.toList.flatMap (fun c => (escapedChar c).toList) ++ '"' :: rest, ?_, ?_⟩
  · simp [writeText_toList]
  · rw [readText_chars]
    simp

end Texts

section Blanks

theorem skipSpace_newline (level : ℕ) (cs : List Char) : skipSpace ((newline level).toList ++ cs) = skipSpace cs := by
  have hblank : ∀ c ∈ (newline level).toList, isSpace c = true := by
    simp [newline, isSpace]
  exact List.dropWhile_append_of_pos hblank

theorem endsNumeral_newline (level : ℕ) (cs : List Char) : EndsNumeral ((newline level).toList ++ cs) := by
  intro c hc
  have hline : c = '\n' := by simpa [newline, eq_comm] using hc
  subst hline
  decide

theorem endsNumeral_comma (cs : List Char) : EndsNumeral (',' :: cs) := by
  intro c hc
  cases hc
  decide

theorem skipSpace_of_head {c : Char} (hc : isSpace c = false) (cs : List Char) : skipSpace (c :: cs) = c :: cs := by
  simp [skipSpace, hc]

theorem skipSpace_newline_cons (level : ℕ) {c : Char} (hc : isSpace c = false) (cs : List Char) :
    skipSpace ((newline level).toList ++ c :: cs) = c :: cs := by
  rw [skipSpace_newline, skipSpace_of_head hc]

theorem readScalar_nil : readScalar [] = .error .notData := rfl

/-- The characters that open or close something, and the blanks, start nothing else. -/
theorem readScalar_refused {c : Char} (hc : c ∈ [' ', '\t', '\n', '\r', ']', '"', '[', '\x7b']) (cs : List Char) :
    readScalar (c :: cs) = .error .notData := by
  simp only [List.mem_cons, List.not_mem_nil, or_false] at hc
  rcases hc with rfl | rfl | rfl | rfl | rfl | rfl | rfl | rfl <;> rfl

/-- What can be read starts neither with a blank nor with a closing bracket. -/
theorem head_of_readWith {fuel : ℕ} {cs : List Char} {r : Data × List Char} (h : readWith fuel cs = .ok r) :
    ∃ c more, cs = c :: more ∧ isSpace c = false ∧ c ≠ ']' := by
  cases fuel with
  | zero => cases h
  | succ fuel =>
    cases cs with
    | nil => exact absurd (readScalar_nil.symm.trans h) (by simp)
    | cons c cs =>
      have hrefused : c ∉ [' ', '\t', '\n', '\r', ']'] := by
        intro hc
        have hscalar : readWith (fuel + 1) (c :: cs) = readScalar (c :: cs) := by
          simp only [List.mem_cons, List.not_mem_nil, or_false] at hc
          rcases hc with rfl | rfl | rfl | rfl | rfl <;> rfl
        rw [hscalar, readScalar_refused (List.mem_append_left ['"', '[', '\x7b'] hc)] at h
        cases h
      simp only [List.mem_cons, List.not_mem_nil, or_false, not_or] at hrefused
      exact ⟨c, cs, rfl, by simp [isSpace, hrefused], hrefused.2.2.2.2⟩

end Blanks

/-- Wherever the data stand, they are read as they were written. -/
def ReadsBack (d : Data) : Prop :=
  ∀ (level fuel : ℕ) (rest : List Char), (writeAt level d).length ≤ fuel → EndsNumeral rest →
    readWith fuel ((writeAt level d).toList ++ rest) = .ok (d, rest)

/-- The parts of a list or an object, each on a line of its own. -/
def lines (level : ℕ) (parts : List String) : String := ("," ++ newline level).intercalate parts

section Parts

variable {level outer fuel : ℕ} {rest : List Char}

theorem lines_singleton (level : ℕ) (s : String) : lines level [s] = s := String.intercalate_singleton

theorem lines_cons_cons (level : ℕ) (s t : String) (parts : List String) :
    (lines level (s :: t :: parts)).toList =
      s.toList ++ ',' :: ((newline level).toList ++ (lines level (t :: parts)).toList) := by
  simp [lines, String.intercalate_cons_cons]

theorem length_lines_cons_cons (level : ℕ) (s t : String) (parts : List String) :
    s.length + (lines level (t :: parts)).length < (lines level (s :: t :: parts)).length := by
  have h := congrArg List.length (lines_cons_cons level s t parts)
  simp only [String.length_toList, List.length_append, List.length_cons] at h
  omega

theorem exists_lines_cons (level : ℕ) (s : String) (parts : List String) :
    ∃ more, (lines level (s :: parts)).toList = s.toList ++ more := by
  cases parts with
  | nil => exact ⟨[], by rw [lines_singleton, List.append_nil]⟩
  | cons t parts => exact ⟨_, lines_cons_cons level s t parts⟩

theorem ReadsBack.starts {d : Data} (h : ReadsBack d) (level : ℕ) :
    ∃ c more, (writeAt level d).toList = c :: more ∧ isSpace c = false ∧ c ≠ ']' := by
  have hread := h level _ [] le_rfl (by simp [EndsNumeral])
  rw [List.append_nil] at hread
  exact head_of_readWith hread

theorem read_step {α β : Type} {x : Read α} {a : α} {f : α → Read β} (h : x = .ok a) : x >>= f = f a := by
  rw [h]
  rfl

theorem readItems_last {d : Data} {cs : List Char}
    (h : readWith fuel cs = .ok (d, (newline outer).toList ++ ']' :: rest)) :
    readItems (fuel + 1) cs = .ok ([d], rest) := by
  refine (read_step h).trans ?_
  dsimp only
  rw [skipSpace_newline_cons outer (c := ']') rfl]
  rfl

theorem readItems_next {d : Data} {items : List Data} {c : Char} {cs more : List Char} (hc : isSpace c = false)
    (h : readWith fuel cs = .ok (d, ',' :: ((newline level).toList ++ c :: more)))
    (hmore : readItems fuel (c :: more) = .ok (items, rest)) :
    readItems (fuel + 1) cs = .ok (d :: items, rest) := by
  have hitems : readItems fuel (skipSpace ((newline level).toList ++ c :: more)) = .ok (items, rest) := by
    rw [skipSpace_newline_cons level hc, hmore]
  refine (read_step h).trans ?_
  dsimp only
  rw [skipSpace_of_head (c := ',') rfl]
  exact read_step hitems

theorem writeItems_eq (items : List Data) : writeItems level items = items.map (writeAt level) := by
  induction items with
  | nil => rfl
  | cons d items ih => exact congrArg (writeAt level d :: ·) ih

theorem writeAt_list (level : ℕ) (items : List Data) :
    writeAt level (.list items) = enclose "[" "]" level (items.map (writeAt (level + 1))) :=
  congrArg (enclose "[" "]" level) (writeItems_eq items)

theorem readItems_lines (level outer : ℕ) (rest : List Char) {d : Data} {items : List Data} (h : ∀ e ∈ d :: items, ReadsBack e)
    (hfuel : (lines level ((d :: items).map (writeAt level))).length < fuel) :
    readItems fuel ((lines level ((d :: items).map (writeAt level))).toList ++ ((newline outer).toList ++ ']' :: rest)) =
      .ok (d :: items, rest) := by
  induction items generalizing d fuel with
  | nil =>
    cases fuel with
    | zero => cases hfuel
    | succ fuel =>
      rw [List.map_singleton, lines_singleton] at hfuel ⊢
      exact readItems_last (h d (by simp) level fuel _ (Nat.lt_succ_iff.mp hfuel) (endsNumeral_newline outer _))
  | cons e items ih =>
    cases fuel with
    | zero => cases hfuel
    | succ fuel =>
      have hlength := length_lines_cons_cons level (writeAt level d) (writeAt level e) (items.map (writeAt level))
      have hmore : ∀ x ∈ e :: items, ReadsBack x := fun x hx => h x (List.mem_cons_of_mem d hx)
      simp only [List.map_cons] at hfuel ih ⊢
      have hitems := ih hmore (show _ < fuel by omega)
      obtain ⟨tail, htail⟩ := exists_lines_cons level (writeAt level e) (items.map (writeAt level))
      obtain ⟨c, start, hstart, hc, -⟩ := (hmore e (by simp)).starts level
      have hd := h d (by simp) level fuel (',' :: ((newline level).toList ++
        ((lines level (writeAt level e :: items.map (writeAt level))).toList ++ ((newline outer).toList ++ ']' :: rest))))
        (by omega) (endsNumeral_comma _)
      rw [lines_cons_cons, List.append_assoc, List.cons_append, List.append_assoc]
      rw [htail, hstart] at hitems hd ⊢
      exact readItems_next hc hd hitems

/-- The line of a field. -/
def fieldLine (level : ℕ) (f : String × Data) : String := writeText f.1 ++ ": " ++ writeAt level f.2

theorem writeFields_eq (fields : List (String × Data)) : writeFields level fields = fields.map (fieldLine level) := by
  induction fields with
  | nil => rfl
  | cons f fields ih => exact congrArg (fieldLine level f :: ·) ih

theorem writeAt_object (level : ℕ) (fields : List (String × Data)) :
    writeAt level (.object fields) = enclose "\x7b" "\x7d" level (fields.map (fieldLine (level + 1))) :=
  congrArg (enclose "\x7b" "\x7d" level) (writeFields_eq fields)

theorem fieldLine_toList (level : ℕ) (f : String × Data) :
    (fieldLine level f).toList = (writeText f.1).toList ++ ':' :: ' ' :: (writeAt level f.2).toList := by
  simp [fieldLine]

theorem exists_fieldLine (level : ℕ) (f : String × Data) : ∃ inside, (fieldLine level f).toList = '"' :: inside := by
  rw [fieldLine_toList, writeText_toList]
  exact ⟨_, rfl⟩

theorem length_fieldLine (level : ℕ) (f : String × Data) : (writeAt level f.2).length ≤ (fieldLine level f).length := by
  simp [fieldLine]

theorem setField_of_notMem {key : String} (d : Data) {fields : List (String × Data)} (h : key ∉ fields.map Prod.fst) :
    setField key d fields = fields ++ [(key, d)] := by
  induction fields with
  | nil => rfl
  | cons f fields ih =>
    rw [List.map_cons, List.mem_cons, not_or] at h
    rw [setField, if_neg (Ne.symm h.1), ih h.2, List.cons_append]

theorem notMem_keys {f : String × Data} {before after : List (String × Data)}
    (h : ((before ++ f :: after).map Prod.fst).Nodup) : f.1 ∉ before.map Prod.fst := by
  rw [List.map_append, List.map_cons] at h
  exact fun hmem => (List.nodup_append.mp h).2.2 f.1 hmem f.1 (by simp) rfl

section Field

variable {key : String} {d : Data} {before : List (String × Data)} {c : Char} {value : List Char}

theorem readFields_last (hc : isSpace c = false)
    (h : readWith fuel (c :: value) = .ok (d, (newline outer).toList ++ '\x7d' :: rest)) :
    readFields (fuel + 1) before ((writeText key).toList ++ ':' :: ' ' :: c :: value) =
      .ok (setField key d before, rest) := by
  obtain ⟨inside, hinside, hkey⟩ := readText_writeText key (':' :: ' ' :: c :: value)
  have hclose := skipSpace_newline_cons outer (c := '\x7d') rfl rest
  have hvalue : readWith fuel (skipSpace (' ' :: c :: value)) = .ok (d, (newline outer).toList ++ '\x7d' :: rest) :=
    (congrArg (readWith fuel) (skipSpace_of_head hc value)).trans h
  rw [hinside]
  refine (read_step hkey).trans ?_
  dsimp only
  rw [skipSpace_of_head (c := ':') rfl]
  refine (read_step hvalue).trans ?_
  dsimp only
  rw [hclose]
  rfl

theorem readFields_next {e : Char} {more : List Char} (hc : isSpace c = false) (he : isSpace e = false)
    (h : readWith fuel (c :: value) = .ok (d, ',' :: ((newline level).toList ++ e :: more))) :
    readFields (fuel + 1) before ((writeText key).toList ++ ':' :: ' ' :: c :: value) =
      readFields fuel (setField key d before) (e :: more) := by
  obtain ⟨inside, hinside, hkey⟩ := readText_writeText key (':' :: ' ' :: c :: value)
  have hmore := skipSpace_newline_cons level he more
  have hvalue : readWith fuel (skipSpace (' ' :: c :: value)) = .ok (d, ',' :: ((newline level).toList ++ e :: more)) :=
    (congrArg (readWith fuel) (skipSpace_of_head hc value)).trans h
  rw [hinside]
  refine (read_step hkey).trans ?_
  dsimp only
  rw [skipSpace_of_head (c := ':') rfl]
  refine (read_step hvalue).trans ?_
  dsimp only
  rw [skipSpace_of_head (c := ',') rfl]
  exact congrArg (readFields fuel _) hmore

end Field

theorem readFields_lines (level outer : ℕ) (rest : List Char) {f : String × Data} {fields before : List (String × Data)}
    (h : ∀ g ∈ f :: fields, ReadsBack g.2) (hkeys : ((before ++ f :: fields).map Prod.fst).Nodup)
    (hfuel : (lines level ((f :: fields).map (fieldLine level))).length < fuel) :
    readFields fuel before
        ((lines level ((f :: fields).map (fieldLine level))).toList ++ ((newline outer).toList ++ '\x7d' :: rest)) =
      .ok (before ++ f :: fields, rest) := by
  induction fields generalizing f before fuel with
  | nil =>
    cases fuel with
    | zero => cases hfuel
    | succ fuel =>
      have hlength := length_fieldLine level f
      rw [List.map_singleton, lines_singleton] at hfuel ⊢
      have hf := h f (by simp)
      obtain ⟨c, start, hstart, hc, -⟩ := hf.starts level
      have hd := hf level fuel ((newline outer).toList ++ '\x7d' :: rest) (by omega) (endsNumeral_newline outer _)
      rw [hstart, List.cons_append] at hd
      rw [fieldLine_toList, hstart, List.append_assoc, List.cons_append, List.cons_append, List.cons_append,
        readFields_last hc hd, setField_of_notMem f.2 (notMem_keys hkeys)]
  | cons g fields ih =>
    cases fuel with
    | zero => cases hfuel
    | succ fuel =>
      have hlength := length_fieldLine level f
      have hlines := length_lines_cons_cons level (fieldLine level f) (fieldLine level g) (fields.map (fieldLine level))
      have hf := h f (by simp)
      have hmore : ∀ x ∈ g :: fields, ReadsBack x.2 := fun x hx => h x (List.mem_cons_of_mem f hx)
      simp only [List.map_cons] at hfuel ih ⊢
      have hmoreKeys : ((before ++ [f] ++ g :: fields).map Prod.fst).Nodup := by simpa using hkeys
      have hfields := ih hmore hmoreKeys (show _ < fuel by omega)
      obtain ⟨tail, htail⟩ := exists_lines_cons level (fieldLine level g) (fields.map (fieldLine level))
      obtain ⟨inside, hinside⟩ := exists_fieldLine level g
      obtain ⟨c, start, hstart, hc, -⟩ := hf.starts level
      have hd := hf level fuel (',' :: ((newline level).toList ++
        ((lines level (fieldLine level g :: fields.map (fieldLine level))).toList ++
          ((newline outer).toList ++ '\x7d' :: rest)))) (by omega) (endsNumeral_comma _)
      rw [lines_cons_cons, fieldLine_toList, List.append_assoc, List.append_assoc, List.cons_append, List.cons_append,
        List.cons_append, List.append_assoc]
      rw [htail, hinside] at hfields hd ⊢
      rw [hstart] at hd ⊢
      simp only [List.cons_append] at hfields hd ⊢
      rw [readFields_next hc rfl hd, setField_of_notMem f.2 (notMem_keys hkeys), hfields, List.append_assoc,
        List.singleton_append]

end Parts

section Whole

theorem readWith_of_readScalar {cs : List Char} {r : Data × List Char} (fuel : ℕ) (h : readScalar cs = .ok r) :
    readWith (fuel + 1) cs = .ok r := by
  unfold readWith
  split
  · simp [readScalar_refused] at h
  · simp [readScalar_refused] at h
  · simp [readScalar_refused] at h
  · exact h

theorem readsBack_of_readScalar {d : Data}
    (h : ∀ level rest, EndsNumeral rest → readScalar ((writeAt level d).toList ++ rest) = .ok (d, rest)) :
    ReadsBack d := by
  intro level fuel rest hfuel hr
  cases fuel with
  | zero =>
    have hempty : writeAt level d = "" := String.length_eq_zero_iff.mp (Nat.le_zero.mp hfuel)
    have hread := h level [] (by simp [EndsNumeral])
    rw [hempty] at hread
    simp [readScalar_nil] at hread
  | succ fuel => exact readWith_of_readScalar fuel (h level rest hr)

theorem readsBack_text (s : String) : ReadsBack (.text s) := by
  intro level fuel rest hfuel hr
  obtain ⟨inside, hinside, hread⟩ := readText_writeText s rest
  cases fuel with
  | zero =>
    have hlength : (writeText s).length ≤ 0 := hfuel
    simp [writeText] at hlength
  | succ fuel =>
    refine (congrArg (readWith (fuel + 1)) hinside).trans ?_
    exact congrArg (Except.map fun r => (text r.1, r.2)) hread

/-- A list or an object with parts, as characters. -/
theorem enclose_toList (first last : String) (level : ℕ) (s : String) (parts : List String) :
    (enclose first last level (s :: parts)).toList = first.toList ++ ((newline (level + 1)).toList ++
      ((lines (level + 1) (s :: parts)).toList ++ ((newline level).toList ++ last.toList))) := by
  simp [enclose, lines]

theorem enclose_nil (first last : String) (level : ℕ) :
    (enclose first last level []).toList = first.toList ++ last.toList := by
  simp [enclose]

theorem length_enclose (first last : String) (level : ℕ) (s : String) (parts : List String) :
    first.length + (lines (level + 1) (s :: parts)).length < (enclose first last level (s :: parts)).length := by
  have h := congrArg List.length (enclose_toList first last level s parts)
  have hline : (newline level).toList.length = 2 * level + 1 := by simp [newline]
  simp only [List.length_append, hline] at h
  simp only [String.length_toList] at h
  omega

theorem readWith_list {c : Char} {start rest : List Char} {items : List Data} {fuel : ℕ} (level : ℕ)
    (hc : isSpace c = false) (hclose : c ≠ ']') (h : readItems fuel (c :: start) = .ok (items, rest)) :
    readWith (fuel + 1) ('[' :: ((newline level).toList ++ c :: start)) = .ok (.list items, rest) := by
  simp [readWith, skipSpace_newline_cons level hc, hclose, h, Except.map]

theorem readWith_object {start rest : List Char} {fields : List (String × Data)} {fuel : ℕ} (level : ℕ)
    (h : readFields fuel [] ('"' :: start) = .ok (fields, rest)) :
    readWith (fuel + 1) ('\x7b' :: ((newline level).toList ++ '"' :: start)) = .ok (.object fields, rest) := by
  simp [readWith, skipSpace_newline_cons level (c := '"') rfl, h, Except.map]

theorem readsBack_list {items : List Data} (h : ∀ d ∈ items, ReadsBack d) : ReadsBack (.list items) := by
  intro level fuel rest hfuel hr
  rw [writeAt_list] at hfuel ⊢
  cases items with
  | nil =>
    cases fuel with
    | zero => simp [enclose] at hfuel
    | succ fuel =>
      rw [List.map_nil, enclose_nil]
      rfl
  | cons d items =>
    have hlength := length_enclose "[" "]" level (writeAt (level + 1) d) (items.map (writeAt (level + 1)))
    obtain ⟨c, start, hstart, hc, hclose⟩ := (h d (by simp)).starts (level + 1)
    obtain ⟨tail, htail⟩ := exists_lines_cons (level + 1) (writeAt (level + 1) d) (items.map (writeAt (level + 1)))
    rw [List.map_cons] at hfuel ⊢
    cases fuel with
    | zero => omega
    | succ fuel =>
      have hone : "[".length = 1 := rfl
      have hitems := readItems_lines (level + 1) level rest h (show _ < fuel by rw [List.map_cons]; omega)
      rw [List.map_cons, htail, hstart, List.append_assoc, List.cons_append] at hitems
      rw [enclose_toList, htail, hstart]
      simpa using readWith_list (level + 1) hc hclose hitems

theorem readsBack_object {fields : List (String × Data)} (hkeys : (fields.map Prod.fst).Nodup)
    (h : ∀ f ∈ fields, ReadsBack f.2) : ReadsBack (.object fields) := by
  intro level fuel rest hfuel hr
  rw [writeAt_object] at hfuel ⊢
  cases fields with
  | nil =>
    cases fuel with
    | zero => simp [enclose] at hfuel
    | succ fuel =>
      rw [List.map_nil, enclose_nil]
      rfl
  | cons f fields =>
    have hlength := length_enclose "\x7b" "\x7d" level (fieldLine (level + 1) f) (fields.map (fieldLine (level + 1)))
    obtain ⟨inside, hinside⟩ := exists_fieldLine (level + 1) f
    obtain ⟨tail, htail⟩ := exists_lines_cons (level + 1) (fieldLine (level + 1) f) (fields.map (fieldLine (level + 1)))
    rw [List.map_cons] at hfuel ⊢
    cases fuel with
    | zero => omega
    | succ fuel =>
      have hone : "\x7b".length = 1 := rfl
      have hall : (([] ++ f :: fields).map Prod.fst).Nodup := hkeys
      have hfields := readFields_lines (level + 1) level rest h hall (show _ < fuel by rw [List.map_cons]; omega)
      rw [List.map_cons, htail, hinside, List.append_assoc, List.cons_append] at hfields
      rw [enclose_toList, htail, hinside]
      simpa using readWith_object (level + 1) hfields

theorem Writable.readsBack {d : Data} (h : d.Writable) : ReadsBack d := by
  induction h with
  | null => exact readsBack_of_readScalar fun _ rest _ => show readScalar ("null".toList ++ rest) = _ from rfl
  | bool b =>
    cases b with
    | false => exact readsBack_of_readScalar fun _ rest _ => show readScalar ("false".toList ++ rest) = _ from rfl
    | true => exact readsBack_of_readScalar fun _ rest _ => show readScalar ("true".toList ++ rest) = _ from rfl
  | int h => exact readsBack_of_readScalar fun _ _ hr => readScalar_int h hr
  | float h => exact readsBack_of_readScalar fun _ _ hr => readScalar_float h hr
  | text s => exact readsBack_text s
  | list _ ih => exact readsBack_list ih
  | object hkeys _ ih => exact readsBack_object hkeys ih

/-- What is written to a data file is read from it. -/
theorem Writable.read_write {d : Data} (h : d.Writable) : read d.write = .ok d := by
  have hread := h.readsBack 0 (d.write.length + 1) [] (Nat.le_succ _) (by simp [EndsNumeral])
  rw [List.append_nil] at hread
  obtain ⟨c, start, hstart, hc, -⟩ := h.readsBack.starts 0
  have hskip : skipSpace d.write.toList = d.write.toList := by
    rw [write, hstart, skipSpace_of_head hc]
  rw [read, hskip]
  rw [← write] at hread
  rw [hread]
  rfl

end Whole

section Returns

theorem notMem_return_of_digits {cs : List Char} (h : ∀ c ∈ cs, c.isDigit = true) : '\r' ∉ cs :=
  fun hmem => absurd (h '\r' hmem) (by decide)

theorem notMem_return_decimal (layout : Decimal.Layout) (d : Decimal.Shortest) : '\r' ∉ d.text layout := by
  have hdigits := notMem_return_of_digits (isDigit_toDigits d.digits)
  have hexponent (n : ℕ) := notMem_return_of_digits (isDigit_padded layout.exponentWidth n)
  unfold Decimal.Shortest.text
  dsimp only
  split_ifs <;> simp [hexponent, hdigits, mt List.mem_of_mem_take hdigits, mt List.mem_of_mem_drop hdigits,
    mt List.mem_of_mem_tail hdigits]

theorem notMem_return_render (x : Float) : '\r' ∉ (Decimal.render .data x).toList := by
  have hdecimal := notMem_return_decimal .data (.ofBinary (.ofFloat x))
  unfold Decimal.render
  dsimp only
  split_ifs <;> simp [Decimal.Layout.data] at hdecimal ⊢ <;> exact hdecimal

theorem notMem_return_int (i : ℤ) : '\r' ∉ (toString i).toList := by
  cases i with
  | ofNat n =>
    rw [toList_toString_ofNat]
    exact notMem_return_of_digits (isDigit_toDigits n)
  | negSucc n =>
    have hdigits := notMem_return_of_digits (isDigit_toDigits (n + 1))
    rw [toList_toString_negSucc]
    simp [hdigits]

theorem notMem_return_hex : ∀ n < 0x20, '\r' ∉ (Text.hex 4 n).toList := by
  decide

theorem notMem_return_escapedChar (c : Char) : '\r' ∉ (escapedChar c).toList := by
  unfold escapedChar
  split_ifs with hquote hslash hline hreturn htab hfeed hback hcontrol
  on_goal 8 => simp [notMem_return_hex c.toNat hcontrol]
  on_goal 8 => simp [Ne.symm hreturn]
  all_goals decide

theorem notMem_return_text (s : String) : '\r' ∉ (writeText s).toList := by
  have hchars : ∀ c ∈ s.toList, '\r' ∉ (escapedChar c).toList := fun c _ => notMem_return_escapedChar c
  simpa [writeText_toList] using hchars

theorem notMem_return_newline (level : ℕ) : '\r' ∉ (newline level).toList := by
  simp [newline]

theorem notMem_return_lines {parts : List String} (level : ℕ) (h : ∀ s ∈ parts, '\r' ∉ s.toList) :
    '\r' ∉ (lines level parts).toList := by
  induction parts with
  | nil => simp [lines]
  | cons s parts ih =>
    cases parts with
    | nil => simpa [lines_singleton] using h s (by simp)
    | cons t parts =>
      have hmore := ih fun u hu => h u (List.mem_cons_of_mem s hu)
      simp [lines_cons_cons, h s, notMem_return_newline, hmore]

theorem notMem_return_enclose {parts : List String} {first last : String} (level : ℕ) (hfirst : '\r' ∉ first.toList)
    (hlast : '\r' ∉ last.toList) (h : ∀ s ∈ parts, '\r' ∉ s.toList) : '\r' ∉ (enclose first last level parts).toList := by
  cases parts with
  | nil => simp [enclose, hfirst, hlast]
  | cons s parts => simp [enclose_toList, hfirst, hlast, notMem_return_newline, notMem_return_lines (level + 1) h]

theorem Writable.notMem_return {d : Data} (h : d.Writable) (level : ℕ) : '\r' ∉ (writeAt level d).toList := by
  induction h generalizing level with
  | null => simp [writeAt]
  | bool b => cases b <;> simp [writeAt]
  | int _ => exact notMem_return_int _
  | float _ => exact notMem_return_render _
  | text s => exact notMem_return_text s
  | list _ ih =>
    rw [writeAt_list]
    apply notMem_return_enclose level (by decide) (by decide)
    intro s hs
    obtain ⟨d, hd, rfl⟩ := List.mem_map.mp hs
    exact ih d hd _
  | object _ _ ih =>
    rw [writeAt_object]
    apply notMem_return_enclose level (by decide) (by decide)
    intro s hs
    obtain ⟨f, hf, rfl⟩ := List.mem_map.mp hs
    simp [fieldLine, notMem_return_text, ih f hf]

end Returns

end CheckedScript.Data
