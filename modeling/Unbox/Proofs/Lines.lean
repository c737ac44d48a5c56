import Mathlib.Data.List.DropRight
import Unbox.Proofs.Positions

/-!
# The lines of a file

A text is cut at its line ends into lines; each one lies between what stands before it and what stands
after it, and its bytes are those between two line starts.

* `slice?_append` : between the sizes of what stands before and after, the bytes are whole characters;
* `LineOf cs n before text after` : `text` is the line of `cs` after `n` line ends;
  `exists_lineOf`, every line there is, as a piece of the text cut at its line ends;
* `LineOf.lineStart?`, `LineOf.lineStart?_next` : where it begins, and where the next one does;
* `LineOf.line?` : the line that a file gives is that piece without its carriage returns;
* `SourceFile.lines_partition` : the lines of a file are the pieces of its text.
-/

namespace Unbox

/-! ## Bytes -/

@[simp] theorem utf8Size_newline : '\n'.utf8Size = 1 := rfl

@[simp] theorem byteCount_nil : byteCount [] = 0 := rfl

@[simp] theorem byteCount_cons (c : Char) (cs : List Char) :
    byteCount (c :: cs) = c.utf8Size + byteCount cs := rfl

@[simp] theorem byteCount_append (a b : List Char) :
    byteCount (a ++ b) = byteCount a + byteCount b := by
  induction a with
  | nil => simp
  | cons c a ih => simp [ih, Nat.add_assoc]

theorem exists_byteCount_cons (c : Char) (cs : List Char) :
    ∃ n, c.utf8Size + byteCount cs = n + 1 :=
  Nat.exists_eq_add_one.mpr (Nat.add_pos_left c.utf8Size_pos _)

theorem dropBytes?_append (a b : List Char) : dropBytes? (byteCount a) (a ++ b) = some b := by
  induction a with
  | nil => cases b <;> rfl
  | cons c a ih =>
    obtain ⟨n, hn⟩ := exists_byteCount_cons c a
    rw [byteCount_cons, hn, List.cons_append, dropBytes?, if_neg (by omega), ← hn,
      Nat.add_sub_cancel_left, ih]

theorem takeBytes?_append (a b : List Char) : takeBytes? (byteCount a) (a ++ b) = some a := by
  induction a with
  | nil => cases b <;> rfl
  | cons c a ih =>
    obtain ⟨n, hn⟩ := exists_byteCount_cons c a
    rw [byteCount_cons, hn, List.cons_append, takeBytes?, if_neg (by omega), ← hn,
      Nat.add_sub_cancel_left, ih, Option.map_some]

theorem slice?_append (a b c : List Char) :
    slice? (byteCount a) (byteCount a + byteCount b) (a ++ b ++ c) = some b := by
  rw [slice?, if_pos (Nat.le_add_right _ _), Nat.add_sub_cancel_left, List.append_assoc,
    dropBytes?_append]
  exact takeBytes?_append b c

/-! ## Line ends -/

theorem lineStartsFrom_append (offset : Nat) (a b : List Char) :
    lineStartsFrom offset (a ++ b) =
      lineStartsFrom offset a ++ lineStartsFrom (offset + byteCount a) b := by
  induction a generalizing offset with
  | nil => rfl
  | cons c a ih =>
    rw [List.cons_append, lineStartsFrom, lineStartsFrom, ih, byteCount_cons, Nat.add_assoc]
    split <;> rfl

theorem length_lineStartsFrom (offset : Nat) (cs : List Char) :
    (lineStartsFrom offset cs).length = cs.count '\n' := by
  induction cs generalizing offset with
  | nil => rfl
  | cons c cs ih =>
    rw [lineStartsFrom, List.count_cons]
    by_cases h : c = '\n' <;> simp [h, ih]

/-- Without line feeds, only carriage returns are trimmed. -/
theorem trimLineEnds_of_not_mem {cs : List Char} (h : '\n' ∉ cs) :
    trimLineEnds cs = cs.rdropWhile (· = '\r') := by
  induction cs using List.reverseRecOn with
  | nil => rfl
  | append_singleton cs c ih =>
    have hc : isLineEnd c = decide (c = '\r') := by
      have : c ≠ '\n' := by rintro rfl; simp at h
      simp [isLineEnd, this]
    have hcs := ih fun hmem => h (List.mem_append_left _ hmem)
    change List.rdropWhile isLineEnd (cs ++ [c]) = _
    rw [List.rdropWhile_concat, List.rdropWhile_concat, hc]
    exact if_congr Iff.rfl hcs rfl

theorem trimLineEnds_concat (cs : List Char) : trimLineEnds (cs ++ ['\n']) = trimLineEnds cs :=
  List.rdropWhile_concat_pos isLineEnd cs '\n' rfl

/-! ## Lines -/

/-- `text` is the line of `cs` that comes after `n` line ends: it is cut out of `cs` by the line end
before it, if it is not the first one, and the line end after it, if it is not the last one. -/
structure LineOf (cs : List Char) (n : Nat) (before text after : List Char) : Prop where
  eq_append : cs = before ++ text ++ after
  count_before : before.count '\n' = n
  before_ends : before = [] ∨ before.getLast? = some '\n'
  not_mem : '\n' ∉ text
  after_begins : after = [] ∨ after.head? = some '\n'

/-- A text has a line after each of its line ends, and one before the first. -/
theorem exists_lineOf {cs : List Char} {n : Nat} (h : n ≤ cs.count '\n') :
    ∃ before text after, LineOf cs n before text after ∧ (cs.splitOn '\n')[n]? = some text := by
  -- The induction takes off one line from the front for each line end.
  induction n generalizing cs with
  | zero =>
    by_cases hmem : '\n' ∈ cs
    · obtain ⟨line, rest, rfl, hline⟩ := List.eq_append_cons_of_mem hmem
      refine ⟨[], line, '\n' :: rest, ⟨rfl, rfl, .inl rfl, hline, .inr rfl⟩, ?_⟩
      rw [List.splitOn_append_cons_self_of_not_mem hline]
      rfl
    · refine ⟨[], cs, [], ⟨by simp, rfl, .inl rfl, hmem, .inl rfl⟩, ?_⟩
      rw [List.splitOn_eq_singleton hmem]
      rfl
  | succ n ih =>
    have hmem : '\n' ∈ cs := List.count_pos_iff.mp (by omega)
    obtain ⟨line, rest, rfl, hline⟩ := List.eq_append_cons_of_mem hmem
    rw [List.count_append, List.count_eq_zero.mpr hline, List.count_cons_self] at h
    obtain ⟨before, text, after, hl, hpiece⟩ := @ih rest (by omega)
    refine ⟨line ++ '\n' :: before, text, after, ⟨?_, ?_, .inr ?_, hl.not_mem, hl.after_begins⟩, ?_⟩
    · simp [hl.eq_append]
    · simp [List.count_eq_zero.mpr hline, hl.count_before]
    · rcases hl.before_ends with rfl | hends
      · simp
      · simp [List.getLast?_cons, hends]
    · rw [List.splitOn_append_cons_self_of_not_mem hline]
      exact hpiece

theorem length_splitOn (cs : List Char) : (cs.splitOn '\n').length = cs.count '\n' + 1 := by
  induction cs with
  | nil => rfl
  | cons c cs ih =>
    rw [List.splitOn_cons_eq_if_modifyHead, List.count_cons]
    by_cases h : c = '\n' <;> simp [h, ih]

namespace SourceFile

theorem lineCount_eq (f : SourceFile) : f.lineCount = f.content.toList.count '\n' + 1 := by
  rw [lineCount, lineStarts, List.length_cons, length_lineStartsFrom]

/-- What stands before a line is as long as the offset at which the line begins. -/
theorem lineStart?_of_append {f : SourceFile} {before rest : List Char}
    (h : f.content.toList = before ++ rest) (hends : before = [] ∨ before.getLast? = some '\n') :
    f.lineStart? (before.count '\n' + 1) = some (byteCount before) := by
  rcases hends with rfl | hends
  · rfl
  · obtain ⟨earlier, rfl⟩ := List.getLast?_eq_some_iff.mp hends
    have hcount : (earlier ++ ['\n']).count '\n' = (lineStartsFrom 0 earlier).length + 1 := by
      simp [length_lineStartsFrom]
    rw [lineStart?, lineStarts, h, hcount, List.getElem?_cons_succ, List.append_assoc,
      lineStartsFrom_append, List.getElem?_append_right (Nat.le_refl _), Nat.sub_self]
    simp [lineStartsFrom]

theorem line?_of_slice? {f : SourceFile} {l start : Nat} {text : List Char}
    (hstart : f.lineStart? l = some start)
    (hslice : slice? start ((f.lineStart? (l + 1)).getD f.size) f.content.toList = some text) :
    f.line? l = some (.ofList (trimLineEnds text)) := by
  simp only [line?, hstart, hslice, Option.bind_eq_bind, Option.bind_some, Option.pure_def]

end SourceFile

namespace LineOf
variable {f : SourceFile} {n : Nat} {before text after : List Char}

theorem size (h : LineOf f.content.toList n before text after) :
    f.size = byteCount before + byteCount text + byteCount after := by
  rw [SourceFile.size, h.eq_append, byteCount_append, byteCount_append]

theorem lineStart? (h : LineOf f.content.toList n before text after) :
    f.lineStart? (n + 1) = some (byteCount before) := by
  rw [← h.count_before]
  exact SourceFile.lineStart?_of_append (h.eq_append.trans (List.append_assoc _ _ _)) h.before_ends

/-- The next line begins after one more byte, and there is none if nothing stands after the line. -/
theorem lineStart?_next (h : LineOf f.content.toList n before text after) :
    (after = [] ∧ f.lineStart? (n + 2) = none) ∨
      ∃ rest, after = '\n' :: rest ∧
        f.lineStart? (n + 2) = some (byteCount before + byteCount text + 1) := by
  have hcount : (before ++ text).count '\n' = n := by
    rw [List.count_append, h.count_before, List.count_eq_zero.mpr h.not_mem, Nat.add_zero]
  rcases h.after_begins with rfl | hafter
  · have hlines := f.lineCount_eq
    rw [h.eq_append, List.append_nil, hcount] at hlines
    exact .inl ⟨rfl, SourceFile.lineStart?_eq_none_iff.mpr (.inr (by omega))⟩
  · obtain ⟨rest, rfl⟩ := List.head?_eq_some_iff.mp hafter
    have hcontent : f.content.toList = (before ++ text ++ ['\n']) ++ rest := by
      simpa using h.eq_append
    have hstart := SourceFile.lineStart?_of_append hcontent (.inr (by simp))
    rw [List.count_append, hcount] at hstart
    exact .inr ⟨rest, rfl, by simpa [Nat.add_assoc] using hstart⟩

/-- The bytes from a line start to the next are the line with its line end, which is trimmed. -/
theorem line? (h : LineOf f.content.toList n before text after) :
    f.line? (n + 1) = some (.ofList (text.rdropWhile (· = '\r'))) := by
  rw [← trimLineEnds_of_not_mem h.not_mem]
  rcases h.lineStart?_next with ⟨rfl, hnext⟩ | ⟨rest, rfl, hnext⟩
  · have hslice := slice?_append before text []
    rw [← h.eq_append] at hslice
    refine SourceFile.line?_of_slice? h.lineStart? ?_
    rw [hnext, Option.getD_none, h.size]
    exact hslice
  · have hslice := slice?_append before (text ++ ['\n']) rest
    have hcontent : f.content.toList = before ++ (text ++ ['\n']) ++ rest := by
      simpa using h.eq_append
    rw [← hcontent] at hslice
    rw [← trimLineEnds_concat text]
    refine SourceFile.line?_of_slice? h.lineStart? ?_
    rw [hnext, Option.getD_some]
    simpa [Nat.add_assoc] using hslice

theorem line?_of_plain (h : LineOf f.content.toList n before text after)
    (hplain : '\r' ∉ f.content.toList) : f.line? (n + 1) = some (.ofList text) := by
  rw [h.line?, List.rdropWhile_eq_self_iff.mpr]
  intro hne hlast
  have hmem : text.getLast hne ∈ f.content.toList := by simp [h.eq_append]
  rw [of_decide_eq_true hlast] at hmem
  exact hplain hmem

end LineOf

namespace SourceFile
variable {f : SourceFile} {n : Nat}

theorem exists_lineOf (h : n < f.lineCount) :
    ∃ before text after, LineOf f.content.toList n before text after ∧
      (f.content.toList.splitOn '\n')[n]? = some text :=
  Unbox.exists_lineOf (by rw [lineCount_eq] at h; omega)

theorem line?_eq_none_iff : f.line? n = none ↔ n = 0 ∨ f.lineCount < n := by
  constructor
  · intro h
    by_contra hn
    obtain ⟨k, rfl⟩ : ∃ k, n = k + 1 := ⟨n - 1, by omega⟩
    obtain ⟨before, text, after, hl, -⟩ := f.exists_lineOf (n := k) (by omega)
    rw [hl.line?] at h
    cases h
  · intro h
    rw [line?, lineStart?_eq_none_iff.mpr h]
    rfl

theorem splitOn_eq_none (h : ¬n < f.lineCount) : (f.content.toList.splitOn '\n')[n]? = none := by
  rw [lineCount_eq] at h
  exact List.getElem?_eq_none (by rw [length_splitOn]; omega)

theorem line?_eq_splitOn (f : SourceFile) (n : Nat) :
    f.line? (n + 1) = ((f.content.toList.splitOn '\n')[n]?).map
      fun piece => .ofList (piece.rdropWhile (· = '\r')) := by
  by_cases h : n < f.lineCount
  · obtain ⟨before, text, after, hl, hpiece⟩ := f.exists_lineOf h
    rw [hl.line?, hpiece, Option.map_some]
  · rw [line?_eq_none_iff.mpr (.inr (by omega)), splitOn_eq_none h, Option.map_none]

theorem not_mem_of_line? {text : String} (h : f.line? n = some text) : '\n' ∉ text.toList := by
  have hn : ¬(n = 0 ∨ f.lineCount < n) := by
    rw [← line?_eq_none_iff, h]
    exact Option.some_ne_none text
  obtain ⟨k, rfl⟩ : ∃ k, n = k + 1 := ⟨n - 1, by omega⟩
  obtain ⟨before, piece, after, hl, -⟩ := f.exists_lineOf (n := k) (by omega)
  rw [hl.line?] at h
  obtain rfl := Option.some.inj h
  rw [String.toList_ofList]
  exact fun hmem => hl.not_mem ((List.rdropWhile_prefix _ _).subset hmem)

/-- A text without carriage returns is what its lines give, put together with line ends. -/
theorem intercalate_lines (h : '\r' ∉ f.content.toList) :
    ∃ lines : List String, lines.length = f.lineCount ∧ (∀ n, f.line? (n + 1) = lines[n]?) ∧
      "\n".intercalate lines = f.content := by
  refine ⟨(f.content.toList.splitOn '\n').map .ofList, ?_, fun n => ?_, ?_⟩
  · rw [List.length_map, length_splitOn, lineCount_eq]
  · rw [List.getElem?_map]
    by_cases hn : n < f.lineCount
    · obtain ⟨before, text, after, hl, hpiece⟩ := f.exists_lineOf hn
      rw [hl.line?_of_plain h, hpiece, Option.map_some]
    · rw [line?_eq_none_iff.mpr (.inr (by omega)), splitOn_eq_none hn, Option.map_none]
  · apply String.toList_injective
    rw [String.toList_intercalate, List.map_map]
    simp [Function.comp_def, List.intercalate_splitOn]

/-- The lines of a file are the pieces of its text between the line feeds. There is one more of them
than line feeds, a line is given exactly for the numbers from one to their count, and it is the piece
without the carriage returns that it ends with, so that it has no line feed. A text without carriage
returns is what its lines give, put together with line feeds. -/
theorem lines_partition (f : SourceFile) :
    f.lineCount = f.content.toList.count '\n' + 1 ∧
    (∀ n, (f.line? n).isSome ↔ 1 ≤ n ∧ n ≤ f.lineCount) ∧
    (∀ n, f.line? (n + 1) = ((f.content.toList.splitOn '\n')[n]?).map
      fun piece => .ofList (piece.rdropWhile (· = '\r'))) ∧
    (∀ n text, f.line? n = some text → '\n' ∉ text.toList) ∧
    ('\r' ∉ f.content.toList → ∃ lines : List String, lines.length = f.lineCount ∧
      (∀ n, f.line? (n + 1) = lines[n]?) ∧ "\n".intercalate lines = f.content) := by
  refine ⟨f.lineCount_eq, fun n => ?_, f.line?_eq_splitOn, fun _ _ => not_mem_of_line?,
    intercalate_lines⟩
  rw [Option.isSome_iff_ne_none, Ne, line?_eq_none_iff]
  omega

/-- A file with a character of two bytes, an empty line and a line feed at its end. -/
theorem lines_partition_trailing :
    (⟨"", "é\n\nb\n"⟩ : SourceFile).line? 1 = some "é" ∧ '\n' ∉ "é".toList ∧
    ∃ lines : List String, lines.length = (⟨"", "é\n\nb\n"⟩ : SourceFile).lineCount ∧
      (∀ n, (⟨"", "é\n\nb\n"⟩ : SourceFile).line? (n + 1) = lines[n]?) ∧
      "\n".intercalate lines = "é\n\nb\n" := by
  have hline : (⟨"", "é\n\nb\n"⟩ : SourceFile).line? 1 = some "é" := by decide +kernel
  obtain ⟨-, -, -, hfree, hjoin⟩ := lines_partition ⟨"", "é\n\nb\n"⟩
  exact ⟨hline, hfree 1 "é" hline, hjoin (by decide +kernel)⟩

end SourceFile

end Unbox
