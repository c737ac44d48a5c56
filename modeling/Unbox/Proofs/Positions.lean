import Mathlib.Data.List.TakeWhile
import Mathlib.Data.Prod.Lex
import Unbox.Source

/-!
# Offsets and positions

The lines of a file begin at strictly increasing offsets, the first one at zero. So every offset of the
file lies in one line, and a line and column that are those of an offset are so of one only.

* `SourceFile.lineStart?_strictMono` : later lines begin later;
* `SourceFile.LiesIn f l q` : the offset lies in the line, from its start and before the next line;
  `LiesIn.unique`, in no other line;
* `SourceFile.exists_start_position` : the line of a position, and its column in that line;
* `SourceFile.column_iff` : which columns of a line are those of an offset;
* `SourceFile.position_inverse` : offsets and positions are inverse to each other.
-/

namespace Unbox

/-! ## Line starts -/

theorem lineStartsFrom_bounds {cs : List Char} {offset start : Nat}
    (h : start ∈ lineStartsFrom offset cs) : offset < start ∧ start ≤ offset + byteCount cs := by
  induction cs generalizing offset with
  | nil => cases h
  | cons c cs ih =>
    have hsize := c.utf8Size_pos
    have hcount : byteCount (c :: cs) = c.utf8Size + byteCount cs := rfl
    unfold lineStartsFrom at h
    split at h
    · rcases List.mem_cons.mp h with rfl | h
      · omega
      · have := ih h
        omega
    · have := ih h
      omega

theorem pairwise_lineStartsFrom (offset : Nat) (cs : List Char) :
    (lineStartsFrom offset cs).Pairwise (· < ·) := by
  induction cs generalizing offset with
  | nil => exact .nil
  | cons c cs ih =>
    unfold lineStartsFrom
    split
    · exact .cons (fun start h => (lineStartsFrom_bounds h).1) (ih _)
    · exact ih _

namespace SourceFile
variable {f : SourceFile} {l l' q q' start start' : Nat}

theorem pairwise_lineStarts (f : SourceFile) : f.lineStarts.Pairwise (· < ·) :=
  .cons (fun _ h => (lineStartsFrom_bounds h).1) (pairwise_lineStartsFrom 0 _)

theorem lineStart?_strictMono (h : f.lineStart? l = some start) (h' : f.lineStart? l' = some start')
    (hlt : l < l') : start < start' := by
  obtain ⟨i, rfl⟩ : ∃ i, l' = i + 1 := ⟨l' - 1, by omega⟩
  cases l with
  | zero => cases h
  | succ j =>
    obtain ⟨hj, rfl⟩ := List.getElem?_eq_some_iff.mp h
    obtain ⟨hi, rfl⟩ := List.getElem?_eq_some_iff.mp h'
    exact List.pairwise_iff_getElem.mp f.pairwise_lineStarts j i hj hi (by omega)

theorem lineStart?_le_size (h : f.lineStart? l = some start) : start ≤ f.size := by
  cases l with
  | zero => cases h
  | succ i =>
    rcases List.mem_cons.mp (List.mem_of_getElem? h) with rfl | hmem
    · exact Nat.zero_le _
    · simpa [size] using (lineStartsFrom_bounds hmem).2

/-- A file has the lines from one to their number. -/
theorem lineStart?_eq_none_iff : f.lineStart? l = none ↔ l = 0 ∨ f.lineCount < l := by
  cases l with
  | zero => simp [lineStart?]
  | succ i =>
    rw [lineStart?, List.getElem?_eq_none_iff, lineCount]
    omega

/-! ## The line of an offset -/

/-- The offset is in line `l`: not before its start, and before the next line if there is one. -/
structure LiesIn (f : SourceFile) (l q : Nat) : Prop where
  start : ∃ start, f.lineStart? l = some start ∧ start ≤ q
  next : ∀ next, f.lineStart? (l + 1) = some next → q < next

/-- Later offsets lie in later lines: an earlier line would end before the line of the first offset
begins. -/
theorem LiesIn.le (h : f.LiesIn l q) (h' : f.LiesIn l' q') (hle : q ≤ q') : l ≤ l' := by
  by_contra hlt
  obtain ⟨start, hstart, hq⟩ := h.start
  cases hnext : f.lineStart? (l' + 1) with
  | none =>
    have hcount : f.lineCount < l := by
      have := lineStart?_eq_none_iff.mp hnext
      omega
    rw [lineStart?_eq_none_iff.mpr (.inr hcount)] at hstart
    cases hstart
  | some next =>
    have hq' := h'.next next hnext
    obtain hlast | rfl : l' + 1 < l ∨ l' + 1 = l := by omega
    · have := lineStart?_strictMono hnext hstart hlast
      omega
    · rw [hnext] at hstart
      obtain rfl := Option.some.inj hstart
      omega

theorem LiesIn.unique (h : f.LiesIn l q) (h' : f.LiesIn l' q) : l = l' :=
  Nat.le_antisymm (h.le h' (Nat.le_refl q)) (h'.le h (Nat.le_refl q))

theorem line_position (f : SourceFile) (o : Nat) :
    (f.position o).line = (f.lineStarts.takeWhile (· ≤ min o f.size)).length := rfl

theorem column_position (f : SourceFile) (o : Nat) :
    (f.position o).column =
      min o f.size - (f.lineStarts.takeWhile (· ≤ min o f.size)).getLastD 0 + 1 := rfl

/-- The line of a position is the one that its offset lies in, and the column counts from its start. -/
theorem exists_start_position (f : SourceFile) (o : Nat) :
    f.LiesIn (f.position o).line (min o f.size) ∧
      ∃ start, f.lineStart? (f.position o).line = some start ∧ start ≤ min o f.size ∧
        (f.position o).column = min o f.size - start + 1 := by
  rw [line_position, column_position]
  generalize min o f.size = q
  have hne : f.lineStarts.takeWhile (· ≤ q) ≠ [] := by simp [lineStarts]
  have hsplit := List.takeWhile_append_dropWhile (p := (· ≤ q)) (l := f.lineStarts)
  have hnext := List.head?_dropWhile_not (· ≤ q) f.lineStarts
  obtain ⟨earlier, start, hbefore⟩ : ∃ earlier start,
      f.lineStarts.takeWhile (· ≤ q) = earlier ++ [start] :=
    ⟨_, _, (List.dropLast_concat_getLast hne).symm⟩
  have hle : start ≤ q := by
    have hmem : start ∈ f.lineStarts.takeWhile (· ≤ q) := by simp [hbefore]
    simpa using List.mem_takeWhile_imp hmem
  rw [hbefore] at hsplit ⊢
  generalize f.lineStarts.dropWhile (· ≤ q) = later at hsplit hnext
  have hstart : f.lineStart? (earlier ++ [start]).length = some start := by
    simp [lineStart?, ← hsplit]
  refine ⟨⟨⟨start, hstart, hle⟩, fun next h => ?_⟩, start, hstart, hle, by simp⟩
  rw [lineStart?, ← hsplit, List.getElem?_append_right (Nat.le_refl _), Nat.sub_self,
    ← List.head?_eq_getElem?] at h
  rw [h] at hnext
  simpa using hnext

theorem position_of_liesIn (h : f.LiesIn l q) (hq : q ≤ f.size) (hstart : f.lineStart? l = some start) :
    (f.position q).line = l ∧ (f.position q).column = q - start + 1 := by
  obtain ⟨hlies, start', hstart', -, hcolumn⟩ := f.exists_start_position q
  rw [Nat.min_eq_left hq] at hlies hcolumn
  obtain rfl := hlies.unique h
  rw [hstart] at hstart'
  obtain rfl := Option.some.inj hstart'
  exact ⟨rfl, hcolumn⟩

theorem offset_of_start (m : Arithmetic) (h : f.lineStart? l = some start) {c : Nat}
    (hsum : start + (c - 1) < wordBound) :
    f.offset m l c = .ok (some (min (start + (c - 1)) f.size)) := by
  rw [offset, h]
  dsimp only
  rw [m.add_of_lt hsum]
  rfl

theorem offset_position (hf : f.size < wordBound) (m : Arithmetic) (o : Nat) :
    f.offset m (f.position o).line (f.position o).column = .ok (some (min o f.size)) := by
  obtain ⟨-, start, hstart, hle, hcolumn⟩ := f.exists_start_position o
  have hsum : start + ((f.position o).column - 1) = min o f.size := by omega
  rw [offset_of_start m hstart (by omega), hsum, Nat.min_eq_left (Nat.min_le_right o f.size)]

theorem offset_eq_none_iff (m : Arithmetic) (c : Nat) :
    f.offset m l c = .ok none ↔ l = 0 ∨ f.lineCount < l := by
  rw [← lineStart?_eq_none_iff, offset]
  cases f.lineStart? l with
  | none => exact iff_of_true rfl rfl
  | some start =>
    refine iff_of_false ?_ (Option.some_ne_none start)
    dsimp only
    cases m.add start (c - 1) <;> nofun

theorem position_strictMono {o o' : Nat} (hlt : o < o') (hsize : o' ≤ f.size) :
    Prod.Lex (· < ·) (· < ·) ((f.position o).line, (f.position o).column)
      ((f.position o').line, (f.position o').column) := by
  obtain ⟨hlies, start, hstart, hle, hcolumn⟩ := f.exists_start_position o
  obtain ⟨hlies', start', hstart', hle', hcolumn'⟩ := f.exists_start_position o'
  rw [Nat.min_eq_left hsize] at hlies' hle' hcolumn'
  rw [Nat.min_eq_left (by omega)] at hlies hle hcolumn
  rw [Prod.lex_def]
  obtain hline | hline := Nat.lt_or_eq_of_le (hlies.le hlies' (Nat.le_of_lt hlt))
  · exact .inl hline
  · rw [hline, hstart'] at hstart
    obtain rfl := Option.some.inj hstart
    exact .inr ⟨hline, by omega⟩

theorem column_iff {c : Nat} (hf : f.size < wordBound) (m : Arithmetic)
    (hstart : f.lineStart? l = some start) (hc : 1 ≤ c) :
    (∃ q, f.offset m l c = .ok (some q) ∧ (f.position q).line = l ∧ (f.position q).column = c) ↔
      (∀ next, f.lineStart? (l + 1) = some next → start + c - 1 < next) ∧
        (f.lineStart? (l + 1) = none → start + c - 1 ≤ f.size) := by
  constructor
  · rintro ⟨q, -, hline, hcolumn⟩
    obtain ⟨hlies, start', hstart', hle, hcolumn'⟩ := f.exists_start_position q
    rw [hline, hstart] at hstart'
    obtain rfl := Option.some.inj hstart'
    have hoffset : min q f.size = start + c - 1 := by omega
    rw [hline, hoffset] at hlies
    exact ⟨hlies.next, fun _ => by omega⟩
  · rintro ⟨hnext, hlast⟩
    have hsize : start + c - 1 ≤ f.size := by
      cases h : f.lineStart? (l + 1) with
      | none => exact hlast h
      | some next =>
        have := hnext next h
        have := lineStart?_le_size h
        omega
    have hlies : f.LiesIn l (start + c - 1) := ⟨⟨start, hstart, by omega⟩, hnext⟩
    obtain ⟨hline, hcolumn⟩ := position_of_liesIn hlies hsize hstart
    refine ⟨start + c - 1, ?_, hline, by omega⟩
    rw [offset_of_start m hstart (by omega), Nat.min_eq_left (by omega), Nat.add_sub_assoc hc]

/-- The offsets and positions of a file whose size is a word, both where sums wrap around, so that no
call fails, and where they are checked. A position has the offset that it was made from, moved into the
file, and its line and column lead back to that offset. Within the file, later offsets have later
positions, by line and then by column. A column of a line is that of some offset exactly if the place
that it names lies before the next line, or, in the last line, not after the end of the file. The lines
that lead to no offset are those that the file does not have. -/
theorem position_inverse (f : SourceFile) (hf : f.size < wordBound) (m : Arithmetic) :
    (∀ l c, f.offset .wrapping l c = .ok (f.offsetOf? l c)) ∧
    (∀ o, (f.position o).offset = min o f.size ∧
      f.offset m (f.position o).line (f.position o).column = .ok (some (min o f.size))) ∧
    (∀ o o', o < o' → o' ≤ f.size →
      Prod.Lex (· < ·) (· < ·) ((f.position o).line, (f.position o).column)
        ((f.position o').line, (f.position o').column)) ∧
    (∀ l c start, f.lineStart? l = some start → 1 ≤ c →
      ((∃ q, f.offset m l c = .ok (some q) ∧ (f.position q).line = l ∧ (f.position q).column = c) ↔
        (∀ next, f.lineStart? (l + 1) = some next → start + c - 1 < next) ∧
          (f.lineStart? (l + 1) = none → start + c - 1 ≤ f.size))) ∧
    ∀ l c, f.offset m l c = .ok none ↔ l = 0 ∨ f.lineCount < l :=
  ⟨f.offset_wrapping, fun o => ⟨rfl, offset_position hf m o⟩, fun _ _ => position_strictMono,
    fun _ _ _ => column_iff hf m, fun _ => offset_eq_none_iff m⟩

/-- In the line after an empty one, the last column is that of the line end. -/
theorem position_inverse_empty_line :
    let f : SourceFile := ⟨"", "a\n\nbc\n"⟩
    f.size < wordBound ∧ f.lineStart? 3 = some 3 ∧
      ∃ q, f.offset .checked 3 3 = .ok (some q) ∧ (f.position q).line = 3 ∧
        (f.position q).column = 3 := by
  have hsize : (⟨"", "a\n\nbc\n"⟩ : SourceFile).size < wordBound := by decide +kernel
  have hstart : (⟨"", "a\n\nbc\n"⟩ : SourceFile).lineStart? 3 = some 3 := by decide +kernel
  have hnext : (⟨"", "a\n\nbc\n"⟩ : SourceFile).lineStart? 4 = some 6 := by decide +kernel
  obtain ⟨-, -, -, hcolumn, -⟩ := position_inverse ⟨"", "a\n\nbc\n"⟩ hsize .checked
  refine ⟨hsize, hstart, (hcolumn 3 3 3 hstart (by omega)).mpr ?_⟩
  simp [hnext]

/-- The last column that there is, in a line after the first one: the sum is no word. -/
example :
    let f : SourceFile := ⟨"", "abc\ndef\n"⟩
    f.offset .wrapping 2 18446744073709551615 = .ok (some 2) ∧
      f.offset .checked 2 18446744073709551615 = .error ⟨4, 18446744073709551614⟩ := by
  decide +kernel

end SourceFile

end Unbox
