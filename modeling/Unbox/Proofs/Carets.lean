import Unbox.Diagnostic
import Unbox.Proofs.Lines

/-!
# Carets under a span

A diagnostic shows the line in which its span begins, with carets below the bytes of the span. The carets
are counted by columns if the span ends in that line and by the length of the line if it does not; in
files without carriage returns, both count the bytes of the span up to the end of the line's text.

* `SourceFile.exists_lineOf_position` : the line of a position, cut out of the text of the file;
* `LineOf.bounds`, `LineOf.lt_of_lt` : an offset of the line lies in its text or at the end of it, one of
  a later line after it;
* `Diagnostic.caretCount_eq` : how many carets there are, for spans that stay in a line or leave it;
* `Diagnostic.render_marks` : the line and the carets in the text of a diagnostic.
-/

namespace Unbox

theorem byteCount_eq_utf8ByteSize (cs : List Char) : byteCount cs = (String.ofList cs).utf8ByteSize := by
  induction cs with
  | nil => rfl
  | cons c cs ih =>
    have hsplit : String.ofList (c :: cs) = String.singleton c ++ String.ofList cs := by
      rw [String.singleton_eq_ofList, ← String.ofList_append]
      rfl
    rw [byteCount_cons, ih, hsplit, String.utf8ByteSize_append, String.utf8ByteSize_singleton]

/-! ## The line of a position -/

theorem SourceFile.exists_lineOf_position (f : SourceFile) (o : Nat) :
    ∃ n before text after, LineOf f.content.toList n before text after ∧
      (f.position o).line = n + 1 := by
  obtain ⟨-, start, hstart, -, -⟩ := f.exists_start_position o
  have hline : ¬((f.position o).line = 0 ∨ f.lineCount < (f.position o).line) := by
    rw [← lineStart?_eq_none_iff, hstart]
    exact Option.some_ne_none start
  obtain ⟨n, hn⟩ : ∃ n, (f.position o).line = n + 1 := ⟨(f.position o).line - 1, by omega⟩
  obtain ⟨before, text, after, hl, -⟩ := f.exists_lineOf (n := n) (by omega)
  exact ⟨n, before, text, after, hl, hn⟩

namespace LineOf
variable {f : SourceFile} {n n' o : Nat} {before text after before' text' after' : List Char}

/-- An offset of a line lies in its text or at the end of it, where the line feed is. -/
theorem bounds (hl : LineOf f.content.toList n before text after) (ho : o ≤ f.size)
    (hline : (f.position o).line = n + 1) :
    byteCount before ≤ o ∧ o ≤ byteCount before + byteCount text ∧
      (f.position o).column = o - byteCount before + 1 := by
  obtain ⟨hlies, start, hstart, hle, hcolumn⟩ := f.exists_start_position o
  rw [Nat.min_eq_left ho] at hlies hle hcolumn
  rw [hline] at hlies hstart
  obtain rfl := Option.some.inj (hl.lineStart?.symm.trans hstart)
  refine ⟨hle, ?_, hcolumn⟩
  rcases hl.lineStart?_next with ⟨rfl, -⟩ | ⟨rest, rfl, hnext⟩
  · have hsize : f.size = byteCount before + byteCount text := hl.size
    omega
  · exact Nat.lt_succ_iff.mp (hlies.next _ hnext)

theorem lt_of_lt (hl : LineOf f.content.toList n before text after)
    (hl' : LineOf f.content.toList n' before' text' after') (hlt : n < n') :
    byteCount before + byteCount text < byteCount before' := by
  have hstart' := hl'.lineStart?
  rcases hl.lineStart?_next with ⟨-, hnext⟩ | ⟨rest, -, hnext⟩
  · have hcount := SourceFile.lineStart?_eq_none_iff.mp hnext
    rw [SourceFile.lineStart?_eq_none_iff.mpr (by omega)] at hstart'
    cases hstart'
  · obtain hlater | rfl : n + 2 < n' + 1 ∨ n' = n + 1 := by omega
    · have := SourceFile.lineStart?_strictMono hnext hstart' hlater
      omega
    · have := Option.some.inj (hnext.symm.trans hstart')
      omega

end LineOf

namespace Diagnostic
variable {f : SourceFile} {i : FileId} {s e n : Nat} {before text after : List Char}

/-! ## Carets -/

/-- There is a caret for each byte of the span up to the end of the text of its first line, and at least
one. -/
theorem caretCount_eq (hl : LineOf f.content.toList n before text after)
    (hline : (f.position s).line = n + 1) (hse : s ≤ e) (he : e ≤ f.size) :
    caretCount ⟨f.position s, f.position e, i⟩ (.ofList text) =
      max 1 (min e (byteCount before + byteCount text) - s) := by
  obtain ⟨hs, -, hcolumn⟩ := hl.bounds (Nat.le_trans hse he) hline
  obtain ⟨n', before', text', after', hl', hline'⟩ := f.exists_lineOf_position e
  obtain ⟨hs', he', hcolumn'⟩ := hl'.bounds he hline'
  rw [caretCount, Span.isSingleLine, ← byteCount_eq_utf8ByteSize, Nat.max_comm 1]
  dsimp only
  rw [hline, hline', hcolumn]
  congr 1
  rcases Nat.lt_trichotomy n n' with hlt | rfl | hgt
  · have := hl.lt_of_lt hl' hlt
    rw [if_neg (by rw [beq_iff_eq]; omega)]
    omega
  · obtain ⟨-, hstop, hcolumn'⟩ := hl.bounds he hline'
    rw [if_pos (beq_self_eq_true _), hcolumn']
    omega
  · have := hl'.lt_of_lt hl hgt
    omega

/-! ## The text of a diagnostic -/

theorem exists_lines {d : Diagnostic} {m : SourceMap} {span : Span} {line : String}
    (hspan : d.span = some span) (hfile : m.file? span.file = some f)
    (hline : f.line? span.start.line = some line) :
    ∃ below, d.lines m =
      d.heading :: placeText f.name span.start :: (d.excerpt span line ++ below) := by
  have hname : m.fileName? span.file = some f.name := by
    rw [SourceMap.fileName?, hfile]
    rfl
  have htext : m.line? span.file span.start.line = some line := by
    rw [SourceMap.line?, hfile]
    exact hline
  refine ⟨d.secondaryLines m ++ d.help.map ("  = help: " ++ ·) ++ d.notes.map ("  = note: " ++ ·), ?_⟩
  simp [lines, hspan, snippet, hname, htext]

/-- The text behind the carets: a blank and the message of a primary label, if there is one. -/
theorem exists_excerpt (d : Diagnostic) (span : Span) (line : String) :
    ∃ label, (label = "" ∨ ∃ l ∈ d.labels, l.style = .primary ∧ label = " " ++ l.message) ∧
      d.excerpt span line =
        [repeated span.start.line.repr.length ' ' ++ " |", span.start.line.repr ++ " | " ++ line,
          repeated span.start.line.repr.length ' ' ++ " | " ++ carets span line ++ label] := by
  cases h : d.labels.find? fun l => l.style == .primary with
  | none => exact ⟨"", .inl rfl, by rw [excerpt, h]⟩
  | some l =>
    refine ⟨" " ++ l.message, .inr ⟨l, List.mem_of_find?_eq_some h, ?_, rfl⟩, by rw [excerpt, h]⟩
    simpa using List.find?_some h

/-- Let the span of a diagnostic go from `s` to `e` in a file without carriage returns. The text of the
diagnostic shows the line that `s` lies in, after its number, and below it, after as many blanks as the
number has digits, blanks up to the column of `s` and a caret for each byte of the span up to the end of
the text of the line, and at least one. Behind the carets there is nothing, or a label after a blank. -/
theorem render_marks {m : SourceMap} {d : Diagnostic} (hfile : m.file? i = some f)
    (hplain : '\r' ∉ f.content.toList) (hse : s ≤ e) (he : e ≤ f.size)
    (hspan : d.span = m.spanOf? i s e) :
    ∃ (n : Nat) (before text after : List Char) (label : String) (below : List String),
      LineOf f.content.toList n before text after ∧
      byteCount before ≤ s ∧ s ≤ byteCount before + byteCount text ∧
      (f.position s).column - 1 = s - byteCount before ∧
      (label = "" ∨ ∃ l ∈ d.labels, l.style = .primary ∧ label = " " ++ l.message) ∧
      d.render m = String.join ((
        [d.heading,
          placeText f.name (f.position s),
          repeated (n + 1).repr.length ' ' ++ " |",
          (n + 1).repr ++ " | " ++ .ofList text,
          repeated (n + 1).repr.length ' ' ++ " | " ++ (repeated ((f.position s).column - 1) ' ' ++
            repeated (max 1 (min e (byteCount before + byteCount text) - s)) '^') ++ label] ++
        below).map (· ++ "\n")) := by
  obtain ⟨n, before, text, after, hl, hline⟩ := f.exists_lineOf_position s
  obtain ⟨hs, hstop, hcolumn⟩ := hl.bounds (Nat.le_trans hse he) hline
  have hshown : f.line? (f.position s).line = some (.ofList text) := by
    rw [hline]
    exact hl.line?_of_plain hplain
  have hplace : d.span = some ⟨f.position s, f.position e, i⟩ := by
    rw [hspan, SourceMap.spanOf?, hfile]
    rfl
  obtain ⟨label, hlabel, hexcerpt⟩ := d.exists_excerpt ⟨f.position s, f.position e, i⟩ (.ofList text)
  rw [carets, caretCount_eq hl hline hse he] at hexcerpt
  dsimp only at hexcerpt
  rw [hline] at hexcerpt
  obtain ⟨below, hlines⟩ := exists_lines hplace hfile hshown
  refine ⟨n, before, text, after, label, below, hl, hs, hstop, by omega, hlabel, ?_⟩
  rw [render, hlines, hexcerpt]
  rfl

/-- A file whose second line has three characters in four bytes. -/
def twoLines : SourceFile := ⟨"run", "a\néb;\n"⟩

/-- A diagnostic for the second line from its second character on, and for the line feed behind it. -/
def overrunning : Diagnostic where
  severity := .error
  message := "unknown"
  span := (⟨#[twoLines]⟩ : SourceMap).spanOf? ⟨0⟩ 4 7

theorem render_marks_overrunning :
    overrunning.span = (⟨#[twoLines]⟩ : SourceMap).spanOf? ⟨0⟩ 4 7 ∧
    ∃ (n : Nat) (before text after : List Char) (label : String) (below : List String),
      LineOf twoLines.content.toList n before text after ∧
      byteCount before ≤ 4 ∧ 4 ≤ byteCount before + byteCount text ∧
      (twoLines.position 4).column - 1 = 4 - byteCount before ∧
      (label = "" ∨ ∃ l ∈ overrunning.labels, l.style = .primary ∧ label = " " ++ l.message) ∧
      overrunning.render ⟨#[twoLines]⟩ = String.join ((
        [overrunning.heading,
          placeText twoLines.name (twoLines.position 4),
          repeated (n + 1).repr.length ' ' ++ " |",
          (n + 1).repr ++ " | " ++ .ofList text,
          repeated (n + 1).repr.length ' ' ++ " | " ++ (repeated ((twoLines.position 4).column - 1) ' ' ++
            repeated (max 1 (min 7 (byteCount before + byteCount text) - 4)) '^') ++ label] ++
        below).map (· ++ "\n")) :=
  ⟨rfl, render_marks rfl (by decide +kernel) (by decide) (by decide +kernel) rfl⟩

end Diagnostic

end Unbox
