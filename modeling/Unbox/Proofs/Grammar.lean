import Mathlib.Data.List.DropRight
import Unbox.Json
import Unbox.Json.Reader
import Unbox.Proofs.Lines

/-!
# The grammar of JSON text

What a JSON text is made of, said without the readers, and that the readers read it: each one takes
exactly the phrase that it is given and leaves the text after it.

* `IsBlanks`, `Spells`, `IsUnsigned` : blanks, the characters of a text between quotes with what they
  stand for, and numbers without a sign;
* `Derives` : values, the elements of an array and the members of an object, nested as deep as one likes;
* `Stops` : what can stand after a value, so that a number does not go on;
* `readText_append`, `readNatural_append` : texts and natural numbers are read with their value;
* `spells_escape` : what is written for a text stands for it;
* `Derives.skipped` : every value is passed over.
-/

namespace Unbox.Json

@[simp] theorem ok_bind {α β : Type} (a : α) (f : α → Except Problem β) :
    (Except.ok a >>= f) = f a := rfl

/-! ## Blanks and words -/

def IsBlanks (cs : List Char) : Prop := ∀ c ∈ cs, isBlank c = true

instance (cs : List Char) : Decidable (IsBlanks cs) :=
  List.decidableBAll (fun c => isBlank c = true) cs

theorem mem_of_isBlank {c : Char} (h : isBlank c = true) : c ∈ [' ', '\n', '\t', '\r'] := by
  simpa [isBlank, or_assoc] using h

theorem skipBlanks_append {a : List Char} (h : IsBlanks a) (cs : List Char) :
    skipBlanks (a ++ cs) = skipBlanks cs :=
  List.dropWhile_append_of_pos h

theorem skipBlanks_cons {c : Char} (h : isBlank c = false) (cs : List Char) :
    skipBlanks (c :: cs) = c :: cs :=
  List.dropWhile_cons_of_neg (by simp [h])

theorem skipBlanks_skipBlanks (cs : List Char) : skipBlanks (skipBlanks cs) = skipBlanks cs :=
  List.dropWhile_idempotent isBlank cs

theorem readWord_append (w cs : List Char) : readWord w (w ++ cs) = .ok ((), cs) := by
  induction w with
  | nil => rfl
  | cons c w ih => rw [List.cons_append, readWord, if_pos rfl, ih]

/-! ## Texts -/

/-- Four hexadecimal digits and their value. -/
inductive IsCodeUnit : Nat → List Char → Prop
  | mk {w x y z : Char} {a b c d : Nat} (hw : hexValue? w = some a) (hx : hexValue? x = some b)
      (hy : hexValue? y = some c) (hz : hexValue? z = some d) :
      IsCodeUnit (4096 * a + 256 * b + 16 * c + d) [w, x, y, z]

/-- A character given by its number, and the text that it stands for. A character outside of the basic
plane is given by a leading and a trailing half; a half that stands alone is no character. -/
inductive IsCodePoint : List Char → List Char → Prop
  | basic {n : Nat} {u : List Char} (h : IsCodeUnit n u) (hn : n < 0xD800 ∨ 0xDFFF < n) :
      IsCodePoint u [Char.ofNat n]
  | halves {n m : Nat} {u v : List Char} (hu : IsCodeUnit n u) (hv : IsCodeUnit m v)
      (hn : 0xD800 ≤ n ∧ n ≤ 0xDBFF) (hm : 0xDC00 ≤ m ∧ m ≤ 0xDFFF) :
      IsCodePoint (u ++ '\\' :: 'u' :: v)
        [Char.ofNat (0x10000 + (n - 0xD800) * 0x400 + (m - 0xDC00))]

/-- A number that does not have to be that of a character; what it stands for does not matter. -/
def IsAnyCodeUnit (u x : List Char) : Prop := x = [] ∧ ∃ n, IsCodeUnit n u

/-- The letters that stand behind a backslash and the characters that they stand for. -/
def letters : List (Char × Char) :=
  [('"', '"'), ('\\', '\\'), ('/', '/'), ('b', '\x08'), ('f', '\x0c'), ('n', '\n'), ('r', '\r'),
    ('t', '\t')]

/-- The characters between two quotes and the text that they stand for; `codePoint` says what the numbers
stand for. -/
inductive Spells (codePoint : List Char → List Char → Prop) : List Char → List Char → Prop
  | nil : Spells codePoint [] []
  | plain {c : Char} {lit text : List Char} (hquote : c ≠ '"') (hslash : c ≠ '\\')
      (hcontrol : 32 ≤ c.toNat) (h : Spells codePoint lit text) :
      Spells codePoint (c :: lit) (c :: text)
  | letter {c x : Char} {lit text : List Char} (hx : (c, x) ∈ letters)
      (h : Spells codePoint lit text) : Spells codePoint ('\\' :: c :: lit) (x :: text)
  | number {u x lit text : List Char} (hx : codePoint u x) (h : Spells codePoint lit text) :
      Spells codePoint ('\\' :: 'u' :: (u ++ lit)) (x ++ text)

/-- The characters between two quotes of a text that does not matter. -/
def IsLiteral (lit : List Char) : Prop := ∃ text, Spells IsAnyCodeUnit lit text

theorem readHex_append {n : Nat} {u : List Char} (h : IsCodeUnit n u) (cs : List Char) :
    readHex (u ++ cs) = .ok (n, cs) := by
  cases h with
  | @mk w x y z a b c d hw hx hy hz =>
    have hsize : ¬byteCount [w, x, y, z] < 4 := by
      have := w.utf8Size_pos
      have := x.utf8Size_pos
      have := y.utf8Size_pos
      have := z.utf8Size_pos
      simp only [byteCount_cons, byteCount_nil]
      omega
    have hvalue : 16 * (16 * (16 * (16 * 0 + a) + b) + c) + d = 4096 * a + 256 * b + 16 * c + d := by
      omega
    have htake : ([w, x, y, z] ++ cs).take 4 = [w, x, y, z] := rfl
    rw [readHex, htake, if_neg hsize, ← hvalue]
    simp [hw, hx, hy, hz]

theorem isLeading_iff {n : Nat} : isLeading n = true ↔ 0xD800 ≤ n ∧ n ≤ 0xDBFF := by
  simp [isLeading]

theorem isTrailing_iff {n : Nat} : isTrailing n = true ↔ 0xDC00 ≤ n ∧ n ≤ 0xDFFF := by
  simp [isTrailing]

theorem readCodePoint_append {u x : List Char} (h : IsCodePoint u x) (cs : List Char) :
    readCodePoint (u ++ cs) = .ok (x, cs) := by
  cases h with
  | @basic n u h hn =>
    simp only [readCodePoint, readHex_append h, ok_bind]
    have htrailing : ¬isTrailing n = true := by rw [isTrailing_iff]; omega
    have hleading : ¬isLeading n = true := by rw [isLeading_iff]; omega
    rw [if_neg htrailing, if_neg hleading]
    rfl
  | @halves n m u v hu hv hn hm =>
    simp only [readCodePoint, List.append_assoc, readHex_append hu, ok_bind, List.cons_append]
    have htrailing : ¬isTrailing n = true := by rw [isTrailing_iff]; omega
    rw [if_neg htrailing, if_pos (isLeading_iff.mpr hn)]
    simp only [readWord, if_true, ok_bind, readHex_append hv]
    rw [if_pos (isTrailing_iff.mpr hm)]
    rfl

theorem skipCodePoint_append {u x : List Char} (h : IsAnyCodeUnit u x) (cs : List Char) :
    skipCodePoint (u ++ cs) = .ok (x, cs) := by
  obtain ⟨rfl, n, hn⟩ := h
  rw [skipCodePoint, readHex_append hn]
  rfl

theorem letterEscape?_of_mem {c x : Char} (h : (c, x) ∈ letters) :
    c ≠ 'u' ∧ letterEscape? c = some x := by
  have hall : ∀ l ∈ letters, l.1 ≠ 'u' ∧ letterEscape? l.1 = some l.2 := by decide
  exact hall (c, x) h

/-- One induction for both readers: what stands between the quotes is read to its end. -/
theorem readTextWithin_append {codePoint : Read (List Char)} {isCodePoint : List Char → List Char → Prop}
    (hread : ∀ {u x : List Char} (cs : List Char), isCodePoint u x → codePoint (u ++ cs) = .ok (x, cs))
    {lit text : List Char} (h : Spells isCodePoint lit text) (cs : List Char) {fuel : Nat}
    (hfuel : lit.length < fuel) : readTextWithin codePoint fuel (lit ++ '"' :: cs) = .ok (text, cs) := by
  induction h generalizing fuel with
  | nil =>
    obtain ⟨fuel, rfl⟩ := Nat.exists_eq_add_one.mpr hfuel
    rfl
  | plain hquote hslash hcontrol _ ih =>
    obtain ⟨fuel, rfl⟩ := Nat.exists_eq_add_one.mpr (Nat.zero_lt_of_lt hfuel)
    rw [List.length_cons] at hfuel
    rw [List.cons_append, readTextWithin, if_neg hquote, if_neg hslash, if_neg (by omega),
      ih (by omega)]
    rfl
  | letter hx _ ih =>
    obtain ⟨fuel, rfl⟩ := Nat.exists_eq_add_one.mpr (Nat.zero_lt_of_lt hfuel)
    obtain ⟨hu, hletter⟩ := letterEscape?_of_mem hx
    simp only [List.length_cons] at hfuel
    rw [List.cons_append, List.cons_append, readTextWithin, if_neg (by decide), if_pos rfl, readEscape,
      if_neg hu, hletter]
    simp only [ok_bind, ih (Nat.lt_of_succ_lt (Nat.lt_of_succ_lt_succ hfuel))]
    rfl
  | number hx _ ih =>
    obtain ⟨fuel, rfl⟩ := Nat.exists_eq_add_one.mpr (Nat.zero_lt_of_lt hfuel)
    simp only [List.length_cons, List.length_append] at hfuel
    rw [List.cons_append, List.cons_append, List.append_assoc, readTextWithin, if_neg (by decide),
      if_pos rfl, readEscape, if_pos rfl, hread _ hx]
    simp only [ok_bind, @ih fuel (by omega)]
    rfl

theorem readText_append {lit text : List Char} (h : Spells IsCodePoint lit text) (cs : List Char) :
    readText (lit ++ '"' :: cs) = .ok (text, cs) :=
  readTextWithin_append (fun _ hx => readCodePoint_append hx _) h cs (by simp)

theorem skipText_append {lit : List Char} (h : IsLiteral lit) (cs : List Char) :
    skipText (lit ++ '"' :: cs) = .ok ((), cs) := by
  obtain ⟨text, htext⟩ := h
  rw [skipText, readTextWithin_append (fun _ hx => skipCodePoint_append hx _) htext cs (by simp)]
  rfl

/-! ### Texts that are written -/

/-- How a character is written: a letter behind a backslash, its number, or itself. -/
theorem escape_cases (c : Char) :
    (∃ x, (x, c) ∈ letters ∧ escape c = ['\\', x]) ∨
    (c.toNat < 32 ∧
      escape c = ['\\', 'u', '0', '0', hexDigit (c.toNat / 16), hexDigit (c.toNat % 16)]) ∨
    (c ≠ '"' ∧ c ≠ '\\' ∧ 32 ≤ c.toNat ∧ escape c = [c]) := by
  by_cases hmem : c ∈ ['"', '\\', '\n', '\r', '\t', '\x08', '\x0c']
  · have hall : ['"', '\\', '\n', '\r', '\t', '\x08', '\x0c'].all fun d =>
        letters.any fun l => l.2 == d && escape d == ['\\', l.1] := by decide
    obtain ⟨⟨x, y⟩, hl, hx⟩ := List.any_eq_true.mp (List.all_eq_true.mp hall c hmem)
    obtain ⟨rfl, hx⟩ : y = c ∧ escape c = ['\\', x] := by simpa using hx
    exact .inl ⟨x, hl, hx⟩
  · simp only [List.mem_cons, List.not_mem_nil, or_false, not_or] at hmem
    obtain ⟨hquote, hslash, hrest⟩ := hmem
    by_cases hcontrol : c.toNat < 32
    · exact .inr (.inl ⟨hcontrol, by simp [escape, hquote, hslash, hrest, hcontrol]⟩)
    · refine .inr (.inr ⟨hquote, hslash, by omega, ?_⟩)
      simp [escape, hquote, hslash, hrest, hcontrol]

theorem hexValue?_hexDigit {n : Nat} (h : n < 16) : hexValue? (hexDigit n) = some n := by
  have hall : ∀ k < 16, hexValue? (hexDigit k) = some k := by decide
  exact hall n h

theorem spells_escape (cs : List Char) : Spells IsCodePoint (cs.flatMap escape) cs := by
  induction cs with
  | nil => exact .nil
  | cons c cs ih =>
    rw [List.flatMap_cons]
    rcases escape_cases c with ⟨x, hx, hc⟩ | ⟨hcontrol, hc⟩ | ⟨hquote, hslash, hcontrol, hc⟩
    · rw [hc]
      exact .letter hx ih
    · have hunit : IsCodeUnit c.toNat ['0', '0', hexDigit (c.toNat / 16), hexDigit (c.toNat % 16)] := by
        have := IsCodeUnit.mk (w := '0') (x := '0') (a := 0) (b := 0) rfl rfl
          (hexValue?_hexDigit (n := c.toNat / 16) (by omega))
          (hexValue?_hexDigit (n := c.toNat % 16) (by omega))
        rwa [show 4096 * 0 + 256 * 0 + 16 * (c.toNat / 16) + c.toNat % 16 = c.toNat by omega] at this
      have hpoint := IsCodePoint.basic hunit (.inl (by omega))
      rw [Char.ofNat_toNat] at hpoint
      rw [hc]
      exact .number hpoint ih
    · rw [hc]
      exact .plain hquote hslash hcontrol ih
/-! ## What stands after a value -/

/-- What can stand after a value inside of an array or object: a blank, a comma or what closes it. -/
def Stops (cs : List Char) : Prop :=
  ∃ c rest, cs = c :: rest ∧ (isBlank c = true ∨ c = ',' ∨ c = ']' ∨ c = '}')

theorem stops_cons {c : Char} (h : c = ',' ∨ c = ']' ∨ c = '}') (cs : List Char) : Stops (c :: cs) :=
  ⟨c, cs, rfl, .inr h⟩

theorem Stops.blanks {a cs : List Char} (ha : IsBlanks a) (h : Stops cs) : Stops (a ++ cs) := by
  cases a with
  | nil => exact h
  | cons c a => exact ⟨c, a ++ cs, rfl, .inl (ha c List.mem_cons_self)⟩

theorem Stops.cases {cs : List Char} (h : Stops cs) :
    ∃ c rest, cs = c :: rest ∧ c.isDigit = false ∧ c ≠ '.' ∧ isExponentMark c = false := by
  obtain ⟨c, rest, rfl, hc⟩ := h
  refine ⟨c, rest, rfl, ?_⟩
  have hmem : c ∈ [' ', '\n', '\t', '\r'] ++ [',', ']', '}'] :=
    List.mem_append.mpr (hc.imp mem_of_isBlank (by simp))
  have hall : ([' ', '\n', '\t', '\r'] ++ [',', ']', '}']).all fun d =>
      !d.isDigit && !(d == '.') && !isExponentMark d := by decide
  simpa [and_assoc] using List.all_eq_true.mp hall c hmem

theorem Stops.digits {cs : List Char} (h : Stops cs) : ∀ c ∈ cs.head?, c.isDigit = false := by
  obtain ⟨c, rest, rfl, hc, -⟩ := h.cases
  rintro d ⟨⟩
  exact hc

/-! ## Numbers -/

def IsDigits (cs : List Char) : Prop := cs ≠ [] ∧ ∀ c ∈ cs, c.isDigit = true

/-- A zero, or digits that do not begin with one. -/
def IsWhole (cs : List Char) : Prop := cs = ['0'] ∨ IsDigits cs ∧ cs.head? ≠ some '0'

def IsFraction (cs : List Char) : Prop := cs = [] ∨ ∃ ds, IsDigits ds ∧ cs = '.' :: ds

def IsExponent (cs : List Char) : Prop :=
  cs = [] ∨ ∃ mark sign ds, (mark = 'e' ∨ mark = 'E') ∧ (sign = [] ∨ sign = ['+'] ∨ sign = ['-']) ∧
    IsDigits ds ∧ cs = mark :: (sign ++ ds)

/-- A number without a sign: its whole part, and a fraction and an exponent if there are any. -/
def IsUnsigned (cs : List Char) : Prop :=
  ∃ whole fraction exponent, IsWhole whole ∧ IsFraction fraction ∧ IsExponent exponent ∧
    cs = whole ++ (fraction ++ exponent)

/-- Digits are taken up to the first character that is none. -/
theorem span_digits {ds : List Char} (hds : ∀ c ∈ ds, c.isDigit = true) {cs : List Char}
    (hcs : ∀ c ∈ cs.head?, c.isDigit = false) :
    (ds ++ cs).takeWhile Char.isDigit = ds ∧ (ds ++ cs).dropWhile Char.isDigit = cs := by
  rw [List.takeWhile_append_of_pos hds, List.dropWhile_append_of_pos hds]
  cases cs with
  | nil => simp
  | cons c cs =>
    have hc := hcs c rfl
    simp [hc]

theorem skipExponent_append {sign ds cs : List Char} (hsign : sign = [] ∨ sign = ['+'] ∨ sign = ['-'])
    (hds : IsDigits ds) (hcs : Stops cs) : skipExponent (sign ++ (ds ++ cs)) = .ok ((), cs) := by
  obtain ⟨hne, hdigits⟩ := hds
  obtain ⟨d, more, rfl⟩ := List.exists_cons_of_ne_nil hne
  have hd : d.isDigit = true := hdigits d List.mem_cons_self
  have hplus : d ≠ '+' := by rintro rfl; cases hd
  have hminus : d ≠ '-' := by rintro rfl; cases hd
  have hmore := (span_digits (fun c hc => hdigits c (List.mem_cons_of_mem _ hc)) hcs.digits).2
  rcases hsign with rfl | rfl | rfl <;> simp [skipExponent, hd, hmore, hplus, hminus]

theorem IsExponent.digits {exponent cs : List Char} (he : IsExponent exponent) (hcs : Stops cs) :
    ∀ c ∈ (exponent ++ cs).head?, c.isDigit = false := by
  rcases he with rfl | ⟨mark, sign, es, hmark, hsign, hes, rfl⟩
  · exact hcs.digits
  · rintro d ⟨⟩
    rcases hmark with rfl | rfl <;> rfl

theorem IsFraction.digits {fraction exponent cs : List Char} (hf : IsFraction fraction)
    (he : IsExponent exponent) (hcs : Stops cs) :
    ∀ c ∈ (fraction ++ (exponent ++ cs)).head?, c.isDigit = false := by
  rcases hf with rfl | ⟨ds, hds, rfl⟩
  · exact he.digits hcs
  · rintro d ⟨⟩
    rfl

theorem skipNumberEnd_append {fraction exponent cs : List Char} (hf : IsFraction fraction)
    (he : IsExponent exponent) (hcs : Stops cs) :
    skipNumberEnd (fraction ++ (exponent ++ cs)) = .ok ((), cs) := by
  have hspan (ds : List Char) (hds : IsDigits ds) := span_digits hds.2 (he.digits hcs)
  obtain ⟨c, rest, rfl, hdigit, hpoint, hmark⟩ := hcs.cases
  rcases he with rfl | ⟨mark, sign, es, hmark', hsign, hes, rfl⟩
  · rcases hf with rfl | ⟨ds, hds, rfl⟩
    · simp [skipNumberEnd, hpoint, hmark]
    · obtain ⟨htake, hdrop⟩ := hspan ds hds
      obtain ⟨d, more, rfl⟩ := List.exists_cons_of_ne_nil hds.1
      rw [List.cons_append, skipNumberEnd, if_pos rfl, htake, hdrop]
      simp [hmark]
  · have hskip := skipExponent_append hsign hes hcs
    rcases hf with rfl | ⟨ds, hds, rfl⟩
    · rcases hmark' with rfl | rfl <;> simpa [skipNumberEnd, isExponentMark] using hskip
    · obtain ⟨htake, hdrop⟩ := hspan ds hds
      obtain ⟨d, more, rfl⟩ := List.exists_cons_of_ne_nil hds.1
      rw [List.cons_append, skipNumberEnd, if_pos rfl, htake, hdrop]
      rcases hmark' with rfl | rfl <;> simpa [isExponentMark] using hskip

theorem skipNumber_append {v cs : List Char} (h : IsUnsigned v) (hcs : Stops cs) :
    skipNumber (v ++ cs) = .ok ((), cs) := by
  obtain ⟨whole, fraction, exponent, hw, hf, he, rfl⟩ := h
  have hend := skipNumberEnd_append hf he hcs
  have hdigit := hf.digits he hcs
  rw [List.append_assoc, List.append_assoc]
  generalize fraction ++ (exponent ++ cs) = tail at hend hdigit
  rcases hw with rfl | ⟨⟨hne, hdigits⟩, hzero⟩
  · have hhead : tail.head?.any Char.isDigit = false := by
      cases tail with
      | nil => rfl
      | cons c tail => exact hdigit c rfl
    simpa [skipNumber, hhead] using hend
  · obtain ⟨d, more, rfl⟩ := List.exists_cons_of_ne_nil hne
    have hd : d.isDigit = true := hdigits d List.mem_cons_self
    have hnz : d ≠ '0' := by rintro rfl; exact hzero rfl
    have hdrop := (span_digits (fun c hc => hdigits c (List.mem_cons_of_mem _ hc)) hdigit).2
    simpa [skipNumber, hd, hnz, hdrop] using hend

/-! ### Natural numbers -/

theorem le_ofDigitChars (ds : List Char) (n : Nat) : n ≤ Nat.ofDigitChars 10 ds n := by
  induction ds generalizing n with
  | nil => simp
  | cons d ds ih =>
    rw [Nat.ofDigitChars_cons]
    exact Nat.le_trans (by omega) (ih _)

/-- Digits whose value fits into 64 bits are all taken up. -/
theorem absorb_eq {ds : List Char} {n : Nat} (count : Nat)
    (h : Nat.ofDigitChars 10 ds n ≤ maxNatural) :
    absorb n count ds = (Nat.ofDigitChars 10 ds n, count + ds.length) := by
  induction ds generalizing n count with
  | nil => simp [absorb]
  | cons d ds ih =>
    rw [Nat.ofDigitChars_cons] at h ⊢
    have hnext : ¬maxNatural < 10 * n + digitValue d :=
      Nat.not_lt.mpr (Nat.le_trans (le_ofDigitChars ds _) h)
    simp only [absorb, if_neg hnext]
    rw [digitValue, ih (count + 1) h, List.length_cons, Nat.add_right_comm, ← Nat.add_assoc]

/-- Only zero is written with a zero at the front. -/
theorem eq_zero_of_head_toDigits {n : Nat} (h : (Nat.toDigits 10 n).head? = some '0') : n = 0 := by
  induction n using Nat.strongRecOn with
  | ind n ih =>
    by_cases hn : n < 10
    · rw [Nat.toDigits_of_lt_base hn] at h
      have hall : ∀ k < 10, k.digitChar = '0' → k = 0 := by decide
      exact hall n hn (Option.some.inj h)
    · rw [Nat.toDigits_of_base_le (by decide) (by omega),
        List.head?_append_of_ne_nil _ Nat.toDigits_ne_nil] at h
      have := ih (n / 10) (by omega) h
      omega

theorem readNumber_append {n : Nat} (hn : n ≤ maxNatural) {cs : List Char} (hcs : Stops cs) :
    readNumber false (Nat.toDigits 10 n ++ cs) = .ok (.natural n, cs) := by
  obtain ⟨d, more, hdigits⟩ := List.exists_cons_of_ne_nil (Nat.toDigits_ne_nil (n := n) (b := 10))
  have hall : ∀ c ∈ d :: more, c.isDigit = true := fun c hc =>
    Nat.isDigit_of_mem_toDigits (by decide) (by decide) (hdigits ▸ hc)
  have hd := hall d List.mem_cons_self
  obtain ⟨htake, hdrop⟩ := span_digits (fun c hc => hall c (List.mem_cons_of_mem _ hc)) hcs.digits
  have hvalue : Nat.ofDigitChars 10 more (digitValue d) = n := by
    have := Nat.ofDigitChars_ten_toDigits (n := n)
    rw [hdigits, Nat.ofDigitChars_cons, Nat.mul_zero, Nat.zero_add] at this
    exact this
  have habsorb := @absorb_eq more (digitValue d) 0 (by omega)
  rw [hvalue, Nat.zero_add] at habsorb
  have hzero : (decide (d = '0') && !more.isEmpty) = false := by
    by_cases h : d = '0'
    · have hn0 := eq_zero_of_head_toDigits (n := n) (by rw [hdigits, h]; rfl)
      rw [hn0, Nat.toDigits_zero] at hdigits
      simp [(List.cons.inj hdigits).2.symm]
    · simp [h]
  obtain ⟨c, rest, rfl, -, hpoint, hmark⟩ := hcs.cases
  rw [hdigits]
  simp [readNumber, hd, htake, hdrop, habsorb, hpoint, hmark, hzero, readNumber.whole]

theorem not_isBlank_of_isDigit {c : Char} (h : c.isDigit = true) : isBlank c = false := by
  have hall : [' ', '\n', '\t', '\r'].all fun d => !d.isDigit := by decide
  cases hb : isBlank c with
  | false => rfl
  | true => simpa [h] using List.all_eq_true.mp hall c (mem_of_isBlank hb)

theorem readNatural_append {a : List Char} (ha : IsBlanks a) {n : Nat} (hn : n ≤ maxNatural)
    {cs : List Char} (hcs : Stops cs) :
    readNatural (a ++ (Nat.toDigits 10 n ++ cs)) = .ok (n, cs) := by
  have hread := readNumber_append hn hcs
  obtain ⟨d, more, hdigits⟩ := List.exists_cons_of_ne_nil (Nat.toDigits_ne_nil (n := n) (b := 10))
  have hd : d.isDigit = true :=
    Nat.isDigit_of_mem_toDigits (by decide) (by decide) (hdigits ▸ List.mem_cons_self)
  rw [hdigits, List.cons_append] at hread ⊢
  rw [readNatural, skipBlanks_append ha, skipBlanks_cons (not_isBlank_of_isDigit hd)]
  dsimp only
  rw [if_pos hd, hread]
  rfl

/-! ## Values -/

inductive Phrase where
  | value
  | elements
  | members

/-- The texts of values, of the elements of an array and of the members of an object, without the
brackets and braces around these. Between any two of their parts there can be blanks. -/
inductive Derives : Phrase → List Char → Prop
  | null : Derives .value ['n', 'u', 'l', 'l']
  | true : Derives .value ['t', 'r', 'u', 'e']
  | false : Derives .value ['f', 'a', 'l', 's', 'e']
  | unsigned {v : List Char} (h : IsUnsigned v) : Derives .value v
  | negative {v : List Char} (h : IsUnsigned v) : Derives .value ('-' :: v)
  | string {lit : List Char} (h : IsLiteral lit) : Derives .value ('"' :: (lit ++ ['"']))
  | emptyArray {a : List Char} (ha : IsBlanks a) : Derives .value ('[' :: (a ++ [']']))
  | array {es : List Char} (h : Derives .elements es) : Derives .value ('[' :: (es ++ [']']))
  | emptyObject {a : List Char} (ha : IsBlanks a) : Derives .value ('{' :: (a ++ ['}']))
  | object {ms : List Char} (h : Derives .members ms) : Derives .value ('{' :: (ms ++ ['}']))
  | lastElement {a v b : List Char} (ha : IsBlanks a) (h : Derives .value v) (hb : IsBlanks b) :
      Derives .elements (a ++ (v ++ b))
  | element {a v b es : List Char} (ha : IsBlanks a) (h : Derives .value v) (hb : IsBlanks b)
      (hes : Derives .elements es) : Derives .elements (a ++ (v ++ (b ++ ',' :: es)))
  | lastMember {a key b c v d : List Char} (ha : IsBlanks a) (hkey : IsLiteral key) (hb : IsBlanks b)
      (hc : IsBlanks c) (h : Derives .value v) (hd : IsBlanks d) :
      Derives .members (a ++ '"' :: (key ++ '"' :: (b ++ ':' :: (c ++ (v ++ d)))))
  | member {a key b c v d ms : List Char} (ha : IsBlanks a) (hkey : IsLiteral key) (hb : IsBlanks b)
      (hc : IsBlanks c) (h : Derives .value v) (hd : IsBlanks d) (hms : Derives .members ms) :
      Derives .members (a ++ '"' :: (key ++ '"' :: (b ++ ':' :: (c ++ (v ++ (d ++ ',' :: ms))))))

/-- That a phrase is passed over, with fuel for two steps a character. After a value stands what a number
does not go on into, and after elements or members what closes them. -/
def Phrase.Skipped : Phrase → List Char → Prop
  | value, v => ∀ (fuel : Nat) (cs : List Char), 2 * v.length ≤ fuel + 1 → Stops cs →
      skipValueWithin (fuel + 1) (v ++ cs) = .ok ((), cs)
  | elements, es => ∀ (fuel : Nat) (cs : List Char), 2 * es.length ≤ fuel →
      skipElements (fuel + 2) (es ++ ']' :: cs) = .ok ((), cs)
  | members, ms => ∀ (fuel : Nat) (cs : List Char), 2 * ms.length ≤ fuel →
      skipMembers (fuel + 2) (skipBlanks (ms ++ '}' :: cs)) = .ok ((), cs)

theorem IsUnsigned.exists_digit {v : List Char} (h : IsUnsigned v) :
    ∃ d more, v = d :: more ∧ d.isDigit = Bool.true := by
  obtain ⟨whole, fraction, exponent, hw, -, -, rfl⟩ := h
  rcases hw with rfl | ⟨⟨hne, hdigits⟩, -⟩
  · exact ⟨'0', _, rfl, rfl⟩
  · obtain ⟨d, more, rfl⟩ := List.exists_cons_of_ne_nil hne
    exact ⟨d, _, rfl, hdigits d List.mem_cons_self⟩

theorem skipValueWithin_skipBlanks (fuel : Nat) (cs : List Char) :
    skipValueWithin fuel (skipBlanks cs) = skipValueWithin fuel cs := by
  cases fuel with
  | zero => rfl
  | succ fuel => rw [skipValueWithin, skipValueWithin, skipBlanks_skipBlanks]

theorem skipElements_skipBlanks {cs : List Char} {c : Char} {rest : List Char}
    (h : skipBlanks cs = c :: rest) (fuel : Nat) :
    skipElements fuel (c :: rest) = skipElements fuel cs := by
  have hne : cs ≠ [] := by
    rintro rfl
    cases h
  cases fuel with
  | zero => rw [skipElements, skipElements]
  | succ fuel =>
    rw [skipElements, skipElements, ← h, skipValueWithin_skipBlanks]
    · exact hne
    · exact List.cons_ne_nil c rest

/-- A value begins with a character that is no blank and closes nothing. -/
theorem Derives.exists_head {v : List Char} (h : Derives .value v) :
    ∃ c more, v = c :: more ∧ isBlank c = Bool.false ∧ c ≠ ']' := by
  cases h with
  | unsigned h =>
    obtain ⟨d, more, rfl, hd⟩ := h.exists_digit
    exact ⟨d, more, rfl, not_isBlank_of_isDigit hd, by rintro rfl; cases hd⟩
  | _ => exact ⟨_, _, rfl, rfl, by decide⟩

theorem skipValueWithin_append {a : List Char} (ha : IsBlanks a) (fuel : Nat) (cs : List Char) :
    skipValueWithin fuel (a ++ cs) = skipValueWithin fuel cs := by
  rw [← skipValueWithin_skipBlanks, skipBlanks_append ha, skipValueWithin_skipBlanks]

theorem skipValueWithin_array {cs : List Char} {c : Char} {rest : List Char}
    (h : skipBlanks cs = c :: rest) (hc : c ≠ ']') (fuel : Nat) :
    skipValueWithin (fuel + 1) ('[' :: cs) = skipElements fuel (c :: rest) := by
  simp [skipValueWithin, skipBlanks_cons, isBlank, h, hc]

theorem skipValueWithin_object {cs : List Char} {c : Char} {rest : List Char}
    (h : skipBlanks cs = c :: rest) (hc : c ≠ '}') (fuel : Nat) :
    skipValueWithin (fuel + 1) ('{' :: cs) = skipMembers fuel (c :: rest) := by
  simp [skipValueWithin, skipBlanks_cons, isBlank, h, hc]

theorem skipValueWithin_digit {d : Char} (hd : d.isDigit = Bool.true) (fuel : Nat) (cs : List Char) :
    skipValueWithin (fuel + 1) (d :: cs) = skipNumber (d :: cs) := by
  have hne (c : Char) (hc : c.isDigit = Bool.false) : d ≠ c := by
    rintro rfl
    rw [hd] at hc
    cases hc
  simp [skipValueWithin, skipBlanks_cons (not_isBlank_of_isDigit hd), hd, hne 'n' rfl, hne 't' rfl,
    hne 'f' rfl, hne '-' rfl]

/-- Elements begin with one, and members with a quote, after blanks. -/
theorem Derives.exists_element {es : List Char} (h : Derives .elements es) (cs : List Char) :
    ∃ c rest, skipBlanks (es ++ cs) = c :: rest ∧ c ≠ ']' := by
  cases h with
  | lastElement ha hv hb =>
    obtain ⟨c, more, rfl, hc, hclose⟩ := hv.exists_head
    exact ⟨c, _, by rw [List.append_assoc, skipBlanks_append ha]; exact skipBlanks_cons hc _, hclose⟩
  | element ha hv hb _ =>
    obtain ⟨c, more, rfl, hc, hclose⟩ := hv.exists_head
    exact ⟨c, _, by rw [List.append_assoc, skipBlanks_append ha]; exact skipBlanks_cons hc _, hclose⟩

theorem Derives.exists_member {ms : List Char} (h : Derives .members ms) (cs : List Char) :
    ∃ rest, skipBlanks (ms ++ cs) = '"' :: rest := by
  cases h with
  | lastMember ha =>
    exact ⟨_, by rw [List.append_assoc, skipBlanks_append ha]; exact skipBlanks_cons (by decide) _⟩
  | member ha =>
    exact ⟨_, by rw [List.append_assoc, skipBlanks_append ha]; exact skipBlanks_cons (by decide) _⟩

/-- One element with what stands after it: a bracket, or a comma and more elements. -/
theorem skipElements_append {a v b : List Char} (ha : IsBlanks a) (ih : Phrase.Skipped .value v)
    (hb : IsBlanks b) {fuel : Nat} (hfuel : 2 * v.length ≤ fuel + 1) {x : Char}
    (hx : x = ']' ∨ x = ',') (cs : List Char) :
    skipElements (fuel + 2) (a ++ (v ++ (b ++ x :: cs))) =
      if x = ']' then .ok ((), cs) else skipElements (fuel + 1) cs := by
  have hstops : Stops (b ++ x :: cs) := .blanks hb (stops_cons (by grind) cs)
  have hne : a ++ (v ++ (b ++ x :: cs)) ≠ [] := by simp
  rw [skipElements, skipValueWithin_append ha, ih fuel _ hfuel hstops, ok_bind]
  · dsimp only
    rw [skipBlanks_append hb]
    rcases hx with rfl | rfl <;> rfl
  · exact hne

/-- One member with what stands after it: a brace, or a comma and more members. -/
theorem skipMembers_append {a key b c v d : List Char} (ha : IsBlanks a) (hkey : IsLiteral key)
    (hb : IsBlanks b) (hc : IsBlanks c) (ih : Phrase.Skipped .value v) (hd : IsBlanks d) {fuel : Nat}
    (hfuel : 2 * v.length ≤ fuel + 1) {x : Char} (hx : x = '}' ∨ x = ',') (cs : List Char) :
    skipMembers (fuel + 2)
        (skipBlanks (a ++ '"' :: (key ++ '"' :: (b ++ ':' :: (c ++ (v ++ (d ++ x :: cs))))))) =
      if x = '}' then .ok ((), cs) else skipMembers (fuel + 1) (skipBlanks cs) := by
  have hstops : Stops (d ++ x :: cs) := .blanks hd (stops_cons (by grind) cs)
  rw [skipBlanks_append ha, skipBlanks_cons (by decide), skipMembers]
  simp only [ne_eq, not_true_eq_false, if_false, skipText_append hkey, ok_bind, skipBlanks_append hb]
  rw [skipBlanks_cons (by decide)]
  simp only [not_true_eq_false, if_false, skipValueWithin_append hc, ih fuel _ hfuel hstops, ok_bind,
    skipBlanks_append hd]
  rcases hx with rfl | rfl <;> rfl

/-- The induction is on the derivation; a step into an array or object takes two of fuel, as does every
element or member, and each of them has at least one character. -/
theorem Derives.skipped {p : Phrase} {cs : List Char} (h : Derives p cs) : p.Skipped cs := by
  induction h with
  | null => exact fun fuel cs _ _ => readWord_append ['u', 'l', 'l'] cs
  | true => exact fun fuel cs _ _ => readWord_append ['r', 'u', 'e'] cs
  | false => exact fun fuel cs _ _ => readWord_append ['a', 'l', 's', 'e'] cs
  | unsigned hv =>
    intro fuel cs _ hcs
    have hskip := skipNumber_append hv hcs
    obtain ⟨d, more, rfl, hd⟩ := hv.exists_digit
    rwa [List.cons_append, skipValueWithin_digit hd]
  | negative hv => exact fun fuel cs _ hcs => skipNumber_append hv hcs
  | string hlit =>
    intro fuel cs _ _
    rw [List.cons_append, List.append_assoc]
    exact skipText_append hlit cs
  | @emptyArray a ha =>
    intro fuel cs _ _
    have hclose : skipBlanks (a ++ ']' :: cs) = ']' :: cs := skipBlanks_append ha _
    simp [skipValueWithin, skipBlanks_cons, isBlank, hclose]
  | @array es hes ih =>
    intro fuel cs hfuel _
    simp only [List.length_cons, List.length_append] at hfuel
    obtain ⟨k, rfl⟩ : ∃ k, fuel = k + 2 := ⟨fuel - 2, by omega⟩
    obtain ⟨c, rest, hhead, hc⟩ := hes.exists_element (']' :: cs)
    rw [List.cons_append, List.append_assoc, List.singleton_append, skipValueWithin_array hhead hc,
      skipElements_skipBlanks hhead]
    exact ih k cs (by omega)
  | @emptyObject a ha =>
    intro fuel cs _ _
    have hclose : skipBlanks (a ++ '}' :: cs) = '}' :: cs := skipBlanks_append ha _
    simp [skipValueWithin, skipBlanks_cons, isBlank, hclose]
  | @object ms hms ih =>
    intro fuel cs hfuel _
    simp only [List.length_cons, List.length_append] at hfuel
    obtain ⟨k, rfl⟩ : ∃ k, fuel = k + 2 := ⟨fuel - 2, by omega⟩
    obtain ⟨rest, hhead⟩ := hms.exists_member ('}' :: cs)
    rw [List.cons_append, List.append_assoc, List.singleton_append,
      skipValueWithin_object hhead (by decide), ← hhead]
    exact ih k cs (by omega)
  | lastElement ha _ hb ih =>
    intro fuel cs hfuel
    simp only [List.length_append] at hfuel
    rw [List.append_assoc, List.append_assoc]
    exact skipElements_append ha ih hb (by omega) (.inl rfl) cs
  | element ha _ hb _ ih ihes =>
    intro fuel cs hfuel
    simp only [List.length_append, List.length_cons] at hfuel
    obtain ⟨k, rfl⟩ : ∃ k, fuel = k + 1 := ⟨fuel - 1, by omega⟩
    simp only [List.append_assoc, List.cons_append]
    rw [skipElements_append ha ih hb (by omega) (.inr rfl)]
    exact ihes k cs (by omega)
  | lastMember ha hkey hb hc _ hd ih =>
    intro fuel cs hfuel
    simp only [List.length_append, List.length_cons] at hfuel
    simp only [List.append_assoc, List.cons_append]
    exact skipMembers_append ha hkey hb hc ih hd (by omega) (.inl rfl) cs
  | member ha hkey hb hc _ hd _ ih ihms =>
    intro fuel cs hfuel
    simp only [List.length_append, List.length_cons] at hfuel
    obtain ⟨k, rfl⟩ : ∃ k, fuel = k + 1 := ⟨fuel - 1, by omega⟩
    simp only [List.append_assoc, List.cons_append]
    rw [skipMembers_append ha hkey hb hc ih hd (by omega) (.inr rfl)]
    exact ihms k cs (by omega)

theorem skipValue_append {a v : List Char} (ha : IsBlanks a) (hv : Derives .value v) {cs : List Char}
    (hcs : Stops cs) : skipValue (a ++ (v ++ cs)) = .ok ((), cs) := by
  rw [skipValue, skipValueWithin_append ha]
  refine hv.skipped _ cs ?_ hcs
  simp only [List.length_append]
  omega

end Unbox.Json
