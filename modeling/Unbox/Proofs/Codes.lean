import Mathlib.Data.List.Induction
import Mathlib.Data.Nat.Digits.Defs
import Unbox.Code

/-!
# The texts of a code

Which texts stand for a number, said without the reader: the letter, perhaps a plus sign, and decimal
digits, with as many zeros in front as one likes.

* `Numeral`, `Spells` : digits with their value, and the texts of a number;
* `decimal?_eq_some_iff`, `parse?_eq_some_iff` : a text is read exactly if it is one of them;
* `parse?_format` : a number that is written is read back, on both sides of the four digits that a text
  has at least.
-/

namespace Unbox.Code

/-! ## Digits and their value -/

/-- One or more decimal digits, the one that counts most first, with the value `n`. -/
def Numeral (cs : List Char) (n : Nat) : Prop :=
  ∃ ds : List Nat, ds ≠ [] ∧ (∀ d ∈ ds, d < 10) ∧ cs = ds.map Nat.digitChar ∧
    n = Nat.ofDigits 10 ds.reverse

theorem exists_digitChar {c : Char} (h : c.isDigit = true) : ∃ d < 10, c = Nat.digitChar d := by
  obtain ⟨hlow, hhigh⟩ := Char.isDigit_iff_toNat.mp h
  have hzero : '0'.toNat = 48 := rfl
  have hnine : '9'.toNat = 57 := rfl
  have hd : c.toNat - 48 < 10 := by omega
  refine ⟨c.toNat - 48, hd, Char.toNat_inj.mp ?_⟩
  rw [Nat.toNat_digitChar_of_lt_ten hd]
  omega

theorem exists_digits {cs : List Char} (h : ∀ c ∈ cs, c.isDigit = true) :
    ∃ ds : List Nat, (∀ d ∈ ds, d < 10) ∧ cs = ds.map Nat.digitChar := by
  induction cs with
  | nil => exact ⟨[], List.forall_mem_nil _, rfl⟩
  | cons c cs ih =>
    obtain ⟨d, hd, rfl⟩ := exists_digitChar (h c List.mem_cons_self)
    obtain ⟨ds, hds, rfl⟩ := ih fun c hc => h c (List.mem_cons_of_mem _ hc)
    exact ⟨d :: ds, List.forall_mem_cons.mpr ⟨hd, hds⟩, rfl⟩

/-- Taking up the digits one after the other gives the sum of what each is worth in its place. -/
theorem ofDigitChars_map_digitChar {ds : List Nat} (h : ∀ d ∈ ds, d < 10) :
    Nat.ofDigitChars 10 (ds.map Nat.digitChar) 0 = Nat.ofDigits 10 ds.reverse := by
  induction ds using List.reverseRecOn with
  | nil => rfl
  | append_singleton ds d ih =>
    have hd : d < 10 := h d (by simp)
    rw [List.map_append, Nat.ofDigitChars_append, ih fun e he => h e (by simp [he]), List.map_singleton,
      Nat.ofDigitChars_cons_digitChar_of_lt_ten hd, List.reverse_append, List.reverse_singleton,
      List.singleton_append, Nat.ofDigits_cons, Nat.add_comm]
    rfl

theorem decimal?_of_digits {cs : List Char} (hne : cs ≠ []) (h : ∀ c ∈ cs, c.isDigit = true) :
    decimal? cs = some (Nat.ofDigitChars 10 cs 0) := by
  have hall : cs.all Char.isDigit = true := List.all_eq_true.mpr h
  rw [decimal?, hall, List.isEmpty_eq_false_iff.mpr hne]
  rfl

theorem digits_of_decimal? {cs : List Char} {n : Nat} (h : decimal? cs = some n) :
    cs ≠ [] ∧ ∀ c ∈ cs, c.isDigit = true := by
  unfold decimal? at h
  split at h
  · cases h
  · next hcs => simpa using hcs

theorem decimal?_eq_some_iff {cs : List Char} {n : Nat} : decimal? cs = some n ↔ Numeral cs n := by
  constructor
  · intro h
    obtain ⟨hne, hdigits⟩ := digits_of_decimal? h
    obtain ⟨ds, hds, rfl⟩ := exists_digits hdigits
    rw [decimal?_of_digits hne hdigits, ofDigitChars_map_digitChar hds] at h
    exact ⟨ds, by simpa using hne, hds, rfl, (Option.some.inj h).symm⟩
  · rintro ⟨ds, hne, hds, rfl, rfl⟩
    have hdigits : ∀ c ∈ ds.map Nat.digitChar, c.isDigit = true := by
      intro c hc
      obtain ⟨d, hd, rfl⟩ := List.mem_map.mp hc
      rw [Nat.isDigit_digitChar]
      exact decide_eq_true (hds d hd)
    rw [decimal?_of_digits (by simpa using hne) hdigits, ofDigitChars_map_digitChar hds]

/-! ## Texts -/

/-- The letter, perhaps a plus sign, and digits with the value `n`. -/
def Spells (s : String) (n : Nat) : Prop :=
  ∃ cs, Numeral cs n ∧ (s.toList = 'E' :: cs ∨ s.toList = 'E' :: '+' :: cs)

theorem not_numeral_plus {cs : List Char} {n : Nat} : ¬ Numeral ('+' :: cs) n := by
  intro h
  have hdigit := (digits_of_decimal? (decimal?_eq_some_iff.mpr h)).2 '+' List.mem_cons_self
  exact absurd hdigit (by decide)

theorem decimal?_filter_eq_some_iff {cs : List Char} {n : Nat} :
    (decimal? cs).filter (· ≤ 65535) = some n ↔ Numeral cs n ∧ n ≤ 65535 := by
  rw [Option.filter_eq_some_iff, decimal?_eq_some_iff, decide_eq_true_iff]

theorem parse?_eq_some_iff {s : String} {n : Nat} : parse? s = some n ↔ Spells s n ∧ n ≤ 65535 := by
  unfold parse? Spells
  split
  · next cs hs =>
    rw [decimal?_filter_eq_some_iff, hs]
    refine and_congr_left fun _ => ⟨fun h => ⟨cs, h, .inr rfl⟩, ?_⟩
    rintro ⟨ds, hds, heq | heq⟩
    · obtain rfl : '+' :: cs = ds := (List.cons.inj heq).2
      exact absurd hds not_numeral_plus
    · obtain rfl : cs = ds := (List.cons.inj (List.cons.inj heq).2).2
      exact hds
  · next cs hplus hs =>
    rw [decimal?_filter_eq_some_iff, hs]
    refine and_congr_left fun _ => ⟨fun h => ⟨cs, h, .inl rfl⟩, ?_⟩
    rintro ⟨ds, hds, heq | heq⟩
    · obtain rfl : cs = ds := (List.cons.inj heq).2
      exact hds
    · exact absurd (List.cons.inj heq).2 (hplus ds)
  · next hplus hletter =>
    refine ⟨fun h => (by cases h), ?_⟩
    rintro ⟨⟨cs, -, hs | hs⟩, -⟩
    · exact absurd hs (hletter cs)
    · exact absurd hs (hplus cs)

/-! ## Written codes -/

/-- Zeros in front of the digits of a number do not count. -/
theorem decimal?_padded (k n : Nat) :
    decimal? (List.replicate k '0' ++ Nat.toDigits 10 n) = some n := by
  have hdigits : ∀ c ∈ List.replicate k '0' ++ Nat.toDigits 10 n, c.isDigit = true := by
    intro c hc
    rcases List.mem_append.mp hc with hc | hc
    · rw [List.eq_of_mem_replicate hc]
      rfl
    · exact Nat.isDigit_of_mem_toDigits (by decide) (by decide) hc
  rw [decimal?_of_digits (by simp [Nat.toDigits_ne_nil]) hdigits, Nat.ofDigitChars_append,
    Nat.ofDigitChars_replicate_zero, Nat.mul_zero, Nat.ofDigitChars_ten_toDigits]

theorem parse?_format {n : Nat} (h : n ≤ 65535) : parse? (format n) = some n := by
  have htext : (format n).toList =
      'E' :: (List.replicate (4 - (Nat.toDigits 10 n).length) '0' ++ Nat.toDigits 10 n) := by
    rw [format, String.toList_ofList]
  have hvalue := decimal?_eq_some_iff.mp (decimal?_padded (4 - (Nat.toDigits 10 n).length) n)
  exact parse?_eq_some_iff.mpr ⟨⟨_, hvalue, .inl htext⟩, h⟩

theorem find?_format {n : Nat} (h : n ≤ 65535) : find? (format n) = get? n := by
  rw [find?, parse?_format h]
  rfl

theorem get?_number : ∀ c ∈ all, c.number ≤ 65535 ∧ get? c.number = some c := by decide

/-- A text is read as a number exactly if it spells the number and the number has sixteen bits. Every
such number is read back from what is written for it, so that looking up the text of a number is looking
up the number, and every code is found by its text. -/
theorem parse_spelled :
    (∀ s n, parse? s = some n ↔ Spells s n ∧ n ≤ 65535) ∧
    (∀ n ≤ 65535, parse? (format n) = some n ∧ find? (format n) = get? n) ∧
    ∀ c ∈ all, find? (format c.number) = some c := by
  refine ⟨fun s n => parse?_eq_some_iff, fun n hn => ⟨parse?_format hn, find?_format hn⟩, ?_⟩
  intro c hc
  obtain ⟨hn, hget⟩ := get?_number c hc
  rw [find?_format hn, hget]

/-- A plus sign and many zeros, and numbers with fewer digits than are written and with more. -/
theorem parse_spelled_padded :
    parse? "E+000000000009101" = some 9101 ∧
    Spells "E+000000000009101" 9101 ∧
    (parse? (format 42) = some 42 ∧ find? (format 42) = get? 42) ∧
    (parse? (format 65535) = some 65535 ∧ find? (format 65535) = get? 65535) ∧
    find? (format unhandledScope.number) = some unhandledScope := by
  have hread : parse? "E+000000000009101" = some 9101 := by decide +kernel
  exact ⟨hread, ((parse_spelled.1 _ _).mp hread).1, parse_spelled.2.1 42 (by decide),
    parse_spelled.2.1 65535 (by decide), parse_spelled.2.2 unhandledScope (by decide)⟩

end Unbox.Code
