import Mathlib.Data.List.Forall2
import Mathlib.Data.List.Nodup
import Unbox.Report

/-!
# The entries of a report

The entry of a declaration has its qualified name for a key, or that name with the number of the
declaration if the name is taken. Nothing makes sure that the second key is not taken as well, and then
the entry that has it is lost.

* `Report.decided` : the decided declarations, in the order of the table;
* `Report.Describes p m d e` : the entry `e` is that of the declaration `d`;
* `Report.Taken p m n key` : the key is in use before declaration number `n`; `Report.Clashes p m d`,
  both keys of `d` are in use when its turn comes;
* `Report.collect_entries` : a report has the entries of the decided declarations, one each, exactly if
  never both keys of a declaration are taken;
* `Report.collect_loses` : three declarations with two entries.
-/

namespace Unbox

/-! ## Putting entries -/

section PutEntry
variable {α β : Type} [DecidableEq α] {key : α} {entries : List (α × β)}

theorem putEntry_of_not_mem (value : β) (h : key ∉ entries.map Prod.fst) :
    putEntry key value entries = entries ++ [(key, value)] := by
  induction entries with
  | nil => rfl
  | cons entry entries ih =>
    simp only [List.map_cons, List.mem_cons, not_or] at h
    rw [putEntry, if_neg (Ne.symm h.1), ih h.2, List.cons_append]

theorem keys_putEntry_of_mem (value : β) (h : key ∈ entries.map Prod.fst) :
    (putEntry key value entries).map Prod.fst = entries.map Prod.fst := by
  induction entries with
  | nil => cases h
  | cons entry entries ih =>
    by_cases hkey : entry.1 = key
    · simp [putEntry, hkey]
    · have hmem : key ∈ entries.map Prod.fst := by simpa [Ne.symm hkey] using h
      simp [putEntry, hkey, ih hmem]

theorem mem_keys_putEntry {k : α} (value : β) :
    k ∈ (putEntry key value entries).map Prod.fst ↔ k ∈ entries.map Prod.fst ∨ k = key := by
  by_cases h : key ∈ entries.map Prod.fst
  · rw [keys_putEntry_of_mem value h]
    constructor
    · exact .inl
    · rintro (hk | rfl)
      · exact hk
      · exact h
  · rw [putEntry_of_not_mem value h]
    simp

theorem nodup_keys_putEntry (value : β) (h : (entries.map Prod.fst).Nodup) :
    ((putEntry key value entries).map Prod.fst).Nodup := by
  by_cases hkey : key ∈ entries.map Prod.fst
  · rwa [keys_putEntry_of_mem value hkey]
  · rw [putEntry_of_not_mem value hkey, List.map_append]
    exact List.nodup_append_comm.mp (List.nodup_cons.mpr ⟨hkey, h⟩)

theorem isSome_lookup_iff : (entries.lookup key).isSome = true ↔ key ∈ entries.map Prod.fst := by
  rw [← not_iff_not, Bool.not_eq_true, Option.isSome_eq_false_iff, Option.isNone_iff_eq_none,
    List.lookup_eq_none_iff]
  constructor
  · intro h hmem
    obtain ⟨entry, hentry, rfl⟩ := List.mem_map.mp hmem
    simpa using h entry hentry
  · intro h entry hentry
    rw [bne_iff_ne]
    rintro rfl
    exact h (List.mem_map_of_mem hentry)

end PutEntry

namespace Report
variable (p : Program) (m : Marks)

/-! ## Keys -/

/-- The qualified name with the number of the declaration. -/
def numberedName (d : DeclId) : String := p.qualifiedName d ++ "#" ++ d.index.repr

/-- The decided declarations before number `n`, in the order of the table. -/
def decidedBefore (n : Nat) : List DeclId :=
  ((List.range n).map Id.mk).filter fun d => (m.unboxed d).isSome

def decided : List DeclId := decidedBefore m p.decls.size

/-- The key is in use before declaration number `n`. A declaration takes its qualified name, so that
this is in use afterwards in any case, and its numbered name if the other is in use before. -/
inductive Taken : Nat → String → Prop where
  | name {n : Nat} {d : DeclId} (hd : (m.unboxed d).isSome = true) (hn : d.index < n) :
    Taken n (p.qualifiedName d)
  | number {n : Nat} {d : DeclId} (hd : (m.unboxed d).isSome = true) (hn : d.index < n)
    (h : Taken d.index (p.qualifiedName d)) : Taken n (numberedName p d)

/-- Both keys of a declaration are in use when its turn comes. -/
def Clashes (d : DeclId) : Prop :=
  Taken p m d.index (p.qualifiedName d) ∧ Taken p m d.index (numberedName p d)

/-- The entry holds what was found out about the declaration `d`, under one of its two keys. -/
structure Describes (d : DeclId) (e : String × DeclarationEntry) : Prop where
  key : e.1 = p.qualifiedName d ∨ e.1 = numberedName p d
  unboxed : m.unboxed d = some e.2.unboxed
  typeErased : e.2.typeErased = m.typeErased d
  untrusted : e.2.untrusted = m.isUntrusted d
  declared : ∃ x, p.decl? d = some x ∧ e.2.kind = x.kindName ∧ e.2.raw = x.type.any m.raw

variable {p m}

theorem eq_of_append_cons {α : Type} {c : α} {as as' bs bs' : List α} (hb : c ∉ bs) (hb' : c ∉ bs')
    (h : as ++ c :: bs = as' ++ c :: bs') : bs = bs' := by
  rcases List.append_eq_append_iff.mp h with ⟨_ | ⟨x, xs⟩, -, hx⟩ | ⟨_ | ⟨x, xs⟩, -, hx⟩
  · exact (List.cons.inj hx).2
  · exact absurd ((List.cons.inj hx).2 ▸ by simp) hb
  · exact (List.cons.inj hx).2.symm
  · exact absurd ((List.cons.inj hx).2 ▸ by simp) hb'

/-- The digits after the last `#` of a numbered name are those of the declaration. -/
theorem eq_of_numberedName {d e : DeclId} (h : numberedName p d = numberedName p e) : d = e := by
  have hdigits (n : Nat) : '#' ∉ n.repr.toList := by
    intro hmem
    rw [Nat.repr_eq_ofList_toDigits, String.toList_ofList] at hmem
    have hdigit := Nat.isDigit_of_mem_toDigits (by omega) (by omega) hmem
    exact absurd hdigit (by decide)
  have hlist := congrArg String.toList h
  simp only [numberedName, String.toList_append, List.append_assoc] at hlist
  have hrepr := eq_of_append_cons (hdigits _) (hdigits _) hlist
  rw [Nat.repr_eq_ofList_toDigits, Nat.repr_eq_ofList_toDigits, String.toList_ofList,
    String.toList_ofList] at hrepr
  have hindex : d.index = e.index := by
    rw [← Nat.ofDigitChars_ten_toDigits (n := d.index), hrepr, Nat.ofDigitChars_ten_toDigits]
  exact congrArg Id.mk hindex

theorem taken_succ {n : Nat} {key : String} : Taken p m (n + 1) key ↔
    Taken p m n key ∨ (m.unboxed ⟨n⟩).isSome = true ∧
      (key = p.qualifiedName ⟨n⟩ ∨ key = numberedName p ⟨n⟩ ∧ Taken p m n (p.qualifiedName ⟨n⟩)) := by
  constructor
  · intro h
    cases h with
    | @name _ d hd hn =>
      obtain ⟨i⟩ := d
      obtain hi | rfl : i < n ∨ i = n := Nat.lt_succ_iff_lt_or_eq.mp hn
      · exact .inl (.name hd hi)
      · exact .inr ⟨hd, .inl rfl⟩
    | @number _ d hd hn h =>
      obtain ⟨i⟩ := d
      obtain hi | rfl : i < n ∨ i = n := Nat.lt_succ_iff_lt_or_eq.mp hn
      · exact .inl (.number hd hi h)
      · exact .inr ⟨hd, .inr ⟨rfl, h⟩⟩
  · rintro (h | ⟨hd, rfl | ⟨rfl, h⟩⟩)
    · cases h with
      | name hd hn => exact .name hd (by omega)
      | number hd hn h => exact .number hd (by omega) h
    · exact .name hd (Nat.lt_succ_self n)
    · exact .number hd (Nat.lt_succ_self n) h

/-- Only a declaration whose name looks like it takes the numbered name of a later one. -/
theorem taken_numberedName {d : DeclId} : Taken p m d.index (numberedName p d) ↔
    ∃ e, (m.unboxed e).isSome = true ∧ e.index < d.index ∧
      p.qualifiedName e = numberedName p d := by
  constructor
  · intro h
    generalize hkey : numberedName p d = key at h
    cases h with
    | name hd hn => exact ⟨_, hd, hn, rfl⟩
    | number hd hn h =>
      rw [eq_of_numberedName hkey] at hn
      exact absurd hn (Nat.lt_irrefl _)
  · rintro ⟨e, hd, hn, heq⟩
    rw [← heq]
    exact .name hd hn

/-! ## Collecting -/

theorem keyOf_of_mem {entries : List (String × DeclarationEntry)} {d : DeclId}
    (h : p.qualifiedName d ∈ entries.map Prod.fst) : keyOf p entries d = numberedName p d := by
  rw [keyOf, if_pos (isSome_lookup_iff.mpr h), numberedName]

theorem keyOf_of_not_mem {entries : List (String × DeclarationEntry)} {d : DeclId}
    (h : p.qualifiedName d ∉ entries.map Prod.fst) : keyOf p entries d = p.qualifiedName d := by
  rw [keyOf, if_neg fun hs => h (isSome_lookup_iff.mp hs)]

theorem declarationEntries_append (i : Nat) (entries : List (String × DeclarationEntry))
    (xs ys : List Declaration) :
    declarationEntries p m i entries (xs ++ ys) =
      declarationEntries p m (i + xs.length) (declarationEntries p m i entries xs) ys := by
  induction xs generalizing i entries with
  | nil => rfl
  | cons x xs ih =>
    rw [List.cons_append, declarationEntries, ih, declarationEntries, List.length_cons,
      Nat.add_right_comm, Nat.add_assoc]

/-- The entries of the declarations before number `n`. -/
def entriesBefore (p : Program) (m : Marks) (n : Nat) : List (String × DeclarationEntry) :=
  declarationEntries p m 0 [] (p.decls.toList.take n)

theorem entriesBefore_succ {n : Nat} {x : Declaration} (hx : p.decl? ⟨n⟩ = some x) :
    entriesBefore p m (n + 1) = declarationEntries p m n (entriesBefore p m n) [x] := by
  have hget : p.decls.toList[n]? = some x := by simpa [Program.decl?] using hx
  have hn : n < p.decls.toList.length := (List.getElem?_eq_some_iff.mp hget).1
  have hlength : (p.decls.toList.take n).length = n := List.length_take_of_le (Nat.le_of_lt hn)
  rw [entriesBefore, List.take_add_one, hget, declarationEntries_append, hlength, Nat.zero_add]
  rfl

theorem entriesBefore_of_undecided {n : Nat} (hn : n < p.decls.size)
    (hm : m.unboxed ⟨n⟩ = none) : entriesBefore p m (n + 1) = entriesBefore p m n := by
  obtain ⟨x, hx⟩ : ∃ x, p.decl? ⟨n⟩ = some x := ⟨_, Array.getElem?_eq_getElem hn⟩
  rw [entriesBefore_succ hx]
  simp [declarationEntries, entry?, hm]

theorem entriesBefore_of_decided {n : Nat} (hn : n < p.decls.size)
    (hm : (m.unboxed ⟨n⟩).isSome = true) :
    ∃ e, (∀ key, key = p.qualifiedName ⟨n⟩ ∨ key = numberedName p ⟨n⟩ →
        Describes p m ⟨n⟩ (key, e)) ∧
      entriesBefore p m (n + 1) =
        putEntry (keyOf p (entriesBefore p m n) ⟨n⟩) e (entriesBefore p m n) := by
  obtain ⟨x, hx⟩ : ∃ x, p.decl? ⟨n⟩ = some x := ⟨_, Array.getElem?_eq_getElem hn⟩
  obtain ⟨unboxed, hunboxed⟩ := Option.isSome_iff_exists.mp hm
  rw [entriesBefore_succ hx]
  refine ⟨⟨x.kindName, unboxed, m.typeErased ⟨n⟩, m.isUntrusted ⟨n⟩, x.type.any m.raw⟩, ?_, ?_⟩
  · exact fun key hkey => ⟨hkey, hunboxed, rfl, rfl, x, hx, rfl, rfl⟩
  · simp [declarationEntries, entry?, hunboxed]

/-- The keys so far are those that are taken. -/
theorem mem_keys_iff {n : Nat} (hn : n ≤ p.decls.size) (key : String) :
    key ∈ (entriesBefore p m n).map Prod.fst ↔ Taken p m n key := by
  induction n generalizing key with
  | zero =>
    constructor
    · intro h
      simp [entriesBefore, declarationEntries] at h
    · intro h
      cases h <;> omega
  | succ n ih =>
    have ih := ih (Nat.le_of_succ_le hn)
    rw [taken_succ, ← ih, ← ih]
    cases hm : m.unboxed ⟨n⟩ with
    | none =>
      rw [entriesBefore_of_undecided hn hm]
      simp
    | some b =>
      obtain ⟨e, -, heq⟩ := entriesBefore_of_decided (m := m) hn (by simp [hm])
      rw [heq, mem_keys_putEntry]
      by_cases hname : p.qualifiedName ⟨n⟩ ∈ (entriesBefore p m n).map Prod.fst
      · rw [keyOf_of_mem hname]
        constructor
        · rintro (h | h)
          · exact .inl h
          · exact .inr ⟨rfl, .inr ⟨h, hname⟩⟩
        · rintro (h | ⟨-, rfl | ⟨h, -⟩⟩)
          · exact .inl h
          · exact .inl hname
          · exact .inr h
      · rw [keyOf_of_not_mem hname]
        simp [hname]

theorem nodup_keys {n : Nat} (hn : n ≤ p.decls.size) :
    ((entriesBefore p m n).map Prod.fst).Nodup := by
  induction n with
  | zero => simp [entriesBefore, declarationEntries]
  | succ n ih =>
    have ih := ih (Nat.le_of_succ_le hn)
    cases hm : m.unboxed ⟨n⟩ with
    | none => rwa [entriesBefore_of_undecided hn hm]
    | some b =>
      obtain ⟨e, -, heq⟩ := entriesBefore_of_decided (m := m) hn (by simp [hm])
      rw [heq]
      exact nodup_keys_putEntry e ih

/-- The key of a declaration is that of an earlier entry, which is lost then, if the declaration
clashes. -/
theorem keyOf_mem_iff {n : Nat} (hn : n ≤ p.decls.size) :
    keyOf p (entriesBefore p m n) ⟨n⟩ ∈ (entriesBefore p m n).map Prod.fst ↔ Clashes p m ⟨n⟩ := by
  rw [Clashes, ← mem_keys_iff hn, ← mem_keys_iff hn]
  by_cases hname : p.qualifiedName ⟨n⟩ ∈ (entriesBefore p m n).map Prod.fst
  · rw [keyOf_of_mem hname]
    exact ⟨fun h => ⟨hname, h⟩, And.right⟩
  · rw [keyOf_of_not_mem hname]
    exact ⟨fun h => absurd h hname, fun h => absurd h.1 hname⟩

theorem decidedBefore_of_undecided {n : Nat} (hm : m.unboxed ⟨n⟩ = none) :
    decidedBefore m (n + 1) = decidedBefore m n := by
  simp [decidedBefore, List.range_succ, hm]

theorem decidedBefore_of_decided {n : Nat} (hm : (m.unboxed ⟨n⟩).isSome = true) :
    decidedBefore m (n + 1) = decidedBefore m n ++ [⟨n⟩] := by
  simp [decidedBefore, List.range_succ, hm]

theorem mem_decidedBefore {n : Nat} {d : DeclId} :
    d ∈ decidedBefore m n ↔ d.index < n ∧ (m.unboxed d).isSome = true := by
  unfold decidedBefore
  rw [List.mem_filter, List.mem_map]
  constructor
  · rintro ⟨⟨i, hi, rfl⟩, hd⟩
    exact ⟨List.mem_range.mp hi, hd⟩
  · rintro ⟨hn, hd⟩
    exact ⟨⟨d.index, List.mem_range.mpr hn, rfl⟩, hd⟩

/-- As long as no declaration clashes, each decided one adds an entry at the end. -/
theorem describes_of_no_clash {n : Nat} (hn : n ≤ p.decls.size)
    (h : ∀ d ∈ decidedBefore m n, ¬ Clashes p m d) :
    List.Forall₂ (Describes p m) (decidedBefore m n) (entriesBefore p m n) := by
  induction n with
  | zero => exact .nil
  | succ n ih =>
    cases hm : m.unboxed ⟨n⟩ with
    | none =>
      rw [decidedBefore_of_undecided hm] at h ⊢
      rw [entriesBefore_of_undecided hn hm]
      exact ih (Nat.le_of_succ_le hn) h
    | some b =>
      have hd : (m.unboxed ⟨n⟩).isSome = true := by simp [hm]
      obtain ⟨e, he, heq⟩ := entriesBefore_of_decided hn hd
      rw [decidedBefore_of_decided hd] at h ⊢
      have hlast := h ⟨n⟩ (by simp)
      have hnew := mt (keyOf_mem_iff (Nat.le_of_succ_le hn)).mp hlast
      rw [heq, putEntry_of_not_mem e hnew]
      refine List.rel_append (ih (Nat.le_of_succ_le hn) fun d hd => h d (by simp [hd])) ?_
      refine .cons (he _ ?_) .nil
      by_cases hname : p.qualifiedName ⟨n⟩ ∈ (entriesBefore p m n).map Prod.fst
      · exact .inr (keyOf_of_mem hname)
      · exact .inl (keyOf_of_not_mem hname)

/-- There are never more entries than decided declarations, and fewer once one has clashed. -/
theorem length_entriesBefore {n : Nat} (hn : n ≤ p.decls.size) :
    (entriesBefore p m n).length ≤ (decidedBefore m n).length ∧
      ((entriesBefore p m n).length = (decidedBefore m n).length →
        ∀ d ∈ decidedBefore m n, ¬ Clashes p m d) := by
  induction n with
  | zero => simp [entriesBefore, declarationEntries, decidedBefore]
  | succ n ih =>
    obtain ⟨hle, hclash⟩ := ih (Nat.le_of_succ_le hn)
    cases hm : m.unboxed ⟨n⟩ with
    | none =>
      rw [decidedBefore_of_undecided hm, entriesBefore_of_undecided hn hm]
      exact ⟨hle, hclash⟩
    | some b =>
      have hd : (m.unboxed ⟨n⟩).isSome = true := by simp [hm]
      obtain ⟨e, -, heq⟩ := entriesBefore_of_decided hn hd
      rw [decidedBefore_of_decided hd, heq, List.length_append, List.length_singleton]
      by_cases hkey : keyOf p (entriesBefore p m n) ⟨n⟩ ∈ (entriesBefore p m n).map Prod.fst
      · have hlength := congrArg List.length (keys_putEntry_of_mem e hkey)
        rw [List.length_map, List.length_map] at hlength
        rw [hlength]
        exact ⟨by omega, fun h => by omega⟩
      · rw [putEntry_of_not_mem e hkey, List.length_append, List.length_singleton]
        refine ⟨by omega, fun h d hmem => ?_⟩
        rcases List.mem_append.mp hmem with hmem | hmem
        · exact hclash (by omega) d hmem
        · rw [List.mem_singleton] at hmem
          subst hmem
          exact mt (keyOf_mem_iff (Nat.le_of_succ_le hn)).mpr hkey

theorem collect_declarations (unit : String) (p : Program) (m : Marks) (records : List Record)
    (stats : RunStats) :
    (collect unit p m records stats).declarations = entriesBefore p m p.decls.size := by
  rw [entriesBefore, ← Array.length_toList, List.take_length]
  rfl

/-- No key occurs twice in a report. It has the entries of the decided declarations, one each and in the
order of the table, exactly if no decided declaration whose qualified name is taken comes after one with
the qualified name that its own number makes of it. If `#` is in no qualified name, that is so, however
many declarations share one. -/
theorem collect_entries (unit : String) (p : Program) (m : Marks) (records : List Record)
    (stats : RunStats) :
    ((collect unit p m records stats).declarations.map Prod.fst).Nodup ∧
    (List.Forall₂ (Describes p m) (decided p m) (collect unit p m records stats).declarations ↔
      ∀ d ∈ decided p m, Taken p m d.index (p.qualifiedName d) →
        ∀ e ∈ decided p m, e.index < d.index → p.qualifiedName e ≠ numberedName p d) ∧
    ((∀ d ∈ decided p m, '#' ∉ (p.qualifiedName d).toList) →
      List.Forall₂ (Describes p m) (decided p m) (collect unit p m records stats).declarations) := by
  rw [collect_declarations]
  have hiff : List.Forall₂ (Describes p m) (decided p m) (entriesBefore p m p.decls.size) ↔
      ∀ d ∈ decided p m, Taken p m d.index (p.qualifiedName d) →
        ∀ e ∈ decided p m, e.index < d.index → p.qualifiedName e ≠ numberedName p d := by
    constructor
    · intro h d hd htaken e he hlt heq
      have hclash := (length_entriesBefore (Nat.le_refl _)).2 h.length_eq.symm d hd
      exact hclash ⟨htaken, taken_numberedName.mpr ⟨e, (mem_decidedBefore.mp he).2, hlt, heq⟩⟩
    · intro h
      apply describes_of_no_clash (Nat.le_refl _)
      rintro d hd ⟨htaken, hnumber⟩
      obtain ⟨e, he, hlt, heq⟩ := taken_numberedName.mp hnumber
      have hsize := (mem_decidedBefore.mp hd).1
      exact h d hd htaken e (mem_decidedBefore.mpr ⟨by omega, he⟩) hlt heq
  refine ⟨nodup_keys (Nat.le_refl _), hiff, fun hplain => hiff.mpr ?_⟩
  intro d _ _ e he _ heq
  apply hplain e he
  rw [heq]
  simp [numberedName]

/-- Three values, the first and the last of one name. -/
def sharing (other : String) : Program where
  names := ⟨#["count", other]⟩
  decls := #[
    { name := some ⟨0⟩, kind := .value, scope := .unit },
    { name := some ⟨1⟩, kind := .value, scope := .unit },
    { name := some ⟨0⟩, kind := .value, scope := .unit }]

/-- All three are decided, and only the last one is boxed. -/
def sharingMarks : Marks :=
  ((({} : Marks).setUnboxed ⟨0⟩ true).setUnboxed ⟨1⟩ true).setUnboxed ⟨2⟩ false

/-- The last value has a key of its own. -/
theorem collect_entries_sharing :
    (∀ d ∈ decided (sharing "total") sharingMarks,
      '#' ∉ ((sharing "total").qualifiedName d).toList) ∧
    (collect "" (sharing "total") sharingMarks [] {}).declarations.map Prod.fst =
      ["count", "total", "count#2"] ∧
    List.Forall₂ (Describes (sharing "total") sharingMarks) (decided (sharing "total") sharingMarks)
      (collect "" (sharing "total") sharingMarks [] {}).declarations := by
  have hplain : ∀ d ∈ decided (sharing "total") sharingMarks,
      '#' ∉ ((sharing "total").qualifiedName d).toList := by decide +kernel
  exact ⟨hplain, by decide +kernel, (collect_entries "" _ _ [] {}).2.2 hplain⟩

/-- The last value takes the key of the second one, whose entry is lost. -/
theorem collect_loses :
    (decided (sharing "count#2") sharingMarks).length = 3 ∧
    (collect "" (sharing "count#2") sharingMarks [] {}).declarations =
      [("count", ⟨"value", true, false, false, false⟩),
        ("count#2", ⟨"value", false, false, false, false⟩)] ∧
    ¬ List.Forall₂ (Describes (sharing "count#2") sharingMarks)
      (decided (sharing "count#2") sharingMarks)
      (collect "" (sharing "count#2") sharingMarks [] {}).declarations := by
  have hthree : (decided (sharing "count#2") sharingMarks).length = 3 := by decide +kernel
  have htwo : (collect "" (sharing "count#2") sharingMarks [] {}).declarations =
      [("count", ⟨"value", true, false, false, false⟩),
        ("count#2", ⟨"value", false, false, false, false⟩)] := by decide +kernel
  refine ⟨hthree, htwo, fun h => ?_⟩
  have hlength := h.length_eq
  rw [hthree, htwo] at hlength
  exact absurd hlength (by decide)

end Report

end Unbox
