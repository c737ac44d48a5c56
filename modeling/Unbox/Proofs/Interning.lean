import Mathlib.Data.Finset.Card
import Mathlib.Data.List.Induction
import Unbox.Names

/-!
# Interning texts

What is handed out for any texts, interned one after the other, and what the names then are.

* `handOut` : the calls one after the other, with what they hand out;
* `index_intern`, `toList_intern` : what one call hands out and what it leaves;
* `toList_handOut`, `handOut_symbols` : what all calls do, by induction on the texts;
* `Names.Interned` : all that holds afterwards;
* `Names.Indexed.Tracks.step` : the index never differs from the texts;
* `Names.interning` : so whichever is looked up, the symbols are the same.
-/

namespace Unbox

/-- Interns the texts one after the other, and gives the symbols that are handed out. -/
def handOut {σ : Type} (intern : σ → String → Symbol × σ) : List String → σ → List Symbol × σ
  | [], a => ([], a)
  | s :: ss, a =>
    let (y, b) := intern a s
    let (ys, c) := handOut intern ss b
    (y :: ys, c)

theorem handOut_concat {σ : Type} (intern : σ → String → Symbol × σ) (ss : List String) (s : String)
    (a : σ) :
    handOut intern (ss ++ [s]) a =
      ((handOut intern ss a).1 ++ [(intern (handOut intern ss a).2 s).1],
        (intern (handOut intern ss a).2 s).2) := by
  induction ss generalizing a with
  | nil => rfl
  | cons t ss ih =>
    show ((intern a t).1 :: (handOut intern (ss ++ [s]) (intern a t).2).1,
      (handOut intern (ss ++ [s]) (intern a t).2).2) = _
    rw [ih]
    rfl

/-- What two ways of interning have in common before a call they have in common after all calls. -/
theorem handOut_related {σ τ : Type} {f : σ → String → Symbol × σ} {g : τ → String → Symbol × τ}
    {R : σ → τ → Prop} (step : ∀ a b s, R a b → (f a s).1 = (g b s).1 ∧ R (f a s).2 (g b s).2)
    (ss : List String) {a : σ} {b : τ} (h : R a b) :
    (handOut f ss a).1 = (handOut g ss b).1 ∧ R (handOut f ss a).2 (handOut g ss b).2 := by
  induction ss using List.reverseRecOn with
  | nil => exact ⟨rfl, h⟩
  | append_singleton ss s ih =>
    obtain ⟨hsymbol, hnext⟩ := step _ _ s ih.2
    rw [handOut_concat, handOut_concat, ih.1, hsymbol]
    exact ⟨rfl, hnext⟩

theorem eraseDups_concat (ss : List String) (s : String) :
    (ss ++ [s]).eraseDups = if s ∈ ss then ss.eraseDups else ss.eraseDups ++ [s] := by
  rw [List.eraseDups_append]
  split
  · next h => simp [List.removeAll, h]
  · next h => simp [List.removeAll, h, List.eraseDups_cons]

namespace Names
variable {n : Names} {s : String} {y : Symbol}

/-! ## One call -/

theorem symbol?_of_mem (h : s ∈ n.texts.toList) : n.symbol? s = some ⟨n.texts.toList.idxOf s⟩ := by
  obtain ⟨i, hi⟩ := Option.isSome_iff_exists.mp (List.isSome_idxOf?.mpr h)
  rw [symbol?, List.idxOf_eq_getD_idxOf?, hi]
  rfl

theorem symbol?_of_not_mem (h : s ∉ n.texts.toList) : n.symbol? s = none := by
  rw [symbol?, List.idxOf?_eq_none_iff.mpr h]
  rfl

theorem intern_of_mem (h : s ∈ n.texts.toList) : n.intern s = (⟨n.texts.toList.idxOf s⟩, n) := by
  rw [intern, symbol?_of_mem h]

theorem intern_of_not_mem (h : s ∉ n.texts.toList) : n.intern s = (⟨n.size⟩, ⟨n.texts.push s⟩) := by
  rw [intern, symbol?_of_not_mem h]

/-- The place of a text that is new is after all others. -/
theorem index_intern (n : Names) (s : String) : (n.intern s).1 = ⟨n.texts.toList.idxOf s⟩ := by
  by_cases h : s ∈ n.texts.toList
  · rw [intern_of_mem h]
  · rw [intern_of_not_mem h, List.idxOf_of_notMem h]
    rfl

theorem toList_intern (n : Names) (s : String) :
    (n.intern s).2.texts.toList =
      if s ∈ n.texts.toList then n.texts.toList else n.texts.toList ++ [s] := by
  split
  · next h => rw [intern_of_mem h]
  · next h => rw [intern_of_not_mem h, Array.toList_push]

theorem mem_toList_intern (n : Names) (s : String) : s ∈ (n.intern s).2.texts.toList := by
  rw [toList_intern]
  split
  · next h => exact h
  · exact List.mem_append_right _ (List.mem_singleton_self s)

theorem nodup_intern (h : n.texts.toList.Nodup) (s : String) : (n.intern s).2.texts.toList.Nodup := by
  rw [toList_intern]
  split
  · exact h
  · next hs =>
    rw [← List.concat_eq_append]
    exact h.concat hs

theorem text?_eq (n : Names) (y : Symbol) : n.text? y = n.texts.toList[y.index]? := by
  rw [text?, Array.getElem?_toList]

theorem text?_intern (n : Names) (s : String) : (n.intern s).2.text? (n.intern s).1 = some s := by
  have hmem := mem_toList_intern n s
  have hplace : (n.intern s).1 = ⟨(n.intern s).2.texts.toList.idxOf s⟩ := by
    rw [index_intern, toList_intern]
    split
    · rfl
    · next h => rw [List.idxOf_append_of_notMem h, List.idxOf_of_notMem h, List.idxOf_cons_self]; rfl
  rw [text?_eq, hplace, List.getElem?_idxOf hmem]

theorem text?_intern_of_some {t : String} (h : n.text? y = some t) (s : String) :
    (n.intern s).2.text? y = some t := by
  rw [text?_eq] at h ⊢
  rw [toList_intern]
  split
  · exact h
  · rw [List.getElem?_append_left (List.getElem?_eq_some_iff.mp h).1]
    exact h

theorem symbol?_eq_some_iff (hn : n.texts.toList.Nodup) : n.symbol? s = some y ↔ n.text? y = some s := by
  constructor
  · intro h
    by_cases hmem : s ∈ n.texts.toList
    · rw [symbol?_of_mem hmem] at h
      obtain rfl := Option.some.inj h
      rw [text?_eq, List.getElem?_idxOf hmem]
    · rw [symbol?_of_not_mem hmem] at h
      cases h
  · intro h
    rw [text?_eq] at h
    obtain ⟨hlt, rfl⟩ := List.getElem?_eq_some_iff.mp h
    rw [symbol?_of_mem (List.getElem_mem hlt), hn.idxOf_getElem]

/-! ## All calls -/

theorem toList_handOut (ss : List String) : (handOut intern ss {}).2.texts.toList = ss.eraseDups := by
  induction ss using List.reverseRecOn with
  | nil => rfl
  | append_singleton ss s ih =>
    rw [handOut_concat, toList_intern, ih, eraseDups_concat]
    simp only [List.mem_eraseDups]

theorem nodup_handOut (ss : List String) : (handOut intern ss {}).2.texts.toList.Nodup := by
  induction ss using List.reverseRecOn with
  | nil => exact List.nodup_nil
  | append_singleton ss s ih =>
    rw [handOut_concat]
    exact nodup_intern ih s

theorem handOut_symbols (ss : List String) :
    (handOut intern ss {}).1 = ss.map fun s => ⟨ss.eraseDups.idxOf s⟩ := by
  induction ss using List.reverseRecOn with
  | nil => rfl
  | append_singleton ss s ih =>
    have hold : ∀ t ∈ ss, (ss ++ [s]).eraseDups.idxOf t = ss.eraseDups.idxOf t := by
      intro t ht
      rw [List.eraseDups_append, List.idxOf_append_of_mem (List.mem_eraseDups.mpr ht)]
    have hnew : (ss ++ [s]).eraseDups.idxOf s = ss.eraseDups.idxOf s := by
      by_cases hs : s ∈ ss
      · exact hold s hs
      · have hs' : s ∉ ss.eraseDups := mt List.mem_eraseDups.mp hs
        rw [eraseDups_concat, if_neg hs, List.idxOf_append_of_notMem hs', List.idxOf_of_notMem hs',
          List.idxOf_cons_self]
        rfl
    have hmap : ss.map (fun t => Symbol.mk ((ss ++ [s]).eraseDups.idxOf t)) =
        ss.map fun t => Symbol.mk (ss.eraseDups.idxOf t) :=
      List.map_congr_left fun t ht => congrArg Symbol.mk (hold t ht)
    rw [handOut_concat, index_intern, toList_handOut, ih, List.map_append, List.map_singleton, hnew, hmap]

theorem text?_handOut_of_some {t : String} (h : n.text? y = some t) (ss : List String) :
    (handOut intern ss n).2.text? y = some t := by
  induction ss using List.reverseRecOn with
  | nil => exact h
  | append_singleton ss s ih =>
    rw [handOut_concat]
    exact text?_intern_of_some ih s

theorem size_handOut (ss : List String) : (handOut intern ss {}).2.size = ss.toFinset.card := by
  have hset : ss.eraseDups.toFinset = ss.toFinset := by
    ext s
    rw [List.mem_toFinset, List.mem_toFinset, List.mem_eraseDups]
  have hnodup := nodup_handOut ss
  rw [toList_handOut] at hnodup
  rw [← hset, List.toFinset_card_of_nodup hnodup, ← toList_handOut, Array.length_toList]
  rfl

/-- What holds once the texts `ss` were interned, if `ys` was handed out and the names are now `n`. -/
structure Interned (ss : List String) (ys : List Symbol) (n : Names) : Prop where
  /-- The names are the texts in the order in which they first occurred, … -/
  texts : n.texts.toList = ss.eraseDups
  /-- … and the symbol of a text is its number in that order. -/
  symbols : ys = ss.map fun s => ⟨ss.eraseDups.idxOf s⟩
  size : n.size = ss.toFinset.card
  /-- What is interned next, new or not, can be read from its symbol. -/
  text_next : ∀ s, (n.intern s).2.text? (n.intern s).1 = some s
  /-- A text that was interned before has the symbol that it had, and nothing changes. -/
  intern_seen : ∀ (k : Nat) (s : String) (y : Symbol), ss[k]? = some s → ys[k]? = some y →
    n.intern s = (y, n)
  symbol_iff : ∀ s y, n.symbol? s = some y ↔ n.text? y = some s
  /-- Whatever is interned later, the text of a symbol stays. -/
  text_stays : ∀ more s y, n.text? y = some s → (handOut intern more n).2.text? y = some s
  /-- Texts are the same exactly if their symbols are. -/
  eq_iff : ∀ (i j : Nat) (s t : String) (y z : Symbol), ss[i]? = some s → ss[j]? = some t →
    ys[i]? = some y → ys[j]? = some z → (s = t ↔ y = z)

theorem interned_handOut (ss : List String) :
    Interned ss (handOut intern ss {}).1 (handOut intern ss {}).2 := by
  have hsymbol (k : Nat) (s : String) (y : Symbol) (hs : ss[k]? = some s)
      (hy : (handOut intern ss {}).1[k]? = some y) : y = ⟨ss.eraseDups.idxOf s⟩ := by
    rw [handOut_symbols, List.getElem?_map, hs] at hy
    exact (Option.some.inj hy).symm
  refine ⟨toList_handOut ss, handOut_symbols ss, size_handOut ss, text?_intern _, ?_,
    fun s y => symbol?_eq_some_iff (nodup_handOut ss), fun more s y h => text?_handOut_of_some h more, ?_⟩
  · intro k s y hs hy
    have hmem : s ∈ (handOut intern ss {}).2.texts.toList := by
      rw [toList_handOut, List.mem_eraseDups]
      exact List.mem_of_getElem? hs
    rw [intern_of_mem hmem, toList_handOut, hsymbol k s y hs hy]
  · intro i j s t y z hs ht hy hz
    rw [hsymbol i s y hs hy, hsymbol j t z ht hz, Symbol.mk.injEq]
    exact (List.idxOf_inj (List.mem_eraseDups.mpr (List.mem_of_getElem? hs))).symm

/-! ## An index beside the names -/

/-- The index finds in the names what a search finds. -/
def Indexed.Tracks (t : Indexed) (n : Names) : Prop := t.names = n ∧ ∀ s, t.index s = n.symbol? s

theorem symbol?_push (h : s ∉ n.texts.toList) (u : String) :
    (⟨n.texts.push s⟩ : Names).symbol? u = if u = s then some ⟨n.size⟩ else n.symbol? u := by
  have hlist : (⟨n.texts.push s⟩ : Names).texts.toList = n.texts.toList ++ [s] := Array.toList_push
  by_cases hu : u ∈ n.texts.toList
  · have hne : u ≠ s := fun he => h (he ▸ hu)
    rw [if_neg hne, symbol?_of_mem hu, symbol?_of_mem (by rw [hlist]; exact List.mem_append_left _ hu),
      hlist, List.idxOf_append_of_mem hu]
  · split
    · next he =>
      rw [symbol?_of_mem (by rw [hlist, he]; simp), hlist, List.idxOf_append_of_notMem hu, he,
        List.idxOf_cons_self]
      rfl
    · next hne => rw [symbol?_of_not_mem hu, symbol?_of_not_mem (by rw [hlist]; simp [hu, hne])]

theorem Indexed.Tracks.step {t : Indexed} (h : t.Tracks n) (s : String) :
    (t.intern s).1 = (n.intern s).1 ∧ (t.intern s).2.Tracks (n.intern s).2 := by
  obtain ⟨rfl, hindex⟩ := h
  unfold Indexed.intern
  rw [hindex s]
  by_cases hs : s ∈ t.names.texts.toList
  · rw [symbol?_of_mem hs, intern_of_mem hs]
    exact ⟨rfl, rfl, hindex⟩
  · rw [symbol?_of_not_mem hs, intern_of_not_mem hs]
    refine ⟨rfl, rfl, fun u => ?_⟩
    rw [symbol?_push hs]
    simp only [hindex]

/-- After any texts were interned one after the other: symbols are handed out as 0, 1, 2, … in the order
of first occurrence, a text that was seen has its first symbol and changes nothing, symbols and texts
belong to each other and stay so, there are as many names as there were different texts, and texts are
the same exactly if their symbols are. An index that is looked up in place of the names hands out the
same symbols and finds the same. -/
theorem interning (ss : List String) :
    Interned ss (handOut intern ss {}).1 (handOut intern ss {}).2 ∧
    (handOut Indexed.intern ss {}).1 = (handOut intern ss {}).1 ∧
    (handOut Indexed.intern ss {}).2.names = (handOut intern ss {}).2 ∧
    ∀ s, (handOut Indexed.intern ss {}).2.index s = (handOut intern ss {}).2.symbol? s := by
  have hempty : ({} : Indexed).Tracks {} := ⟨rfl, fun _ => rfl⟩
  exact ⟨interned_handOut ss, handOut_related (R := Indexed.Tracks) (fun _ _ s h => h.step s) ss hempty⟩

/-- Three calls for two texts. -/
example : handOut intern ["hash", "string", "hash"] {} = ([⟨0⟩, ⟨1⟩, ⟨0⟩], ⟨#["hash", "string"]⟩) := by
  rfl

end Names

end Unbox
