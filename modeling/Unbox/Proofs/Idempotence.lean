import Unbox.Policy.Standard
import Unbox.Proofs.Topmost

/-!
# The topmost declaration of a topmost declaration

A topmost declaration should be its own topmost one. It is, but for the parameters of extended
classes: which classes are climbed, aliases or actual ones, is up to the first class alone, so the
climb may end at a class of the other kind, whose parameters stand for others in turn.

* `Program.resolved_mono` : what is resolved is resolved alike with more room and a shorter path;
* `Program.OwnsParameters` : what a class lists as a parameter is a parameter of that class;
* `Program.Stranded q` : a climb ends at `q`, and `q` does not stand for itself by its class;
* `Program.resolved_self` : every other declaration that a resolution ends at is resolved to itself;
* `Program.topmost_idempotent` : a topmost declaration is its own topmost one, or stranded;
* `Program.topmost_moves` : an alias of an actual class, whose parameter has a stranded one for its
  topmost declaration.
-/

namespace Unbox.Program
variable {p : Program} {policy : Policy} {r : Rewrites}

/-- By induction on the room: every rule is applied to the same declarations again. -/
theorem resolved_mono {room room' : Nat} {path path' : List DeclId} {d e : DeclId}
    (h : p.resolved policy r room path d = some e) (hr : room ≤ room') (hp : path' ⊆ path) :
    p.resolved policy r room' path' d = some e := by
  induction room generalizing room' path path' d e with
  | zero => cases h
  | succ room ih =>
    obtain ⟨k, rfl⟩ : ∃ k, room' = k + 1 := ⟨room' - 1, by omega⟩
    have hk : room ≤ k := by omega
    have hnext : d :: path' ⊆ d :: path := List.cons_subset_cons d hp
    have target (s : Standing) (hs : s.target (p.resolved policy r room (d :: path)) = some e) :
        s.target (p.resolved policy r k (d :: path')) = some e := by
      cases s with
      | settled a => exact hs
      | like a => exact ih hs hk hnext
    rw [resolved] at h ⊢
    split at h
    · cases h
    next hd =>
    have hd' : ¬ path'.contains d = true := by
      intro hc
      exact hd (List.contains_iff_mem.mpr (hp (List.contains_iff_mem.mp hc)))
    rw [if_neg hd']
    cases hx : p.decl? d with
    | none =>
      rw [hx] at h
      exact h
    | some x =>
      simp only [hx] at h ⊢
      cases hf : p.askedMethod? policy x with
      | none =>
        simp only [hf] at h ⊢
        exact target _ h
      | some function =>
        simp only [hf] at h ⊢
        cases hg : p.resolved policy r room (d :: path) function with
        | none => simp [hg] at h
        | some refined =>
          simp only [hg] at h
          simp only [ih hg hk hnext]
          exact target _ h

/-! ## Where a climb ends -/

/-- What a class lists as a parameter is a parameter and stands directly in the class. -/
def OwnsParameters (p : Program) : Prop :=
  ∀ k x, p.decl? k = some x → x.isClass = true → ∀ list ∈ x.parameterLists, ∀ q ∈ list,
    ∃ y, p.decl? q = some y ∧ y.isParameter = true ∧ y.scope = .declaration k

/-- A climb from the class `owner` ends at the parameter `q` of `k`, which does not stand for itself by
that class. -/
inductive Stranded (p : Program) (q : DeclId) : Prop where
  /-- From an alias only aliases are climbed, and what the last one extends is an actual class. -/
  | actual {owner d k : DeclId} {x y : Declaration} (hc : p.classCounterpart owner d = some (k, q))
    (hx : p.decl? owner = some x) (hy : p.decl? k = some y) (hl : x.isAlias = true)
    (ha : x.isActual = false) (hk : y.isActual = true)
  /-- From an actual class no alias is climbed any more once an actual class is. -/
  | alias_ {owner d k : DeclId} {x y : Declaration} (hc : p.classCounterpart owner d = some (k, q))
    (hx : p.decl? owner = some x) (hy : p.decl? k = some y) (ha : x.isActual = true)
    (hk : y.isAlias = true)
  /-- What is extended in the end is a method, whose parameters may be anything. -/
  | method {owner d k : DeclId} {y : Declaration} (hc : p.classCounterpart owner d = some (k, q))
    (hy : p.decl? k = some y) (hk : y.isMethod = true)
  /-- What is listed is neither a value nor a method, so that it goes the way of its pointer. -/
  | odd {owner d k : DeclId} {z : Declaration} (hc : p.classCounterpart owner d = some (k, q))
    (hz : p.decl? q = some z) (hv : z.isValue = false) (hm : z.isMethod = false)
    (hr : p.refinedOther? q ≠ none)

theorem climb_eq_some {keep : Declaration → Bool} {fuel : Nat} {seen : List DeclId} {d k : DeclId}
    (h : p.climb keep fuel seen d = some k) : ∃ y, p.decl? k = some y ∧ keep y = false := by
  induction fuel generalizing seen d with
  | zero => cases h
  | succ fuel ih =>
    obtain ⟨x, hx, h⟩ := Option.bind_eq_some_iff.mp h
    split at h
    · next hk =>
      obtain rfl := Option.some.inj h
      exact ⟨x, hx, by simpa using hk⟩
    split at h
    · cases h
    · obtain ⟨e, -, h⟩ := Option.bind_eq_some_iff.mp h
      exact ih h

theorem mem_of_classCounterpart {owner d k q : DeclId} {x : Declaration} (hx : p.decl? owner = some x)
    (hclimbs : x.isAlias = true ∨ x.isActual = true) (h : p.classCounterpart owner d = some (k, q)) :
    ∃ list, x.parameterLists.head? = some list ∧ d ∈ list := by
  unfold classCounterpart at h
  obtain ⟨x', hx', h⟩ := Option.bind_eq_some_iff.mp h
  cases hx.symm.trans hx'
  rw [if_neg (by rcases hclimbs with hl | ha <;> simp [*])] at h
  obtain ⟨list, hlist, h⟩ := Option.bind_eq_some_iff.mp h
  obtain ⟨i, hi, -⟩ := Option.bind_eq_some_iff.mp h
  exact ⟨list, hlist, List.isSome_idxOf?.mp (Option.isSome_of_eq_some hi)⟩

/-- What is climbed from an alias or an actual class ends at a class that is not of the kind climbed
last. -/
theorem classCounterpart_eq_some {owner d k q : DeclId}
    (h : p.classCounterpart owner d = some (k, q)) (hne : q ≠ d) :
    ∃ x y list, p.decl? owner = some x ∧ p.decl? k = some y ∧ list ∈ y.parameterLists ∧ q ∈ list ∧
      (x.isActual = false → x.isAlias = true ∧ y.isAlias = false) ∧
      (x.isActual = true → y.isActual = false) := by
  unfold classCounterpart at h
  obtain ⟨x, hx, h⟩ := Option.bind_eq_some_iff.mp h
  split at h
  · exact absurd (Prod.mk.inj (Option.some.inj h)).2.symm hne
  next hkind =>
  obtain ⟨first, -, h⟩ := Option.bind_eq_some_iff.mp h
  obtain ⟨i, -, h⟩ := Option.bind_eq_some_iff.mp h
  have listed (b : DeclId) (h : (do
      let list ← (← p.decl? b).parameterLists.head?
      return (b, ← list[i]?)) = some (k, q)) :
      k = b ∧ ∃ y list, p.decl? k = some y ∧ list ∈ y.parameterLists ∧ q ∈ list := by
    obtain ⟨y, hy, h⟩ := Option.bind_eq_some_iff.mp h
    obtain ⟨list, hl, h⟩ := Option.bind_eq_some_iff.mp h
    obtain ⟨q', hq, h⟩ := Option.bind_eq_some_iff.mp h
    obtain ⟨rfl, rfl⟩ := Prod.mk.inj (Option.some.inj h)
    exact ⟨rfl, y, list, hy, List.mem_of_head? hl, List.mem_of_getElem? hq⟩
  dsimp only at h
  have last (c : DeclId) (h : (if x.isActual = true then do
        let c ← p.climbWhile Declaration.isActual c
        let list ← (← p.decl? c).parameterLists.head?
        return (c, ← list[i]?)
      else do
        let c ← some c
        let list ← (← p.decl? c).parameterLists.head?
        return (c, ← list[i]?)) = some (k, q)) :
      (x.isActual = false → k = c) ∧ ∃ y list, p.decl? k = some y ∧ list ∈ y.parameterLists ∧
        q ∈ list ∧ (x.isActual = true → y.isActual = false) := by
    split at h
    · next ha =>
      obtain ⟨b, hb, h⟩ := Option.bind_eq_some_iff.mp h
      obtain ⟨rfl, y, list, hy, hlist, hq⟩ := listed b h
      obtain ⟨y', hy', hact⟩ := climb_eq_some hb
      cases hy.symm.trans hy'
      exact ⟨fun hn => absurd ha (by simp [hn]), y, list, hy, hlist, hq, fun _ => hact⟩
    · next ha =>
      obtain ⟨b, hb, h⟩ := Option.bind_eq_some_iff.mp h
      obtain ⟨rfl, y, list, hy, hlist, hq⟩ := listed b h
      exact ⟨fun _ => (Option.some.inj hb).symm, y, list, hy, hlist, hq, fun hn => absurd hn ha⟩
  split at h
  · next hl =>
    obtain ⟨a, ha, h⟩ := Option.bind_eq_some_iff.mp h
    obtain ⟨hk, y, list, hy, hlist, hq, hact⟩ := last a h
    refine ⟨x, y, list, hx, hy, hlist, hq, fun hn => ⟨hl, ?_⟩, hact⟩
    obtain ⟨y', hy', hal⟩ := climb_eq_some ha
    rw [hk hn] at hy
    cases hy.symm.trans hy'
    exact hal
  · next hl =>
    obtain ⟨a, -, h⟩ := Option.bind_eq_some_iff.mp h
    obtain ⟨-, y, list, hy, hlist, hq, hact⟩ := last a h
    refine ⟨x, y, list, hx, hy, hlist, hq, fun hn => ?_, hact⟩
    simp [hl, hn] at hkind

/-! ## What a resolution ends at -/

/-- Where no literal stands for a method, only a class parameter is settled at another declaration. -/
theorem Applies.settled_other {d e : DeclId} {x : Declaration} {s : Standing}
    (h : p.Applies policy {} d x s) (hs : s = .settled e) (hne : e ≠ d) :
    ∃ owner, p.classParameter owner d = .settled e := by
  cases h with
  | alone =>
    unfold standing at hs
    split at hs
    · next owner _ => exact ⟨owner, hs⟩
    split at hs
    · cases hs
      exact absurd rfl hne
    · rw [shortcut_of_lookup rfl, Option.getD_none] at hs
      exact absurd (through_cases.1 hs).1 hne
  | asked _ => exact absurd (methodParameter_cases.1 hs) hne

/-- The class parameter `d` is settled at its counterpart `e`, which refines no other member of the
class `k`. -/
theorem classParameter_settled_other {owner d e : DeclId}
    (h : p.classParameter owner d = .settled e) (hne : e ≠ d) :
    ∃ k z, p.classCounterpart owner d = some (k, e) ∧ p.decl? e = some z ∧
      ∀ refined, (if z.isShared then p.refinedMember k z else none) = some refined → refined = e := by
  unfold classParameter at h
  split at h
  · exact absurd (Standing.settled.inj h).symm hne
  next k q hq =>
  split at h
  · exact absurd (Standing.settled.inj h).symm hne
  next z hz =>
  split at h
  · next refined hr =>
    split at h
    · next heq =>
      obtain rfl := Standing.settled.inj h
      refine ⟨k, z, hq, hz, fun a ha => ?_⟩
      exact (Option.some.inj (ha.symm.trans hr)).trans heq
    · cases h
  · next hr =>
    obtain rfl := Standing.settled.inj h
    exact ⟨k, z, hq, hz, fun a ha => nomatch ha.symm.trans hr⟩

/-- The parameter of a class that is neither an alias nor actual is settled at itself, unless it refines
another member. -/
theorem classParameter_of_plain {k q : DeclId} {y z : Declaration} (hy : p.decl? k = some y)
    (hl : y.isAlias = false) (ha : y.isActual = false) (hz : p.decl? q = some z)
    (hr : ∀ refined, (if z.isShared then p.refinedMember k z else none) = some refined →
      refined = q) :
    p.classParameter k q = .settled q := by
  have hc : p.classCounterpart k q = some (k, q) := by
    simp [classCounterpart, hy, hl, ha]
  unfold classParameter
  rw [hc]
  dsimp only
  rw [hz]
  dsimp only
  split
  · next refined h => rw [if_pos (hr refined h)]
  · rfl

theorem isMethod_of_parameterLists {y : Declaration} {list : List DeclId}
    (h : list ∈ y.parameterLists) (hc : y.isClass = false) : y.isMethod = true := by
  unfold Declaration.parameterLists at h
  unfold Declaration.isClass at hc
  unfold Declaration.isMethod
  cases hk : y.kind with
  | method => rfl
  | classType => simp [hk] at hc
  | _ => simp [hk] at h

theorem resolved_of_odd {q : DeclId} {z : Declaration} (hz : p.decl? q = some z)
    (hv : z.isValue = false) (hm : z.isMethod = false) (hr : p.refinedOther? q = none) :
    p.resolved policy r 1 [] q = some q := by
  have hs : p.shortcut r q z = none := by simp [shortcut, hm]
  simp [resolved, hz, askedMethod?, owningClass?, isMethodParameter, hv, hm, standing, hs,
    through_of_none hr, Standing.target]

/-- A parameter that a climb ends at is resolved to itself, unless it is stranded. -/
theorem resolved_of_counterpart (hp : p.OwnsParameters) {owner d k q : DeclId} {z : Declaration}
    (hc : p.classCounterpart owner d = some (k, q)) (hne : q ≠ d) (hz : p.decl? q = some z)
    (hr : ∀ refined, (if z.isShared then p.refinedMember k z else none) = some refined →
      refined = q) :
    p.resolved policy {} 1 [] q = some q ∨ p.Stranded q := by
  obtain ⟨x, y, list, hx, hy, hlist, hq, hal, hact⟩ := classCounterpart_eq_some hc hne
  cases hclass : y.isClass with
  | false => exact .inr (.method hc hy (isMethod_of_parameterLists hlist hclass))
  | true =>
  cases hkind : z.isValue || z.isMethod with
  | false =>
    obtain ⟨hv, hm⟩ := Bool.or_eq_false_iff.mp hkind
    by_cases hother : p.refinedOther? q = none
    · exact .inl (resolved_of_odd hz hv hm hother)
    · exact .inr (.odd hc hz hv hm hother)
  | true =>
  obtain ⟨z', hz', hpar, hscope⟩ := hp k y hy hclass list hlist q hq
  cases hz.symm.trans hz'
  have howner : p.owningClass? z = some k := by simp [owningClass?, hkind, hpar, hscope, hy, hclass]
  have plain (hl : y.isAlias = false) (ha : y.isActual = false) :
      p.resolved policy {} 1 [] q = some q := by
    simp [resolved, hz, askedMethod?, howner, standing, classParameter_of_plain hy hl ha hz hr,
      Standing.target]
  cases hxa : x.isActual with
  | false =>
    obtain ⟨hxl, hyl⟩ := hal hxa
    cases hya : y.isActual with
    | false => exact .inl (plain hyl hya)
    | true => exact .inr (.actual hc hx hy hxl hxa hya)
  | true =>
    have hya := hact hxa
    cases hyl : y.isAlias with
    | false => exact .inl (plain hyl hya)
    | true => exact .inr (.alias_ hc hx hy hxa hyl)

/-- By induction on the room: the last rule that is applied settles on its own declaration, or on the
counterpart of a class parameter. -/
theorem resolved_self (hp : p.OwnsParameters) {room : Nat} {path : List DeclId} {d e : DeclId}
    (h : p.resolved policy {} room path d = some e) :
    p.resolved policy {} (max room 1) [] e = some e ∨ p.Stranded e := by
  induction room generalizing path d with
  | zero => cases h
  | succ room ih =>
    have hroom : room + 1 ≤ max (room + 1) 1 := Nat.le_max_left _ _
    rcases resolved_cases h with ⟨-, rfl⟩ | ⟨x, s, -, happ, ht⟩
    · exact .inl (resolved_mono h hroom (List.nil_subset _))
    cases s with
    | like a =>
      refine (ih ht).imp_left fun he => ?_
      exact resolved_mono he (by omega) (List.nil_subset _)
    | settled a =>
      obtain rfl : a = e := Option.some.inj ht
      by_cases hne : a = d
      · subst hne
        exact .inl (resolved_mono h hroom (List.nil_subset _))
      · obtain ⟨owner, hs⟩ := happ.settled_other rfl hne
        obtain ⟨k, z, hc, hz, hr⟩ := classParameter_settled_other hs hne
        have hself : p.resolved policy {} 1 [] a = some a ∨ p.Stranded a :=
          resolved_of_counterpart hp hc hne hz hr
        exact hself.imp_left fun he => resolved_mono he (Nat.le_max_right _ _) (List.nil_subset _)

/-- The topmost declaration of a declaration is its own topmost one, whatever the limit is, unless it
is stranded: the parameter of a class at which a climb ended although it stands for another one. -/
theorem topmost_idempotent (hp : p.OwnsParameters) (policy : Policy) (limit : Nat) (d : DeclId) :
    p.topmost policy limit {} (p.topmost policy limit {} d) = p.topmost policy limit {} d ∨
      p.Stranded (p.topmost policy limit {} d) := by
  rw [topmost_eq (d := d)]
  cases h : p.resolved policy {} (max limit 1) [] d with
  | none =>
    refine .inl ?_
    rw [Option.getD_none, topmost_eq, h, Option.getD_none]
  | some e =>
    refine (resolved_self hp h).imp_left fun he => ?_
    have hmax : max (max limit 1) 1 = max limit 1 := by omega
    rw [hmax] at he
    rw [Option.getD_some, topmost_eq, he, Option.getD_some]

/-! ## An alias of an actual class -/

/-- A class (0) with a parameter (1), an actual class (2) with a parameter (3) that extends it, and an
alias (4) of that one with a parameter (5). -/
def renamed : Program where
  decls := #[
    { name := some ⟨0⟩, kind := .classType { list := some [⟨1⟩] }, scope := .unit },
    { name := some ⟨3⟩, kind := .value, scope := .declaration ⟨0⟩, type := some ⟨0⟩,
      modifiers := ⟨[.parameter]⟩ },
    { name := some ⟨1⟩, kind := .classType { list := some [⟨3⟩], extended := some ⟨0⟩ },
      scope := .unit, modifiers := ⟨[.actual]⟩ },
    { name := some ⟨4⟩, kind := .value, scope := .declaration ⟨2⟩, type := some ⟨0⟩,
      modifiers := ⟨[.parameter]⟩ },
    { name := some ⟨2⟩, kind := .classType { list := some [⟨5⟩], extended := some ⟨1⟩ },
      scope := .unit, modifiers := ⟨[.synonym]⟩ },
    { name := some ⟨5⟩, kind := .value, scope := .declaration ⟨4⟩, type := some ⟨0⟩,
      modifiers := ⟨[.parameter]⟩ }]
  types := #[.nominal ⟨0⟩ [], .nominal ⟨2⟩ []]

theorem ownsParameters_renamed : renamed.OwnsParameters := by
  rintro ⟨n⟩ x hx hclass list hlist q hq
  match n with
  | 0 | 2 | 4 =>
    cases hx
    obtain rfl := List.mem_singleton.mp hlist
    obtain rfl := List.mem_singleton.mp hq
    exact ⟨_, rfl, rfl, rfl⟩
  | 1 | 3 | 5 =>
    cases hx
    cases hclass
  | n + 6 => cases hx

theorem not_stranded_renamed : ¬ renamed.Stranded ⟨1⟩ := by
  have hkind {k : DeclId} {y : Declaration} (hy : renamed.decl? k = some y) :
      y.isMethod = false ∧ (y.isAlias = true → k = ⟨4⟩) ∧ (y.isActual = true → k = ⟨2⟩) := by
    obtain ⟨_ | _ | _ | _ | _ | _ | n⟩ := k <;> cases hy <;> decide
  intro h
  cases h with
  | actual hc hx hy hl =>
    obtain ⟨list, hlist, hd⟩ := mem_of_classCounterpart hx (.inl hl) hc
    obtain rfl := (hkind hx).2.1 hl
    cases hx
    cases hlist
    obtain rfl := List.mem_singleton.mp hd
    cases hc
  | alias_ hc hx hy ha hk =>
    obtain ⟨list, hlist, hd⟩ := mem_of_classCounterpart hx (.inr ha) hc
    obtain rfl := (hkind hx).2.2 ha
    cases hx
    cases hlist
    obtain rfl := List.mem_singleton.mp hd
    cases hc
    cases hy
    cases hk
  | method hc hy hk => exact absurd (hk.symm.trans (hkind hy).1) (by simp)
  | odd hc hz hv =>
    cases hz
    cases hv

/-- The parameter of the actual class stands for that of the class it extends, which stands for
itself. -/
theorem topmost_idempotent_actual :
    renamed.OwnsParameters ∧ renamed.topmost .standard 8 {} ⟨3⟩ = ⟨1⟩ ∧
      renamed.topmost .standard 8 {} (renamed.topmost .standard 8 {} ⟨3⟩) =
        renamed.topmost .standard 8 {} ⟨3⟩ :=
  ⟨ownsParameters_renamed, rfl, (topmost_idempotent ownsParameters_renamed .standard 8 ⟨3⟩).resolve_right
    not_stranded_renamed⟩

/-- The topmost declaration of the alias's parameter is the parameter of the actual class, whose
topmost declaration is another one. -/
theorem topmost_moves :
    renamed.OwnsParameters ∧ renamed.topmost .standard 8 {} ⟨5⟩ = ⟨3⟩ ∧
      renamed.topmost .standard 8 {} (renamed.topmost .standard 8 {} ⟨5⟩) = ⟨1⟩ :=
  ⟨ownsParameters_renamed, rfl, rfl⟩

end Unbox.Program
