import Unbox.Draft.Core
import Unbox.Proofs.Answers
import Unbox.Proofs.Congruence

/-!
# What shows of optional types and of bounds

An optional type looks like its payload, once boxed. A type parameter looks like the bound that it
keeps, unless that is a type parameter again.

* `Program.ownLook` : what a type looks like by its own form;
* `Program.erased_of_looksLike`, `Program.erased_of_none` : the rule of what a type looks like, with
  no depth;
* `Program.Wraps p t n w` : `w` is `t`, made optional `n` times;
* `Core.Apart` : no basic class is a top class, as in every new draft;
* `Program.erased_wraps` : which types are primitive, which look like the top type, and what making
  a type optional changes; `Program.erased_overlapping`, a basic class that is a top class;
* `Program.exists_end` : the way along what a type looks like ends at the class that shows;
* `Program.keepsBound_shows` : whether a type parameter keeps a bound, and what shows of it.
-/

namespace Unbox

@[simp] theorem Erased.boxed_boxed (look : Erased) : look.boxed.boxed = look.boxed := by
  cases look <;> rfl

theorem Erased.boxed_ne_primitive (look : Erased) (c : DeclId) : look.boxed ≠ .primitive c := by
  cases look <;> simp [boxed]

/-- No class with a primitive slot is a top class. -/
def Core.Apart (c : Core) : Prop := ∀ d, c.isBasicClass d = true → c.isTopClass d = false

theorem Core.apart_of_classes {c : Core}
    (h : ∀ d ∈ [c.boolean, c.integer, c.float, c.byte, c.character, c.string], c.isTopClass d = false) :
    c.Apart := fun d hd => h d (List.contains_iff_mem.mp hd)

/-- The classes of a new draft are all different. -/
theorem Draft.apart_new : Draft.new.program.core.Apart := Core.apart_of_classes (by decide +kernel)

namespace Program
variable {p : Program} {t u w : TypeId} {look : Erased}

/-! ## The rule without a depth -/

theorem looksLike_of_payload (h : p.optionalPayload? t = some u) : p.LooksLike t u := by
  simp [LooksLike, looksLike?, h]

theorem optionalPayload?_of_none (h : p.looksLike? t = none) : p.optionalPayload? t = none := by
  cases hp : p.optionalPayload? t with
  | none => rfl
  | some u => exact absurd (h.symm.trans (looksLike_of_payload hp)) (by simp)

theorem erasesToObjectTo_of_none (h : p.optionalPayload? t = none) (n : Nat) :
    p.erasesToObjectTo (n + 1) t = p.erasesToObject t := by
  simp only [erasesToObject, typeDepth, erasesToObjectTo, h]

/-- What a type looks like by its own form. -/
def ownLook (p : Program) (t : TypeId) : Erased :=
  if p.isBasic t then (p.nominal? t).elim .object .primitive
  else if p.erasesToObject t then .object
  else (p.nominal? t).elim .object .reference

theorem erasedOnce_of_none (h : p.looksLike? t = none) (again : TypeId → Erased) :
    p.erasedOnce again t = p.ownLook t := by
  unfold ownLook
  have hp := optionalPayload?_of_none h
  by_cases hbasic : p.isBasic t = true
  · obtain ⟨d, hd⟩ := nominal?_of_isBasic hbasic
    simp [erasedOnce, hp, hbasic, hd]
  · by_cases herases : p.erasesToObject t = true
    · simp [erasedOnce, hp, hbasic, herases]
    · cases hform : p.form? t with
      | none => simp [erasedOnce, hp, hbasic, herases, hform, nominal?]
      | some form =>
        cases form with
        | typeParameter d =>
          cases hbound : p.firstKeptBound? d with
          | none => simp [erasedOnce, hp, hbasic, herases, hform, hbound, nominal?]
          | some bound =>
            have huse : p.isTypeParameterUse bound = true := by
              simpa [looksLike?, hp, hform, hbound] using h
            simp [erasedOnce, hp, hbasic, herases, hform, hbound, huse, nominal?]
        | _ => simp [erasedOnce, hp, hbasic, herases, hform, nominal?]

theorem erasedTo_eq_ownLook (h : p.looksLike? t = none) (n : Nat) :
    p.erasedTo (n + 1) t = some (p.ownLook t) := by
  rw [erasedTo_of_none h n fun _ => .object, erasedOnce_of_none h]

theorem erasedTo_mono {m n : Nat} (hmn : n ≤ m) (h : p.erasedTo n t = some look) :
    p.erasedTo m t = some look := by
  induction n generalizing m t look with
  | zero => cases h
  | succ n ih =>
    obtain ⟨m, rfl⟩ : ∃ k, m = k + 1 := ⟨m - 1, by omega⟩
    cases hu : p.looksLike? t with
    | none => rwa [erasedTo_eq_ownLook hu] at h ⊢
    | some u =>
      rw [erasedTo_of_looksLike hu] at h ⊢
      obtain ⟨look', hlook, rfl⟩ := Option.map_eq_some_iff.mp h
      rw [ih (by omega) hlook]
      rfl

/-- A type looks like another one, boxed, or both never show. -/
theorem erased_of_looksLike (h : p.LooksLike t u) : p.erased t = (p.erased u).map Erased.boxed := by
  have hdepth : p.erased t = (p.erasedTo p.types.size u).map Erased.boxed := erasedTo_of_looksLike h _
  cases hu : p.erased u with
  | some look =>
    have ht : ¬ p.Circular t := by
      intro hback
      obtain ⟨v, hv, hback⟩ := hback.exists_next
      obtain rfl : u = v := Option.some.inj (h.symm.trans hv)
      exact not_circular_of_erased hu hback
    obtain ⟨look', hlook'⟩ := exists_erased ht
    rw [hdepth] at hlook' ⊢
    obtain ⟨inner, hinner, -⟩ := Option.map_eq_some_iff.mp hlook'
    have hsame := (erasedTo_mono (Nat.le_succ _) hinner).symm.trans hu
    rw [hinner, hsame]
  | none =>
    cases hinner : p.erasedTo p.types.size u with
    | none => rw [hdepth, hinner]
    | some look =>
      have hshown := erasedTo_mono (Nat.le_succ _) hinner
      exact absurd (hshown.symm.trans hu) (by simp)

theorem erased_of_none (h : p.looksLike? t = none) : p.erased t = some (p.ownLook t) :=
  erasedTo_eq_ownLook h _

theorem erased_cases (h : p.erased t = some look) :
    p.looksLike? t = none ∧ look = p.ownLook t ∨
      ∃ (u : TypeId) (inner : Erased), p.LooksLike t u ∧ look = inner.boxed := by
  cases hu : p.looksLike? t with
  | none => exact .inl ⟨rfl, Option.some.inj (h.symm.trans (erased_of_none hu))⟩
  | some u =>
    rw [erased_of_looksLike hu] at h
    obtain ⟨inner, -, hinner⟩ := Option.map_eq_some_iff.mp h
    exact .inr ⟨u, inner, hu, hinner.symm⟩

theorem ownLook_of_typeParameter {d : DeclId} (h : p.form? t = some (.typeParameter d)) :
    p.ownLook t = .object := by
  simp [ownLook, isBasic, nominal?, h]

/-! ## Primitive slots and the top type -/

theorem isBasic_of_looksLike (h : p.LooksLike t u) : p.isBasic t = false := by
  rcases looksLike?_cases h with hp | ⟨-, d, hform, -⟩
  · obtain ⟨members, hform, -⟩ := optionalPayload?_eq_some_iff.mp hp
    simp [isBasic, hform]
  · simp [isBasic, hform]

theorem erased_primitive_iff (h : p.erased t = some look) (c : DeclId) :
    look = .primitive c ↔ p.isBasic t = true ∧ p.nominal? t = some c := by
  rcases erased_cases h with ⟨-, rfl⟩ | ⟨u, inner, hu, rfl⟩
  · unfold ownLook
    by_cases hbasic : p.isBasic t = true
    · obtain ⟨d, hd⟩ := nominal?_of_isBasic hbasic
      simp [hbasic, hd]
    · cases p.nominal? t <;> by_cases herases : p.erasesToObject t = true <;> simp [hbasic, herases]
  · simp [inner.boxed_ne_primitive, isBasic_of_looksLike hu]

/-- By induction on the depth, which both recursions use up alike. -/
theorem erasedTo_of_erasesToObjectTo (hc : p.core.Apart) {n : Nat} (h : p.erasedTo n t = some look)
    (herases : p.erasesToObjectTo n t = true) : look = .object := by
  induction n generalizing t look with
  | zero => cases h
  | succ n ih =>
    cases hp : p.optionalPayload? t with
    | some u =>
      rw [erasedTo_of_looksLike (looksLike_of_payload hp)] at h
      obtain ⟨inner, hinner, rfl⟩ := Option.map_eq_some_iff.mp h
      rw [erasesToObjectTo, hp] at herases
      rw [ih hinner herases]
      rfl
    | none =>
      rw [erasesToObjectTo_of_none hp] at herases
      by_cases hbasic : p.isBasic t = true
      · obtain ⟨d, hform, hd⟩ := form?_of_isBasic hbasic
        have htop : p.core.isTopClass d = true := by
          simpa [erasesToObject, typeDepth, erasesToObjectTo, hp, hform] using herases
        exact absurd (htop.symm.trans (hc d hd)) (by simp)
      · simpa [erasedTo, hp, hbasic, herases] using h.symm

/-! ## Optional types -/

theorem hasErasureTo_congr (m n : Nat) (t : TypeId)
    (h : ∀ u, p.PartOf u t → p.hasErasureTo m u = p.hasErasureTo n u) :
    p.hasErasureTo (m + 1) t = p.hasErasureTo (n + 1) t := by
  cases hp : p.optionalPayload? t with
  | some u =>
    simp only [hasErasureTo, hp]
    exact h u (partOf_of_optionalPayload? hp)
  | none =>
    simp only [hasErasureTo, hp]
    cases hform : p.form? t with
    | none => rfl
    | some form =>
      cases form with
      | nominal d args => exact any_of_forall₂ (List.forall₂_same.mpr fun x hx => h x ⟨_, hform, hx⟩)
      | _ => rfl

theorem hasErasure_of_payload (hw : WellFounded p.PartOf) (h : p.optionalPayload? t = some u) :
    p.hasErasure t = p.hasErasure u := by
  have hsame : p.hasErasureTo p.typeDepth t = p.hasErasureTo (p.typeDepth + 1) t :=
    eq_of_deep hw hasErasureTo_congr (Nat.lt_succ_self _) (Nat.lt_succ_of_lt (Nat.lt_succ_self _)) t
  rw [hasErasure, hsame, hasErasureTo, h]
  rfl

theorem erasesToObject_of_payload (hw : WellFounded p.PartOf) (h : p.optionalPayload? t = some u) :
    p.erasesToObject t = p.erasesToObject u := by
  have hsame : p.erasesToObjectTo p.typeDepth t = p.erasesToObjectTo (p.typeDepth + 1) t :=
    eq_of_deep hw (fun _ _ _ hparts => erasesOnce_congr hparts) (Nat.lt_succ_self _)
      (Nat.lt_succ_of_lt (Nat.lt_succ_self _)) t
  rw [erasesToObject, hsame, erasesToObjectTo, h]
  rfl

/-- `w` is `t`, made optional `n` times, with the null on either side. -/
inductive Wraps (p : Program) (t : TypeId) : Nat → TypeId → Prop where
  | zero : Wraps p t 0 t
  | succ {n : Nat} {u null w : TypeId} (h : Wraps p t n u) (hnull : p.isNull null = true)
    (hform : p.form? w = some (.union [u, null]) ∨ p.form? w = some (.union [null, u])) :
    Wraps p t (n + 1) w

namespace Wraps
variable {n : Nat}

theorem isNull (ht : p.isNull t = false) (h : p.Wraps t n w) : p.isNull w = false := by
  cases h with
  | zero => exact ht
  | succ _ _ hform =>
    rcases hform with hform | hform <;> simp [Program.isNull, isNominalOf, nominal?, hform]

theorem optionalPayload? (ht : p.isNull t = false) (h : p.Wraps t (n + 1) w) :
    ∃ u, p.Wraps t n u ∧ p.optionalPayload? w = some u := by
  cases h with
  | @succ _ u null _ h hnull hform =>
    have hu := h.isNull ht
    refine ⟨u, h, optionalPayload?_eq_some_iff.mpr ?_⟩
    rcases hform with hform | hform
    · exact ⟨_, hform, ⟨null, by simp, hnull⟩, by simp [hu, hnull]⟩
    · exact ⟨_, hform, ⟨null, by simp, hnull⟩, by simp [hu, hnull]⟩

/-- What an optional type has in common with its payload, `t` has in common with all that it is
wrapped in. -/
theorem eq_of_payload {α : Type} {F : TypeId → α} (ht : p.isNull t = false)
    (hF : ∀ w u, p.optionalPayload? w = some u → F w = F u) (h : p.Wraps t n w) : F w = F t := by
  induction n generalizing w with
  | zero =>
    cases h
    rfl
  | succ n ih =>
    obtain ⟨u, hu, hp⟩ := h.optionalPayload? ht
    exact (hF w u hp).trans (ih hu)

theorem erased (ht : p.isNull t = false) (h : p.Wraps t (n + 1) w) :
    p.erased w = (p.erased t).map Erased.boxed := by
  have hpayload (w u : TypeId) (hp : p.optionalPayload? w = some u) :
      p.erased w = (p.erased u).map Erased.boxed := erased_of_looksLike (looksLike_of_payload hp)
  obtain ⟨u, hu, hp⟩ := h.optionalPayload? ht
  rw [hpayload w u hp]
  refine hu.eq_of_payload ht (F := fun a => (p.erased a).map Erased.boxed) fun w u hp => ?_
  rw [hpayload w u hp, Option.map_map]
  simp [Function.comp_def]

end Wraps

/-- What a type looks like is the primitive slot of a class exactly if it is a use of that basic
class, and, where no basic class is a top class (`Core.Apart`), the top type if it erases. To make a
type optional, once or more often and with the null on either side, leaves whether it erases, in itself
or to the top type; what was a primitive slot becomes a reference to the class, and whatever else it
looks like stays. -/
theorem erased_wraps (p : Program) (hw : WellFounded p.PartOf) (t : TypeId) :
    (∀ look, p.erased t = some look →
      (∀ c, look = .primitive c ↔ p.isBasic t = true ∧ p.nominal? t = some c) ∧
      (p.core.Apart → p.erasesToObject t = true → look = .object)) ∧
    (p.isNull t = false → ∀ n w, p.Wraps t (n + 1) w →
      p.hasErasure w = p.hasErasure t ∧ p.erasesToObject w = p.erasesToObject t ∧
      (∀ c, p.erased t = some (.primitive c) → p.erased w = some (.reference c)) ∧
      ∀ look, p.erased t = some look → (∀ c, look ≠ .primitive c) → p.erased w = some look) := by
  refine ⟨fun look h => ⟨erased_primitive_iff h, fun hc => erasedTo_of_erasesToObjectTo hc h⟩, ?_⟩
  intro ht n w h
  have hinner : p.hasErasure w = p.hasErasure t :=
    h.eq_of_payload ht fun _ _ => hasErasure_of_payload hw
  have htop : p.erasesToObject w = p.erasesToObject t :=
    h.eq_of_payload ht fun _ _ => erasesToObject_of_payload hw
  refine ⟨hinner, htop, fun c hlook => ?_, fun look hlook hother => ?_⟩
  · rw [h.erased ht, hlook]
    rfl
  · rw [h.erased ht, hlook, Option.map_some]
    cases look with
    | primitive c => exact absurd rfl (hother c)
    | reference c => rfl
    | object => rfl

/-- A use of a class with a primitive slot (0), made optional (2) and made optional again with the
null first (4), and a use of a top class (5). -/
def doublyOptional : Program where
  types := #[.nominal ⟨7⟩ [], .nominal ⟨2⟩ [], .union [⟨0⟩, ⟨1⟩], .nominal ⟨2⟩ [], .union [⟨3⟩, ⟨2⟩],
    .nominal ⟨1⟩ []]
  core := Draft.new.program.core

/-- The primitive slot becomes a reference, and the top class looks like the top type. -/
theorem erased_wraps_twice :
    WellFounded doublyOptional.PartOf ∧ doublyOptional.core.Apart ∧
      doublyOptional.isNull ⟨0⟩ = false ∧ doublyOptional.Wraps ⟨0⟩ 2 ⟨4⟩ ∧
      doublyOptional.erased ⟨0⟩ = some (.primitive ⟨7⟩) ∧
      doublyOptional.erased ⟨4⟩ = some (.reference ⟨7⟩) ∧
      doublyOptional.hasErasure ⟨4⟩ = doublyOptional.hasErasure ⟨0⟩ ∧
      doublyOptional.erasesToObject ⟨4⟩ = doublyOptional.erasesToObject ⟨0⟩ ∧
      doublyOptional.erased ⟨5⟩ = some .object := by
  have hw : WellFounded doublyOptional.PartOf := (inOrder_of_types (by decide)).wellFounded
  have hc : doublyOptional.core.Apart := by
    dsimp only [doublyOptional]
    exact Draft.apart_new
  have ht : doublyOptional.isNull ⟨0⟩ = false := by decide +kernel
  have hwraps : doublyOptional.Wraps ⟨0⟩ 2 ⟨4⟩ :=
    .succ (.succ .zero (by decide +kernel) (.inl rfl)) (by decide +kernel) (.inr rfl)
  have hlook : doublyOptional.erased ⟨0⟩ = some (.primitive ⟨7⟩) := by decide +kernel
  obtain ⟨hinner, htop, hprimitive, -⟩ := (erased_wraps doublyOptional hw ⟨0⟩).2 ht 1 ⟨4⟩ hwraps
  have hshown : ¬ doublyOptional.erased ⟨5⟩ = none := by decide +kernel
  obtain ⟨look, hlook'⟩ := Option.ne_none_iff_exists'.mp hshown
  have hobject := ((erased_wraps doublyOptional hw ⟨5⟩).1 look hlook').2 hc (by decide +kernel)
  exact ⟨hw, hc, ht, hwraps, hlook, hprimitive ⟨7⟩ hlook, hinner, htop, hobject ▸ hlook'⟩

/-- The classes of a new draft, except that the class with the slot of the integers (7) is a top class
too, and a use of it (0). -/
def overlapping : Program where
  types := #[.nominal ⟨7⟩ []]
  core := { Draft.new.program.core with object := ⟨7⟩ }

/-- A use of a class that is both erases to the top type and looks like a primitive slot. -/
theorem erased_overlapping :
    WellFounded overlapping.PartOf ∧ overlapping.erasesToObject ⟨0⟩ = true ∧
      overlapping.isBasic ⟨0⟩ = true ∧ overlapping.erased ⟨0⟩ = some (.primitive ⟨7⟩) :=
  ⟨(inOrder_of_types (by decide)).wellFounded, by decide +kernel, by decide +kernel, by decide +kernel⟩

/-! ## Kept bounds -/

theorem erasesToObjectTo_mono {m n : Nat} (hmn : n ≤ m) (h : p.erasesToObjectTo n t = true) :
    p.erasesToObjectTo m t = true := by
  induction n generalizing m t with
  | zero => cases h
  | succ n ih =>
    obtain ⟨m, rfl⟩ : ∃ k, m = k + 1 := ⟨m - 1, by omega⟩
    cases hp : p.optionalPayload? t with
    | some u =>
      rw [erasesToObjectTo, hp] at h ⊢
      exact ih (by omega) h
    | none => rwa [erasesToObjectTo_of_none hp] at h ⊢

theorem erasesToObject_of_firstKeptBound? {d : DeclId} {bound : TypeId}
    (h : p.firstKeptBound? d = some bound) : p.erasesToObject bound = false := by
  obtain ⟨bounds, -, hfind⟩ := Option.bind_eq_some_iff.mp h
  simpa using List.find?_some hfind

/-- The way along what a type looks like ends, if it does not erase, at the class that shows or at a
type of which nothing shows. By induction on the depth. -/
theorem exists_end {n : Nat} (hn : n ≤ p.typeDepth) (h : p.erasedTo n t = some look)
    (herases : p.erasesToObjectTo n t = false) :
    ∃ u, Relation.ReflTransGen p.LooksLike t u ∧ p.looksLike? u = none ∧
      look.boxed = (p.nominal? u).elim .object .reference := by
  induction n generalizing t look with
  | zero => cases h
  | succ n ih =>
    cases hv : p.looksLike? t with
    | none =>
      refine ⟨t, .refl, hv, ?_⟩
      rw [erasesToObjectTo_of_none (optionalPayload?_of_none hv)] at herases
      rw [erasedTo_eq_ownLook hv] at h
      obtain rfl := Option.some.inj h
      unfold ownLook
      cases p.nominal? t <;> by_cases hbasic : p.isBasic t = true <;>
        simp [hbasic, herases, Erased.boxed]
    | some v =>
      rw [erasedTo_of_looksLike hv] at h
      obtain ⟨inner, hinner, rfl⟩ := Option.map_eq_some_iff.mp h
      have hnext : p.erasesToObjectTo n v = false := by
        rcases looksLike?_cases hv with hp | ⟨-, d, -, hbound, -⟩
        · rwa [erasesToObjectTo, hp] at herases
        · rw [Bool.eq_false_iff]
          intro hdeep
          have hkept := erasesToObjectTo_mono (by omega : n ≤ p.typeDepth) hdeep
          exact absurd (hkept.symm.trans (erasesToObject_of_firstKeptBound? hbound)) (by simp)
      obtain ⟨u, hu, hend, hlook⟩ := ih (by omega) hinner hnext
      exact ⟨u, .head hv hu, hend, by rw [Erased.boxed_boxed, hlook]⟩

theorem looksLike_of_bound {d : DeclId} {bound : TypeId} (ht : p.form? t = some (.typeParameter d))
    (hbound : p.firstKeptBound? d = some bound) (huse : p.isTypeParameterUse bound = false) :
    p.LooksLike t bound := by
  simp [LooksLike, looksLike?, optionalPayload?, ht, hbound, huse]

theorem looksLike?_of_typeParameter {d : DeclId} (ht : p.form? t = some (.typeParameter d))
    (h : ∀ bound, p.firstKeptBound? d = some bound → p.isTypeParameterUse bound = true) :
    p.looksLike? t = none := by
  simpa [looksLike?, optionalPayload?, ht] using h

/-- Nothing but a kept bound shows of a type parameter, and that not in a primitive slot. -/
theorem boxed_of_typeParameter {d : DeclId} (ht : p.form? t = some (.typeParameter d))
    (h : p.erased t = some look) : look.boxed = look := by
  rcases erased_cases h with ⟨-, rfl⟩ | ⟨u, inner, -, rfl⟩
  · rw [ownLook_of_typeParameter ht]
    rfl
  · exact inner.boxed_boxed

theorem keepsBound_iff {b : BoundMarks} {d : DeclId} (h : b.get d = none) :
    (Policy.standard.keepsBound p d b).1 = true ↔ ∃ bound, p.firstKeptBound? d = some bound := by
  have hanswer : (Policy.standard.keepsBound p d b).1 = boundAnswer p.erasesToObject p b d :=
    keepsBoundOf_fst
  rw [hanswer, boundAnswer, h, firstKeptBound?]
  cases p.decl? d >>= Declaration.bounds? with
  | none => simp
  | some bounds =>
    have hfind : (bounds.find? fun t => !p.erasesToObject t).isSome = true ↔ _ := List.find?_isSome
    simpa [Option.isSome_iff_exists] using hfind.symm

/-- If nothing is remembered, a type parameter is said to keep a bound exactly if some bound of it
does not erase to the top type. If it keeps none it looks like the top type. Otherwise it looks like
the first bound that it keeps, once boxed, except that it looks like the top type if this is a type
parameter itself. So what shows is the class at which the way along what the types look like ends,
or the top type if that is no class, and then the two answers differ if a bound is kept. -/
theorem keepsBound_shows (p : Program) (b : BoundMarks) (hunset : ∀ d, b.get d = none) (d : DeclId)
    (t : TypeId) (ht : p.form? t = some (.typeParameter d)) (look : Erased)
    (hlook : p.erased t = some look) :
    let kept := (Policy.standard.keepsBound p d b).1
    (kept = true ↔ ∃ bound, p.firstKeptBound? d = some bound) ∧
    (kept = false → look = .object) ∧
    (∀ bound, p.firstKeptBound? d = some bound →
      if p.isTypeParameterUse bound then look = .object
      else (p.erased bound).map Erased.boxed = some look) ∧
    ∃ u, Relation.ReflTransGen p.LooksLike t u ∧ p.looksLike? u = none ∧
      look = (p.nominal? u).elim .object .reference ∧
      ((kept = true ↔ look ≠ .object) ↔ (kept = true → ∃ c, p.nominal? u = some c)) := by
  intro kept
  have hkept : kept = true ↔ ∃ bound, p.firstKeptBound? d = some bound := keepsBound_iff (hunset d)
  have hstops (h : ∀ bound, p.firstKeptBound? d = some bound → p.isTypeParameterUse bound = true) :
      look = .object := by
    rw [erased_of_none (looksLike?_of_typeParameter ht h), ownLook_of_typeParameter ht] at hlook
    exact (Option.some.inj hlook).symm
  have htop (hfalse : kept = false) : look = .object :=
    hstops fun bound hbound => absurd (hkept.mpr ⟨bound, hbound⟩) (by simp [hfalse])
  refine ⟨hkept, htop, fun bound hbound => ?_, ?_⟩
  · cases huse : p.isTypeParameterUse bound with
    | true =>
      refine hstops fun bound' hbound' => ?_
      obtain rfl : bound = bound' := Option.some.inj (hbound.symm.trans hbound')
      exact huse
    | false => exact (erased_of_looksLike (looksLike_of_bound ht hbound huse)).symm.trans hlook
  · have herases : p.erasesToObject t = false :=
      erasesToObject_of_typeParameter (by simp [optionalPayload?, ht]) ht
    obtain ⟨u, hu, hend, hshows⟩ := exists_end le_rfl hlook herases
    rw [boxed_of_typeParameter ht hlook] at hshows
    refine ⟨u, hu, hend, hshows, ?_⟩
    cases hc : p.nominal? u with
    | none =>
      obtain rfl : look = .object := by rw [hshows, hc]; rfl
      simp
    | some c =>
      obtain rfl : look = .reference c := by rw [hshows, hc]; rfl
      have htrue : kept = true := Bool.of_not_eq_false fun hfalse => absurd (htop hfalse) (by simp)
      simp [htrue]

/-- A class (0) and a holder (1) of three type parameters: one (2) bounded by the class, one (3) by
the first, and one (4) by an optional use of the first. -/
def chained : Program where
  decls := #[
    { name := some ⟨0⟩, kind := .classType {}, scope := .unit },
    { name := some ⟨1⟩, kind := .classType {}, scope := .unit, typeParameters := [⟨2⟩, ⟨3⟩, ⟨4⟩] },
    { name := some ⟨2⟩, kind := .typeParameter { variance := .invariant, bounds := [⟨0⟩] },
      scope := .declaration ⟨1⟩ },
    { name := some ⟨3⟩, kind := .typeParameter { variance := .invariant, bounds := [⟨1⟩] },
      scope := .declaration ⟨1⟩ },
    { name := some ⟨4⟩, kind := .typeParameter { variance := .invariant, bounds := [⟨4⟩] },
      scope := .declaration ⟨1⟩ },
    { name := some ⟨5⟩, kind := .classType {}, scope := .unit }]
  types := #[.nominal ⟨0⟩ [], .typeParameter ⟨2⟩, .typeParameter ⟨3⟩, .nominal ⟨5⟩ [], .union [⟨1⟩, ⟨3⟩],
    .typeParameter ⟨4⟩]
  core := ⟨⟨6⟩, ⟨6⟩, ⟨5⟩, ⟨6⟩, ⟨7⟩, ⟨7⟩, ⟨7⟩, ⟨7⟩, ⟨7⟩, ⟨7⟩, ⟨7⟩, ⟨7⟩, ⟨6⟩, ⟨6⟩, ⟨6⟩⟩

/-- The second type parameter keeps its bound, a use of the first, which looks like the class. Yet
it looks like the top type. -/
theorem keepsBound_disagrees :
    (chained.decl? ⟨3⟩ >>= Declaration.bounds?) = some [⟨1⟩] ∧
      chained.form? ⟨1⟩ = some (.typeParameter ⟨2⟩) ∧ chained.form? ⟨2⟩ = some (.typeParameter ⟨3⟩) ∧
      (Policy.standard.keepsBound chained ⟨3⟩ {}).1 = true ∧
      chained.erased ⟨1⟩ = some (.reference ⟨0⟩) ∧ chained.erased ⟨2⟩ = some .object :=
  ⟨by decide, rfl, rfl, by decide, by decide, by decide⟩

/-- The third type parameter, bounded by an optional use of the first, looks like the class too: the
way leads from it to the bound, to the first type parameter and to the class. -/
theorem keepsBound_shows_chained :
    (Policy.standard.keepsBound chained ⟨4⟩ {}).1 = true ∧
      chained.firstKeptBound? ⟨4⟩ = some ⟨4⟩ ∧ chained.erased ⟨5⟩ = some (.reference ⟨0⟩) ∧
      (chained.erased ⟨4⟩).map Erased.boxed = some (.reference ⟨0⟩) := by
  have hbound : chained.firstKeptBound? ⟨4⟩ = some ⟨4⟩ := by decide
  have hlook : chained.erased ⟨5⟩ = some (.reference ⟨0⟩) := by decide
  obtain ⟨hkept, -, hshows, -⟩ :=
    keepsBound_shows chained {} (fun _ => rfl) ⟨4⟩ ⟨5⟩ rfl (.reference ⟨0⟩) hlook
  exact ⟨hkept.mpr ⟨_, hbound⟩, hbound, hlook, hshows ⟨4⟩ hbound⟩

end Program

end Unbox
