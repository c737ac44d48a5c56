import Unbox.Proofs.Answers
import Unbox.Proofs.Equality

/-!
# Equal types look the same

Equality compares the members of a union as a set, while the target looks for the null among them
and for one other case. If no union has two members that are equal, this cannot tell equal types
apart.

* `Program.Irredundant` : no union has two equal members;
* `optionalPayload?_of_alike` : of forms that are alike, both or neither are optional, and then the
  payloads are related;
* `Exactly.walk` : a walk over types that treats forms alike which differ in equal references only,
  as far as it finds the same for these, finds the same for equal types;
* `Policy.answers` : all that a policy says about a type;
* `Program.answers_of_exactly` : it is the same for equal types.
-/

namespace Unbox

/-- What a policy says about a type. -/
structure TypeAnswers where
  isBasic : Bool
  isNull : Bool
  isObject : Bool
  isAnything : Bool
  isCallable : Bool
  isIterableRoot : Bool
  isOptional : Bool
  hasErasure : Bool
  erasesToObject : Bool
  isRaw : Bool
  /-- With what is remembered about bounds before and after. -/
  substitutesBound : StateM BoundMarks Bool
  erased : Option Erased

def Policy.answers (policy : Policy) (p : Program) (t : TypeId) : TypeAnswers where
  isBasic := policy.isBasic p t
  isNull := policy.isNull p t
  isObject := policy.isObject p t
  isAnything := policy.isAnything p t
  isCallable := policy.isCallable p t
  isIterableRoot := policy.isIterableRoot p t
  isOptional := policy.isOptional p t
  hasErasure := policy.hasErasure p t
  erasesToObject := policy.erasesToObject p t
  isRaw := policy.isRaw p t
  substitutesBound := policy.substitutesBound p t
  erased := policy.erased p t

/-! ## Lists side by side -/

theorem any_of_forall₂ {f g : TypeId → Bool} {as bs : List TypeId}
    (h : List.Forall₂ (fun a b => f a = g b) as bs) : as.any f = bs.any g := by
  induction h with
  | nil => rfl
  | cons hab _ ih => rw [List.any_cons, List.any_cons, hab, ih]

theorem anyM_zipIdx_of_forall₂ {m : Type → Type} [Monad m] [LawfulMonad m]
    {f g : TypeId × Nat → m Bool} {as bs : List TypeId}
    (h : List.Forall₂ (fun a b => ∀ i, f (a, i) = g (b, i)) as bs) (k : Nat) :
    (as.zipIdx k).anyM f = (bs.zipIdx k).anyM g := by
  induction h generalizing k with
  | nil => rfl
  | cons hab _ ih =>
    rw [List.zipIdx_cons, List.zipIdx_cons, List.anyM_cons, List.anyM_cons, hab, ih]

/-- The members of a union. -/
def TypeForm.alternatives : TypeForm → List TypeId
  | union ts => ts
  | _ => []

namespace Program
variable {p : Program} {a b t u : TypeId}

/-! ## Optional types -/

/-- No union has two members that are equal. -/
def Irredundant (p : Program) : Prop :=
  ∀ t form, p.form? t = some form → form.alternatives.Pairwise fun x y => ¬ p.Exactly x y

theorem irredundant_of_types (h : ∀ i (hi : i < p.types.size),
    p.types[i].alternatives.Pairwise fun x y => ¬ p.Exactly x y) : p.Irredundant := by
  intro t form hform
  obtain ⟨hi, rfl⟩ := Array.getElem?_eq_some_iff.mp hform
  exact h t.index hi

theorem optionalPayload?_eq_some_iff : p.optionalPayload? t = some u ↔
    ∃ members, p.form? t = some (.union members) ∧ (∃ x ∈ members, p.isNull x = true) ∧
      members.filter (not ∘ p.isNull) = [u] := by
  unfold optionalPayload?
  cases hform : p.form? t with
  | none => simp
  | some form =>
    cases form with
    | union members =>
      have hnulls : members.filter p.isNull ≠ [] ↔ ∃ x ∈ members, p.isNull x = true := by
        simp [List.filter_eq_nil_iff]
      simp only [List.partition_eq_filter_filter, Option.some.injEq, TypeForm.union.injEq,
        exists_eq_left', ← hnulls]
      cases members.filter p.isNull with
      | nil => simp
      | cons x xs =>
        rcases members.filter (not ∘ p.isNull) with _ | ⟨y, _ | ⟨z, zs⟩⟩ <;> simp
    | _ => simp

theorem Exactly.nominal? (hw : WellFounded p.PartOf) (h : p.Exactly a b) :
    p.nominal? a = p.nominal? b := by
  rcases (exactly_iff hw).mp h with ⟨rfl, -⟩ | ⟨f, g, ha, hb, h⟩
  · rfl
  · unfold Program.nominal?
    rw [ha, hb]
    cases h <;> rfl

theorem Exactly.isNominalOf (hw : WellFounded p.PartOf) (h : p.Exactly a b) (d : DeclId) :
    p.isNominalOf a d = p.isNominalOf b d := by
  rw [Program.isNominalOf, Program.isNominalOf, h.nominal? hw]

/-- A list without equal members whose members all equal one type has at most one. -/
theorem eq_singleton_of_exactly (hw : WellFounded p.PartOf) {ws : List TypeId} {v : TypeId}
    (hpair : ws.Pairwise fun x y => ¬ p.Exactly x y) (hall : ∀ w ∈ ws, p.Exactly u w) (hv : v ∈ ws) :
    ws = [v] := by
  rcases ws with _ | ⟨x, _ | ⟨y, ws⟩⟩
  · cases hv
  · rw [List.mem_singleton.mp hv]
  · have hx : p.Exactly u x := hall x (by simp)
    have hy : p.Exactly u y := hall y (by simp)
    exact absurd ((hx.symm hw).trans hw hy) (List.rel_of_pairwise_cons hpair List.mem_cons_self)

section
variable {R : TypeId → TypeId → Prop} {f g : TypeForm}

/-- The one case that is not null is matched by one case only, since all that match it are equal. -/
theorem payload_of_sameMembers (hw : WellFounded p.PartOf) (hR : ∀ x y, R x y → p.Exactly x y)
    {as bs : List TypeId} (h : SameMembers R as bs)
    (hbs : bs.Pairwise fun x y => ¬ p.Exactly x y) (hnull : ∃ x ∈ as, p.isNull x = true)
    (hu : as.filter (not ∘ p.isNull) = [u]) :
    (∃ y ∈ bs, p.isNull y = true) ∧ ∃ v, bs.filter (not ∘ p.isNull) = [v] ∧ R u v := by
  have same {x y : TypeId} (hxy : R x y) : p.isNull x = p.isNull y := (hR x y hxy).isNominalOf hw _
  have hother {x : TypeId} : x ∈ as ∧ p.isNull x = false ↔ x = u := by
    rw [← List.mem_singleton (b := u), ← hu]
    simp
  obtain ⟨humem, hunull⟩ := hother.mpr rfl
  constructor
  · obtain ⟨x, hx, hxnull⟩ := hnull
    obtain ⟨y, hy, hxy⟩ := h.left x hx
    exact ⟨y, hy, (same hxy).symm.trans hxnull⟩
  · obtain ⟨v, hv, huv⟩ := h.left u humem
    have hmatched : ∀ w ∈ bs.filter (not ∘ p.isNull), p.Exactly u w := by
      intro w hmem
      obtain ⟨hwbs, hwnull⟩ : w ∈ bs ∧ p.isNull w = false := by simpa using hmem
      obtain ⟨x, hx, hxw⟩ := h.right w hwbs
      obtain rfl : x = u := hother.mp ⟨hx, (same hxw).trans hwnull⟩
      exact hR x w hxw
    have hvmem : v ∈ bs.filter (not ∘ p.isNull) := by
      simpa using ⟨hv, (same huv).symm.trans hunull⟩
    exact ⟨v, eq_singleton_of_exactly hw (hbs.sublist List.filter_sublist) hmatched hvmem, huv⟩

/-- Of two forms that are alike both are optional, with related payloads, or neither is. -/
theorem optionalPayload?_of_alike (hw : WellFounded p.PartOf) (hi : p.Irredundant)
    (hR : ∀ x y, R x y → p.Exactly x y) (ha : p.form? a = some f) (hb : p.form? b = some g)
    (h : f.Alike R g) :
    p.optionalPayload? a = none ∧ p.optionalPayload? b = none ∨
      ∃ u v, p.optionalPayload? a = some u ∧ p.optionalPayload? b = some v ∧ R u v := by
  cases h with
  | @union as bs h =>
    cases hu : p.optionalPayload? a with
    | some u =>
      obtain ⟨members, hform, hnull, hu⟩ := optionalPayload?_eq_some_iff.mp hu
      obtain rfl : as = members := by simpa [hform] using ha.symm
      obtain ⟨hnull', v, hv, huv⟩ := payload_of_sameMembers hw hR h (hi b _ hb) hnull hu
      exact .inr ⟨u, v, rfl, optionalPayload?_eq_some_iff.mpr ⟨bs, hb, hnull', hv⟩, huv⟩
    | none =>
      cases hv : p.optionalPayload? b with
      | none => exact .inl ⟨rfl, rfl⟩
      | some v =>
        obtain ⟨members, hform, hnull, hv⟩ := optionalPayload?_eq_some_iff.mp hv
        obtain rfl : bs = members := by simpa [hform] using hb.symm
        have hflip : SameMembers (fun y x => R x y) bs as := h.symm fun _ _ _ hxy => hxy
        obtain ⟨hnull', u, hu', -⟩ := payload_of_sameMembers hw
          (fun y x hxy => (hR x y hxy).symm hw) hflip (hi a _ ha) hnull hv
        have hsome := optionalPayload?_eq_some_iff.mpr ⟨as, ha, hnull', hu'⟩
        rw [hu] at hsome
        cases hsome
  | _ => exact .inl ⟨by simp [optionalPayload?, ha], by simp [optionalPayload?, hb]⟩

end

/-! ## Walks -/

theorem Exactly.walk {α : Type} (hw : WellFounded p.PartOf) {F : Nat → TypeId → α}
    (zero : ∀ a b, F 0 a = F 0 b)
    (succ : ∀ n a b f g, p.form? a = some f → p.form? b = some g →
      f.Alike (fun x y => p.Exactly x y ∧ F n x = F n y) g → F (n + 1) a = F (n + 1) b)
    (h : p.Exactly a b) (n : Nat) : F n a = F n b := by
  induction n generalizing a b with
  | zero => exact zero a b
  | succ n ih =>
    rcases (exactly_iff hw).mp h with ⟨rfl, -⟩ | ⟨f, g, ha, hb, h⟩
    · rfl
    · exact succ n a b f g ha hb (h.imp fun x _ y hxy => ⟨hxy, ih hxy⟩)

section
variable (hw : WellFounded p.PartOf) (hi : p.Irredundant)
include hw

theorem Exactly.isBasic (h : p.Exactly a b) : p.isBasic a = p.isBasic b := by
  rcases (exactly_iff hw).mp h with ⟨rfl, -⟩ | ⟨f, g, ha, hb, h⟩
  · rfl
  · unfold Program.isBasic
    rw [ha, hb]
    cases h with
    | nominal d h => cases h <;> rfl
    | _ => rfl

theorem Exactly.isRaw (h : p.Exactly a b) : p.isRaw a = p.isRaw b := by
  refine h.walk hw (F := p.isRawTo) (fun _ _ => rfl) (fun n a b f g ha hb h => ?_) _
  rw [isRawTo, isRawTo, ha, hb]
  cases h with
  | nominal d h =>
    cases h with
    | nil => rfl
    | cons hxy h => exact any_of_forall₂ (.cons hxy.2 (h.imp fun _ _ => And.right))
  | _ => rfl

include hi

theorem Exactly.hasErasure (h : p.Exactly a b) : p.hasErasure a = p.hasErasure b := by
  refine h.walk hw (F := p.hasErasureTo) (fun _ _ => rfl) (fun n a b f g ha hb h => ?_) _
  rcases optionalPayload?_of_alike hw hi (fun _ _ => And.left) ha hb h with
    ⟨hpa, hpb⟩ | ⟨u, v, hpa, hpb, huv⟩
  · simp only [hasErasureTo, hpa, hpb, ha, hb]
    cases h with
    | nominal d h => exact any_of_forall₂ (h.imp fun _ _ => And.right)
    | _ => rfl
  · simp only [hasErasureTo, hpa, hpb]
    exact huv.2

theorem Exactly.erasesToObject (h : p.Exactly a b) : p.erasesToObject a = p.erasesToObject b := by
  refine h.walk hw (F := p.erasesToObjectTo) (fun _ _ => rfl) (fun n a b f g ha hb h => ?_) _
  rcases optionalPayload?_of_alike hw hi (fun _ _ => And.left) ha hb h with
    ⟨hpa, hpb⟩ | ⟨u, v, hpa, hpb, huv⟩
  · simp only [erasesToObjectTo, hpa, hpb, ha, hb]
    cases h <;> rfl
  · simp only [erasesToObjectTo, hpa, hpb]
    exact huv.2

theorem Exactly.isOptional (h : p.Exactly a b) :
    (p.optionalPayload? a).isSome = (p.optionalPayload? b).isSome := by
  rcases (exactly_iff hw).mp h with ⟨rfl, -⟩ | ⟨f, g, ha, hb, h⟩
  · rfl
  · rcases optionalPayload?_of_alike hw hi (fun _ _ => id) ha hb h with
      ⟨hpa, hpb⟩ | ⟨u, v, hpa, hpb, -⟩
    · rw [hpa, hpb]
    · rw [hpa, hpb]
      rfl

theorem Exactly.substitutesBound (h : p.Exactly a b) :
    p.substitutesBound a = p.substitutesBound b := by
  refine h.walk hw (F := p.substitutesBoundTo) (fun _ _ => rfl) (fun n a b f g ha hb h => ?_) _
  rw [substitutesBoundTo, substitutesBoundTo, ha, hb]
  cases h with
  | nominal d h =>
    dsimp only
    cases p.decl? d with
    | none => rfl
    | some generic =>
      refine anyM_zipIdx_of_forall₂ (h.imp fun x y hxy i => ?_) 0
      dsimp only
      rw [hxy.1.erasesToObject hw hi, hxy.2]
  | _ => rfl

theorem Exactly.erased (h : p.Exactly a b) : p.erased a = p.erased b := by
  refine h.walk hw (F := p.erasedTo) (fun _ _ => rfl) (fun n a b f g ha hb h => ?_) _
  have hab : p.Exactly a b := .of_alike hw ha hb (h.imp fun _ _ _ => And.left)
  rcases optionalPayload?_of_alike hw hi (fun _ _ => And.left) ha hb h with
    ⟨hpa, hpb⟩ | ⟨u, v, hpa, hpb, huv⟩
  · simp only [erasedTo, hpa, hpb, ha, hb, hab.isBasic hw, hab.nominal? hw, hab.erasesToObject hw hi]
    cases h <;> rfl
  · simp only [erasedTo, hpa, hpb, huv.2]

end

/-- If no type is nested in itself and no union has two equal members, the standard policy says the
same about equal types, whatever marks were written, and also when it remembers what it found about
the bounds for the first when it is asked about the second. -/
theorem answers_of_exactly (p : Program) (hw : WellFounded p.PartOf) (hi : p.Irredundant)
    (a b : TypeId) (h : p.exactly a b = true) :
    Policy.standard.answers p a = Policy.standard.answers p b ∧
      (∀ (s : Draft) (writes : List TypeWrite), s.program = p →
        Policy.standard.answers (writes.foldl Draft.write s).program a =
          Policy.standard.answers p b) ∧
      ∀ m, (p.substitutesBound b (p.substitutesBound a m).2).1 = (p.substitutesBound a m).1 := by
  have h : p.Exactly a b := h
  have hsame : Policy.standard.answers p a = Policy.standard.answers p b := by
    rw [Policy.answers, Policy.answers, TypeAnswers.mk.injEq]
    exact ⟨h.isBasic hw, h.isNominalOf hw _, h.isNominalOf hw _, h.isNominalOf hw _, h.isNominalOf hw _,
      h.isNominalOf hw _, h.isOptional hw hi, h.hasErasure hw hi, h.erasesToObject hw hi, h.isRaw hw,
      h.substitutesBound hw hi, h.erased hw hi⟩
  refine ⟨hsame, ?_, fun m => ?_⟩
  · rintro s writes rfl
    rw [s.program_writes]
    exact hsame
  · have hsteady : Steady .standard p (p.substitutesBound a) :=
      (p.substitutesBoundTo_inquiry p.typeDepth a).steady
    rw [← h.substitutesBound hw hi]
    exact hsteady.answer m _ (hsteady.keeps m)

/-- A class (0) whose type parameter (1) keeps a bound, null (2) and a basic class (3). An optional
use of the basic class is written in both orders (types 4 and 7), and each is an argument of the
class (8 and 9). -/
def reordered : Program where
  decls := #[
    { name := some ⟨0⟩, kind := .classType {}, scope := .unit, typeParameters := [⟨1⟩] },
    { name := some ⟨1⟩, kind := .typeParameter { variance := .invariant, bounds := [⟨0⟩] },
      scope := .declaration ⟨0⟩ },
    { name := some ⟨2⟩, kind := .classType {}, scope := .unit },
    { name := some ⟨3⟩, kind := .classType {}, scope := .unit }]
  types := #[.nominal ⟨0⟩ [], .nominal ⟨2⟩ [], .nominal ⟨3⟩ [], .nominal ⟨2⟩ [], .union [⟨2⟩, ⟨3⟩],
    .nominal ⟨2⟩ [], .nominal ⟨3⟩ [], .union [⟨5⟩, ⟨6⟩], .nominal ⟨0⟩ [⟨4⟩], .nominal ⟨0⟩ [⟨7⟩]]
  core := ⟨⟨4⟩, ⟨4⟩, ⟨2⟩, ⟨4⟩, ⟨3⟩, ⟨4⟩, ⟨4⟩, ⟨3⟩, ⟨3⟩, ⟨3⟩, ⟨3⟩, ⟨3⟩, ⟨4⟩, ⟨4⟩, ⟨4⟩⟩

/-- Both orders are optional and look like a reference to the basic class, also as they were before
one of them was marked, and the uses of the class have the same answers. -/
theorem answers_of_exactly_reordered :
    WellFounded reordered.PartOf ∧ reordered.Irredundant ∧
      reordered.exactly ⟨4⟩ ⟨7⟩ = true ∧ reordered.exactly ⟨8⟩ ⟨9⟩ = true ∧
      Policy.standard.answers (Draft.write { program := reordered } (.raw ⟨4⟩ true)).program ⟨4⟩ =
        Policy.standard.answers reordered ⟨7⟩ ∧
      Policy.standard.answers reordered ⟨8⟩ = Policy.standard.answers reordered ⟨9⟩ ∧
      reordered.erased ⟨7⟩ = some (.reference ⟨3⟩) := by
  have hw : WellFounded reordered.PartOf := (inOrder_of_types (by decide)).wellFounded
  have hi : reordered.Irredundant := irredundant_of_types (by decide +kernel)
  have hpair : reordered.exactly ⟨4⟩ ⟨7⟩ = true := by decide +kernel
  have huses : reordered.exactly ⟨8⟩ ⟨9⟩ = true := by decide +kernel
  exact ⟨hw, hi, hpair, huses,
    (answers_of_exactly reordered hw hi ⟨4⟩ ⟨7⟩ hpair).2.1 _ [.raw ⟨4⟩ true] rfl,
    (answers_of_exactly reordered hw hi ⟨8⟩ ⟨9⟩ huses).1, by decide +kernel⟩

end Program

end Unbox
