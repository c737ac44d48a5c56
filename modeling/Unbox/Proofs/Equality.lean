import Mathlib.Data.List.Forall2
import Unbox.Draft
import Unbox.Proofs.Erasure

/-!
# Equality of types

Two references are equal if they say the same, up to the order and the repetition of members. A
reference is compared with itself by its number alone, so it equals itself even if it is made of a
type that could not be computed, and such a type equals nothing.

* `SameMembers R as bs` : as many members, and every one of either list is related to one of the
  other;
* `TypeForm.Alike R f g` : the forms `f` and `g` differ at most in references that `R` relates;
* `Program.Exactly p a b` : the types are equal, with its rule `Program.exactly_iff`;
* `Exactly.symm`, `Exactly.trans`, `Program.exactly_self_iff` : what this makes it;
* `Draft.write` : a mark of a type is written, which leaves the program;
* `Program.exactly_partial_equivalence` : all of it.
-/

namespace Unbox

/-! ## Forms that say the same -/

/-- Lists of one length in which every member of either is related to a member of the other. -/
structure SameMembers (R : TypeId → TypeId → Prop) (as bs : List TypeId) : Prop where
  length : as.length = bs.length
  left : ∀ a ∈ as, ∃ b ∈ bs, R a b
  right : ∀ b ∈ bs, ∃ a ∈ as, R a b

namespace SameMembers
variable {R S T : TypeId → TypeId → Prop} {as bs cs : List TypeId}

theorem symm (h : SameMembers R as bs) (hs : ∀ a ∈ as, ∀ b, R a b → S b a) : SameMembers S bs as where
  length := h.length.symm
  left b hb := by
    obtain ⟨a, ha, hab⟩ := h.right b hb
    exact ⟨a, ha, hs a ha b hab⟩
  right a ha := by
    obtain ⟨b, hb, hab⟩ := h.left a ha
    exact ⟨b, hb, hs a ha b hab⟩

theorem trans (h : SameMembers R as bs) (h' : SameMembers S bs cs)
    (ht : ∀ a ∈ as, ∀ b c, R a b → S b c → T a c) : SameMembers T as cs where
  length := h.length.trans h'.length
  left a ha := by
    obtain ⟨b, hb, hab⟩ := h.left a ha
    obtain ⟨c, hc, hbc⟩ := h'.left b hb
    exact ⟨c, hc, ht a ha b c hab hbc⟩
  right c hc := by
    obtain ⟨b, hb, hbc⟩ := h'.right c hc
    obtain ⟨a, ha, hab⟩ := h.right b hb
    exact ⟨a, ha, ht a ha b c hab hbc⟩

theorem of_perm (h : as.Perm bs) (hr : ∀ a ∈ as, R a a) : SameMembers R as bs where
  length := h.length_eq
  left a ha := ⟨a, h.mem_iff.mp ha, hr a ha⟩
  right b hb := ⟨b, h.mem_iff.mpr hb, hr b (h.mem_iff.mpr hb)⟩

end SameMembers

theorem Program.sameMembers_iff {eq : TypeId → TypeId → Bool} {as bs : List TypeId} :
    sameMembers eq as bs = true ↔ SameMembers (fun a b => eq a b = true) as bs := by
  simp only [sameMembers, Bool.and_eq_true, beq_iff_eq, List.all_eq_true, List.any_eq_true]
  exact ⟨fun ⟨⟨hlength, hleft⟩, hright⟩ => ⟨hlength, hleft, hright⟩,
    fun ⟨hlength, hleft, hright⟩ => ⟨⟨hlength, hleft⟩, hright⟩⟩

/-- The forms differ at most in references that are related. A type that could not be computed is
like no type. -/
inductive TypeForm.Alike (R : TypeId → TypeId → Prop) : TypeForm → TypeForm → Prop where
  | nominal (d : DeclId) {as bs : List TypeId} (h : List.Forall₂ R as bs) :
    Alike R (.nominal d as) (.nominal d bs)
  | typeParameter (d : DeclId) : Alike R (.typeParameter d) (.typeParameter d)
  | union {as bs : List TypeId} (h : SameMembers R as bs) : Alike R (.union as) (.union bs)
  | intersection {as bs : List TypeId} (h : SameMembers R as bs) :
    Alike R (.intersection as) (.intersection bs)
  | nothing : Alike R .nothing .nothing

namespace TypeForm.Alike
variable {R S T : TypeId → TypeId → Prop} {f g k : TypeForm}

theorem symm (h : f.Alike R g) (hs : ∀ a ∈ f.parts, ∀ b, R a b → S b a) : g.Alike S f := by
  cases h with
  | nominal d h =>
    refine .nominal d ?_
    induction h with
    | nil => exact .nil
    | cons hab _ ih =>
      exact .cons (hs _ List.mem_cons_self _ hab) (ih fun a ha => hs a (List.mem_cons_of_mem _ ha))
  | typeParameter d => exact .typeParameter d
  | union h => exact .union (h.symm hs)
  | intersection h => exact .intersection (h.symm hs)
  | nothing => exact .nothing

theorem forall₂_trans {as bs cs : List TypeId} (h : List.Forall₂ R as bs) (h' : List.Forall₂ S bs cs)
    (ht : ∀ a ∈ as, ∀ b c, R a b → S b c → T a c) : List.Forall₂ T as cs := by
  induction h generalizing cs with
  | nil =>
    cases h'
    exact .nil
  | cons hab _ ih =>
    cases h' with
    | cons hbc h' =>
      exact .cons (ht _ List.mem_cons_self _ _ hab hbc)
        (ih h' fun a ha => ht a (List.mem_cons_of_mem _ ha))

theorem trans (h : f.Alike R g) (h' : g.Alike S k)
    (ht : ∀ a ∈ f.parts, ∀ b c, R a b → S b c → T a c) : f.Alike T k := by
  cases h with
  | nominal d h =>
    cases h' with
    | nominal _ h' => exact .nominal d (forall₂_trans h h' ht)
  | typeParameter d =>
    cases h'
    exact .typeParameter d
  | union h =>
    cases h' with
    | union h' => exact .union (h.trans h' ht)
  | intersection h =>
    cases h' with
    | intersection h' => exact .intersection (h.trans h' ht)
  | nothing =>
    cases h'
    exact .nothing

theorem imp (h : f.Alike R g) (hs : ∀ a ∈ f.parts, ∀ b, R a b → S a b) : f.Alike S g :=
  (h.symm (S := fun b a => S a b) hs).symm fun _ _ _ hab => hab

theorem congr (h : ∀ a ∈ f.parts, ∀ b, R a b ↔ S a b) : f.Alike R g ↔ f.Alike S g :=
  ⟨fun hfg => hfg.imp fun a ha b => (h a ha b).mp, fun hfg => hfg.imp fun a ha b => (h a ha b).mpr⟩

theorem isError_eq_false (h : f.Alike R g) : f.isError = false := by
  cases h <;> rfl

end TypeForm.Alike

/-! ## The rule of equality -/

namespace Program
variable {p : Program} {a b c : TypeId}

def Exactly (p : Program) (a b : TypeId) : Prop := p.exactly a b = true

instance : Decidable (p.Exactly a b) := inferInstanceAs (Decidable (p.exactly a b = true))

theorem exactlyTo_self (n : Nat) : p.exactlyTo (n + 1) a a = (p.form? a).any fun f => !f.isError := by
  rw [exactlyTo, if_pos rfl]

theorem zip_all_iff {eq : TypeId → TypeId → Bool} {as bs : List TypeId} :
    (as.length == bs.length && (as.zip bs).all fun (x, y) => eq x y) = true ↔
      List.Forall₂ (fun x y => eq x y = true) as bs := by
  rw [List.forall₂_iff_zip, Bool.and_eq_true, beq_iff_eq, List.all_eq_true]
  exact and_congr_right fun _ => ⟨fun h x y hxy => h (x, y) hxy, fun h xy hxy => h hxy⟩

theorem exactlyTo_iff_of_forms {f g : TypeForm} (hab : a ≠ b) (ha : p.form? a = some f)
    (hb : p.form? b = some g) (n : Nat) :
    p.exactlyTo (n + 1) a b = true ↔ f.Alike (fun x y => p.exactlyTo n x y = true) g := by
  rw [exactlyTo, if_neg hab, ha, hb]
  constructor
  · intro h
    cases f with
    | nominal d as =>
      cases g with
      | nominal e bs =>
        dsimp only at h
        rw [Bool.and_assoc, Bool.and_eq_true, beq_iff_eq] at h
        obtain ⟨rfl, h⟩ := h
        exact .nominal d (zip_all_iff.mp h)
      | _ => cases h
    | typeParameter d =>
      cases g with
      | typeParameter e =>
        obtain rfl : d = e := beq_iff_eq.mp h
        exact .typeParameter d
      | _ => cases h
    | union as =>
      cases g with
      | union bs => exact .union (sameMembers_iff.mp h)
      | _ => cases h
    | intersection as =>
      cases g with
      | intersection bs => exact .intersection (sameMembers_iff.mp h)
      | _ => cases h
    | nothing =>
      cases g with
      | nothing => exact .nothing
      | _ => cases h
    | error => cases g <;> cases h
  · intro h
    cases h with
    | nominal d h =>
      dsimp only
      rw [beq_self_eq_true, Bool.true_and]
      exact zip_all_iff.mpr h
    | typeParameter d => exact beq_self_eq_true d
    | union h => exact sameMembers_iff.mpr h
    | intersection h => exact sameMembers_iff.mpr h
    | nothing => rfl

/-- References with different numbers are equal within a depth if their forms are alike up to what
is equal within one less. -/
theorem exactlyTo_iff (hab : a ≠ b) (n : Nat) : p.exactlyTo (n + 1) a b = true ↔
    ∃ f g, p.form? a = some f ∧ p.form? b = some g ∧
      f.Alike (fun x y => p.exactlyTo n x y = true) g := by
  cases ha : p.form? a with
  | none => simp [exactlyTo, hab, ha]
  | some f =>
    cases hb : p.form? b with
    | none =>
      rw [exactlyTo, if_neg hab, ha, hb]
      cases f <;> simp
    | some g => simp [exactlyTo_iff_of_forms hab ha hb]

theorem exactlyTo_congr (m n : Nat) (a : TypeId)
    (h : ∀ x, p.PartOf x a → p.exactlyTo m x = p.exactlyTo n x) :
    p.exactlyTo (m + 1) a = p.exactlyTo (n + 1) a := by
  funext b
  by_cases hab : a = b
  · subst hab
    rw [exactlyTo_self, exactlyTo_self]
  · rw [Bool.eq_iff_iff, exactlyTo_iff hab, exactlyTo_iff hab]
    refine exists_congr fun f => exists_congr fun g => and_congr_right fun ha => ?_
    exact and_congr_right fun _ => TypeForm.Alike.congr fun x hx y => by rw [h x ⟨f, ha, hx⟩]

theorem exactlyTo_eq_exactly (hw : WellFounded p.PartOf) {n : Nat} (hn : p.types.size < n)
    (a b : TypeId) : p.exactlyTo n a b = p.exactly a b := by
  have hdepth : p.types.size < p.typeDepth * p.typeDepth :=
    Nat.lt_of_lt_of_le (Nat.lt_succ_self _) (Nat.le_mul_self _)
  exact congrFun (eq_of_deep hw (fun m n t => exactlyTo_congr m n t) hn hdepth a) b

theorem exactly_self_iff : p.Exactly a a ↔ ∃ f, p.form? a = some f ∧ f.isError = false := by
  obtain ⟨n, hn⟩ : ∃ n, p.typeDepth * p.typeDepth = n + 1 :=
    Nat.exists_eq_succ_of_ne_zero (Nat.mul_ne_zero (Nat.succ_ne_zero _) (Nat.succ_ne_zero _))
  rw [Exactly, exactly, hn, exactlyTo_self, Option.any_eq_true]
  simp

/-- Types are equal if they are the same reference to a type that could be computed, or have forms
that are alike up to equality. -/
theorem exactly_iff (hw : WellFounded p.PartOf) : p.Exactly a b ↔
    (a = b ∧ p.Exactly a a) ∨
      ∃ f g, p.form? a = some f ∧ p.form? b = some g ∧ f.Alike p.Exactly g := by
  by_cases hab : a = b
  · subst hab
    refine ⟨fun h => .inl ⟨rfl, h⟩, ?_⟩
    rintro (⟨-, h⟩ | ⟨f, g, ha, -, h⟩)
    · exact h
    · exact exactly_self_iff.mpr ⟨f, ha, h.isError_eq_false⟩
  · -- one turn of the comparison, at a depth that is more than enough before and after it
    have hsize : p.types.size < p.typeDepth := Nat.lt_succ_self _
    have hnext : (fun x y => p.exactlyTo p.typeDepth x y = true) = p.Exactly := by
      funext x y
      rw [Exactly, exactlyTo_eq_exactly hw hsize]
    have hdeeper : p.types.size < p.typeDepth + 1 := Nat.lt_succ_of_lt hsize
    rw [Exactly, ← exactlyTo_eq_exactly hw hdeeper, exactlyTo_iff hab, hnext]
    simp [hab]

/-! ## A partial equivalence -/

theorem Exactly.of_alike (hw : WellFounded p.PartOf) {f g : TypeForm} (ha : p.form? a = some f)
    (hb : p.form? b = some g) (h : f.Alike p.Exactly g) : p.Exactly a b :=
  (exactly_iff hw).mpr (.inr ⟨f, g, ha, hb, h⟩)

theorem Exactly.symm (hw : WellFounded p.PartOf) (h : p.Exactly a b) : p.Exactly b a := by
  induction a using hw.induction generalizing b with
  | _ a ih =>
    rcases (exactly_iff hw).mp h with ⟨rfl, h⟩ | ⟨f, g, ha, hb, h⟩
    · exact h
    · exact .of_alike hw hb ha (h.symm fun x hx y hxy => ih x ⟨f, ha, hx⟩ hxy)

/-- By induction on what the first type is made of. Where one of the two equations is between a
reference and itself, the other one is the conclusion. -/
theorem Exactly.trans (hw : WellFounded p.PartOf) (h : p.Exactly a b) (h' : p.Exactly b c) :
    p.Exactly a c := by
  induction a using hw.induction generalizing b c with
  | _ a ih =>
    rcases (exactly_iff hw).mp h with ⟨rfl, -⟩ | ⟨f, g, ha, hb, hfg⟩
    · exact h'
    · rcases (exactly_iff hw).mp h' with ⟨rfl, -⟩ | ⟨g', k, hb', hc, hgk⟩
      · exact h
      · obtain rfl : g = g' := Option.some.inj (hb.symm.trans hb')
        exact .of_alike hw ha hc
          (hfg.trans hgk fun x hx y z hxy hyz => ih x ⟨f, ha, hx⟩ hxy hyz)

end Program

/-! ## Marks of types -/

/-- What may be written about one use of a type. -/
inductive TypeWrite where
  | raw (t : TypeId) (b : Bool)
  | underlying (t : TypeId) (u : Option MachineType)

def TypeWrite.act : TypeWrite → Build Unit
  | raw t b => Build.setRaw t b
  | underlying t u => Build.setUnderlying t u

namespace Draft

/-- The draft after a write, which a reference that is in no table does not take. -/
def write (s : Draft) (w : TypeWrite) : Draft := (w.act.run s).2

theorem program_write (s : Draft) (w : TypeWrite) : (s.write w).program = s.program := by
  have guarded (known : Bool) (f : Marks → Marks) :
      ((if known then Build.modifyMarks f else pure () : Build Unit).run s).2.program = s.program := by
    cases known <;> rfl
  cases w with
  | raw t b => exact guarded (s.program.hasType t) _
  | underlying t u => exact guarded (s.program.hasType t) _

theorem program_writes (s : Draft) (writes : List TypeWrite) :
    (writes.foldl write s).program = s.program := by
  induction writes generalizing s with
  | nil => rfl
  | cons w writes ih => exact (ih (s.write w)).trans (s.program_write w)

end Draft

namespace Program

/-- If no type is nested in itself, equality is symmetric and transitive, and a type equals itself
exactly if it is in the table and could be computed. Unions, or intersections, of the same members
in another order are equal if each member equals itself. No marks that are written, whatever they
are, change what is equal. -/
theorem exactly_partial_equivalence (p : Program) (hw : WellFounded p.PartOf) :
    (∀ a b, p.exactly a b = true → p.exactly b a = true) ∧
    (∀ a b c, p.exactly a b = true → p.exactly b c = true → p.exactly a c = true) ∧
    (∀ a, p.exactly a a = true ↔ ∃ f, p.form? a = some f ∧ f.isError = false) ∧
    (∀ a b as bs, p.form? a = some (.union as) ∧ p.form? b = some (.union bs) ∨
        p.form? a = some (.intersection as) ∧ p.form? b = some (.intersection bs) →
      as.Perm bs → (∀ x ∈ as, p.exactly x x = true) → p.exactly a b = true) ∧
    ∀ (s : Draft) (writes : List TypeWrite), s.program = p → ∀ a b,
      (writes.foldl Draft.write s).program.exactly a b = p.exactly a b := by
  refine ⟨fun a b => Exactly.symm hw, fun a b c => Exactly.trans hw, fun a => exactly_self_iff, ?_, ?_⟩
  · rintro a b as bs (⟨ha, hb⟩ | ⟨ha, hb⟩) hperm hself
    · exact Exactly.of_alike hw ha hb (.union (.of_perm hperm hself))
    · exact Exactly.of_alike hw ha hb (.intersection (.of_perm hperm hself))
  · rintro s writes rfl a b
    rw [s.program_writes]

/-- Uses of two classes (0, 1, and again 2, 3) and unions of them (4, 5, 6), a type that could not
be computed (7) and two uses of a class that has it for an argument (8, 9). -/
def gathered : Program where
  types := #[.nominal ⟨0⟩ [], .nominal ⟨1⟩ [], .nominal ⟨0⟩ [], .nominal ⟨1⟩ [], .union [⟨0⟩, ⟨1⟩],
    .union [⟨3⟩, ⟨2⟩], .union [⟨1⟩, ⟨0⟩], .error, .nominal ⟨2⟩ [⟨7⟩], .nominal ⟨2⟩ [⟨7⟩]]

/-- The unions are equal, in both directions and from the last to the second by way of the first,
also when a member was marked. A use of the class with the unknown argument equals itself and no
other. -/
theorem exactly_partial_equivalence_gathered :
    WellFounded gathered.PartOf ∧ gathered.exactly ⟨5⟩ ⟨4⟩ = true ∧ gathered.exactly ⟨6⟩ ⟨5⟩ = true ∧
      gathered.exactly ⟨8⟩ ⟨8⟩ = true ∧ gathered.exactly ⟨8⟩ ⟨9⟩ = false ∧
      (([.raw ⟨0⟩ true, .underlying ⟨3⟩ (some .int)] : List TypeWrite).foldl Draft.write
        { program := gathered }).program.exactly ⟨6⟩ ⟨5⟩ = true := by
  have hw : WellFounded gathered.PartOf := (inOrder_of_types (by decide)).wellFounded
  obtain ⟨hsymm, htrans, hself, hperm, hmarks⟩ := exactly_partial_equivalence gathered hw
  have hfirst : gathered.exactly ⟨4⟩ ⟨5⟩ = true := by decide +kernel
  have hmembers : ∀ x ∈ [(⟨1⟩ : TypeId), ⟨0⟩], gathered.exactly x x = true :=
    List.forall_mem_cons.mpr ⟨(hself ⟨1⟩).mpr ⟨_, rfl, rfl⟩,
      List.forall_mem_singleton.mpr ((hself ⟨0⟩).mpr ⟨_, rfl, rfl⟩)⟩
  have hlast : gathered.exactly ⟨6⟩ ⟨4⟩ = true :=
    hperm ⟨6⟩ ⟨4⟩ [⟨1⟩, ⟨0⟩] [⟨0⟩, ⟨1⟩] (.inl ⟨rfl, rfl⟩) (.swap ..) hmembers
  have hround := htrans _ _ _ hlast hfirst
  exact ⟨hw, hsymm _ _ hfirst, hround, (hself ⟨8⟩).mpr ⟨_, rfl, rfl⟩, by decide +kernel,
    (hmarks _ _ rfl _ _).trans hround⟩

end Program

end Unbox
