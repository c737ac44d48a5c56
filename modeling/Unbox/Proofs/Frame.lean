import Unbox.Proofs.Once
import Unbox.Proofs.Traversal

/-!
# A run writes marks and flags only

A run is given the program and returns marks and units, so the program itself is the same for every
part of it. What a run may do to the rest:

* `Marks.Grows p m m'` : from `m` to `m'` marks changed in one direction, at ids of the tables of
  `p` only;
* `Edit.grows` : every change that either analysis makes is such a change;
* `Context.decideUnits_leads` : the marks after the declarations of all units are decided;
* `Target.run_grows_marks` : whatever the units are and however the run ends, the marks grow and
  the units keep everything but their flags.
-/

namespace Unbox

namespace Marks
variable {p : Program} {m m' m'' : Marks}

/-- Erased and raw are never taken back, untrusted changes only to true, the bounds that were known
stay known, and outside of the tables there is no change at all. -/
structure Grows (p : Program) (m m' : Marks) : Prop where
  typeErased : ∀ d, m.typeErased d = true → m'.typeErased d = true
  untrusted : ∀ d, m'.untrusted d = m.untrusted d ∨ m'.untrusted d = some true
  raw : ∀ a, m.raw a = true → m'.raw a = true
  bounds : p.Remembers m.bounds m'.bounds
  noDeclaration : ∀ d, p.hasDecl d = false → m'.declarations.get d = m.declarations.get d
  noType : ∀ a, p.hasType a = false → m'.types.get a = m.types.get a

namespace Grows

theorem refl (m : Marks) : m.Grows p m :=
  ⟨fun _ => id, fun _ => .inl rfl, fun _ => id, .refl _, fun _ _ => rfl, fun _ _ => rfl⟩

theorem trans (h : m.Grows p m') (h' : m'.Grows p m'') : m.Grows p m'' where
  typeErased d := h'.typeErased d ∘ h.typeErased d
  untrusted d := by
    rcases h'.untrusted d with hd' | hd'
    · rw [hd']
      exact h.untrusted d
    · exact .inr hd'
  raw a := h'.raw a ∘ h.raw a
  bounds := h.bounds.trans h'.bounds
  noDeclaration d hd := (h'.noDeclaration d hd).trans (h.noDeclaration d hd)
  noType a ha := (h'.noType a ha).trans (h.noType a ha)

theorem updateDeclaration {d : DeclId} {f : DeclarationMarks → DeclarationMarks}
    (hd : p.hasDecl d = true) (he : ∀ x, x.typeErased = true → (f x).typeErased = true)
    (hu : ∀ x, (f x).untrusted = x.untrusted ∨ (f x).untrusted = some true) :
    m.Grows p (m.updateDeclaration d f) where
  typeErased e h := by
    simp only [Marks.typeErased, Marks.updateDeclaration, Column.get_update] at h ⊢
    split
    · exact he _ h
    · exact h
  untrusted e := by
    simp only [Marks.untrusted, Marks.updateDeclaration, Column.get_update]
    split
    · exact hu _
    · exact .inl rfl
  raw _ := id
  bounds := .refl _
  noDeclaration e h := by
    have hed : e ≠ d := fun hed => by simp [hed, hd] at h
    simp only [Marks.updateDeclaration, Column.get_update, if_neg hed]
  noType _ _ := rfl

theorem updateType {a : TypeId} {f : TypeMarks → TypeMarks} (ha : p.hasType a = true)
    (hr : ∀ x, x.raw = true → (f x).raw = true) : m.Grows p (m.updateType a f) where
  typeErased _ := id
  untrusted _ := .inl rfl
  raw b h := by
    simp only [Marks.raw, Marks.updateType, Column.get_update] at h ⊢
    split
    · exact hr _ h
    · exact h
  bounds := .refl _
  noDeclaration _ _ := rfl
  noType b h := by
    have hba : b ≠ a := fun hba => by simp [hba, ha] at h
    simp only [Marks.updateType, Column.get_update, if_neg hba]

end Grows

end Marks

theorem Edit.grows {t : Target} {D F : DeclId → Prop} {noted found : Prop} {m m' : Marks}
    (h : Edit t D F noted found m m') : m.Grows t.program m' := by
  cases h with
  | decide d b hd _ =>
    unfold Marks.setUnboxed
    split
    · exact .updateDeclaration hd (fun _ => id) fun _ => .inl rfl
    · exact .refl m
  | force d hd _ => exact .updateDeclaration hd (fun _ => id) fun _ => .inl rfl
  | erase d hd => exact .updateDeclaration hd (fun _ _ => rfl) fun _ => .inl rfl
  | distrust d hd => exact .updateDeclaration hd (fun _ => id) fun _ => .inr rfl
  | raw a ha => exact .updateType ha fun _ _ => rfl
  | underlying a u ha => exact .updateType ha fun _ => id
  | bounds b hb => exact ⟨fun _ => id, fun _ => .inl rfl, fun _ => id, hb, fun _ _ => rfl, fun _ _ => rfl⟩

namespace Context
variable (c : Context)

theorem decideUnit_follows {units : List SourceUnit} {u : SourceUnit} (hu : u ∈ units) :
    Decide.Follows (Write c.toTarget ⊤ fun d => ∃ u ∈ units, d ∈ u.forced) (c.decideUnit u) :=
  (Decide.Follows.decideUnit u).mono fun _ _ => Write.mono (fun _ => id) fun _ hd => ⟨u, hu, hd⟩

theorem decideUnits_leads (m : Marks) (units : List SourceUnit) :
    Leads (Write c.toTarget ⊤ fun d => ∃ u ∈ units, d ∈ u.forced) { marks := m }
      (c.decideUnits m units).2 :=
  Decide.Follows.forM (f := c.decideUnit) (fun _ hu => c.decideUnit_follows hu) { marks := m }

theorem decideUnits_grows (m : Marks) (units : List SourceUnit) :
    m.Grows c.program (c.decideUnits m units).2.marks :=
  (c.decideUnits_leads m units).preserves (fun _ _ hw h => h.trans hw.grows) (.refl m)

end Context

namespace Target
variable (t : Target)

theorem visitUnits_grows (isRecording : Bool) (m : Marks) (units : List SourceUnit) :
    m.Grows t.program (t.visitUnits isRecording m units).2.marks := by
  obtain ⟨touches, -⟩ := t.visitUnits_follows (F := ⊤) isRecording m units
    fun _ _ _ _ => trivial
  generalize (t.visitUnits isRecording m units).2.marks = m' at touches ⊢
  induction touches with
  | refl => exact .refl m
  | tail _ h ih => exact ih.trans h.grows

/-- However the run ends, the units have the trees that they had, with other flags at most, and the
marks changed in one direction at ids of the tables. -/
theorem run_grows_marks (settings : Settings) (m : Marks) (units : List SourceUnit) :
    (t.run settings m units).units.map SourceUnit.bare = units.map SourceUnit.bare ∧
      m.Grows t.program (t.run settings m units).marks := by
  have decided := Context.decideUnits_grows { t with limit := settings.maxDepth } m units
  unfold run
  split
  · next e decisions h =>
    rw [h] at decided
    exact ⟨rfl, decided⟩
  · next decisions h =>
    rw [h] at decided
    have visited := decided.trans
      (t.visitUnits_grows settings.collectReport decisions.marks units)
    obtain ⟨-, trees⟩ := t.visitUnits_follows (F := ⊤) settings.collectReport
      decisions.marks units fun _ _ _ _ => trivial
    dsimp only
    split
    · exact ⟨trees, visited⟩
    · exact ⟨trees, visited⟩

end Target

end Unbox
