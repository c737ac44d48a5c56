import Unbox.Policy.Standard
import Unbox.Proofs.Reasons
import Unbox.Run

/-!
# What is noted about a declaration

Before a declaration is decided, it is noted whether its type erases, whether it can be trusted and
whether it is raw. What is noted once is found again by the same question later on.

* `Policy.IsSteady p` : what the policy finds out about bounds rests on which type parameters keep
  one; the standard policy is steady for every program;
* `Target.noteErasure`, `Target.noteRawness` : the marks once that is noted;
* `Target.Noted m d` : there is nothing about `d` that is not noted in `m`;
* `Context.noted_of_decideUnits` : after the walk over the units, nothing that it notes is missing;
* `Marks.Confirms t m m'` : the findings of `m` are those of `m'`;
* `Context.allows_confirms` : no act changes a finding if what it notes is noted and what it forces
  is boxed.
-/

namespace Unbox

/-! ## Steady policies -/

/-- What the policy finds out about bounds rests on which type parameters keep one, and to ask
changes none of these answers. -/
def Policy.IsSteady (policy : Policy) (p : Program) : Prop :=
  ∀ a, Steady policy p (policy.substitutesBound p a)

theorem Policy.standard_isSteady (p : Program) : Policy.standard.IsSteady p :=
  fun a => (p.substitutesBoundTo_inquiry p.typeDepth a).steady

/-! ## Taking note -/

namespace Target
variable (t : Target)

/-- The type erases, given what is known about bounds. -/
def erases (b : BoundMarks) (type : TypeId) : Bool :=
  t.policy.hasErasure t.program type || (t.policy.substitutesBound t.program type b).1

/-- What is known about bounds once it is known whether the type erases. -/
def asked (b : BoundMarks) (type : TypeId) : BoundMarks :=
  if t.policy.hasErasure t.program type then b
  else (t.policy.substitutesBound t.program type b).2

/-- An actual member of a class or interface whose type is lowered differently from one that it
refines. -/
def widens (d : DeclId) (x : Declaration) : Bool :=
  x.isActual && (t.program.container? x).any Declaration.isClassOrInterface &&
    t.policy.isWidening t.program d

/-- The marks once it is noted whether `d` erases. -/
def noteErasure (d : DeclId) (x : Declaration) (type : TypeId) (m : Marks) : Marks :=
  let asked : Marks := { m with bounds := t.asked m.bounds type }
  let erased := if t.erases m.bounds type || t.widens d x then asked.markErased d else asked
  if t.widens d x then erased.markUntrusted d else erased

/-- The marks once it is noted whether the type is raw. -/
def noteRawness (type : TypeId) (m : Marks) : Marks :=
  if t.policy.isRaw t.program type && t.program.hasType type then m.setRaw type true else m

variable {t} {d e : DeclId} {x : Declaration} {type : TypeId} {m : Marks}

theorem asked_sameAnswers (hs : t.policy.IsSteady t.program) (b : BoundMarks) (type : TypeId) :
    SameAnswers t.policy t.program b (t.asked b type) := by
  unfold asked
  split
  · exact .refl b
  · exact (hs type).keeps b

theorem erases_congr (hs : t.policy.IsSteady t.program) {b b' : BoundMarks}
    (h : SameAnswers t.policy t.program b b') (type : TypeId) :
    t.erases b' type = t.erases b type := by
  unfold erases
  rw [(hs type).answer b b' h]

theorem bounds_noteErasure : (t.noteErasure d x type m).bounds = t.asked m.bounds type := by
  unfold noteErasure
  dsimp only
  split <;> split <;> rfl

theorem raw_noteErasure (a : TypeId) : (t.noteErasure d x type m).raw a = m.raw a := by
  unfold noteErasure
  dsimp only
  split <;> split <;> rfl

theorem get_noteErasure (e : DeclId) : (t.noteErasure d x type m).declarations.get e =
    if e = d then
      { m.declarations.get e with
        typeErased := m.typeErased e || t.erases m.bounds type || t.widens d x
        untrusted := if t.widens d x then some true else m.untrusted e }
    else m.declarations.get e := by
  unfold noteErasure
  dsimp only
  by_cases hed : e = d
  all_goals
    cases t.erases m.bounds type <;> cases t.widens d x <;>
      simp [hed, Marks.markErased, Marks.markUntrusted, Marks.updateDeclaration, Column.get_update,
        Marks.typeErased, Marks.untrusted]

end Target

namespace Context
open Decide
variable {c : Context} {d : DeclId} {x : Declaration} {type : TypeId}

theorem markErasure_eq (hx : c.program.decl? d = some x) (ht : x.type = some type) (s : Decisions) :
    result (c.markErasure d) s = .ok () ∧
      (after (c.markErasure d) s).marks = c.noteErasure d x type s.marks := by
  unfold markErasure Target.noteErasure Target.erases Target.asked
  rw [lookup_bind_of_decl? hx, ht]
  dsimp only
  rw [← Target.widens]
  cases c.policy.hasErasure c.program type with
  | true => cases c.widens d x <;> exact ⟨rfl, rfl⟩
  | false =>
    generalize hq : c.policy.substitutesBound c.program type = question
    have hask : result (askBounds question) s = .ok (question s.marks.bounds).1 := rfl
    simp only [Bool.false_or, if_neg Bool.false_ne_true]
    rw [result_bind, after_bind_of_ok hask, hask]
    cases (question s.marks.bounds).1 <;> cases c.widens d x <;> exact ⟨rfl, rfl⟩

theorem markRaw_eq (hx : c.program.decl? d = some x) (ht : x.type = some type) (s : Decisions) :
    result (c.markRaw d) s = .ok () ∧
      (after (c.markRaw d) s).marks = c.noteRawness type s.marks := by
  unfold markRaw Target.noteRawness
  rw [lookup_bind_of_decl? hx, ht]
  dsimp only
  cases c.policy.isRaw c.program type <;> cases c.program.hasType type <;> exact ⟨rfl, rfl⟩

section Maintains
variable {r : Rewrites} {P : Marks → Prop} {f : Declaration → Decide Unit}
  {g : Declaration → TypeId → Marks → Marks}

/-- What does nothing without a type, and otherwise changes the marks by `g`. -/
theorem maintains_of_typed (hf : ∀ x, x.type = none → f x = pure ())
    (hr : ∀ s, (after (c.lookup d >>= f) s).rewrites = s.rewrites)
    (hg : ∀ x type s, c.program.decl? d = some x → x.type = some type →
      (after (c.lookup d >>= f) s).marks = g x type s.marks)
    (h : ∀ x type m, c.program.decl? d = some x → x.type = some type → P m → P (g x type m)) :
    Maintains (Under r P) (c.lookup d >>= f) := by
  intro s ⟨hr', hs⟩
  refine ⟨(hr s).trans hr', ?_⟩
  cases hx : c.program.decl d .unknown with
  | error e =>
    rw [lookup, lookupAt, hx]
    exact hs
  | ok x =>
    have hx := Program.decl_eq_ok_iff.mp hx
    cases ht : x.type with
    | none =>
      rw [lookup_bind_of_decl? hx, hf x ht]
      exact hs
    | some type =>
      rw [hg x type s hx ht]
      exact h x type s.marks hx ht hs

theorem maintains_markErasure (h : ∀ x type m, c.program.decl? d = some x → x.type = some type →
    P m → P (c.noteErasure d x type m)) : Maintains (Under r P) (c.markErasure d) :=
  maintains_of_typed (fun x ht => by rw [ht])
    (fun s => (Follows.markErasure (D := ⊥) (F := ⊥) d s).rewrites)
    (fun x type s hx ht => (markErasure_eq hx ht s).2) h

theorem maintains_markRaw (h : ∀ x type m, c.program.decl? d = some x → x.type = some type →
    P m → P (c.noteRawness type m)) : Maintains (Under r P) (c.markRaw d) :=
  maintains_of_typed (fun x ht => by rw [ht])
    (fun s => (Follows.markRaw (D := ⊥) (F := ⊥) d s).rewrites)
    (fun x type s hx ht => (markRaw_eq hx ht s).2) h

end Maintains

end Context

/-! ## Findings that stay -/

namespace Marks
variable {t : Target} {m m' m'' : Marks} {d : DeclId} {x : Declaration} {type : TypeId}

/-- `m'` has every note that `m` has, and the same answers about bounds. -/
structure Retains (t : Target) (m m' : Marks) : Prop where
  typeErased : ∀ d, m.typeErased d = true → m'.typeErased d = true
  untrusted : ∀ d, m.untrusted d = some true → m'.untrusted d = some true
  raw : ∀ a, m.raw a = true → m'.raw a = true
  bounds : SameAnswers t.policy t.program m.bounds m'.bounds

/-- `m'` has the findings of `m`; what is undecided in `m` may be decided in `m'`. -/
structure Confirms (t : Target) (m m' : Marks) : Prop where
  typeErased : ∀ d, m'.typeErased d = m.typeErased d
  untrusted : ∀ d, m'.untrusted d = m.untrusted d
  raw : ∀ a, m'.raw a = m.raw a
  unboxed : ∀ d b, m.unboxed d = some b → m'.unboxed d = some b
  bounds : SameAnswers t.policy t.program m.bounds m'.bounds

namespace Confirms

theorem refl (m : Marks) : m.Confirms t m :=
  ⟨fun _ => rfl, fun _ => rfl, fun _ => rfl, fun _ _ => id, .refl _⟩

theorem trans (h : m.Confirms t m') (h' : m'.Confirms t m'') : m.Confirms t m'' where
  typeErased d := (h'.typeErased d).trans (h.typeErased d)
  untrusted d := (h'.untrusted d).trans (h.untrusted d)
  raw a := (h'.raw a).trans (h.raw a)
  unboxed d b := h'.unboxed d b ∘ h.unboxed d b
  bounds := h.bounds.trans h'.bounds

theorem retains (h : m.Confirms t m') : m.Retains t m' where
  typeErased d hd := (h.typeErased d).trans hd
  untrusted d hd := (h.untrusted d).trans hd
  raw a ha := (h.raw a).trans ha
  bounds := h.bounds

theorem updateDeclaration {f : DeclarationMarks → DeclarationMarks}
    (he : (f (m.declarations.get d)).typeErased = m.typeErased d)
    (hn : (f (m.declarations.get d)).untrusted = m.untrusted d)
    (hu : ∀ b, m.unboxed d = some b → (f (m.declarations.get d)).unboxed = some b) :
    m.Confirms t (m.updateDeclaration d f) := by
  have hget (e : DeclId) : (m.updateDeclaration d f).declarations.get e =
      if e = d then f (m.declarations.get e) else m.declarations.get e := Column.get_update ..
  refine ⟨fun e => ?_, fun e => ?_, fun a => rfl, fun e b hb => ?_, .refl _⟩
  · unfold Marks.typeErased
    rw [hget]
    split
    · next h => rw [h]; exact he
    · rfl
  · unfold Marks.untrusted
    rw [hget]
    split
    · next h => rw [h]; exact hn
    · rfl
  · unfold Marks.unboxed
    rw [hget]
    split
    · next h =>
      subst h
      exact hu b hb
    · exact hb

theorem setUnboxed (m : Marks) (d : DeclId) (b : Bool) : m.Confirms t (m.setUnboxed d b) := by
  unfold Marks.setUnboxed
  split
  · next h =>
    refine .updateDeclaration rfl rfl fun b' hb' => ?_
    rw [hb'] at h
    cases h
  · exact .refl m

theorem forceBoxed (h : m.unboxed d = some false) : m.Confirms t (m.forceBoxed d) :=
  .updateDeclaration rfl rfl fun _ hb => h.symm.trans hb

theorem setUnderlying (m : Marks) (a : TypeId) (u : Option MachineType) :
    m.Confirms t (m.setUnderlying a u) := by
  refine ⟨fun _ => rfl, fun _ => rfl, fun b => ?_, fun _ _ => id, .refl _⟩
  simp only [Marks.raw, Marks.setUnderlying, updateType, Column.get_update]
  split <;> rfl

theorem keepsBound (m : Marks) (d : DeclId) :
    m.Confirms t { m with bounds := (t.policy.keepsBound t.program d m.bounds).2 } :=
  ⟨fun _ => rfl, fun _ => rfl, fun _ => rfl, fun _ _ => id, (Steady.keepsBound d).keeps m.bounds⟩

end Confirms

namespace Retains

theorem forceBoxed (m : Marks) (d : DeclId) : m.Retains t (m.forceBoxed d) := by
  refine ⟨fun e he => ?_, fun e he => ?_, fun _ => id, .refl _⟩
  all_goals
    simp only [Marks.typeErased, Marks.untrusted, Marks.forceBoxed, updateDeclaration,
      Column.get_update] at he ⊢
    split <;> exact he

theorem noteErasure (hs : t.policy.IsSteady t.program) (m : Marks) (d : DeclId) (x : Declaration)
    (type : TypeId) : m.Retains t (t.noteErasure d x type m) := by
  refine ⟨fun e he => ?_, fun e he => ?_, fun a ha => ?_, ?_⟩
  · simp only [Marks.typeErased, Target.get_noteErasure] at he ⊢
    split
    · simp [he]
    · exact he
  · simp only [Marks.untrusted, Target.get_noteErasure] at he ⊢
    split
    · simp [he]
    · exact he
  · rwa [Target.raw_noteErasure]
  · rw [Target.bounds_noteErasure]
    exact Target.asked_sameAnswers hs m.bounds type

theorem noteRawness (m : Marks) (type : TypeId) : m.Retains t (t.noteRawness type m) := by
  unfold Target.noteRawness
  split
  · refine ⟨fun _ => id, fun _ => id, fun a ha => ?_, .refl _⟩
    simp only [Marks.raw, setRaw, updateType, Column.get_update] at ha ⊢
    split
    · rfl
    · exact ha
  · exact (Confirms.refl m).retains

end Retains

end Marks

/-! ## Nothing is missing -/

/-- Whatever there is to be noted about the declaration `x` is noted in `m`. -/
structure Target.NotedAs (t : Target) (m : Marks) (d : DeclId) (x : Declaration) (type : TypeId) :
    Prop where
  erased : (t.erases m.bounds type || t.widens d x) = true → m.typeErased d = true
  untrusted : t.widens d x = true → m.untrusted d = some true
  raw : (t.policy.isRaw t.program type && t.program.hasType type) = true → m.raw type = true

/-- There is nothing about `d` that is not noted in `m`. -/
def Target.Noted (t : Target) (m : Marks) (d : DeclId) : Prop :=
  ∀ x type, t.program.decl? d = some x → x.type = some type → t.NotedAs m d x type

section Noted
variable {t : Target} {m m' : Marks} {d : DeclId} {x : Declaration} {type : TypeId}

theorem Target.Noted.retains (hs : t.policy.IsSteady t.program) (h : t.Noted m d)
    (hm : m.Retains t m') : t.Noted m' d := by
  intro x type hx ht
  have hn := h x type hx ht
  refine ⟨fun he => ?_, fun hw => hm.untrusted d (hn.untrusted hw),
    fun hr => hm.raw type (hn.raw hr)⟩
  rw [erases_congr hs hm.bounds] at he
  exact hm.typeErased d (hn.erased he)

theorem Target.noted_note (hs : t.policy.IsSteady t.program) (hx : t.program.decl? d = some x)
    (ht : x.type = some type) (m : Marks) :
    t.Noted (t.noteRawness type (t.noteErasure d x type m)) d := by
  have hr := Marks.Retains.noteRawness (t := t) (t.noteErasure d x type m) type
  have hanswers := (Marks.Retains.noteErasure hs m d x type).bounds.trans hr.bounds
  intro y a hy ha
  obtain rfl := Option.some.inj (hx.symm.trans hy)
  obtain rfl := Option.some.inj (ht.symm.trans ha)
  refine ⟨fun he => ?_, fun hw => ?_, fun hraw => ?_⟩
  · rw [erases_congr hs hanswers] at he
    refine hr.typeErased d ?_
    rw [Marks.typeErased, get_noteErasure, if_pos rfl]
    simp only [Bool.or_assoc, he, Bool.or_true]
  · refine hr.untrusted d ?_
    rw [Marks.untrusted, get_noteErasure, if_pos rfl]
    exact if_pos hw
  · rw [noteRawness, if_pos hraw]
    simp [Marks.raw, Marks.setRaw, Marks.updateType, Column.get_update]

/-- What is noted already is not changed by noting it again. -/
theorem Marks.Confirms.noteErasure (hs : t.policy.IsSteady t.program) (hn : t.Noted m d)
    (hx : t.program.decl? d = some x) (ht : x.type = some type) :
    m.Confirms t (t.noteErasure d x type m) := by
  refine ⟨fun e => ?_, fun e => ?_, Target.raw_noteErasure, fun e b hb => ?_, ?_⟩
  · rw [Marks.typeErased, Target.get_noteErasure]
    split
    · next hed =>
      subst hed
      rw [Bool.or_assoc]
      cases hfound : t.erases m.bounds type || t.widens e x with
      | false => exact Bool.or_false _
      | true => rw [(hn x type hx ht).erased hfound, Bool.true_or]
    · rfl
  · rw [Marks.untrusted, Target.get_noteErasure]
    split
    · next hed =>
      subst hed
      dsimp only
      split
      · next hw => exact ((hn x type hx ht).untrusted hw).symm
      · rfl
    · rfl
  · rw [Marks.unboxed, Target.get_noteErasure]
    split <;> exact hb
  · rw [Target.bounds_noteErasure]
    exact Target.asked_sameAnswers hs m.bounds type

theorem Marks.Confirms.noteRawness (hn : t.Noted m d) (hx : t.program.decl? d = some x)
    (ht : x.type = some type) : m.Confirms t (t.noteRawness type m) := by
  unfold Target.noteRawness
  split
  · next h =>
    refine ⟨fun _ => rfl, fun _ => rfl, fun a => ?_, fun _ _ => id, .refl _⟩
    have hraw : (m.types.get type).raw = true := (hn x type hx ht).raw h
    simp only [Marks.raw, setRaw, updateType, Column.get_update]
    split
    · next ha => rw [ha, hraw]
    · rfl
  · exact .refl m

end Noted

namespace Context
open Decide
variable {c : Context} {r : Rewrites} {d : DeclId} {a : Act} {units : List SourceUnit} {m : Marks}

/-- What is noted stays noted in every act. -/
theorem allows_noted (hs : c.policy.IsSteady c.program) (d : DeclId) (a : Act) :
    c.Allows r (c.Noted · d) (fun _ => True) a where
  unboxed _ _ _ _ := trivial
  decide m e b hm _ := hm.retains hs (Marks.Confirms.setUnboxed m e b).retains
  underlying m a u hm := hm.retains hs (Marks.Confirms.setUnderlying m a u).retains
  bounds m e hm := hm.retains hs (Marks.Confirms.keepsBound m e).retains
  own _ _ := trivial
  inherits _ _ _ _ := trivial
  forces e _ m hm := hm.retains hs (.forceBoxed m e)
  erasure e _ := maintains_markErasure fun x type m _ _ hm =>
    hm.retains hs (.noteErasure hs m e x type)
  rawness _ _ := maintains_markRaw fun _ type m _ _ hm => hm.retains hs (.noteRawness m type)

theorem noted_of_note (hs : c.policy.IsSteady c.program) {x : Declaration} {type : TypeId}
    (hx : c.program.decl? d = some x) (ht : x.type = some type) {act : Decide Unit}
    (hact : ∀ r, Maintains (Under r (c.Noted · d)) act) (s : Decisions) :
    c.Noted (after (do c.markErasure d; c.markRaw d; act) s).marks d := by
  obtain ⟨herasure, hmarks⟩ := markErasure_eq hx ht s
  obtain ⟨hraw, hmarks'⟩ := markRaw_eq hx ht (after (c.markErasure d) s)
  rw [after_bind_of_ok herasure, after_bind_of_ok hraw]
  generalize after (c.markRaw d) _ = s' at hmarks' ⊢
  have hnoted : c.Noted s'.marks d := by
    rw [hmarks', hmarks]
    exact Target.noted_note hs hx ht s.marks
  exact (hact s'.rewrites s' ⟨rfl, hnoted⟩).2

/-- An act leaves noted what it notes, even if it fails later on. -/
theorem noted_of_act (hs : c.policy.IsSteady c.program) (hd : d ∈ a.noted) (s : Decisions) :
    c.Noted (after (a.run c) s).marks d := by
  intro x type hx ht
  suffices h : c.Noted (after (a.run c) s).marks d from h x type hx ht
  have hallows (r : Rewrites) : c.Allows r (c.Noted · d) (fun _ => True) a := allows_noted hs d a
  have hvariable (s : Decisions) : c.Noted (after (c.visitVariable d) s).marks d :=
    noted_of_note hs hx ht (fun r => (hallows r).maintains_settle fun hne => absurd rfl hne) _
  cases a with
  | iterated l e =>
    obtain rfl := List.mem_singleton.mp hd
    have hl : c.program.decl d l = .ok x := Program.decl_eq_ok_iff.mpr hx
    rw [Act.run, visitIterated, lookupAt, hl]
    exact hvariable _
  | variable_ e =>
    obtain rfl := List.mem_singleton.mp hd
    exact hvariable s
  | value e =>
    obtain rfl := List.mem_singleton.mp hd
    exact noted_of_note hs hx ht (fun r => (hallows r).maintains_decideValue d) s
  | method e =>
    obtain rfl := List.mem_singleton.mp hd
    exact noted_of_note hs hx ht (fun r => (hallows r).maintains_decideMethod d) s
  | _ => cases hd

/-- After the walk over the units nothing that its steps note is missing. -/
theorem noted_of_decideUnits (hs : c.policy.IsSteady c.program) {u : SourceUnit} (hu : u ∈ units)
    {st : Step} (hst : st ∈ c.itinerary u) (hd : d ∈ st.act.noted)
    (hok : (c.decideUnits m units).1 = .ok ()) : c.Noted (c.decideUnits m units).2.marks d := by
  have hstep (st : Step) : Maintains (Under {} (c.Noted · d)) (st.run c) :=
    maintains_step (allows_noted hs d st.act)
  have hunit (v : SourceUnit) : Maintains (Under {} (c.Noted · d)) (c.decideUnit v) :=
    maintains_decideUnit fun st _ => allows_noted hs d st.act
  have hwalk := Maintains.holds_of_forM (Q := Under {} (c.Noted · d)) (f := c.decideUnit)
    (s := { marks := m }) (fun v _ => hunit v) (fun v _ s => (Follows.decideUnit v s).rewrites) hu
    (fun s hr hdone => ?_) hok
  · exact hwalk.2
  · rw [decideUnit_eq] at hdone ⊢
    refine Maintains.holds_of_forM (fun st _ => hstep st) (fun st _ s => (Follows.step st s).rewrites) hst
      (fun s' hr' _ => ⟨?_, ?_⟩) hdone
    · exact ((Follows.step st s').rewrites.trans hr').trans hr
    · rw [Step.run, after_between]
      exact noted_of_act hs hd _

/-- No finding is changed by an act that notes what is noted and forces what is boxed. -/
theorem allows_confirms (hs : c.policy.IsSteady c.program) (hn : ∀ d ∈ a.noted, c.Noted m d)
    (hf : ∀ d ∈ a.forced, m.unboxed d = some false) :
    c.Allows r (m.Confirms c.toTarget) (fun _ => True) a where
  unboxed _ _ _ _ := trivial
  decide m' e b hm _ := hm.trans (.setUnboxed m' e b)
  underlying m' a u hm := hm.trans (.setUnderlying m' a u)
  bounds m' e hm := hm.trans (.keepsBound m' e)
  own _ _ := trivial
  inherits _ _ _ _ := trivial
  forces e he _ hm := hm.trans (.forceBoxed (hm.unboxed e false (hf e he)))
  erasure e he := maintains_markErasure fun _ _ _ hx ht hm =>
    hm.trans (.noteErasure hs ((hn e he).retains hs hm.retains) hx ht)
  rawness e he := maintains_markRaw fun _ _ _ hx ht hm =>
    hm.trans (.noteRawness ((hn e he).retains hs hm.retains) hx ht)

theorem decideUnits_confirms (hs : c.policy.IsSteady c.program)
    (hn : ∀ u ∈ units, ∀ st ∈ c.itinerary u, ∀ d ∈ st.act.noted, c.Noted m d)
    (hf : ∀ u ∈ units, ∀ d ∈ u.forced, m.unboxed d = some false) :
    m.Confirms c.toTarget (c.decideUnits m units).2.marks := by
  have hunit : ∀ u ∈ units, Maintains (Under {} (m.Confirms c.toTarget)) (c.decideUnit u) := by
    intro u hu
    refine maintains_decideUnit fun st hst => allows_confirms hs (hn u hu st hst) fun d hd => ?_
    exact hf u hu d (c.mem_forced_iff.mpr ⟨st, hst, hd⟩)
  exact (Maintains.forM hunit { marks := m } ⟨rfl, .refl m⟩).2

end Context

end Unbox
