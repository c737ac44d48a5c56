import Unbox.Decision.Walk
import Unbox.Proofs.Running

/-!
# Which marks a decision writes

`Edit t decided forced noted found m m'` lists every change of the marks that the analyses make, with the
part of them that is allowed; `Write t decided forced m m'` are those that deciding declarations makes.

* `Follows.markErasure` and its likes : what is noted about a declaration decides nothing;
* `Follows.settle` : to decide a declaration forces nothing;
* `Follows.visitValue` and its likes : the same for everything that is done about a declaration;
* `Context.holds_of_note` : what is noted about a declaration does not matter for what is done then.
-/

namespace Unbox

namespace Program
variable {p : Program}

theorem hasDecl_of_decl? {d : DeclId} {x : Declaration} (h : p.decl? d = some x) :
    p.hasDecl d = true := by
  obtain ⟨hd, -⟩ := Array.getElem?_eq_some_iff.mp h
  exact decide_eq_true hd

theorem exists_decl? {d : DeclId} (h : p.hasDecl d = true) : ∃ x, p.decl? d = some x :=
  ⟨_, Array.getElem?_eq_getElem (of_decide_eq_true h)⟩

theorem hasType_of_form? {t : TypeId} {form : TypeForm} (h : p.form? t = some form) :
    p.hasType t = true := by
  obtain ⟨ht, -⟩ := Array.getElem?_eq_some_iff.mp h
  exact decide_eq_true ht

theorem decl_eq_ok_iff {d : DeclId} {l : Location} {x : Declaration} :
    p.decl d l = .ok x ↔ p.decl? d = some x := by
  unfold decl
  split <;> simp_all

theorem hasType_of_exactly {a b : TypeId} (h : p.exactly a b = true) : p.hasType a = true := by
  unfold exactly at h
  cases hn : p.typeDepth * p.typeDepth with
  | zero => simp [typeDepth] at hn
  | succ n =>
    rw [hn, exactlyTo] at h
    cases ha : p.form? a with
    | some form => exact hasType_of_form? ha
    | none => split at h <;> simp_all

end Program

/-- One change of the marks, at an id of its table. Only `decided` are decided, only `forced` are boxed
whatever was decided before, erasure and distrust are marked only if `noted`, and raw types and what is
known about bounds only if `found`. -/
inductive Edit (t : Target) (decided forced : DeclId → Prop) (noted found : Prop) (m : Marks) :
    Marks → Prop where
  | decide (d : DeclId) (b : Bool) (hd : t.program.hasDecl d = true) (hD : decided d) :
    Edit t decided forced noted found m (m.setUnboxed d b)
  | force (d : DeclId) (hd : t.program.hasDecl d = true) (hF : forced d) :
    Edit t decided forced noted found m (m.forceBoxed d)
  | erase (d : DeclId) (hd : t.program.hasDecl d = true) (hn : noted) :
    Edit t decided forced noted found m (m.markErased d)
  | distrust (d : DeclId) (hd : t.program.hasDecl d = true) (hn : noted) :
    Edit t decided forced noted found m (m.markUntrusted d)
  | raw (a : TypeId) (ha : t.program.hasType a = true) (hf : found) :
    Edit t decided forced noted found m (m.setRaw a true)
  | underlying (a : TypeId) (u : Option MachineType) (ha : t.program.hasType a = true) :
    Edit t decided forced noted found m (m.setUnderlying a u)
  | bounds (b : BoundMarks) (hb : t.program.Remembers m.bounds b) (hf : found) :
    Edit t decided forced noted found m { m with bounds := b }

/-- A write of the analysis of declarations. -/
abbrev Write (t : Target) (decided forced : DeclId → Prop) : Marks → Marks → Prop :=
  Edit t decided forced True True

theorem Edit.mono {t : Target} {D D' F F' : DeclId → Prop} {noted noted' found found' : Prop}
    (hD : ∀ d, D d → D' d) (hF : ∀ d, F d → F' d) (hn : noted → noted') (hf : found → found')
    {m m' : Marks} (h : Edit t D F noted found m m') : Edit t D' F' noted' found' m m' := by
  cases h with
  | decide d b hd hd' => exact .decide d b hd (hD d hd')
  | force d hd hd' => exact .force d hd (hF d hd')
  | erase d hd h => exact .erase d hd (hn h)
  | distrust d hd h => exact .distrust d hd (hn h)
  | raw a ha h => exact .raw a ha (hf h)
  | underlying a u ha => exact .underlying a u ha
  | bounds b hb h => exact .bounds b hb (hf h)

theorem Write.mono {t : Target} {D D' F F' : DeclId → Prop} (hD : ∀ d, D d → D' d)
    (hF : ∀ d, F d → F' d) {m m' : Marks} (h : Write t D F m m') : Write t D' F' m m' :=
  Edit.mono hD hF id id h

namespace Decide.Follows
variable {α β : Type} {c : Context} {D F : DeclId → Prop} {W : Marks → Marks → Prop}

theorem recalls {question : StateM BoundMarks α} (h : c.program.Recalls question) :
    Follows (Write c.toTarget D F) (Decide.askBounds question) :=
  askBounds fun m => .bounds _ (h m.bounds) trivial

theorem keepsBound (d : DeclId) :
    Follows (Write c.toTarget D F) (Decide.askBounds (c.policy.keepsBound c.program d)) :=
  recalls (c.policy.keepsBound_recalls c.program d)

theorem lookupAt_bind {l : Location} {d : DeclId} {f : Declaration → Decide β}
    (h : ∀ x, c.program.decl? d = some x → Follows W (f x)) : Follows W (c.lookupAt l d >>= f) := by
  intro s
  rw [Context.lookupAt, after_bind, result_ofExcept, after_ofExcept]
  cases hx : c.program.decl d l with
  | ok x => exact h x (Program.decl_eq_ok_iff.mp hx) s
  | error e => exact .refl W s

theorem lookup_bind {d : DeclId} {f : Declaration → Decide β}
    (h : ∀ x, c.program.decl? d = some x → Follows W (f x)) : Follows W (c.lookup d >>= f) :=
  lookupAt_bind h

theorem topmost (d : DeclId) : Follows W (c.topmost d) := fun s => .refl W s

/-! ## Erasure and rawness -/

theorem markErasure (d : DeclId) : Follows (Write c.toTarget D F) (c.markErasure d) := by
  unfold Context.markErasure
  refine lookup_bind fun x hx => ?_
  have hd := Program.hasDecl_of_decl? hx
  have untrusts (b : Bool) : Follows (Write c.toTarget D F) (if b then do
      Decide.modifyMarks (·.markUntrusted d)
      Decide.count fun s => { s with untrusted := s.untrusted + 1 }
      else Pure.pure ()) :=
    ite (fun _ => seq (modifyMarks fun _ => .distrust d hd trivial) (count _)) fun _ => pure ()
  split
  · next type _ =>
    dsimp only
    refine ite (fun _ => bind (pure true) fun _ => ?_) fun _ =>
      bind (recalls (c.policy.recalls c.program type)) fun _ => ?_
    · exact ite (fun _ => seq (modifyMarks fun _ => .erase d hd trivial) (seq (count _) (untrusts _)))
        fun _ => untrusts _
    · exact ite (fun _ => seq (modifyMarks fun _ => .erase d hd trivial) (seq (count _) (untrusts _)))
        fun _ => untrusts _
  · exact pure ()

theorem markRaw (d : DeclId) : Follows (Write c.toTarget D F) (c.markRaw d) := by
  unfold Context.markRaw
  refine lookup_bind fun x hx => ?_
  split
  · next type _ =>
    refine ite (fun _ => ?_) fun _ => pure ()
    exact ite (fun ht => seq (modifyMarks fun _ => .raw type ht trivial) (count _)) fun _ => count _
  · exact pure ()

/-! ## The decision -/

theorem isErasedTypeParameter (t : TypeId) :
    Follows (Write c.toTarget D F) (c.isErasedTypeParameter t) := by
  unfold Context.isErasedTypeParameter
  split
  · next d _ => exact bind (keepsBound d) fun _ => pure _
  · exact pure _

theorem inheritedFrom {inherit : DeclId → Decide Unit} (source : DeclId)
    (h : ∀ r, Follows (Write c.toTarget D F) (inherit r)) :
    Follows (Write c.toTarget D F) (c.inheritedFrom inherit source) := by
  unfold Context.inheritedFrom
  exact seq (h source) (seq (count _) (lookup_bind fun _ _ => unboxed source))

theorem nestedVerdict {inherit : DeclId → Decide Unit} (d function : DeclId) (type : TypeId)
    (h : ∀ r, Follows (Write c.toTarget D F) (inherit r)) :
    Follows (Write c.toTarget D F) (c.nestedVerdict inherit d function type) := by
  unfold Context.nestedVerdict
  refine bind (topmost function) fun refined => ?_
  exact ite (fun _ => pure _) fun _ => inheritedFrom _ h

theorem verdict {inherit : DeclId → Decide Unit} (d refined : DeclId) (type : TypeId)
    (h : ∀ r, Follows (Write c.toTarget D F) (inherit r)) :
    Follows (Write c.toTarget D F) (c.verdict inherit d refined type) := by
  unfold Context.verdict
  refine lookup_bind fun x hx => ?_
  refine ite (fun _ => pure _) fun _ => ?_
  refine ite (fun _ => inheritedFrom _ h) fun _ => ?_
  refine bind (isErasedTypeParameter type) fun erased => ?_
  refine bind (ofExcept _) fun nested => ?_
  dsimp only
  refine ite (fun _ => pure _) fun _ => ?_
  refine ite (fun _ => pure _) fun _ => ?_
  refine ite (fun _ => ?_) fun _ => pure _
  refine bind (ofExcept _) fun function => ?_
  exact ite (fun _ => nestedVerdict d function type h) fun _ => pure _

theorem inheritUnderlying (d refined : DeclId) (type : TypeId) :
    Follows (Write c.toTarget D F) (c.inheritUnderlying d refined type) := by
  unfold Context.inheritUnderlying
  refine bind get fun s => ?_
  refine ite (fun _ => ?_) fun _ => pure _
  refine lookup_bind fun r hr => bind get fun s => ?_
  refine ite (fun h => modifyMarks fun _ => .underlying type _ ?_) fun _ => pure _
  simp_all

/-- By induction on the fuel, which only the declarations inherited from need. -/
theorem settleWithin (hD : ∀ d, D d) (fuel : Nat) (d topmost : DeclId) :
    Follows (Write c.toTarget D F) (c.settleWithin fuel d topmost) := by
  induction fuel generalizing d topmost with
  | zero => exact pure ()
  | succ fuel ih =>
    unfold Context.settleWithin
    refine lookup_bind fun x hx => ?_
    split
    · next type _ =>
      refine seq (inheritUnderlying d _ type) (bind (unboxed d) fun flag => ?_)
      refine ite (fun _ => pure ()) fun _ => bind get fun s => ?_
      refine ite (fun _ => seq (count _) (pure ())) fun _ => ?_
      have inherits (r : DeclId) : Follows (Write c.toTarget D F) (do
          let _ ← c.lookup r
          if (← Decide.unboxed r).isNone then c.settleWithin fuel r r) :=
        lookup_bind fun _ _ => bind (unboxed r) fun _ => ite (fun _ => ih r r) fun _ => pure ()
      refine bind (deciding d (verdict d _ type inherits)) fun v => ?_
      split
      · next b => exact modifyMarks fun _ => .decide d b (Program.hasDecl_of_decl? hx) (hD d)
      · exact pure ()
    · exact pure ()

theorem settle (hD : ∀ d, D d) (d topmost : DeclId) :
    Follows (Write c.toTarget D F) (c.settle d topmost) :=
  settleWithin hD _ d topmost

/-! ## Kinds of declarations -/

theorem decideMethod (hD : ∀ d, D d) (d : DeclId) :
    Follows (Write c.toTarget D F) (c.decideMethod d) := by
  unfold Context.decideMethod
  refine bind (topmost d) fun refined => lookup_bind fun r _ => ?_
  refine ite (fun _ => pure ()) fun _ => lookup_bind fun x hx => ?_
  refine ite (fun _ => settle hD d refined) fun _ => ?_
  exact modifyMarks fun _ => .decide d false (Program.hasDecl_of_decl? hx) (hD d)

theorem decideValue (hD : ∀ d, D d) (d : DeclId) :
    Follows (Write c.toTarget D F) (c.decideValue d) := by
  unfold Context.decideValue
  exact bind (topmost d) fun refined => settle hD d refined

theorem visitMethod (hD : ∀ d, D d) (d : DeclId) :
    Follows (Write c.toTarget D F) (c.visitMethod d) :=
  seq (markErasure d) (seq (markRaw d) (decideMethod hD d))

theorem visitValue (hD : ∀ d, D d) (d : DeclId) :
    Follows (Write c.toTarget D F) (c.visitValue d) :=
  seq (markErasure d) (seq (markRaw d) (decideValue hD d))

theorem visitVariable (hD : ∀ d, D d) (d : DeclId) :
    Follows (Write c.toTarget D F) (c.visitVariable d) :=
  seq (count _) (seq (markErasure d) (seq (markRaw d) (settle hD d d)))

theorem visitTypeParameter (l : Location) (d : DeclId) :
    Follows (Write c.toTarget D F) (c.visitTypeParameter l d) := by
  unfold Context.visitTypeParameter
  refine lookupAt_bind fun x _ => ?_
  exact ite (fun _ => bind (keepsBound d) fun _ => pure ()) fun _ => pure ()

theorem force {d : DeclId} (hd : c.program.hasDecl d = true) (hF : F d) :
    Follows (Write c.toTarget D F) (force d) :=
  seq (modifyMarks fun _ => .force d hd hF) (count _)

theorem visitIterated (hD : ∀ d, D d) (l : Location) {d : DeclId} (hF : F d) :
    Follows (Write c.toTarget D F) (c.visitIterated l d) :=
  lookupAt_bind fun _ hx => seq (force (Program.hasDecl_of_decl? hx) hF) (visitVariable hD d)

theorem ensure (hD : ∀ d, D d) (d : DeclId) : Follows (Write c.toTarget D F) (c.ensure d) := by
  unfold Context.ensure
  refine lookup_bind fun x _ => ?_
  exact ite (fun _ => decideMethod hD d) fun _ => decideValue hD d

theorem stripUnderlying (head : DeclareHead) (body : Body) :
    Follows (Write c.toTarget D F) (c.stripUnderlying head body) := by
  unfold Context.stripUnderlying
  split
  · refine ite (fun _ => ?_) fun _ => pure ()
    split
    · next declared type _ _ =>
      exact ite (fun h => modifyMarks fun _ => .underlying declared none
        (Program.hasType_of_exactly h)) fun _ => pure ()
    · exact pure ()
  · exact pure ()

end Decide.Follows

/-- What is noted about a declaration first does not matter for what is done about it then. -/
theorem Context.holds_of_note {c : Context} {d : DeclId} {P : Marks → Prop} {y : Decide Unit}
    {s : Decisions} (hy : ∀ s', s'.rewrites = s.rewrites → s'.pending = s.pending →
      Decide.result y s' = .ok () → P (Decide.after y s').marks)
    (h : Decide.result (do c.markErasure d; c.markRaw d; y) s = .ok ()) :
    P (Decide.after (do c.markErasure d; c.markRaw d; y) s).marks := by
  have erasure : Decide.Follows (Write c.toTarget (fun _ => False) fun _ => False) (c.markErasure d) :=
    .markErasure d
  have raw : Decide.Follows (Write c.toTarget (fun _ => False) fun _ => False) (c.markRaw d) :=
    .markRaw d
  refine Decide.holds_of_seq erasure (fun s' hr hp => ?_) h
  exact Decide.holds_of_seq raw fun s'' hr' hp' => hy s'' (hr'.trans hr) (hp'.trans hp)

end Unbox
