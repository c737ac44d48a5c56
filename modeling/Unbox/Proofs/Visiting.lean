import Mathlib.Logic.Relation
import Unbox.Proofs.Answers
import Unbox.Proofs.Bare
import Unbox.Proofs.Parts
import Unbox.Proofs.Writes
import Unbox.Run

/-!
# What a visit writes

* `Touch t forced m m'` : every write that the visit of a tree makes;
* `Quiet t forced m m'` : the touches apart from those of the rules;
* `Visitor.Quiets t F u` : a step that does nothing but quiet touches, or fails; one lemma for each
  such step of a visit;
* `View.rule_writes` : what a rule can do to the marks.
-/

namespace Unbox

/-- What may fail and did not: neither part failed. -/
theorem exists_of_bind_eq_ok {α β : Type} {x : Except Failure α} {f : α → Except Failure β} {b : β}
    (h : x >>= f = .ok b) : ∃ a, x = .ok a ∧ f a = .ok b := by
  cases x with
  | error e => cases h
  | ok a => exact ⟨a, rfl, h⟩

/-- A write of the visit of a tree. -/
abbrev Touch (t : Target) (forced : DeclId → Prop) : Marks → Marks → Prop :=
  Edit t (fun _ => False) forced False True

/-- A write of the visit of a tree that is not made by a rule. -/
abbrev Quiet (t : Target) (forced : DeclId → Prop) : Marks → Marks → Prop :=
  Edit t (fun _ => False) forced False False

namespace Visit
variable {t : Target} {F : DeclId → Prop} {s s' s'' : Visit}

/-- The variables bound by comprehensions are in the table and forced, unless there was a failure. -/
def Sound (t : Target) (F : DeclId → Prop) (s : Visit) : Prop :=
  s.failure = none → ∀ d ∈ s.bound, t.program.hasDecl d = true ∧ F d

theorem Sound.start (m : Marks) (isRecording : Bool) : Sound t F { marks := m, isRecording } :=
  fun _ _ hd => absurd hd List.not_mem_nil

/-- From `s` to `s'` the marks changed by touches only, a failure stays, and what surrounds the
current expression is the same. -/
structure Leads (t : Target) (F : DeclId → Prop) (s s' : Visit) : Prop where
  touches : Relation.ReflTransGen (Touch t F) s.marks s'.marks
  scopes : s'.scopes = s.scopes
  bound : s'.bound = s.bound
  failure : s'.failure = none → s.failure = none

theorem Leads.refl (s : Visit) : Leads t F s s := ⟨.refl, rfl, rfl, id⟩

theorem Leads.trans (h : Leads t F s s') (h' : Leads t F s' s'') : Leads t F s s'' :=
  ⟨h.touches.trans h'.touches, h'.scopes.trans h.scopes, h'.bound.trans h.bound,
    h.failure ∘ h'.failure⟩

theorem Sound.leads (hs : s.Sound t F) (h : Leads t F s s') : s'.Sound t F := by
  intro hf d hd
  rw [h.bound] at hd
  exact hs (h.failure hf) d hd

end Visit

namespace Visitor
variable {step : Visit → Except Failure Visit} {s : Visit}

theorem attempt_of_failure {e : Failure} (h : s.failure = some e) : attempt step s = ((), s) := by
  change (attempt step).run s = _
  rw [attempt, StateT.run_modify, h]
  rfl

theorem attempt_of_ok {s' : Visit} (hf : s.failure = none) (h : step s = .ok s') :
    attempt step s = ((), s') := by
  change (attempt step).run s = _
  rw [attempt, StateT.run_modify, hf, h]
  rfl

theorem attempt_of_error {e : Failure} (hf : s.failure = none) (h : step s = .error e) :
    attempt step s = ((), { s with failure := some e }) := by
  change (attempt step).run s = _
  rw [attempt, StateT.run_modify, hf, h]
  rfl

theorem exists_of_attempt (h : (attempt step s).2.failure = none) :
    s.failure = none ∧ ∃ s', step s = .ok s' := by
  cases hf : s.failure with
  | some e =>
    rw [attempt_of_failure hf, hf] at h
    cases h
  | none =>
    cases hs' : step s with
    | ok s' => exact ⟨rfl, s', rfl⟩
    | error e =>
      rw [attempt_of_error hf hs'] at h
      cases h

end Visitor

namespace Target
variable {t : Target} {s : Visit} {n : Node} {form : Form}

/-- What a declaration statement declares has to be in the table. -/
def checkAt (t : Target) (location : Location) (d : DeclId) : Visitor Unit :=
  Visitor.attempt fun s => do
    let _ ← t.program.decl d location
    return s

theorem finish_of_failure {e : Failure} (h : s.failure = some e) :
    t.finish n form s = (.mk n form, s) := by
  change (t.finish n form).run s = _
  rw [finish, StateT.run_modifyGet, h]
  rfl

theorem finish_of_error {e : Failure} (hf : s.failure = none)
    (h : t.find s.marks s.scopes n form = .error e) :
    t.finish n form s = (.mk n form, { s with failure := some e }) := by
  change (t.finish n form).run s = _
  rw [finish, StateT.run_modifyGet, hf, h]
  rfl

/-- The flags go to the expression and into the records, the marks to the state. -/
theorem finish_of_ok {found : Finding} (hf : s.failure = none)
    (h : t.find s.marks s.scopes n form = .ok found) :
    t.finish n form s = (.mk { n with flags := found.flags } form,
      { s with
        marks := found.marks
        stats := s.stats.add found.flags found.unresolved
        records :=
          if s.isRecording then s.records.push ⟨n.id, n.location, found.flags⟩
          else s.records }) := by
  change (t.finish n form).run s = _
  rw [finish, StateT.run_modifyGet, hf, h]
  rfl

/-- An expression that got its flags without a failure has those that were found. -/
theorem exists_of_finish (h : (t.finish n form s).2.failure = none) :
    s.failure = none ∧ ∃ found, t.find s.marks s.scopes n form = .ok found := by
  cases hf : s.failure with
  | some e =>
    rw [finish_of_failure hf, hf] at h
    cases h
  | none =>
    cases hfound : t.find s.marks s.scopes n form with
    | ok found => exact ⟨rfl, found, rfl⟩
    | error e =>
      rw [finish_of_error hf hfound] at h
      cases h

/-- A variable that is boxed without a failure is in the table. -/
theorem hasDecl_of_forceAt {l : Location} {d : DeclId} (h : (t.forceAt l d s).2.failure = none) :
    s.failure = none ∧ t.program.hasDecl d = true := by
  obtain ⟨hf, s', h⟩ := Visitor.exists_of_attempt h
  obtain ⟨x, hx, -⟩ := exists_of_bind_eq_ok h
  exact ⟨hf, Program.hasDecl_of_decl? (Program.decl_eq_ok_iff.mp hx)⟩

/-- By induction on the variables: a failure in between stays to the end. -/
theorem hasDecl_of_forces {l : Location} {ds : List DeclId}
    (h : (ds.forM (t.forceAt l) s).2.failure = none) :
    s.failure = none ∧ ∀ d ∈ ds, t.program.hasDecl d = true := by
  induction ds generalizing s with
  | nil => exact ⟨h, nofun⟩
  | cons d ds ih =>
    obtain ⟨hs, hds⟩ := ih h
    obtain ⟨hs, hd⟩ := hasDecl_of_forceAt hs
    exact ⟨hs, List.forall_mem_cons.mpr ⟨hd, hds⟩⟩

/-- What is looked up for an assignment to `e` is in the tables. -/
def Narrows (t : Target) (e : Expr) : Prop :=
  ∀ d ∈ e.referenced, ∃ x, t.program.decl? d = some x ∧
    (x.isSmall = true → t.checkType e.node = .ok ())

theorem narrows_of_narrow {e : Expr} (h : (t.narrow e s).2.failure = none) : t.Narrows e := by
  obtain ⟨-, s', h⟩ := Visitor.exists_of_attempt h
  intro d hd
  simp only [Option.mem_def.mp hd] at h
  obtain ⟨x, hx, h⟩ := exists_of_bind_eq_ok h
  refine ⟨x, Program.decl_eq_ok_iff.mp hx, fun hsmall => ?_⟩
  rw [if_neg (by simp [hsmall])] at h
  obtain ⟨⟨⟩, hc, -⟩ := exists_of_bind_eq_ok h
  exact hc

theorem hasType_of_checkType {a : TypeId} (h : t.checkType n = .ok ())
    (ha : n.type = some a) : t.program.hasType a = true := by
  unfold Target.checkType at h
  rw [ha] at h
  dsimp only at h
  split at h
  · next ht => exact ht
  · cases h

theorem checkType_ok (h : ∀ a ∈ n.type, t.program.hasType a = true) : t.checkType n = .ok () := by
  unfold checkType
  split
  · next a ha => rw [if_pos (h a ha)]
  · rfl

end Target

/-! ## Steps that no rule makes -/

namespace Visitor
variable {t : Target} {F : DeclId → Prop} {u : Visitor Unit}

/-- From every sound state `u` leads by quiet touches, whether it fails or not. -/
def Quiets (t : Target) (F : DeclId → Prop) (u : Visitor Unit) : Prop :=
  ∀ s, s.Sound t F → ∃ m failure, Relation.ReflTransGen (Quiet t F) s.marks m ∧
    (u s).2 = { s with marks := m, failure } ∧ (failure = none → s.failure = none)

namespace Quiets

theorem leads (h : Quiets t F u) {s : Visit} (hs : s.Sound t F) : Visit.Leads t F s (u s).2 := by
  obtain ⟨m, failure, hm, hu, hf⟩ := h s hs
  rw [hu]
  have touches : Relation.ReflTransGen (Touch t F) s.marks m :=
    Relation.ReflTransGen.mono (fun _ _ => .mono (fun _ => id) (fun _ => id) id False.elim) _ _ hm
  exact ⟨touches, rfl, rfl, hf⟩

/-- A step that may fail; a failure changes no mark. -/
theorem attempt {step : Visit → Except Failure Visit} (h : ∀ s s', s.failure = none →
    s.Sound t F → step s = .ok s' →
    ∃ m, Relation.ReflTransGen (Quiet t F) s.marks m ∧ s' = { s with marks := m }) :
    Quiets t F (attempt step) := by
  intro s hs
  cases hf : s.failure with
  | some e => exact ⟨s.marks, some e, .refl, by rw [attempt_of_failure hf, ← hf], nofun⟩
  | none =>
    cases hs' : step s with
    | ok s' =>
      obtain ⟨m, hm, rfl⟩ := h s s' hf hs hs'
      exact ⟨m, none, hm, by rw [attempt_of_ok hf hs', ← hf], id⟩
    | error e => exact ⟨s.marks, some e, .refl, by rw [attempt_of_error hf hs'], nofun⟩

theorem forceAt (l : Location) {d : DeclId} (hd : F d) : Quiets t F (t.forceAt l d) := by
  refine attempt fun s s' _ _ h => ?_
  obtain ⟨x, hx, h⟩ := exists_of_bind_eq_ok h
  cases h
  have hd' := Program.hasDecl_of_decl? (Program.decl_eq_ok_iff.mp hx)
  exact ⟨_, .single (.force d hd' hd), rfl⟩

/-- The variables of an iteration or of conditions are boxed, by induction on the variables. -/
theorem forces (l : Location) {ds : List DeclId} (hF : ∀ d ∈ ds, F d) :
    Quiets t F (ds.forM (t.forceAt l)) := by
  induction ds with
  | nil => exact fun s _ => ⟨s.marks, s.failure, .refl, rfl, id⟩
  | cons d ds ih =>
    intro s hs
    have hd : Quiets t F (t.forceAt l d) := forceAt l (hF d List.mem_cons_self)
    obtain ⟨m, failure, hm, hu, hf⟩ := hd s hs
    obtain ⟨m', failure', hm', hu', hf'⟩ :=
      ih (fun e he => hF e (List.mem_cons_of_mem d he)) _ (hs.leads (hd.leads hs))
    rw [hu] at hm' hu' hf'
    refine ⟨m', failure', hm.trans hm', ?_, hf ∘ hf'⟩
    change (ds.forM (t.forceAt l) (t.forceAt l d s).2).2 = _
    rw [hu, hu']

theorem boxReceiver (result : Expr) : Quiets t F (boxReceiver result) := by
  refine attempt fun s s' hf hs h => ?_
  split at h
  · next d _ _ _ _ _ =>
    split at h
    · next hd =>
      cases h
      obtain ⟨hd, hF⟩ := hs hf d (List.contains_iff_mem.mp hd)
      exact ⟨_, .single (.force d hd hF), rfl⟩
    · cases h
      exact ⟨s.marks, .refl, rfl⟩
  · cases h
    exact ⟨s.marks, .refl, rfl⟩

theorem narrow (target : Expr) : Quiets t F (t.narrow target) := by
  refine attempt fun s s' _ _ h => ?_
  cases hd : target.referenced with
  | none =>
    simp only [hd] at h
    cases h
    exact ⟨s.marks, .refl, rfl⟩
  | some d =>
    simp only [hd] at h
    obtain ⟨x, -, h⟩ := exists_of_bind_eq_ok h
    split at h
    · cases h
      exact ⟨s.marks, .refl, rfl⟩
    · obtain ⟨⟨⟩, hc, h⟩ := exists_of_bind_eq_ok h
      split at h
      · next a ha =>
        cases h
        exact ⟨_, .single (.underlying a _ (Target.hasType_of_checkType hc ha)), rfl⟩
      · cases h
        exact ⟨s.marks, .refl, rfl⟩

theorem checkAt (l : Location) (d : DeclId) : Quiets t F (t.checkAt l d) := by
  refine attempt fun s s' _ _ h => ?_
  obtain ⟨x, -, h⟩ := exists_of_bind_eq_ok h
  cases h
  exact ⟨s.marks, .refl, rfl⟩

end Quiets

/-- Whatever the state is, `u` brings no failure. -/
def Passes (u : Visitor Unit) : Prop := ∀ s : Visit, s.failure = none → (u s).2.failure = none

namespace Passes

theorem attempt {step : Visit → Except Failure Visit}
    (h : ∀ s, s.failure = none → ∃ s', step s = .ok s' ∧ s'.failure = none) :
    Passes (attempt step) := by
  intro s hf
  obtain ⟨s', hs', hf'⟩ := h s hf
  rwa [attempt_of_ok hf hs']

theorem forceAt (l : Location) {d : DeclId} (hd : t.program.hasDecl d = true) :
    Passes (t.forceAt l d) := by
  obtain ⟨x, hx⟩ := Program.exists_decl? hd
  refine attempt fun s hf => ?_
  rw [Program.decl_eq_ok_iff.mpr hx]
  exact ⟨_, rfl, hf⟩

theorem forces (l : Location) {ds : List DeclId} (hds : ∀ d ∈ ds, t.program.hasDecl d = true) :
    Passes (ds.forM (t.forceAt l)) := by
  induction ds with
  | nil => exact fun _ => id
  | cons d ds ih =>
    intro s hf
    have hd : Passes (t.forceAt l d) := forceAt l (hds d List.mem_cons_self)
    exact ih (fun e he => hds e (List.mem_cons_of_mem d he)) _ (hd s hf)

theorem boxReceiver (e : Expr) : Passes (boxReceiver e) := by
  refine attempt fun s hf => ?_
  split
  · split <;> exact ⟨_, rfl, hf⟩
  · exact ⟨_, rfl, hf⟩

theorem narrow {e : Expr} (h : t.Narrows e) : Passes (t.narrow e) := by
  refine attempt fun s hf => ?_
  cases hd : e.referenced with
  | none => exact ⟨s, rfl, hf⟩
  | some d =>
    obtain ⟨x, hx, hsmall⟩ := h d hd
    simp only [Program.decl_eq_ok_iff.mpr hx, bind, Except.bind]
    cases hs : x.isSmall with
    | false => exact ⟨s, rfl, hf⟩
    | true =>
      rw [hsmall hs]
      cases e.type with
      | none => exact ⟨s, rfl, hf⟩
      | some a => exact ⟨_, rfl, hf⟩

theorem checkAt (l : Location) {d : DeclId} (hd : t.program.hasDecl d = true) :
    Passes (t.checkAt l d) := by
  obtain ⟨x, hx⟩ := Program.exists_decl? hd
  refine attempt fun s hf => ?_
  rw [Program.decl_eq_ok_iff.mpr hx]
  exact ⟨s, rfl, hf⟩

end Passes

end Visitor

/-! ## The rules -/

namespace View
variable {v : View}

theorem mentionsForeignErased_inquiry (a : TypeId) :
    Inquiry (v.policy.erasesToObject v.program) v.program (v.mentionsForeignErased a) := by
  refine .anyNested (fun a => ?_) a
  unfold isForeignErased
  split
  · next d _ =>
    split
    · exact .pure false
    · exact .bind (.keepsBound d) fun _ => .pure _
  · exact .pure false

/-- What the rule of an expression can do to the marks. -/
inductive Writes (v : View) (n : Node) (form : Form) : Marks → Prop where
  | nothing : v.Writes n form v.marks
  /-- The type of a type literal becomes raw. -/
  | raw {a target : TypeId} (hform : form = .typeLiteral (.type target)) (ha : n.type = some a) :
    v.Writes n form (v.marks.setRaw a true)
  | bounds {question : StateM BoundMarks Bool} (hr : v.program.Recalls question)
    (hs : Steady v.policy v.program question) :
    v.Writes n form { v.marks with bounds := (question v.marks.bounds).2 }

section
variable {n : Node} {form : Form} {found : Finding}

theorem memberFinding_writes {l : Location} {primary : Expr} {d : DeclId} {op : MemberOperator}
    (h : v.memberFinding l primary d op = .ok found) : v.Writes n form found.marks := by
  obtain ⟨x, -, h⟩ := exists_of_bind_eq_ok h
  cases op with
  | plain | spread =>
    cases h
    exact .nothing
  | safe =>
    cases h
    cases x.type with
    | some a =>
      have foreign := mentionsForeignErased_inquiry (v := v) a
      exact .bounds foreign.recalls foreign.steady
    | none => exact .nothing

theorem indexFinding_writes {l : Location} {primary : Expr} {name : String}
    (h : v.indexFinding l primary name = .ok found) : v.Writes n form found.marks := by
  unfold indexFinding at h
  split at h
  · cases h
    exact .nothing
  · obtain ⟨x, -, h⟩ := exists_of_bind_eq_ok h
    cases h
    exact .nothing

theorem rule_writes (h : v.rule n form = .ok found) : v.Writes n form found.marks := by
  cases form with
  | typeLiteral target =>
    cases target with
    | declaration d =>
      cases h
      exact .nothing
    | type a =>
      cases h
      cases ha : n.type with
      | none => exact .nothing
      | some a => exact .raw rfl ha
  | member primary d op ts =>
    cases d with
    | some d => exact memberFinding_writes h
    | none =>
      cases h
      exact .nothing
  | element primary i | span primary first last => exact indexFinding_writes h
  | base d ts =>
    cases d with
    | some d =>
      obtain ⟨flags, -, h⟩ := exists_of_bind_eq_ok h
      cases h
      exact .nothing
    | none =>
      cases h
      exact .nothing
  | call primary es | callNamed primary as =>
    obtain ⟨flags, -, h⟩ := exists_of_bind_eq_ok h
    cases h
    exact .nothing
  | _ =>
    cases h
    exact .nothing

end

end View

namespace Target
variable {t : Target} {F : DeclId → Prop}

/-- What is found touches the marks once at most. -/
theorem find_touches {m : Marks} {scopes : List DeclId} {n : Node} {form : Form} {found : Finding}
    (h : t.find m scopes n form = .ok found) : found.marks = m ∨ Touch t F m found.marks := by
  obtain ⟨⟨⟩, hc, h⟩ := exists_of_bind_eq_ok h
  have hw := View.rule_writes h
  generalize found.marks = m' at hw ⊢
  cases hw with
  | nothing => exact .inl rfl
  | raw _ ha => exact .inr (.raw _ (hasType_of_checkType hc ha) trivial)
  | bounds hr _ => exact .inr (.bounds _ (hr m.bounds) trivial)

theorem exists_finish_eq (n : Node) (form : Form) (s : Visit) :
    ∃ flags, (t.finish n form s).1 = .mk { n with flags } form := by
  cases hf : s.failure with
  | some e => exact ⟨n.flags, congrArg Prod.fst (finish_of_failure hf)⟩
  | none =>
    cases hfound : t.find s.marks s.scopes n form with
    | error e => exact ⟨n.flags, congrArg Prod.fst (finish_of_error hf hfound)⟩
    | ok found => exact ⟨found.flags, congrArg Prod.fst (finish_of_ok hf hfound)⟩

theorem finish_bare (n : Node) (form : Form) (s : Visit) :
    Bare.expr (t.finish n form s).1 = Bare.expr (.mk n form) := by
  obtain ⟨flags, h⟩ := exists_finish_eq (t := t) n form s
  rw [h]
  rfl

theorem finish_leads (n : Node) (form : Form) (s : Visit) :
    Visit.Leads t F s (t.finish n form s).2 := by
  cases hf : s.failure with
  | some e =>
    rw [finish_of_failure hf]
    exact .refl s
  | none =>
    cases hfound : t.find s.marks s.scopes n form with
    | error e =>
      rw [finish_of_error hf hfound]
      exact ⟨.refl, rfl, rfl, nofun⟩
    | ok found =>
      rw [finish_of_ok hf hfound]
      refine ⟨?_, rfl, rfl, id⟩
      rcases find_touches hfound with h | h
      · rw [h]
      · exact .single h

end Target

end Unbox
