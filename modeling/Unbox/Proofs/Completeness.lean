import Mathlib.Logic.Relation
import Unbox.Proofs.Justification
import Unbox.Proofs.Trails

/-!
# All that a unit introduces is decided

* `SourceUnit.introduced` : the declarations that a unit introduces, at any depth;
* `Context.DependsOn r d z` : links lead from `d` to `z`, under the rewrites `r`;
* `Context.Grounded r` : every declaration has a type, none depends on itself, and what is or becomes
  a method has a method for its topmost declaration;
* `Context.acts_of_introduced` : whatever a part introduces, one of its acts decides it;
* `Context.decided_of_act` : an act that succeeds has decided what it decides;
* `Context.decideUnit_complete` : so a unit that does not fail leaves nothing undecided.
-/

namespace Unbox

/-! ## What is introduced -/

namespace Part

/-- What a part introduces, leaving out what stands in it: declared values and methods, the parameter
of a declared setter, parameters, the variables of conditions, bindings and iterations, function
literals and named arguments. -/
def introduced (p : Program) : Part → List DeclId
  | .expr (.mk _ (.function literal _ _)) => literal.toList
  | .argument (.attribute d _) | .argument (.method d _ _) => [d]
  | .condition k => k.variable?.toList
  | .binding (.mk d _) => [d]
  | .clause (.forIn pattern _ _) | .stmt (.forIn pattern _ _ _) => pattern.variables
  | .parameter q => [q.declaration]
  | .stmt (.declare head _ _) =>
    match (p.decl? head.declaration).map Declaration.kind with
    | some .value | some (.method _) => [head.declaration]
    | some (.setter written) => [written]
    | _ => []
  | _ => []

end Part

/-- What the unit introduces, at any depth. -/
def SourceUnit.introduced (u : SourceUnit) (p : Program) : List DeclId :=
  u.parts.flatMap (Part.introduced p)

/-- What is a method, or becomes one. -/
def Context.takenAsMethod (c : Context) (d : DeclId) : Bool :=
  (c.program.decl? d).any Declaration.isMethod || c.policy.createsMethod c.program d

/-- The standard policy makes methods of nothing else. -/
theorem Context.isMethod_of_takenAsMethod {c : Context} {d : DeclId} (hc : c.policy = .standard)
    (h : c.takenAsMethod d = true) : (c.program.decl? d).any Declaration.isMethod = true := by
  rw [takenAsMethod, hc] at h
  rcases Bool.or_eq_true_iff.mp h with h | h
  · exact h
  · obtain ⟨x, hx, h⟩ := (Option.any_eq_true _ _).mp h
    simp only [Declaration.isFunctionalParameter, Bool.and_eq_true] at h
    rw [hx]
    exact h.1.1.1

/-- The act decides `d` if it succeeds. -/
def Act.Decides (c : Context) (d : DeclId) : Act → Prop
  | .force _ e | .literal _ e | .iterated _ e | .variable_ e | .value e | .decide e => e = d
  | .method e => e = d ∧ c.takenAsMethod d = true
  | _ => False

namespace Context
open Decide Relation
variable (c : Context)

/-- Whatever a part introduces, one of its acts decides it. -/
theorem acts_of_introduced {q : Part} {d : DeclId} (h : d ∈ q.introduced c.program) :
    ∃ a ∈ q.acts c, a.Decides c d := by
  cases q with
  | expr e =>
    obtain ⟨n, form⟩ := e
    cases form with
    | function literal lists body =>
      exact ⟨.literal n.location d, List.mem_map_of_mem h, rfl⟩
    | _ => cases h
  | argument a =>
    cases a with
    | specified | sequenced => cases h
    | method e lists body =>
      obtain rfl := List.mem_singleton.mp h
      exact ⟨.literal .unknown d, by simp [Part.acts], rfl⟩
    | _ =>
      obtain rfl := List.mem_singleton.mp h
      exact ⟨.decide d, by simp [Part.acts], rfl⟩
  | condition k =>
    obtain ⟨test, e⟩ := k
    exact ⟨.variable_ d, List.mem_map_of_mem h, rfl⟩
  | binding b =>
    obtain ⟨e, value⟩ := b
    obtain rfl := List.mem_singleton.mp h
    exact ⟨.variable_ d, by simp [Part.acts], rfl⟩
  | clause k =>
    cases k with
    | forIn pattern e next => exact ⟨.iterated e.location d, List.mem_map_of_mem h, rfl⟩
    | _ => cases h
  | parameter q =>
    obtain rfl := List.mem_singleton.mp h
    cases q with
    | value e initial => exact ⟨.value e, by simp [Part.acts], rfl⟩
    | functional e initial lists =>
      cases hm : c.policy.createsMethod c.program e with
      | true => exact ⟨.method e, by simp [Part.acts, hm], rfl, Bool.or_eq_true_iff.mpr (.inr hm)⟩
      | false => exact ⟨.value e, by simp [Part.acts, hm], rfl⟩
  | stmt s =>
    cases s with
    | declare head lists body =>
      simp only [Part.introduced, Part.acts, Target.declaredActs, List.mem_append] at h ⊢
      cases hx : c.program.decl? head.declaration with
      | none => simp [hx] at h
      | some x =>
        simp only [hx, Option.map_some] at h ⊢
        cases hk : x.kind with
        | value =>
          simp only [hk] at h ⊢
          obtain rfl := List.mem_singleton.mp h
          exact ⟨.value head.declaration, by simp, rfl⟩
        | method shape =>
          simp only [hk] at h ⊢
          obtain rfl := List.mem_singleton.mp h
          refine ⟨.method head.declaration, by simp, rfl, ?_⟩
          simp [takenAsMethod, hx, Declaration.isMethod, hk]
        | setter parameter =>
          simp only [hk] at h ⊢
          obtain rfl := List.mem_singleton.mp h
          exact ⟨.decide d, by simp, rfl⟩
        | _ => simp [hk] at h
    | forIn pattern e body otherwise => exact ⟨.iterated e.location d, List.mem_map_of_mem h, rfl⟩
    | _ => cases h

/-! ## Chains of links -/

/-- `d` is decided as `z` is, given the topmost declaration `e` of `d`. -/
def Goes (r : Rewrites) (e d z : DeclId) : Prop :=
  ∃ x, c.program.decl? d = some x ∧ c.isCallable d x = false ∧ c.link? r e d x = some z

/-- Links lead from `d` to `z`. Only the first of them may go to a topmost declaration: what is
reached by a link counts as its own. -/
def DependsOn (r : Rewrites) (d z : DeclId) : Prop :=
  ∃ e y, (e = c.topUnder r d ∨ e = d) ∧ c.Goes r e d y ∧
    ReflTransGen (fun a b => c.Goes r a a b) y z

/-- Every declaration has a type, none depends on itself, and what is or becomes a method has a
method for its topmost declaration. -/
structure Grounded (r : Rewrites) : Prop where
  typed : ∀ d x, c.program.decl? d = some x → x.type ≠ none
  acyclic : ∀ d, ¬ c.DependsOn r d d
  methods : ∀ d, c.takenAsMethod d = true →
    (c.program.decl? (c.topUnder r d)).any Declaration.isMethod = true

variable {c} {r : Rewrites} {d e : DeclId}

/-- The trail of a grounded declaration ends with a decision. By induction on the trail: all that was
seen depends on the declaration that it has come to. -/
theorem Grounded.decides (hg : c.Grounded r) {m : Marks} {seen passed : List DeclId}
    {v : Option Bool} (h : c.Trail r m seen e d passed v) (he : e = c.topUnder r d ∨ e = d)
    (hseen : ∀ y ∈ seen, e = d ∧ c.DependsOn r y d) : v ≠ none := by
  induction h with
  | again hs => exact absurd (hseen _ hs).2 (hg.acyclic _)
  | decided | callable | own => simp
  | untyped _ _ hx ht => exact absurd ht (hg.typed _ _ hx)
  | @step seen e d z x _ _ _ _ _ hx _ hc hl _ ih =>
    have hgoes : c.Goes r e d z := ⟨x, hx, hc, hl⟩
    refine ih (.inr rfl) (List.forall_mem_cons.mpr ⟨⟨rfl, e, z, he, hgoes, .refl⟩, fun y hy => ?_⟩)
    obtain ⟨rfl, e', y', he', hy', hd⟩ := hseen y hy
    exact ⟨rfl, e', y', he', hy', hd.tail hgoes⟩

/-! ## Acts -/

section Acts
variable {s : Decisions}

theorem decided_of_settle (hg : c.Grounded s.rewrites) (hp : s.pending = [])
    (he : e = c.topUnder s.rewrites d ∨ e = d) (h : result (c.settle d e) s = .ok ()) :
    (after (c.settle d e) s).marks.unboxed d ≠ none := by
  obtain ⟨passed, v, htrail, harrives⟩ := exists_trail_of_settle hp h
  rw [harrives.unboxed_eq htrail (.nil s.marks)]
  exact hg.decides htrail he (List.forall_mem_nil _)

theorem decided_of_decideValue (hg : c.Grounded s.rewrites) (hp : s.pending = [])
    (h : result (c.decideValue d) s = .ok ()) :
    (after (c.decideValue d) s).marks.unboxed d ≠ none := by
  rw [decideValue, result_topmost_bind] at h
  rw [decideValue, after_topmost_bind]
  exact decided_of_settle hg hp (.inl rfl) h

/-- A method without a name is boxed, any other one is settled. -/
theorem decided_of_decideMethod (hg : c.Grounded s.rewrites) (hp : s.pending = [])
    (hd : c.takenAsMethod d = true) (h : result (c.decideMethod d) s = .ok ()) :
    (after (c.decideMethod d) s).marks.unboxed d ≠ none := by
  obtain ⟨hresult, hafter⟩ := decideMethod_run (hg.methods d hd)
  rw [hresult] at h
  rw [hafter]
  unfold settleNamed at h ⊢
  obtain ⟨x, hx⟩ := decl?_of_lookup_bind h
  rw [lookup_bind_of_decl? hx] at h ⊢
  split at h
  · next hn =>
    rw [if_pos hn]
    exact decided_of_settle hg hp (.inl rfl) h
  · next hn =>
    rw [if_neg hn, after_modifyMarks, Decisions.record, Marks.unboxed_setUnboxed, if_pos rfl]
    simp

theorem decided_of_act {a : Act} (ha : a.Decides c d) (hg : c.Grounded s.rewrites)
    (hp : s.pending = []) (h : result (a.run c) s = .ok ()) :
    (after (a.run c) s).marks.unboxed d ≠ none := by
  cases a with
  | force l e | literal l e | iterated l e =>
    obtain rfl : e = d := ha
    rw [c.boxed_of_act (List.mem_singleton_self e) h]
    simp
  | variable_ e =>
    obtain rfl : e = d := ha
    have count : Follows (Write c.toTarget ⊥ ⊥) countVisit := .count _
    refine holds_of_seq (P := fun m => m.unboxed e ≠ none) count (fun s' hr hp' => ?_) h
    refine holds_of_note (P := fun m => m.unboxed e ≠ none) fun s'' hr' hp'' => ?_
    exact decided_of_settle (hr'.trans hr ▸ hg) ((hp''.trans hp').trans hp) (.inr rfl)
  | value e =>
    obtain rfl : e = d := ha
    refine holds_of_note (P := fun m => m.unboxed e ≠ none) (fun s' hr hp' => ?_) h
    exact decided_of_decideValue (hr ▸ hg) (hp'.trans hp)
  | method e =>
    obtain ⟨rfl, hm⟩ := ha
    refine holds_of_note (P := fun m => m.unboxed e ≠ none) (fun s' hr hp' => ?_) h
    exact decided_of_decideMethod (hr ▸ hg) (hp'.trans hp) hm
  | decide e =>
    obtain rfl : e = d := ha
    exact decided_of_decideValue hg hp h
  | _ => cases ha

theorem decided_of_step {st : Step} (ha : st.act.Decides c d) (hg : c.Grounded ⟨st.standing⟩)
    (hr : s.rewrites = {}) (hp : s.pending = []) (h : result (st.run c) s = .ok ()) :
    (after (st.run c) s).marks.unboxed d ≠ none := by
  rw [Step.run, result_between] at h
  rw [Step.run, after_between]
  refine decided_of_act ha ?_ hp h
  rw [hr, List.append_nil]
  exact hg

end Acts

/-- If under all rewrites of the unit every declaration has a type, no chain of links comes back to
where it started, and no method has another kind of topmost declaration, then a unit that does not
fail decides everything that it introduces. -/
theorem decideUnit_complete {u : SourceUnit} {m : Marks} (hg : ∀ r, c.Stack u r → c.Grounded r)
    (h : result (c.decideUnit u) { marks := m } = .ok ()) {d : DeclId}
    (hd : d ∈ u.introduced c.program) :
    (after (c.decideUnit u) { marks := m }).marks.unboxed d ≠ none := by
  obtain ⟨q, hq, hd⟩ := List.mem_flatMap.mp hd
  obtain ⟨a, ha, hdecides⟩ := c.acts_of_introduced hd
  obtain ⟨st, hst, rfl⟩ := ((c.itinerary_covers u).acts a).mpr ⟨q, hq, ha⟩
  rw [decideUnit_eq] at h ⊢
  refine holds_of_forM (P := fun m => m.unboxed d ≠ none) (fun _ _ => Write.stays_decided)
    (fun st hst => Follows.itinerary (u := u) hst) hst (fun s hr hp hs => ?_) h
  exact decided_of_step hdecides (hg _ ⟨st, hst, rfl⟩) hr hp hs

/-! ## Links to earlier declarations -/

/-- Where a link from `d` may go. -/
def links (c : Context) (r : Rewrites) (d : DeclId) : List DeclId :=
  (c.program.decl? d).toList.flatMap fun x =>
    (c.link? r (c.topUnder r d) d x).toList ++ (c.link? r d d x).toList

theorem not_dependsOn_of_links
    (h : ∀ i < c.program.decls.size, ∀ z ∈ c.links r ⟨i⟩, z.index < i) (d : DeclId) :
    ¬ c.DependsOn r d d := by
  have earlier {e d z : DeclId} (he : e = c.topUnder r d ∨ e = d) (hz : c.Goes r e d z) :
      z.index < d.index := by
    obtain ⟨x, hx, -, hl⟩ := hz
    have hsize : d.index < c.program.decls.size := of_decide_eq_true (Program.hasDecl_of_decl? hx)
    refine h d.index hsize z ?_
    unfold links
    rw [hx]
    rcases he with rfl | rfl <;> simp [hl]
  rintro ⟨e, y, he, hy, hd⟩
  have hle : d.index ≤ y.index := by
    clear he hy
    induction hd with
    | refl => exact Nat.le_refl _
    | tail _ hz ih => exact Nat.le_trans (Nat.le_of_lt (earlier (.inr rfl) hz)) ih
  exact absurd (earlier he hy) (Nat.not_lt.mpr hle)

/-- The program of the specification with a type for every declaration. -/
def specifiedTyped : Context where
  program := { Program.specified with
    decls := Program.specified.decls.map fun x => { x with type := some ⟨0⟩ } }
  policy := .standard
  limit := 8

/-- The literal (4) and its parameter (5) are decided, the parameter while it stands for that of the
method. -/
theorem decideUnit_complete_specification :
    let u : SourceUnit := .specification
    let decided := (after (specifiedTyped.decideUnit u) { marks := {} }).marks
    (∀ r, specifiedTyped.Stack u r → specifiedTyped.Grounded r) ∧
      u.introduced specifiedTyped.program = [⟨4⟩, ⟨5⟩] ∧
      decided.unboxed ⟨4⟩ ≠ none ∧ decided.unboxed ⟨5⟩ ≠ none := by
  intro u decided
  have typed : ∀ x ∈ specifiedTyped.program.decls, x.type ≠ none := by decide +kernel
  have grounded (r : Rewrites) (hr : r = ⟨[]⟩ ∨ r = ⟨[(⟨4⟩, ⟨2⟩)]⟩) : specifiedTyped.Grounded r := by
    refine ⟨fun d x hx => typed x (Array.mem_of_getElem? hx), not_dependsOn_of_links ?_, ?_⟩
    · rcases hr with rfl | rfl <;> decide +kernel
    · intro d hd
      have hd := isMethod_of_takenAsMethod rfl hd
      obtain ⟨x, hx, -⟩ := (Option.any_eq_true _ _).mp hd
      have hsize : d.index < specifiedTyped.program.decls.size :=
        of_decide_eq_true (Program.hasDecl_of_decl? hx)
      have methods : ∀ i < specifiedTyped.program.decls.size,
          (specifiedTyped.program.decl? ⟨i⟩).any Declaration.isMethod = true →
            (specifiedTyped.program.decl? (specifiedTyped.topUnder r ⟨i⟩)).any
              Declaration.isMethod = true := by
        rcases hr with rfl | rfl <;> decide +kernel
      exact methods d.index hsize hd
  have hg (r : Rewrites) (hr : specifiedTyped.Stack u r) : specifiedTyped.Grounded r := by
    have standing : ∀ st ∈ specifiedTyped.itinerary u,
        st.standing = [] ∨ st.standing = [(⟨4⟩, ⟨2⟩)] := by decide +kernel
    obtain ⟨st, hst, rfl⟩ := hr
    refine grounded _ ((standing st hst).imp ?_ ?_) <;> exact congrArg Rewrites.mk
  have hok : result (specifiedTyped.decideUnit u) { marks := {} } = .ok () := by decide +kernel
  exact ⟨hg, rfl, decideUnit_complete hg hok (by decide), decideUnit_complete hg hok (by decide)⟩

end Context

end Unbox
