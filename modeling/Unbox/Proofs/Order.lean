import Mathlib.Data.List.Nodup
import Mathlib.Data.List.Perm.Subperm
import Mathlib.Logic.Relation
import Unbox.Policy.Standard
import Unbox.Proofs.Grounds
import Unbox.Proofs.Limits

/-!
# Decisions do not depend on the order of the requests

A request decides a declaration outside of any tree, and on the way whatever that decision rests on.

* `Context.groundOf` : what the decision for a requested declaration rests on;
* `Context.RestsOn m d s` : `d` is undecided in `m` and decided as `s` is;
* `Context.ComesTo m d b` : the grounds lead from `d` to the decision `b`;
* `Context.Reflects m ds s` : in `s` exactly that is decided which was decided in `m`, or which the
  requests `ds` lead to and which comes to a decision; the order of `ds` does not matter;
* `Context.reflects_settleWithin` : one more declaration is settled, and never for want of fuel not;
* `Context.ensure_order_independent` : all orders of the same requests end with the same decisions.
-/

namespace Unbox

namespace Context
open Decide Relation
variable (c : Context)

/-- The topmost declaration of `d` where no literal stands for a method. -/
def top (d : DeclId) : DeclId := c.program.topmost c.policy c.limit {} d

/-- What the decision for a requested declaration rests on. A method whose topmost declaration is no
method stays undecided, as does what has no type. -/
def groundOf (b : BoundMarks) (d : DeclId) : Option Ground := do
  let x ← c.program.decl? d
  if x.isMethod && !(c.program.decl? (c.top d)).any Declaration.isMethod then none
  else if x.isMethod && x.name.isNone then some (.own false)
  else x.type.map fun type => c.ground {} b d (c.source d (c.top d) x) x type

/-- A declaration that the decision of another one is taken from: its topmost declaration, the one
that a class parameter stands for, or the counterpart of a parameter of a functional parameter. -/
inductive Source : DeclId → Prop where
  | topmost {d : DeclId} (h : c.top d ≠ d) : Source (c.top d)
  | classParameter {d s : DeclId} (h : c.top d = d) (hs : c.program.StandsFor d s) : Source s
  | counterpart {d function : DeclId} {x : Declaration} (h : c.top d = d)
    (hx : c.program.decl? d = some x) (hp : x.isValueParameter = true)
    (hn : c.isNested x = true) (hf : x.scope.declaration? = some function)
    (hm : c.policy.createsMethod c.program function = true) (hr : c.top function ≠ function) :
    Source ((c.positionalCounterpart function (c.top function) d).getD (c.top function))

/-- Each source is its own topmost declaration and no method without a name. -/
def SourcesStand : Prop :=
  ∀ s, c.Source s → c.top s = s ∧
    (c.program.decl? s).any (fun x => x.isMethod && x.name.isNone) = false

/-- `d` is undecided in `m` and decided as `s` is. -/
def RestsOn (m : Marks) (d s : DeclId) : Prop :=
  m.unboxed d = none ∧ c.groundOf m.bounds d = some (.other s)

/-- The grounds lead from `d` to the decision `b`. -/
inductive ComesTo (m : Marks) : DeclId → Bool → Prop where
  | decided {d : DeclId} {b : Bool} (h : m.unboxed d = some b) : ComesTo m d b
  | own {d : DeclId} {b : Bool} (h : m.unboxed d = none)
    (hg : c.groundOf m.bounds d = some (.own b)) : ComesTo m d b
  | other {d s : DeclId} {b : Bool} (h : c.RestsOn m d s) (hs : ComesTo m s b) : ComesTo m d b

/-- The requests `ds` lead to `x`. -/
def Requested (m : Marks) (ds : List DeclId) (x : DeclId) : Prop :=
  ∃ d ∈ ds, ReflTransGen (c.RestsOn m) d x

/-- The decisions after the requests `ds`, in whatever order. -/
structure Reflects (m : Marks) (ds : List DeclId) (s : Decisions) : Prop where
  unboxed : ∀ x b, s.marks.unboxed x = some b ↔
    c.ComesTo m x b ∧ (m.unboxed x = some b ∨ c.Requested m ds x)
  answers : SameAnswers c.policy c.program m.bounds s.marks.bounds
  rewrites : s.rewrites = {}

variable {c} {m : Marks} {d e z : DeclId} {b b' : Bool} {ds : List DeclId} {s s' : Decisions}

/-! ## Grounds -/

/-- What is taken from another declaration is taken from a source. -/
theorem source_of_groundOf {bounds : BoundMarks} (h : c.groundOf bounds d = some (.other z)) :
    c.Source z := by
  unfold groundOf at h
  obtain ⟨x, hx, h⟩ := Option.bind_eq_some_iff.mp h
  split at h
  · cases h
  split at h
  · cases h
  obtain ⟨type, -, h⟩ := Option.map_eq_some_iff.mp h
  unfold ground at h
  split at h
  · cases h
  split at h
  · next hne =>
    obtain rfl := Ground.other.inj h
    by_cases ht : c.top d = d
    · rcases source_cases (e := c.top d) hx with hs | hs
      · exact absurd (hs.trans ht) hne
      · exact .classParameter ht hs
    · rw [source_of_ne ht]
      exact .topmost ht
  · next hs =>
    have ht : c.top d = d := by
      by_contra hne
      exact hs (by rwa [source_of_ne hne])
    unfold ownGround at h
    dsimp only at h
    split at h
    · cases h
    split at h
    · cases h
    split at h
    · next hp =>
      rw [Bool.and_eq_true] at hp
      cases hf : x.scope.declaration? with
      | none =>
        rw [hf] at h
        cases h
      | some f =>
        rw [hf, Option.elim_some] at h
        split at h
        · next hm =>
          unfold nestedGround at h
          dsimp only at h
          split at h
          · cases h
          · next hr =>
            obtain rfl := Ground.other.inj h
            exact .counterpart ht hx hp.1 hp.2 hf hm hr
        · cases h
    · cases h

/-- A declaration that is settled rests on the ground that its type gives. -/
theorem groundOf_of_settled {x : Declaration} (bounds : BoundMarks) (hx : c.program.decl? d = some x)
    (hm : x.isMethod = true → (c.program.decl? (c.top d)).any Declaration.isMethod = true ∧
      x.name.isSome = true) :
    c.groundOf bounds d =
      x.type.map fun type => c.ground {} bounds d (c.source d (c.top d) x) x type := by
  have bind_some (f : Declaration → Option Ground) : (some x >>= f) = f x := rfl
  unfold groundOf
  rw [hx, bind_some]
  cases h : x.isMethod with
  | false => rfl
  | true =>
    obtain ⟨ht, hn⟩ := hm h
    rw [ht, Option.isNone_eq_false_iff.mpr hn]
    rfl

/-! ## Where the grounds lead -/

theorem ComesTo.of_restsOn (h : c.RestsOn m d z) (hd : c.ComesTo m d b) : c.ComesTo m z b := by
  cases hd with
  | decided hb => cases h.1.symm.trans hb
  | own _ hg => cases h.2.symm.trans hg
  | other h' hs =>
    cases h.2.symm.trans h'.2
    exact hs

theorem ComesTo.unique (h : c.ComesTo m d b) (h' : c.ComesTo m d b') : b = b' := by
  induction h with
  | decided hb =>
    cases h' with
    | decided hb' => exact Option.some.inj (hb.symm.trans hb')
    | own hn _ => cases hn.symm.trans hb
    | other hr _ => cases hr.1.symm.trans hb
  | own hn hg =>
    cases h' with
    | decided hb' => cases hn.symm.trans hb'
    | own _ hg' =>
      cases hg.symm.trans hg'
      rfl
    | other hr _ => cases hg.symm.trans hr.2
  | other hr _ ih => exact ih (h'.of_restsOn hr)

theorem comesTo_iff_of_reaches (h : ReflTransGen (c.RestsOn m) d e) :
    c.ComesTo m d b ↔ c.ComesTo m e b := by
  induction h with
  | refl => rfl
  | tail _ hr ih => exact ih.trans ⟨fun h => h.of_restsOn hr, .other hr⟩

/-- What depends on itself comes to no decision. -/
theorem ComesTo.not_cyclic (h : c.ComesTo m d b) : ¬ TransGen (c.RestsOn m) d d := by
  induction h with
  | decided hb =>
    intro hc
    obtain ⟨z, hz, -⟩ := TransGen.head'_iff.mp hc
    cases hz.1.symm.trans hb
  | own _ hg =>
    intro hc
    obtain ⟨z, hz, -⟩ := TransGen.head'_iff.mp hc
    cases hz.2.symm.trans hg
  | @other d z _ hr _ ih =>
    intro hc
    obtain ⟨z', hz, hc⟩ := TransGen.head'_iff.mp hc
    cases hr.2.symm.trans hz.2
    exact ih (TransGen.tail' hc hr)

/-- A request for which what it rests on is requested too leads to nothing new but itself. -/
theorem requested_cons_iff (h : ∀ z, c.RestsOn m d z → z ∈ ds) (x : DeclId) :
    c.Requested m (d :: ds) x ↔ x = d ∨ c.Requested m ds x := by
  constructor
  · rintro ⟨e, he, hx⟩
    rcases List.mem_cons.mp he with rfl | he
    · rcases ReflTransGen.cases_head_iff.mp hx with rfl | ⟨z, hz, hx⟩
      · exact .inl rfl
      · exact .inr ⟨z, h z hz, hx⟩
    · exact .inr ⟨e, he, hx⟩
  · rintro (rfl | ⟨e, he, hx⟩)
    · exact ⟨x, List.mem_cons_self, .refl⟩
    · exact ⟨e, List.mem_cons_of_mem d he, hx⟩

/-! ## One more request -/

namespace Reflects

theorem start (m : Marks) : c.Reflects m [] { marks := m } := by
  refine ⟨fun x b => ⟨fun h => ⟨.decided h, .inl h⟩, ?_⟩, .refl _, rfl⟩
  rintro ⟨-, h | ⟨d, hd, -⟩⟩
  · exact h
  · cases hd

theorem of_alike (h : c.Reflects m ds s) (ha : Alike c s s') : c.Reflects m ds s' :=
  ⟨fun x b => by rw [ha.unboxed, h.unboxed], h.answers.trans ha.answers,
    ha.rewrites.trans h.rewrites⟩

theorem of_marks (h : c.Reflects m ds s) (hm : s'.marks = s.marks) (hr : s'.rewrites = s.rewrites) :
    c.Reflects m ds s' :=
  ⟨hm ▸ h.unboxed, hm ▸ h.answers, hr.trans h.rewrites⟩

theorem of_requested {ds' : List DeclId} (h : c.Reflects m ds s)
    (hd : ∀ x, c.Requested m ds x ↔ c.Requested m ds' x) : c.Reflects m ds' s :=
  ⟨fun x b => by rw [← hd, h.unboxed], h.answers, h.rewrites⟩

/-- What a request rests on need not be requested. -/
theorem of_cons_cons (h : c.Reflects m (d :: z :: ds) s) (hr : c.RestsOn m d z) :
    c.Reflects m (d :: ds) s := by
  refine h.of_requested fun x => ⟨?_, ?_⟩
  · rintro ⟨e, he, hx⟩
    rcases List.mem_cons.mp he with rfl | he
    · exact ⟨e, List.mem_cons_self, hx⟩
    · rcases List.mem_cons.mp he with rfl | he
      · exact ⟨d, List.mem_cons_self, .head hr hx⟩
      · exact ⟨e, List.mem_cons_of_mem d he, hx⟩
  · rintro ⟨e, he, hx⟩
    exact ⟨e, List.mem_cons.mpr ((List.mem_cons.mp he).imp id (List.mem_cons_of_mem z)), hx⟩

theorem undecided (h : c.Reflects m ds s) (hd : s.marks.unboxed d = none) : m.unboxed d = none := by
  cases hm : m.unboxed d with
  | none => rfl
  | some b =>
    have hb := (h.unboxed d b).mpr ⟨.decided hm, .inl hm⟩
    cases hd.symm.trans hb

/-- Nothing is to be done if all that the request leads to is decided, as far as it can be. -/
theorem cons (h : c.Reflects m ds s) (hd : ∀ x b, ReflTransGen (c.RestsOn m) d x →
    c.ComesTo m x b → s.marks.unboxed x = some b) : c.Reflects m (d :: ds) s := by
  refine ⟨fun x b => ⟨fun hx => ?_, ?_⟩, h.answers, h.rewrites⟩
  · obtain ⟨hc, hx⟩ := (h.unboxed x b).mp hx
    exact ⟨hc, hx.imp id fun ⟨e, he, hr⟩ => ⟨e, List.mem_cons_of_mem d he, hr⟩⟩
  · rintro ⟨hc, hx | ⟨e, he, hr⟩⟩
    · exact (h.unboxed x b).mpr ⟨hc, .inl hx⟩
    · rcases List.mem_cons.mp he with rfl | he
      · exact hd x b hr hc
      · exact (h.unboxed x b).mpr ⟨hc, .inr ⟨e, he, hr⟩⟩

theorem cons_of_decided (h : c.Reflects m ds s) (hd : s.marks.unboxed d ≠ none) :
    c.Reflects m (d :: ds) s := by
  obtain ⟨b, hb⟩ := Option.ne_none_iff_exists'.mp hd
  obtain ⟨hc, hm | ⟨e, he, hr⟩⟩ := (h.unboxed d b).mp hb
  · refine h.cons fun x b' hx hcx => ?_
    rcases ReflTransGen.cases_head_iff.mp hx with rfl | ⟨z, hz, -⟩
    · rwa [← hc.unique hcx]
    · cases hz.1.symm.trans hm
  · exact h.cons fun x b' hx hcx => (h.unboxed x b').mpr ⟨hcx, .inr ⟨e, he, hr.trans hx⟩⟩

theorem cons_of_not_comesTo (h : c.Reflects m ds s) (hd : ∀ b, ¬ c.ComesTo m d b) :
    c.Reflects m (d :: ds) s :=
  h.cons fun _ b hx hc => absurd ((comesTo_iff_of_reaches hx).mpr hc) (hd b)

/-- What has no ground comes to nothing unless it was decided at the start. -/
theorem cons_of_ungrounded (h : c.Reflects m ds s) (hg : c.groundOf m.bounds d = none) :
    c.Reflects m (d :: ds) s := by
  cases hs : s.marks.unboxed d with
  | some b => exact h.cons_of_decided (by simp [hs])
  | none =>
    refine h.cons_of_not_comesTo fun b hc => ?_
    cases hc with
    | decided hb => cases (h.undecided hs).symm.trans hb
    | own _ hg' => cases hg.symm.trans hg'
    | other hr _ => cases hg.symm.trans hr.2

/-- The decision that a declaration comes to, once what it rests on was requested. -/
theorem decide (h : c.Reflects m ds s) (hd : c.ComesTo m d b) (hr : ∀ z, c.RestsOn m d z → z ∈ ds) :
    c.Reflects m (d :: ds) (s.record (s.marks.setUnboxed d b)) := by
  have hb : s.marks.unboxed d = none ∨ s.marks.unboxed d = some b := by
    cases hs : s.marks.unboxed d with
    | none => exact .inl rfl
    | some b' => rw [((h.unboxed d b').mp hs).1.unique hd]; exact .inr rfl
  refine ⟨fun x b' => ?_, ?_, h.rewrites⟩
  · rw [requested_cons_iff hr, Decisions.record, Marks.unboxed_setUnboxed]
    by_cases hx : x = d
    · subst hx
      rw [if_pos rfl]
      have hget : (s.marks.unboxed x).getD b = b := by rcases hb with hb | hb <;> rw [hb] <;> rfl
      rw [hget]
      refine ⟨fun h => ?_, fun h => by rw [hd.unique h.1]⟩
      cases h
      exact ⟨hd, .inr (.inl rfl)⟩
    · rw [if_neg hx, h.unboxed]
      simp only [hx, false_or]
  · have hbounds : (s.marks.setUnboxed d b).bounds = s.marks.bounds := by
      unfold Marks.setUnboxed
      split <;> rfl
    exact hbounds ▸ h.answers

end Reflects

/-! ## Settling -/

/-- The declarations that are being decided while `d` is: each one once, and each one rests on `d`
in the end. -/
structure Leading (c : Context) (m : Marks) (pending : List DeclId) (d : DeclId) : Prop where
  nodup : pending.Nodup
  leads : ∀ e ∈ pending, c.program.hasDecl e = true ∧ TransGen (c.RestsOn m) e d

namespace Leading
variable {pending : List DeclId}

theorem cons (h : Leading c m pending d) (hd : d ∉ pending) (hp : c.program.hasDecl d = true)
    (hr : c.RestsOn m d z) : Leading c m (d :: pending) z := by
  refine ⟨List.nodup_cons.mpr ⟨hd, h.nodup⟩, fun e he => ?_⟩
  rcases List.mem_cons.mp he with rfl | he
  · exact ⟨hp, .single hr⟩
  · exact ⟨(h.leads e he).1, (h.leads e he).2.tail hr⟩

theorem length_le (h : Leading c m pending d) : pending.length ≤ c.program.decls.size :=
  Program.length_le_of_nodup h.nodup fun e he => (h.leads e he).1

end Leading

/-- A method that is settled has a name and the topmost declaration is a method too. -/
def Settles (c : Context) (d : DeclId) : Prop :=
  ∀ x, c.program.decl? d = some x → x.isMethod = true →
    (c.program.decl? (c.top d)).any Declaration.isMethod = true ∧ x.name.isSome = true

theorem SourcesStand.settles (h : c.SourcesStand) (hz : c.Source z) : c.Settles z := by
  obtain ⟨ht, hn⟩ := h z hz
  intro x hx hm
  rw [hx, Option.any_some, hm, Bool.true_and] at hn
  rw [ht, hx]
  exact ⟨hm, Option.isNone_eq_false_iff.mp hn⟩

theorem decl?_of_lookup_bind {α : Type} {f : Declaration → Decide α} {a : α}
    (h : result (c.lookup d >>= f) s = .ok a) : ∃ x, c.program.decl? d = some x := by
  obtain ⟨x, hx, -⟩ := result_bind_eq_ok.mp h
  rw [lookup, lookupAt, result_ofExcept] at hx
  exact ⟨x, Program.decl_eq_ok_iff.mp hx⟩

theorem reflects_inheritWithin {fuel : Nat} (hs : c.Reflects m ds s) (ht : c.top z = z)
    (hz : result (c.settleWithin fuel z (c.top z)) s = .ok () →
      c.Reflects m (z :: ds) (after (c.settleWithin fuel z (c.top z)) s))
    (h : result (c.inheritWithin fuel z) s = .ok ()) :
    c.Reflects m (z :: ds) (after (c.inheritWithin fuel z) s) := by
  unfold inheritWithin at h ⊢
  obtain ⟨x, hx⟩ := decl?_of_lookup_bind h
  rw [lookup_bind_of_decl? hx] at h ⊢
  rw [result_bind, result_unboxed, after_unboxed] at h
  rw [after_bind, result_unboxed, after_unboxed]
  dsimp only at h ⊢
  cases hb : s.marks.unboxed z with
  | some b => exact hs.cons_of_decided (by simp [hb])
  | none =>
    rw [hb, Option.isNone_none, if_pos rfl] at h
    rw [Option.isNone_none, if_pos rfl]
    rw [ht] at hz
    exact hz h

/-- By induction on the fuel: the declarations being decided and the fuel that is left are always
more than there are declarations. -/
theorem reflects_settleWithin (hsrc : c.SourcesStand) (fuel : Nat) (hd : c.Settles d)
    (hs : c.Reflects m ds s) (hp : Leading c m s.pending d)
    (hf : c.program.decls.size < fuel + s.pending.length)
    (h : result (c.settleWithin fuel d (c.top d)) s = .ok ()) :
    c.Reflects m (d :: ds) (after (c.settleWithin fuel d (c.top d)) s) := by
  induction fuel generalizing d ds s with
  | zero =>
    have := hp.length_le
    omega
  | succ fuel ih =>
    obtain ⟨x, hx⟩ : ∃ x, c.program.decl? d = some x := by
      rw [settleWithin_succ] at h
      exact decl?_of_lookup_bind h
    have hg := groundOf_of_settled m.bounds hx (hd x hx)
    cases ht : x.type with
    | none =>
      rw [settleWithin_succ, lookup_bind_of_decl? hx]
      simp only [ht]
      rw [ht, Option.map_none] at hg
      exact hs.cons_of_ungrounded hg
    | some type =>
      rw [ht, Option.map_some] at hg
      have ha : Alike c s (after (c.inheritUnderlying d (c.source d (c.top d) x) type) s) :=
        inheritUnderlying_alike d _ type
      have hcases := settleWithin_cases hx ht h
      generalize after (c.inheritUnderlying d (c.source d (c.top d) x) type) s = u at ha hcases
      replace hs := hs.of_alike ha
      rw [← ha.pending] at hp hf
      rcases hcases with ⟨hb, heq⟩ | ⟨-, hpend, stats, heq⟩ | ⟨hb, hpend, v, hv, heq⟩
      · rw [heq]
        exact hs.cons_of_decided hb
      · rw [heq]
        have hcycle := (hp.leads d hpend).2
        exact (hs.cons_of_not_comesTo fun b hc => hc.not_cyclic hcycle).of_marks rfl rfl
      · rw [heq]
        have hm := hs.undecided hb
        have hv' := verdict_concludes hx hv
        rw [hs.rewrites, ground_congr c hs.answers] at hv'
        generalize c.ground _ _ d _ x type = g at hv' hg
        rw [deciding, after_between]
        generalize after (c.verdict _ d _ type) _ = t at hv' ⊢
        replace hs : c.Reflects m ds { u with pending := d :: u.pending } := hs.of_marks rfl rfl
        cases hv' with
        | own b ha =>
          refine .decide ((hs.of_alike ha).of_marks rfl rfl) (.own hm hg) fun z hz => ?_
          cases hg.symm.trans hz.2
        | @other s₁ _ z ha hz ha' =>
          have hr : c.RestsOn m d z := ⟨hm, hg⟩
          have hsource := source_of_groundOf hg
          have hlead : Leading c m s₁.pending z := by
            rw [ha.pending]
            exact hp.cons hpend (Program.hasDecl_of_decl? hx) hr
          have hfuel : c.program.decls.size < fuel + s₁.pending.length := by
            rw [ha.pending, List.length_cons]
            omega
          have ht : c.Reflects m (z :: ds) t :=
            (reflects_inheritWithin (hs.of_alike ha) (hsrc z hsource).1
              (ih (hsrc.settles hsource) (hs.of_alike ha) hlead hfuel) hz).of_alike ha'
          refine .of_cons_cons (z := z) ?_ hr
          cases hb : t.marks.unboxed z with
          | some b =>
            have hz := ((ht.unboxed z b).mp hb).1
            refine .decide (ht.of_marks rfl rfl) (.other hr hz) fun z' hz' => ?_
            cases hg.symm.trans hz'.2
            exact List.mem_cons_self
          | none =>
            refine .of_marks (.cons_of_not_comesTo ht fun b hc => ?_) rfl rfl
            have hz := (ht.unboxed z b).mpr ⟨hc.of_restsOn hr, .inr ⟨z, List.mem_cons_self, .refl⟩⟩
            cases hb.symm.trans hz

/-! ## Requests -/

section
variable (hsrc : c.SourcesStand)
include hsrc

theorem reflects_settle (hd : c.Settles d) (hs : c.Reflects m ds s) (hp : s.pending = [])
    (h : result (c.settle d (c.top d)) s = .ok ()) :
    c.Reflects m (d :: ds) (after (c.settle d (c.top d)) s) := by
  refine reflects_settleWithin hsrc _ hd hs ⟨by simp [hp], by simp [hp]⟩ ?_ h
  omega

theorem reflects_decideMethod {x : Declaration} (hx : c.program.decl? d = some x)
    (hm : x.isMethod = true) (hs : c.Reflects m ds s) (hp : s.pending = [])
    (h : result (c.decideMethod d) s = .ok ()) :
    c.Reflects m (d :: ds) (after (c.decideMethod d) s) := by
  have bind_some (f : Declaration → Option Ground) : (some x >>= f) = f x := rfl
  unfold decideMethod at h ⊢
  rw [result_topmost_bind, hs.rewrites, ← top] at h
  rw [after_topmost_bind, hs.rewrites, ← top]
  obtain ⟨y, hy⟩ := decl?_of_lookup_bind h
  rw [lookup_bind_of_decl? hy] at h ⊢
  cases hym : y.isMethod with
  | false =>
    have hg : c.groundOf m.bounds d = none := by
      rw [groundOf, hx, bind_some, hm, hy, Option.any_some, hym]
      rfl
    exact hs.cons_of_ungrounded hg
  | true =>
    rw [hym, Bool.not_true, if_neg Bool.false_ne_true, lookup_bind_of_decl? hx] at h
    rw [Bool.not_true, if_neg Bool.false_ne_true, lookup_bind_of_decl? hx]
    cases hn : x.name.isSome with
    | true =>
      rw [hn, if_pos rfl] at h
      rw [if_pos rfl]
      refine reflects_settle hsrc (fun z hz _ => ?_) hs hp h
      cases hx.symm.trans hz
      exact ⟨by rw [hy, Option.any_some, hym], hn⟩
    | false =>
      rw [if_neg Bool.false_ne_true, after_modifyMarks]
      have hg : c.groundOf m.bounds d = some (.own false) := by
        rw [groundOf, hx, bind_some, hm, hy, Option.any_some, hym, ← Option.not_isSome, hn]
        rfl
      cases hb : s.marks.unboxed d with
      | some b =>
        refine (hs.cons_of_decided (by simp [hb])).of_marks ?_ rfl
        rw [Decisions.record, Marks.setUnboxed, hb]
        rfl
      | none =>
        refine hs.decide (.own (hs.undecided hb) hg) fun z hz => ?_
        cases hg.symm.trans hz.2

theorem reflects_ensure (hs : c.Reflects m ds s) (hp : s.pending = [])
    (h : result (c.ensure d) s = .ok ()) : c.Reflects m (d :: ds) (after (c.ensure d) s) := by
  unfold ensure at h ⊢
  obtain ⟨x, hx⟩ := decl?_of_lookup_bind h
  rw [lookup_bind_of_decl? hx] at h ⊢
  split at h
  · next hm =>
    rw [if_pos hm]
    exact reflects_decideMethod hsrc hx hm hs hp h
  · next hm =>
    rw [if_neg hm]
    unfold decideValue at h ⊢
    rw [result_topmost_bind, hs.rewrites] at h
    rw [after_topmost_bind, hs.rewrites]
    refine reflects_settle hsrc (fun y hy hym => ?_) hs hp h
    cases hx.symm.trans hy
    exact absurd hym hm

theorem reflects_forM (es : List DeclId) (hs : c.Reflects m ds s) (hp : s.pending = [])
    (h : result (es.forM c.ensure) s = .ok ()) :
    c.Reflects m (es.reverse ++ ds) (after (es.forM c.ensure) s) := by
  induction es generalizing ds s with
  | nil => exact hs
  | cons e es ih =>
    rw [List.forM_eq_forM, List.forM_cons] at h ⊢
    obtain ⟨⟨⟩, he, hes⟩ := result_bind_eq_ok.mp h
    rw [after_bind_of_ok he, List.reverse_cons, List.append_assoc]
    have hpend := (Follows.ensure (c := c) (D := ⊤) (F := ⊥) (fun _ => trivial) e s).pending
    exact ih (reflects_ensure hsrc hs hp he) (hpend.trans hp) hes

end

/-- If every source is its own topmost declaration and no method without a name, then requests that
do not fail decide the same in every order: what was decided before, and what the requests lead to
and comes to a decision. -/
theorem ensure_order_independent (hsrc : c.SourcesStand) {ds' : List DeclId} (hperm : ds.Perm ds')
    (h : result (ds.forM c.ensure) { marks := m } = .ok ())
    (h' : result (ds'.forM c.ensure) { marks := m } = .ok ()) (d : DeclId) :
    let decided := (after (ds.forM c.ensure) { marks := m }).marks
    let decided' := (after (ds'.forM c.ensure) { marks := m }).marks
    decided.unboxed d = decided'.unboxed d ∧
      ∀ b, decided.unboxed d = some b ↔
        c.ComesTo m d b ∧ (m.unboxed d = some b ∨ c.Requested m ds d) := by
  intro decided decided'
  have hr := reflects_forM hsrc ds (.start m) rfl h
  have hr' := reflects_forM hsrc ds' (.start m) rfl h'
  have requested_iff (es : List DeclId) (x : DeclId) :
      c.Requested m (es.reverse ++ []) x ↔ c.Requested m es x := by simp [Requested]
  have hmem (x : DeclId) : c.Requested m ds x ↔ c.Requested m ds' x := by
    simp only [Requested, hperm.mem_iff]
  refine ⟨Option.ext fun b => ?_, fun b => ?_⟩
  · rw [hr.unboxed, hr'.unboxed, requested_iff, requested_iff, hmem]
  · rw [hr.unboxed, requested_iff]

end Context

/-! ## An attribute that is refined twice -/

/-- An interface (2) with an integer (3), a class (4) with a parameter (5) for the integer, and a
class (6) that refines the integer (7). -/
def Program.attribute : Program where
  decls := #[
    { name := some ⟨0⟩, kind := .classType {}, scope := .unit },
    { name := some ⟨1⟩, kind := .classType {}, scope := .unit },
    { name := some ⟨2⟩, kind := .interfaceType { members := [⟨3⟩] }, scope := .unit },
    { name := some ⟨5⟩, kind := .value, scope := .declaration ⟨2⟩, type := some ⟨1⟩,
      modifiers := ⟨[.shared, .formal]⟩ },
    { name := some ⟨3⟩, kind := .classType { list := some [⟨5⟩], satisfied := [⟨2⟩] },
      scope := .unit },
    { name := some ⟨5⟩, kind := .value, scope := .declaration ⟨4⟩, type := some ⟨0⟩,
      refined := some ⟨3⟩, modifiers := ⟨[.parameter]⟩ },
    { name := some ⟨4⟩, kind := .classType { satisfied := [⟨2⟩], members := [⟨7⟩] },
      scope := .unit },
    { name := some ⟨5⟩, kind := .value, scope := .declaration ⟨6⟩, type := some ⟨0⟩,
      refined := some ⟨3⟩, modifiers := ⟨[.shared, .actual]⟩ }]
  types := #[.nominal ⟨0⟩ [], .nominal ⟨1⟩ [], .nominal ⟨2⟩ []]
  core := ⟨⟨0⟩, ⟨0⟩, ⟨0⟩, ⟨0⟩, ⟨1⟩, ⟨1⟩, ⟨1⟩, ⟨1⟩, ⟨1⟩, ⟨1⟩, ⟨1⟩, ⟨1⟩, ⟨0⟩, ⟨0⟩, ⟨0⟩⟩

namespace Context
open Decide

/-- Only the attribute of the interface is a source. -/
theorem sourcesStand_attribute : SourcesStand ⟨⟨.attribute, .standard⟩, 8⟩ := by
  intro s hs
  obtain rfl : s = ⟨3⟩ := by
    cases hs with
    | @topmost d h =>
      obtain ⟨n⟩ := d
      match n with
      | 7 => rfl
      | 0 | 1 | 2 | 3 | 4 | 5 | 6 => exact absurd rfl h
      | n + 8 => exact absurd rfl h
    | @classParameter d _ _ hs =>
      obtain ⟨n⟩ := d
      obtain ⟨x, owner, hx, hp, -, -, hr⟩ := hs
      match n with
      | 5 =>
        cases hx
        cases hr
        rfl
      | 0 | 1 | 2 | 3 | 4 | 6 | 7 =>
        cases hx
        cases hp
      | n + 8 => cases hx
    | @counterpart d _ _ _ hx hp hn =>
      obtain ⟨n⟩ := d
      match n with
      | 5 =>
        cases hx
        cases hn
      | 0 | 1 | 2 | 3 | 4 | 6 | 7 =>
        cases hx
        cases hp
      | n + 8 => cases hx
  exact ⟨rfl, rfl⟩

/-- The parameter and the override are unboxed as the attribute is, although their own type is not
basic, and whether the attribute comes first or last. -/
theorem ensure_order_independent_attribute :
    let c : Context := ⟨⟨.attribute, .standard⟩, 8⟩
    let first := (after ([⟨3⟩, ⟨5⟩, ⟨7⟩].forM c.ensure) { marks := {} }).marks
    let last := (after ([⟨7⟩, ⟨5⟩, ⟨3⟩].forM c.ensure) { marks := {} }).marks
    c.SourcesStand ∧ (∀ d, first.unboxed d = last.unboxed d) ∧
      first.unboxed ⟨5⟩ = some true ∧ first.unboxed ⟨7⟩ = some true := by
  intro c first last
  have hperm : [⟨3⟩, ⟨5⟩, ⟨7⟩].Perm [(⟨7⟩ : DeclId), ⟨5⟩, ⟨3⟩] := by decide
  refine ⟨sourcesStand_attribute, fun d => ?_, by decide +kernel, by decide +kernel⟩
  exact (ensure_order_independent sourcesStand_attribute hperm rfl rfl d).1

end Context

end Unbox
