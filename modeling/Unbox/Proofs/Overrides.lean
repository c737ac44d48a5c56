import Unbox.Policy.Standard
import Unbox.Proofs.Agreement

/-!
# Overrides in a unit

* `RefinementChain` : refinement pointers lead from `d` along a chain of members to `top`, and the
  unit forces none of them;
* `Context.Turn` : the steps of a unit up to the one by which `d` is decided for its own sake;
* `Context.override_agrees` : a unit that does not fail decides the overrides that it declares, each
  like the end of its chain unless a class parameter took its decision from the override before;
* `Context.override_disagrees` : a unit that lists such a parameter before the override.
-/

namespace Unbox

/-- The refinement pointers lead from `d` along `chain` to another declaration `top`: at most as many
as the limit allows, no one twice, all of them typed, none a parameter, either all values or all
methods with a name, and none forced by the unit. -/
structure RefinementChain (c : Context) (u : SourceUnit) (d : DeclId) (chain : List DeclId)
    (top : DeclId) : Prop where
  climbs : c.program.Climbs d chain top
  ne : top ≠ d
  nodup : chain.Nodup
  length : chain.length ≤ c.limit
  typed : ∀ e ∈ chain, (c.program.decl? e).any (fun x => x.type.isSome && !x.isParameter) = true
  kinds : (∀ e ∈ chain, (c.program.decl? e).any Declaration.isValue = true) ∨
    ∀ e ∈ chain, (c.program.decl? e).any (fun x => x.isMethod && x.name.isSome) = true
  free : ∀ e ∈ chain, e ∉ u.forced

namespace RefinementChain
variable {c : Context} {u : SourceUnit} {d top : DeclId} {chain : List DeclId}

theorem member (hc : RefinementChain c u d chain top) {e : DeclId} (he : e ∈ chain) :
    ∃ x type, c.program.decl? e = some x ∧ x.type = some type ∧ x.isParameter = false := by
  obtain ⟨x, hx, h⟩ := (Option.any_eq_true _ _).mp (hc.typed e he)
  rw [Bool.and_eq_true, Option.isSome_iff_exists, Bool.not_eq_true'] at h
  obtain ⟨⟨type, ht⟩, hp⟩ := h
  exact ⟨x, type, hx, ht, hp⟩

/-- If one of the chain is a method, all of it are methods with a name. -/
theorem method (hc : RefinementChain c u d chain top) {e a : DeclId} {x y : Declaration}
    (he : e ∈ chain) (hx : c.program.decl? e = some x) (hm : x.isMethod = true) (ha : a ∈ chain)
    (hy : c.program.decl? a = some y) : y.isMethod = true ∧ y.name.isSome = true := by
  rcases hc.kinds with hv | hk
  · have hxv := hv e he
    rw [hx, Option.any_some] at hxv
    unfold Declaration.isMethod at hm
    unfold Declaration.isValue at hxv
    grind
  · have hym := hk a ha
    rwa [hy, Option.any_some, Bool.and_eq_true] at hym

theorem value_or_method (hc : RefinementChain c u d chain top) {e : DeclId} {x : Declaration}
    (he : e ∈ chain) (hx : c.program.decl? e = some x) : x.isValue = true ∨ x.isMethod = true := by
  refine hc.kinds.imp (fun hv => ?_) fun hk => ?_
  · simpa [hx] using hv e he
  · have := hk e he
    simp_all

/-- Unless a literal stands for a method at the end of the chain, that end is the topmost one. -/
theorem topmost (hc : RefinementChain c u d chain top) {r : Rewrites}
    (hr : ∀ pair ∈ r.entries, pair.1 ∈ u.forced) :
    c.program.topmost c.policy c.limit r d = top := by
  refine Program.topmost_of_climbs hc.climbs hc.nodup (fun e he => ?_) ?_ hc.length
  · obtain ⟨x, _, hx, -, hp⟩ := hc.member he
    exact ⟨x, hx, hp⟩
  · refine List.lookup_eq_none_iff.mpr fun pair hpair => ?_
    rw [bne_iff_ne]
    rintro rfl
    exact hc.free _ hc.climbs.top_mem (hr pair hpair)

end RefinementChain

/-- The declaration that an act decides for its own sake. -/
def Act.settled (p : Program) : Act → Option DeclId
  | .value d | .decide d => some d
  | .method d => if (p.decl? d).any Declaration.isMethod then some d else none
  | _ => none

namespace Context
open Decide
variable {c : Context} {u : SourceUnit} {d top : DeclId} {chain : List DeclId}

theorem listed_of_positionalCounterpart {f refined e : DeclId}
    (h : c.positionalCounterpart f refined e = some d) : c.program.Listed d := by
  unfold positionalCounterpart at h
  obtain ⟨x, -, h⟩ := Option.bind_eq_some_iff.mp h
  obtain ⟨y, hy, h⟩ := Option.bind_eq_some_iff.mp h
  obtain ⟨⟨as, bs⟩, hb, h⟩ := List.exists_of_findSome?_eq_some h
  obtain ⟨i, -, h⟩ := Option.bind_eq_some_iff.mp h
  exact Program.listed_of_mem hy (List.of_mem_zip hb).2 (List.mem_of_getElem? h)

theorem overrides_of_chain (hc : RefinementChain c u d chain top) (hl : ¬ c.program.Listed d) :
    Overrides c d top := by
  obtain ⟨x, _, hx, -, hp⟩ := hc.member hc.climbs.mem
  have hr := hc.climbs.refinedOther? hc.nodup hc.ne
  refine ⟨hc.ne, ⟨x, hx, hp⟩, fun r e he h => ?_, fun f refined e h => ?_, fun x y hx hy hm => ?_⟩
  · exact hl (Program.listed_of_topmost hx hp hr he h)
  · exact hl (listed_of_positionalCounterpart h)
  · exact (hc.method hc.climbs.top_mem hy hm hc.climbs.mem hx).2

/-- A step of the unit keeps the agreement: the literals that stand for methods in it are forced, so
the end of the chain is the topmost declaration all the time. -/
theorem keeps_step (hc : RefinementChain c u d chain top) (hl : ¬ c.program.Listed d)
    (hb : d ∉ u.bound) {st : Step} (hst : st ∈ c.itinerary u) :
    Keeps (fun m r => c.program.Agrees d top m ∧ r.entries = []) (st.run c) := by
  have hu := c.itinerary_covers u
  have act : Keeps (c.Invariant d top) (st.act.run c) := by
    refine keeps_act (overrides_of_chain hc hl) (fun h => ?_) (fun h => ?_) fun h => hb ?_
    · exact hc.free d hc.climbs.mem (c.mem_forced_iff.mpr ⟨st, hst, h⟩)
    · exact hc.free top hc.climbs.top_mem (c.mem_forced_iff.mpr ⟨st, hst, h⟩)
    · obtain ⟨q, hq, ha⟩ := (hu.acts _).mp ⟨st, hst, h⟩
      exact List.mem_flatMap.mpr ⟨q, hq, c.bound_of_variable ha⟩
  intro s a hs hok
  have hrw := (Follows.step (c := c) st s).rewrites
  rw [hrw]
  refine ⟨?_, hs.2⟩
  rw [Step.run, result_between] at hok
  rw [Step.run, after_between]
  refine (act { s with rewrites := ⟨st.standing ++ s.rewrites.entries⟩ } a ⟨hs.1, ?_⟩ hok).1
  refine hc.topmost fun pair hpair => ?_
  dsimp only at hpair
  rw [hs.2, List.append_nil] at hpair
  exact hu.standing st hst pair hpair

/-! ## The turn of an override -/

/-- The first steps of the unit, up to one that decides `d` for its own sake. -/
def Turn (c : Context) (u : SourceUnit) (d : DeclId) (turn : List Step) : Prop :=
  turn <+: c.itinerary u ∧ ∃ before st, turn = before ++ [st] ∧ st.act.settled c.program = some d

theorem exists_turn (hc : RefinementChain c u d chain top) (hd : d ∈ u.declared) :
    ∃ turn, c.Turn u d turn := by
  obtain ⟨q, hq, hd⟩ := List.mem_flatMap.mp hd
  obtain ⟨x, _, hx, -⟩ := hc.member hc.climbs.mem
  have ha : ∃ a ∈ q.acts c, a.settled c.program = some d := by
    rcases c.acts_of_declared hd hx (hc.value_or_method hc.climbs.mem hx) with h | ⟨h, hm⟩ | h
    · exact ⟨_, h, rfl⟩
    · exact ⟨_, h, by simp [Act.settled, hx, hm]⟩
    · exact ⟨_, h, rfl⟩
  obtain ⟨a, ha, hs⟩ := ha
  obtain ⟨st, hst, rfl⟩ := ((c.itinerary_covers u).acts a).mpr ⟨q, hq, ha⟩
  obtain ⟨before, rest, hi⟩ := List.append_of_mem hst
  refine ⟨before ++ [st], ⟨rest, ?_⟩, before, st, rfl, hs⟩
  rw [hi, List.append_assoc, List.singleton_append]

section Turn
variable {s : Decisions}

theorem decides_settle (hc : RefinementChain c u d chain top) (hs : s.pending = [])
    (h : result (c.settle d top) s = .ok ()) :
    (after (c.settle d top) s).marks.unboxed d ≠ none := by
  obtain ⟨x, type, hx, hxt, hxp⟩ := hc.member hc.climbs.mem
  obtain ⟨y, type', hy, hyt, hyp⟩ := hc.member hc.climbs.top_mem
  exact settle_decides hx hy hxt hyt hxp hyp hc.ne hs h

theorem decides_decideValue (hc : RefinementChain c u d chain top) (hs : s.pending = [])
    (hr : c.program.topmost c.policy c.limit s.rewrites d = top)
    (h : result (c.decideValue d) s = .ok ()) :
    (after (c.decideValue d) s).marks.unboxed d ≠ none := by
  rw [decideValue, result_topmost_bind, hr] at h
  rw [decideValue, after_topmost_bind, hr]
  exact decides_settle hc hs h

theorem decides_decideMethod (hc : RefinementChain c u d chain top) {x : Declaration}
    (hx : c.program.decl? d = some x) (hm : x.isMethod = true) (hs : s.pending = [])
    (hr : c.program.topmost c.policy c.limit s.rewrites d = top)
    (h : result (c.decideMethod d) s = .ok ()) :
    (after (c.decideMethod d) s).marks.unboxed d ≠ none := by
  obtain ⟨y, _, hy, -⟩ := hc.member hc.climbs.top_mem
  have hym := (hc.method hc.climbs.mem hx hm hc.climbs.top_mem hy).1
  have hxn := (hc.method hc.climbs.mem hx hm hc.climbs.mem hx).2
  unfold decideMethod at h ⊢
  rw [result_topmost_bind, hr, lookup_bind_of_decl? hy] at h
  rw [after_topmost_bind, hr, lookup_bind_of_decl? hy]
  simp only [hym, hxn, lookup_bind_of_decl? hx, Bool.not_true, Bool.false_eq_true, if_false,
    if_true] at h ⊢
  exact decides_settle hc hs h

theorem decides_act (hc : RefinementChain c u d chain top) {a : Act}
    (ha : a.settled c.program = some d) (hs : s.pending = [])
    (hr : c.program.topmost c.policy c.limit s.rewrites d = top)
    (h : result (a.run c) s = .ok ()) : (after (a.run c) s).marks.unboxed d ≠ none := by
  cases a with
  | value e =>
    obtain rfl : e = d := Option.some.inj ha
    refine holds_of_note (P := fun m => m.unboxed e ≠ none) (fun s' hr' hp' => ?_) h
    exact decides_decideValue hc (hp'.trans hs) (hr' ▸ hr)
  | method e =>
    rw [Act.settled, Option.ite_none_right_eq_some] at ha
    obtain ⟨x, hx, hm⟩ := (Option.any_eq_true _ _).mp ha.1
    obtain rfl : e = d := Option.some.inj ha.2
    refine holds_of_note (P := fun m => m.unboxed e ≠ none) (fun s' hr' hp' => ?_) h
    exact decides_decideMethod hc hx hm (hp'.trans hs) (hr' ▸ hr)
  | decide e =>
    obtain rfl : e = d := Option.some.inj ha
    exact decides_decideValue hc hs hr h
  | _ => cases ha

theorem decides_step (hc : RefinementChain c u d chain top) {st : Step}
    (hst : st ∈ c.itinerary u) (ha : st.act.settled c.program = some d) (hs : s.pending = [])
    (hr : s.rewrites.entries = []) (h : result (st.run c) s = .ok ()) :
    (after (st.run c) s).marks.unboxed d ≠ none := by
  rw [Step.run, result_between] at h
  rw [Step.run, after_between]
  refine decides_act hc ha hs (hc.topmost fun pair hpair => ?_) h
  dsimp only at hpair
  rw [hr, List.append_nil] at hpair
  exact (c.itinerary_covers u).standing st hst pair hpair

/-- An override is decided when its turn is over. -/
theorem decides_turn (hc : RefinementChain c u d chain top) {turn : List Step}
    (ht : c.Turn u d turn) (hs : s.pending = []) (hr : s.rewrites.entries = [])
    (h : result (c.perform turn) s = .ok ()) :
    (after (c.perform turn) s).marks.unboxed d ≠ none := by
  obtain ⟨hu, before, st, rfl, ha⟩ := ht
  have hst : st ∈ before ++ [st] := by simp
  refine holds_of_forM (P := fun m => m.unboxed d ≠ none) (fun _ _ => Write.stays_decided)
    (fun st' hst' => Follows.itinerary (hu.mem hst')) hst (fun s' hr' hp' hok => ?_) h
  exact decides_step hc (hu.mem hst) ha (hp'.trans hs) (hr' ▸ hr) hok

end Turn

/-- Once both are decided alike they stay so, as the unit forces neither. -/
theorem stays_alike {D : DeclId → Prop} {m m' : Marks} (hc : RefinementChain c u d chain top)
    (h : Write c.toTarget D (· ∈ u.forced) m m')
    (ha : m.unboxed d ≠ none ∧ m.unboxed d = m.unboxed top) :
    m'.unboxed d ≠ none ∧ m'.unboxed d = m'.unboxed top := by
  obtain ⟨b, hb⟩ := Option.ne_none_iff_exists'.mp ha.1
  have hd := h.unboxed_of_not_forced (hc.free d hc.climbs.mem) hb
  have ht := h.unboxed_of_not_forced (hc.free top hc.climbs.top_mem) (ha.2 ▸ hb)
  exact ⟨by simp [hd], hd.trans ht.symm⟩

/-- A unit that does not fail takes its first steps without a failure and goes on from there. -/
theorem leads_of_first {turn : List Step} {s : Decisions} (ht : turn <+: c.itinerary u)
    (hok : result (c.decideUnit u) s = .ok ()) :
    result (c.perform turn) s = .ok () ∧
      Leads (Write c.toTarget ⊤ (· ∈ u.forced)) (after (c.perform turn) s)
        (after (c.decideUnit u) s) := by
  obtain ⟨rest, hr⟩ := ht
  rw [decideUnit_eq, ← hr, perform_append] at hok
  obtain ⟨⟨⟩, hturn, -⟩ := result_bind_eq_ok.mp hok
  refine ⟨hturn, ?_⟩
  rw [decideUnit_eq, ← hr, perform_append, after_bind_of_ok hturn]
  refine Follows.forM (fun st hst => Follows.itinerary ?_) _
  rw [← hr]
  exact List.mem_append_right _ hst

/-- When its turn is over, an override agrees with the end of its chain unless a class parameter that
stands for it is decided. -/
theorem alike_of_turn (hc : RefinementChain c u d chain top) (hb : d ∉ u.bound)
    (hl : ¬ c.program.Listed d) {m : Marks} (hm : m.unboxed d = none) {turn : List Step}
    (ht : c.Turn u d turn) (hok : result (c.perform turn) { marks := m } = .ok ())
    (hx : ∀ x, c.program.StandsFor x d →
      (after (c.perform turn) { marks := m }).marks.unboxed x = none) :
    let marks := (after (c.perform turn) { marks := m }).marks
    marks.unboxed d ≠ none ∧ marks.unboxed d = marks.unboxed top := by
  have hdecided := decides_turn hc ht rfl rfl hok
  have hkeeps : Keeps (fun m r => c.program.Agrees d top m ∧ r.entries = []) (c.perform turn) :=
    .forM fun st hst => keeps_step hc hl hb (ht.1.mem hst)
  obtain ⟨hagrees, -⟩ := hkeeps { marks := m } () ⟨.inl hm, rfl⟩ hok
  rcases hagrees with h | ⟨-, h⟩ | ⟨x, hstands, h⟩
  · exact absurd h hdecided
  · exact ⟨hdecided, h⟩
  · exact absurd (hx x hstands) h

/-- From a state in which it is undecided, a unit that does not fail decides each override that it
declares. The override agrees with the end of its chain, unless a class parameter that refines it
directly is decided when its turn is over: such a parameter has the override decided by its own
type. (An override is no variable of a condition or binding, and stands in no parameter list.) -/
theorem override_agrees (hc : RefinementChain c u d chain top) (hd : d ∈ u.declared)
    (hb : d ∉ u.bound) (hl : ¬ c.program.Listed d) {m : Marks} (hm : m.unboxed d = none)
    (hok : result (c.decideUnit u) { marks := m } = .ok ()) :
    let decided := (after (c.decideUnit u) { marks := m }).marks
    decided.unboxed d ≠ none ∧ (∃ turn, c.Turn u d turn) ∧
      ∀ turn, c.Turn u d turn →
        (∀ x, c.program.StandsFor x d →
          (after (c.perform turn) { marks := m }).marks.unboxed x = none) →
        decided.unboxed d = decided.unboxed top := by
  intro decided
  obtain ⟨turn, ht⟩ := exists_turn hc hd
  refine ⟨?_, ⟨turn, ht⟩, fun turn ht hx => ?_⟩
  · obtain ⟨hturn, hleads⟩ := leads_of_first ht.1 hok
    exact hleads.preserves (P := fun m => m.unboxed d ≠ none) (fun _ _ => Write.stays_decided)
      (decides_turn hc ht rfl rfl hturn)
  · obtain ⟨hturn, hleads⟩ := leads_of_first ht.1 hok
    have halike := alike_of_turn hc hb hl hm ht hturn hx
    exact (hleads.preserves (P := fun m => m.unboxed d ≠ none ∧ m.unboxed d = m.unboxed top)
      (fun _ _ => stays_alike hc) halike).2

end Context

/-! ## A class parameter that refines an override -/

/-- An interface (2) with a value of the top type (3), a class (4) that refines the value to an
integer (5), and a class (6) that extends it, with a parameter (7) for the inherited value. -/
def Program.inheritance : Program where
  decls := #[
    { name := some ⟨0⟩, kind := .classType {}, scope := .unit },
    { name := some ⟨1⟩, kind := .classType {}, scope := .unit },
    { name := some ⟨2⟩, kind := .interfaceType { members := [⟨3⟩] }, scope := .unit },
    { name := some ⟨5⟩, kind := .value, scope := .declaration ⟨2⟩, type := some ⟨0⟩,
      modifiers := ⟨[.shared, .formal]⟩ },
    { name := some ⟨3⟩, kind := .classType { satisfied := [⟨2⟩], members := [⟨5⟩] },
      scope := .unit },
    { name := some ⟨5⟩, kind := .value, scope := .declaration ⟨4⟩, type := some ⟨1⟩,
      refined := some ⟨3⟩, modifiers := ⟨[.shared, .actual]⟩ },
    { name := some ⟨4⟩, kind := .classType { list := some [⟨7⟩], extended := some ⟨3⟩ },
      scope := .unit },
    { name := some ⟨5⟩, kind := .value, scope := .declaration ⟨6⟩, type := some ⟨1⟩,
      refined := some ⟨5⟩, modifiers := ⟨[.parameter]⟩ }]
  types := #[.nominal ⟨0⟩ [], .nominal ⟨1⟩ [], .nominal ⟨2⟩ [], .nominal ⟨4⟩ []]
  core := ⟨⟨0⟩, ⟨0⟩, ⟨0⟩, ⟨0⟩, ⟨1⟩, ⟨1⟩, ⟨1⟩, ⟨1⟩, ⟨1⟩, ⟨1⟩, ⟨1⟩, ⟨1⟩, ⟨0⟩, ⟨0⟩, ⟨0⟩⟩

/-- The unit that lists the entities in this order, each with its value parameters. -/
def SourceUnit.listing (ds : List (DeclId × List DeclId)) : SourceUnit where
  name := "listing"
  statements := ds.map fun (d, ps) =>
    .declare { declaration := d, location := .unknown } [ps.map (.value · none)] .absent

namespace Context
open Decide

/-- Listed before the class with the parameter, the override agrees with what it refines. -/
theorem override_agrees_listed_first :
    let c : Context := ⟨⟨.inheritance, .standard⟩, 8⟩
    let u : SourceUnit := .listing [(⟨3⟩, []), (⟨5⟩, []), (⟨6⟩, [⟨7⟩])]
    let decided := (after (c.decideUnit u) { marks := {} }).marks
    RefinementChain c u ⟨5⟩ [⟨5⟩, ⟨3⟩] ⟨3⟩ ∧ decided.unboxed ⟨5⟩ = decided.unboxed ⟨3⟩ := by
  intro c u decided
  have hc : RefinementChain c u ⟨5⟩ [⟨5⟩, ⟨3⟩] ⟨3⟩ :=
    ⟨.step rfl (.top rfl), by decide, by decide, by decide, by decide, .inl (by decide), by decide⟩
  have h := override_agrees hc (by decide) (by decide) (by decide) (m := {}) rfl rfl
  have ht : c.Turn u ⟨5⟩ ((c.itinerary u).take 8) :=
    ⟨List.take_prefix 8 _, (c.itinerary u).take 7, .plain (.value ⟨5⟩), rfl, rfl⟩
  refine ⟨hc, h.2.2 _ ht ?_⟩
  rintro ⟨n⟩ ⟨x, -, hx, hp, -⟩
  match n with
  | 7 => rfl
  | 0 | 1 | 2 | 3 | 4 | 5 | 6 =>
    cases hx
    cases hp
  | n + 8 => cases hx

/-- Listed after it, the override is unboxed although what it refines is boxed. -/
theorem override_disagrees :
    let c : Context := ⟨⟨.inheritance, .standard⟩, 8⟩
    let u : SourceUnit := .listing [(⟨6⟩, [⟨7⟩]), (⟨3⟩, []), (⟨5⟩, [])]
    let decided := (after (c.decideUnit u) { marks := {} }).marks
    result (c.decideUnit u) { marks := {} } = .ok () ∧ ⟨5⟩ ∈ u.declared ∧
      RefinementChain c u ⟨5⟩ [⟨5⟩, ⟨3⟩] ⟨3⟩ ∧
      decided.unboxed ⟨5⟩ = some true ∧ decided.unboxed ⟨3⟩ = some false := by
  refine ⟨rfl, by decide, ?_, rfl, rfl⟩
  exact ⟨.step rfl (.top rfl), by decide, by decide, by decide, by decide, .inl (by decide),
    by decide⟩

end Context

end Unbox
