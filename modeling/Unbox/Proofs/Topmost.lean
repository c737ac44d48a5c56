import Unbox.Refinement

/-!
# Topmost declarations along refinement pointers

* `Program.resolved` : what `Program.resolve` finds, as a function of the path; `resolve_run` says so,
  and that the path is left as it was;
* `Program.Applies d x s` : one of the rules gives the declaration `x` of id `d` the standing `s`;
* `Program.Climbs d chain top` : the refinement pointers lead from `d` along `chain` to `top`;
* `Program.topmost_of_climbs` : the topmost declaration of a member that is no parameter is the end
  of its chain, unless the chain is longer than the limit or its end stands for another method;
* `Program.Listed d` : `d` stands in a parameter list;
* `Program.listed_of_topmost` : a member that refines another one is the topmost declaration of
  nothing else, unless it stands in a parameter list.
-/

namespace Unbox.Program
variable {p : Program} {policy : Policy} {r : Rewrites}

/-! ## The path of a resolution -/

/-- The topmost declaration by a standing, when `found` holds those of the other declarations. -/
def Standing.target (found : DeclId → Option DeclId) : Standing → Option DeclId
  | .settled d => some d
  | .like d => found d

/-- What `resolve` finds while the declarations on `path` are being resolved. -/
def resolved (p : Program) (policy : Policy) (r : Rewrites) :
    Nat → List DeclId → DeclId → Option DeclId
  | 0, _, _ => none
  | room + 1, path, d =>
    if path.contains d then none
    else match p.decl? d with
      | none => some d
      | some x =>
        match p.askedMethod? policy x with
        | none => (p.standing policy r d x).target (resolved p policy r room (d :: path))
        | some function =>
          match resolved p policy r room (d :: path) function with
          | none => none
          | some refined =>
            (p.methodParameter d function refined).target (resolved p policy r room (d :: path))

theorem entering_run {α : Type} {d : DeclId} {act : Resolving α} {path : List DeclId} {a : α}
    (h : act.run (d :: path) = (a, d :: path)) :
    (Resolving.entering d act).run path = (a, path) := by
  have hrun : (Resolving.entering d act).run path =
      ((act.run (d :: path)).1, (act.run (d :: path)).2.erase d) := rfl
  rw [hrun, h, List.erase_cons_head]

theorem run_bind {α β : Type} {act : Resolving α} {f : α → Resolving β} {path : List DeclId} {a : α}
    (h : act.run path = (a, path)) : (act >>= f).run path = (f a).run path := by
  rw [StateT.run_bind, h]
  rfl

theorem follow_run {resolve : DeclId → Resolving (Option DeclId)} {found : DeclId → Option DeclId}
    {path : List DeclId} (h : ∀ e, (resolve e).run path = (found e, path)) (s : Standing) :
    (s.follow resolve).run path = (s.target found, path) := by
  cases s with
  | settled e => rfl
  | like e => exact h e

/-- By induction on the room: a rule resolves on the path with `d` in front, which every resolution
leaves there. -/
theorem resolve_run (room : Nat) (path : List DeclId) (d : DeclId) :
    (p.resolve policy r room d).run path = (p.resolved policy r room path d, path) := by
  induction room generalizing path d with
  | zero => rfl
  | succ room ih =>
    have hget : ((get : Resolving (List DeclId))).run path = (path, path) := rfl
    rw [resolve, run_bind hget]
    by_cases hc : path.contains d = true
    · rw [if_pos hc, resolved, if_pos hc]
      rfl
    · rw [if_neg hc]
      apply entering_run
      have hfollow := follow_run (ih (d :: path))
      simp only [applyRules, resolved, if_neg hc]
      cases hx : p.decl? d with
      | none => rfl
      | some x =>
        cases hf : p.askedMethod? policy x with
        | none =>
          simp only [hf]
          exact hfollow _
        | some function =>
          simp only [hf, run_bind (ih (d :: path) function)]
          cases hr : p.resolved policy r room (d :: path) function with
          | none => rfl
          | some refined => exact hfollow _

theorem topmost_eq (policy : Policy) (limit : Nat) (r : Rewrites) (d : DeclId) :
    p.topmost policy limit r d = (p.resolved policy r (max limit 1) [] d).getD d := by
  rw [topmost, resolve_run]

/-- One of the rules gives the declaration `x` of id `d` the standing `s`. -/
inductive Applies (p : Program) (policy : Policy) (r : Rewrites) (d : DeclId) (x : Declaration) :
    Standing → Prop where
  | alone : Applies p policy r d x (p.standing policy r d x)
  | asked {function refined : DeclId} (h : p.askedMethod? policy x = some function) :
    Applies p policy r d x (p.methodParameter d function refined)

/-- What is resolved is resolved by a rule, with `d` on the path. -/
theorem resolved_cases {room : Nat} {path : List DeclId} {d e : DeclId}
    (h : p.resolved policy r (room + 1) path d = some e) :
    (p.decl? d = none ∧ e = d) ∨ ∃ x s, p.decl? d = some x ∧ p.Applies policy r d x s ∧
      s.target (p.resolved policy r room (d :: path)) = some e := by
  rw [resolved] at h
  split at h
  · cases h
  cases hx : p.decl? d with
  | none =>
    simp only [hx, Option.some.injEq] at h
    exact .inl ⟨rfl, h.symm⟩
  | some x =>
    simp only [hx] at h
    refine .inr ⟨x, ?_⟩
    cases hf : p.askedMethod? policy x with
    | none =>
      simp only [hf] at h
      exact ⟨_, rfl, .alone, h⟩
    | some function =>
      simp only [hf] at h
      cases hr : p.resolved policy r room (d :: path) function with
      | none => simp [hr] at h
      | some refined =>
        simp only [hr] at h
        exact ⟨_, rfl, .asked hf, h⟩

/-! ## Chains -/

/-- The refinement pointers lead from `d` along `chain` to `top`, which refines no other one. -/
inductive Climbs (p : Program) : DeclId → List DeclId → DeclId → Prop where
  | top {d : DeclId} (h : p.refinedOther? d = none) : Climbs p d [d] d
  | step {d e top : DeclId} {chain : List DeclId}
    (h : p.decl? d >>= Declaration.refined = some e) (hs : Climbs p e chain top) :
    Climbs p d (d :: chain) top

theorem Climbs.top_mem {d top : DeclId} {chain : List DeclId} (h : p.Climbs d chain top) :
    top ∈ chain := by
  induction h with
  | top => exact List.mem_singleton_self _
  | step _ _ ih => exact List.mem_cons_of_mem _ ih

theorem Climbs.mem {d top : DeclId} {chain : List DeclId} (h : p.Climbs d chain top) :
    d ∈ chain := by
  cases h <;> simp

theorem Climbs.refinedOther? {d top : DeclId} {chain : List DeclId} (h : p.Climbs d chain top)
    (hn : chain.Nodup) (hne : top ≠ d) : p.refinedOther? d ≠ none := by
  cases h with
  | top => exact absurd rfl hne
  | @step _ e _ chain h hs =>
    have hed : e ≠ d := by
      rintro rfl
      exact (List.nodup_cons.mp hn).1 hs.mem
    simp [Program.refinedOther?, h, hed]

/-- What is no parameter goes the way of its refinement pointer, or of the method it stands for. -/
theorem resolved_of_not_parameter {room : Nat} {path : List DeclId} {d : DeclId} {x : Declaration}
    (hx : p.decl? d = some x) (h : x.isParameter = false) (hd : d ∉ path) :
    p.resolved policy r (room + 1) path d =
      (p.through ((p.shortcut r d x).getD d)).target (p.resolved policy r room (d :: path)) := by
  have ho : p.owningClass? x = none := by simp [owningClass?, h]
  have hm : p.isMethodParameter policy x = false := by simp [isMethodParameter, h]
  simp [resolved, hd, hx, askedMethod?, standing, ho, hm]

theorem through_of_some {d e : DeclId} (h : p.refinedOther? d = some e) :
    p.through d = .like e := by
  simp [through, h]

theorem through_of_none {d : DeclId} (h : p.refinedOther? d = none) :
    p.through d = .settled d := by
  simp [through, h]

theorem shortcut_of_refined {d e : DeclId} {x : Declaration} (hx : x.refined = some e)
    (he : e ≠ d) : p.shortcut r d x = none := by
  simp [shortcut, hx, he]

theorem shortcut_eq_some {d e : DeclId} {x : Declaration} (h : p.shortcut r d x = some e) :
    r.lookup d = some e := by
  unfold shortcut at h
  split at h
  · cases h
  split at h
  · split at h
    · exact h
    · cases h
  · cases h

theorem shortcut_of_lookup {d : DeclId} {x : Declaration} (h : r.lookup d = none) :
    p.shortcut r d x = none :=
  Option.eq_none_iff_forall_ne_some.mpr fun _ he => nomatch h.symm.trans (shortcut_eq_some he)

/-- By induction on the chain: its members so far are on `path`, and each takes one of the `room`. -/
theorem resolved_of_climbs {d top : DeclId} {chain : List DeclId} (h : p.Climbs d chain top)
    (hn : chain.Nodup) (hx : ∀ e ∈ chain, ∃ x, p.decl? e = some x ∧ x.isParameter = false)
    (ht : r.lookup top = none) {room : Nat} {path : List DeclId} (hr : chain.length ≤ room)
    (hp : ∀ e ∈ chain, e ∉ path) : p.resolved policy r room path d = some top := by
  induction h generalizing room path with
  | @top d h =>
    obtain ⟨room, rfl⟩ : ∃ n, room = n + 1 := ⟨room - 1, by simp at hr; omega⟩
    obtain ⟨x, hd, hpar⟩ := hx d (by simp)
    have hc : d ∉ path := hp d (by simp)
    rw [resolved_of_not_parameter hd hpar hc, shortcut_of_lookup ht, Option.getD_none,
      through_of_none h]
    rfl
  | @step d e top chain h hs ih =>
    obtain ⟨room, rfl⟩ : ∃ n, room = n + 1 := ⟨room - 1, by simp at hr; omega⟩
    obtain ⟨x, hd, hpar⟩ := hx d (by simp)
    have hc : d ∉ path := hp d (by simp)
    have hxe : x.refined = some e := by simpa [hd] using h
    have hed : e ≠ d := by
      rintro rfl
      exact (List.nodup_cons.mp hn).1 hs.mem
    have ho : p.refinedOther? d = some e := by simp [refinedOther?, hd, hxe, hed]
    rw [resolved_of_not_parameter hd hpar hc, shortcut_of_refined hxe hed, Option.getD_none,
      through_of_some ho]
    refine ih (List.nodup_cons.mp hn).2 (fun a ha => hx a (by simp [ha])) ht (by simpa using hr)
      fun a ha => ?_
    simp only [List.mem_cons, not_or]
    refine ⟨?_, hp a (by simp [ha])⟩
    rintro rfl
    exact (List.nodup_cons.mp hn).1 ha

theorem topmost_of_climbs {d top : DeclId} {chain : List DeclId} {limit : Nat}
    (h : p.Climbs d chain top) (hn : chain.Nodup)
    (hx : ∀ e ∈ chain, ∃ x, p.decl? e = some x ∧ x.isParameter = false)
    (ht : r.lookup top = none) (hl : chain.length ≤ limit) :
    p.topmost policy limit r d = top := by
  rw [topmost_eq, resolved_of_climbs h hn hx ht (by omega) (by simp)]
  rfl

/-! ## Members that are no topmost declaration -/

/-- `d` stands in a parameter list. -/
def Listed (p : Program) (d : DeclId) : Prop := ∃ x ∈ p.decls, ∃ list ∈ x.parameterLists, d ∈ list

instance (p : Program) (d : DeclId) : Decidable (p.Listed d) := by
  unfold Listed
  infer_instance

theorem listed_of_mem {f d : DeclId} {x : Declaration} {list : List DeclId}
    (hx : p.decl? f = some x)
    (hl : list ∈ x.parameterLists) (hd : d ∈ list) : p.Listed d :=
  ⟨x, Array.mem_of_getElem? hx, list, hl, hd⟩

theorem classCounterpart_cases {owner d c q : DeclId}
    (h : p.classCounterpart owner d = some (c, q)) :
    q = d ∨ p.Listed q := by
  unfold classCounterpart at h
  obtain ⟨x, -, h⟩ := Option.bind_eq_some_iff.mp h
  split at h
  · exact .inl (Prod.mk.inj (Option.some.inj h)).2.symm
  · obtain ⟨list, -, h⟩ := Option.bind_eq_some_iff.mp h
    obtain ⟨i, -, h⟩ := Option.bind_eq_some_iff.mp h
    have listed (b : DeclId) (h : (do
        let list ← (← p.decl? b).parameterLists.head?
        return (b, ← list[i]?)) = some (c, q)) : p.Listed q := by
      obtain ⟨y, hy, h⟩ := Option.bind_eq_some_iff.mp h
      obtain ⟨list, hl, h⟩ := Option.bind_eq_some_iff.mp h
      obtain ⟨q', hq, h⟩ := Option.bind_eq_some_iff.mp h
      obtain ⟨-, rfl⟩ := Prod.mk.inj (Option.some.inj h)
      exact listed_of_mem hy (List.mem_of_head? hl) (List.mem_of_getElem? hq)
    dsimp only at h
    split at h <;> obtain ⟨a, -, h⟩ := Option.bind_eq_some_iff.mp h
    all_goals
      split at h <;> obtain ⟨b, -, h⟩ := Option.bind_eq_some_iff.mp h <;> exact .inr (listed b h)

theorem isSome_of_refinableIn {owner e : DeclId} {member : Declaration}
    (h : p.refinableIn member owner = some e) : (p.decl? e).isSome = true := by
  obtain ⟨x, -, h⟩ := Option.bind_eq_some_iff.mp h
  have hr := List.find?_some h
  unfold isRefinable at hr
  cases he : p.decl? e with
  | none => simp [he] at hr
  | some y => rfl

theorem isSome_of_refinedMember {owner e : DeclId} {member : Declaration}
    (h : p.refinedMember owner member = some e) : (p.decl? e).isSome = true := by
  unfold refinedMember at h
  split at h
  · cases h
  · cases ha : (p.ancestors owner).findSome? (p.refinableIn member) with
    | none =>
      rw [ha] at h
      exact isSome_of_refinableIn h
    | some a =>
      rw [ha] at h
      cases h
      obtain ⟨b, -, hb⟩ := List.exists_of_findSome?_eq_some ha
      exact isSome_of_refinableIn hb

theorem exists_of_counterpart {d q : DeclId} {ass bss : List (List DeclId)}
    (h : counterpart d ass bss = .found q) : ∃ bs ∈ bss, q ∈ bs := by
  fun_induction counterpart d ass bss with
  | case1 => cases h
  | case2 as ass bs bss _ e he =>
    cases h
    obtain ⟨i, -, hi⟩ := Option.bind_eq_some_iff.mp he
    exact ⟨bs, List.mem_cons_self, List.mem_of_getElem? hi⟩
  | case3 as ass bs bss _ _ ih =>
    obtain ⟨cs, hcs, hq⟩ := ih h
    exact ⟨cs, List.mem_cons_of_mem bs hcs, hq⟩
  | case4 => cases h

theorem through_cases {d e : DeclId} :
    (p.through d = .settled e → e = d ∧ p.refinedOther? d = none) ∧
      (p.through d = .like e → p.refinedOther? d = some e) := by
  cases h : p.refinedOther? d with
  | none => simp [through, h, eq_comm]
  | some a => simp [through, h]

section Rules
variable {d e : DeclId} {x : Declaration} {s : Standing}

theorem classParameter_cases {owner : DeclId} :
    (p.classParameter owner d = .settled e → e = d ∨ p.Listed e) ∧
      (p.classParameter owner d = .like e → (p.decl? e).isSome = true) := by
  unfold classParameter
  split
  · exact ⟨fun h => .inl (Standing.settled.inj h).symm, nofun⟩
  next c q hq =>
  have hq := classCounterpart_cases hq
  split
  · exact ⟨fun h => .inl (Standing.settled.inj h).symm, nofun⟩
  split
  · next y hy refined hrefined =>
    split
    · exact ⟨fun h => Standing.settled.inj h ▸ hq, nofun⟩
    · refine ⟨nofun, fun h => ?_⟩
      cases h
      split at hrefined
      · exact isSome_of_refinedMember hrefined
      · cases hrefined
  · exact ⟨fun h => Standing.settled.inj h ▸ hq, nofun⟩

theorem methodParameter_cases {function refined : DeclId} :
    (p.methodParameter d function refined = .settled e → e = d) ∧
      (p.methodParameter d function refined = .like e →
        p.Listed e ∨ p.refinedOther? d = some e) := by
  have hown : (Standing.settled d = .settled e → e = d) ∧
      (Standing.settled d = .like e → p.Listed e ∨ p.refinedOther? d = some e) :=
    ⟨fun h => (Standing.settled.inj h).symm, nofun⟩
  unfold methodParameter
  split
  · exact hown
  split
  · next f g hf hg =>
    split
    · exact hown
    split
    · next q hq =>
      refine ⟨nofun, fun h => ?_⟩
      cases h
      obtain ⟨list, hl, hq⟩ := exists_of_counterpart hq
      exact .inl (listed_of_mem hg hl hq)
    · exact hown
    · exact ⟨fun h => (through_cases.1 h).1, fun h => .inr (through_cases.2 h)⟩
  · exact hown

theorem isParameter_of_owningClass? {owner : DeclId} (h : p.owningClass? x = some owner) :
    x.isParameter = true := by
  unfold owningClass? at h
  split at h
  · next hx => simp_all
  · cases h

theorem isParameter_of_isMethodParameter (h : p.isMethodParameter policy x = true) :
    x.isParameter = true := by
  unfold isMethodParameter at h
  simp_all

theorem isParameter_of_askedMethod? {function : DeclId}
    (h : p.askedMethod? policy x = some function) : x.isParameter = true := by
  unfold askedMethod? at h
  split at h
  · next hm => exact isParameter_of_isMethodParameter (Bool.and_eq_true_iff.mp hm).2
  · cases h

/-- A declaration that settles the standing of `d` is the parameter `d` itself, a listed one, or one
without a refinement pointer: `d` itself or the method it stands for. -/
theorem Applies.settled (h : p.Applies policy r d x (.settled e)) :
    (e = d ∧ x.isParameter = true) ∨ p.Listed e ∨
      (p.refinedOther? e = none ∧ (e = d ∨ r.lookup d = some e)) := by
  generalize hs : Standing.settled e = s at h
  cases h with
  | alone =>
    unfold standing at hs
    split at hs
    · next ho =>
      rcases classParameter_cases.1 hs.symm with rfl | hl
      · exact .inl ⟨rfl, isParameter_of_owningClass? ho⟩
      · exact .inr (.inl hl)
    split at hs
    · next hm =>
      cases hs
      exact .inl ⟨rfl, isParameter_of_isMethodParameter hm⟩
    · obtain ⟨he, hr⟩ := through_cases.1 hs.symm
      refine .inr (.inr ⟨he ▸ hr, ?_⟩)
      cases ha : p.shortcut r d x with
      | none => exact .inl (by simpa [ha] using he)
      | some a =>
        obtain rfl : e = a := by simpa [ha] using he
        exact .inr (shortcut_eq_some ha)
  | asked hf => exact .inl ⟨methodParameter_cases.1 hs.symm, isParameter_of_askedMethod? hf⟩

/-- A standing that refers to another declaration refers to one in the table, to a listed one or to
one that a declaration refines. -/
theorem Applies.like (h : p.Applies policy r d x (.like e)) :
    (p.decl? e).isSome = true ∨ p.Listed e ∨ ∃ a, p.refinedOther? a = some e := by
  generalize hs : Standing.like e = s at h
  cases h with
  | alone =>
    unfold standing at hs
    split at hs
    · exact .inl (classParameter_cases.2 hs.symm)
    split at hs
    · cases hs
    · exact .inr (.inr ⟨_, through_cases.2 hs.symm⟩)
  | asked hf =>
    rcases methodParameter_cases.2 hs.symm with hl | hr
    · exact .inr (.inl hl)
    · exact .inr (.inr ⟨d, hr⟩)

end Rules

/-- By induction on the room: a rule that settles on `d` found it in a list, and the way along the
refinement pointers does not end at `d`. -/
theorem listed_of_resolved {d : DeclId} {x : Declaration} (hx : p.decl? d = some x)
    (hp : x.isParameter = false) (ho : p.refinedOther? d ≠ none) :
    ∀ {room : Nat} {path : List DeclId} {e : DeclId},
      p.resolved policy r room path e = some d → p.Listed d
  | 0, _, _, h => by cases h
  | room + 1, path, e, h => by
    rcases resolved_cases h with ⟨he, rfl⟩ | ⟨y, s, he, happ, ht⟩
    · cases hx.symm.trans he
    cases s with
    | settled a =>
      obtain rfl : a = d := Option.some.inj ht
      rcases happ.settled with ⟨rfl, hpar⟩ | hl | ⟨hnone, -⟩
      · cases hx.symm.trans he
        cases hp.symm.trans hpar
      · exact hl
      · exact absurd hnone ho
    | like a => exact listed_of_resolved hx hp ho ht

theorem listed_of_topmost {d e : DeclId} {x : Declaration} {limit : Nat}
    (hx : p.decl? d = some x) (hp : x.isParameter = false) (ho : p.refinedOther? d ≠ none)
    (hed : e ≠ d) (h : p.topmost policy limit r e = d) : p.Listed d := by
  rw [topmost_eq] at h
  cases hr : p.resolved policy r (max limit 1) [] e with
  | none =>
    rw [hr] at h
    exact absurd h hed
  | some a =>
    rw [hr] at h
    obtain rfl : a = d := h
    exact listed_of_resolved hx hp ho hr

end Unbox.Program
