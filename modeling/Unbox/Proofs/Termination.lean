import Mathlib.Data.Finset.Card
import Mathlib.Data.List.TakeWhile
import Mathlib.Logic.Function.Iterate
import Mathlib.Logic.Relation
import Unbox.Policy.Standard
import Unbox.Proofs.Settling
import Unbox.Proofs.Topmost

/-!
# Every recursion ends, however cyclic the program

The recursions of the analysis go along pointers that may lead anywhere. Each of them keeps a list of
what is open or was seen, so what decreases is the number of entries of the table that are not in it.

* `Ends body n observe value` : the recursion `body` gives `value`, and its calls are nested at most
  `n` deep;
* `unseen size seen` : how many entries of a table of the given size are not in `seen`;
* `Program.resolveOnce`, `climbOnce`, `searchOnce`, `erasesOnce`, `Context.settleOnce` : one turn of
  each recursion, with nothing that counts the turns;
* `Program.Nested` : the calls of a resolution, each with the declarations whose calls are open then;
* `Context.recursions_end` : all of them end, and a resolution that comes back to an open declaration
  leaves the declaration that it started from.
-/

namespace Unbox

/-! ## Recursions -/

section Ends
variable {α β : Type}

/-- The recursion `body`, seen through `observe`, gives `value` whatever the calls would do that are
nested more than `n` deep: there are none. -/
def Ends (body : α → α) (n : Nat) (observe : α → β) (value : β) : Prop :=
  ∀ deeper, observe (body^[n] deeper) = value

/-- `Agree n f g` says that `f` and `g` agree wherever `n` turns are enough. If a turn makes functions
agree for one more turn, then `n` turns make any two functions agree there. -/
theorem ends_of_agree {body : α → α} {observe : α → β} {n : Nat} (Agree : Nat → α → α → Prop)
    (zero : ∀ f g, Agree 0 f g) (succ : ∀ n f g, Agree n f g → Agree (n + 1) (body f) (body g))
    (hobserve : ∀ f g, Agree n f g → observe f = observe g) (base : α) :
    Ends body n observe (observe (body^[n] base)) := by
  intro deeper
  apply hobserve
  clear hobserve
  induction n with
  | zero => exact zero deeper base
  | succ n ih =>
    rw [Function.iterate_succ_apply', Function.iterate_succ_apply']
    exact succ n _ _ ih

end Ends

/-- How many entries of a table of the given size are not in `seen`. -/
def unseen {k : Entity} (size : Nat) (seen : List (Id k)) : Nat :=
  ((Finset.range size).filter fun i => (⟨i⟩ : Id k) ∉ seen).card

theorem unseen_lt {k : Entity} (size : Nat) (seen : List (Id k)) : unseen size seen < size + 1 := by
  have h := Finset.card_filter_le (Finset.range size) fun i => (⟨i⟩ : Id k) ∉ seen
  rw [Finset.card_range] at h
  exact Nat.lt_succ_of_le h

theorem unseen_cons_lt {k : Entity} {size : Nat} {seen : List (Id k)} {a : Id k}
    (ha : a.index < size) (hs : a ∉ seen) : unseen size (a :: seen) < unseen size seen := by
  refine Finset.card_lt_card ⟨fun i hi => ?_, fun hsub => ?_⟩
  · obtain ⟨hr, hi⟩ := Finset.mem_filter.mp hi
    exact Finset.mem_filter.mpr ⟨hr, fun hm => hi (List.mem_cons_of_mem a hm)⟩
  · have hmem : a.index ∈ (Finset.range size).filter fun i => (⟨i⟩ : Id k) ∉ seen :=
      Finset.mem_filter.mpr ⟨Finset.mem_range.mpr ha, hs⟩
    exact (Finset.mem_filter.mp (hsub hmem)).2 List.mem_cons_self

namespace Program
variable (p : Program)

/-! ## Climbing and searching -/

/-- One turn of climbing from `d` along extension while `keep` holds. -/
def climbOnce (keep : Declaration → Bool) (again : List DeclId → DeclId → Option DeclId)
    (seen : List DeclId) (d : DeclId) : Option DeclId := do
  let x ← p.decl? d
  if !keep x then some d
  else if seen.contains d then none
  else again (d :: seen) (← p.extendedClass? d)

/-- One turn of a search along `next`. -/
def searchOnce {α : Type} [DecidableEq α] (next : α → List α) (again : List α → List α → List α)
    (seen queue : List α) : List α :=
  match queue.dropWhile fun a => seen.contains a with
  | [] => []
  | a :: rest => a :: again (a :: seen) (rest ++ next a)

variable {p} {d : DeclId} {x : Declaration} {seen : List DeclId}

/-- Fewer declarations are unseen once a new one of the table is seen. -/
theorem unseen_cons_of_decl? (hx : p.decl? d = some x) (hd : d ∉ seen) :
    unseen p.decls.size (d :: seen) < unseen p.decls.size seen :=
  unseen_cons_lt (of_decide_eq_true (hasDecl_of_decl? hx)) hd

theorem climb_eq (keep : Declaration → Bool) (n : Nat) :
    p.climb keep n = (p.climbOnce keep)^[n] fun _ _ => none := by
  induction n with
  | zero => rfl
  | succ n ih =>
    rw [Function.iterate_succ_apply', ← ih]
    rfl

theorem climb_ends (keep : Declaration → Bool) (d : DeclId) :
    Ends (p.climbOnce keep) (p.decls.size + 1) (fun climb => climb [] d) (p.climbWhile keep d) := by
  unfold climbWhile
  rw [climb_eq]
  refine ends_of_agree (fun n f g => ∀ seen d, unseen p.decls.size seen < n → f seen d = g seen d)
    (fun _ _ _ _ h => absurd h (Nat.not_lt_zero _)) (fun n f g hfg seen d h => ?_)
    (fun f g hfg => hfg [] d (unseen_lt _ _)) _
  unfold climbOnce
  cases hx : p.decl? d with
  | none => rfl
  | some x =>
    by_cases hd : d ∈ seen
    · simp [hd]
    · have hlt := unseen_cons_of_decl? hx hd
      have hnext (e : DeclId) : f (d :: seen) e = g (d :: seen) e := hfg _ e (by omega)
      simp only [hnext]

theorem breadthFirst_eq {α : Type} [DecidableEq α] (next : α → List α) (n : Nat) :
    breadthFirst next n = (searchOnce next)^[n] fun _ _ => [] := by
  induction n with
  | zero => rfl
  | succ n ih =>
    rw [Function.iterate_succ_apply', ← ih]
    rfl

theorem decl?_of_mem_parents {a : DeclId} (h : a ∈ p.parents d) : ∃ x, p.decl? a = some x := by
  unfold parents at h
  cases hd : p.decl? d with
  | none => simp [hd] at h
  | some y =>
    simp only [hd] at h
    obtain ⟨x, hx, -⟩ := (Option.any_eq_true _ _).mp (List.mem_filter.mp h).2
    exact ⟨x, hx⟩

theorem search_ends (d : DeclId) :
    Ends (searchOnce p.parents) (p.decls.size + 1) (fun search => search [d] (p.parents d))
      (p.ancestors d) := by
  unfold ancestors
  rw [breadthFirst_eq]
  refine ends_of_agree (fun n f g => ∀ seen queue, (∀ a ∈ queue, ∃ x, p.decl? a = some x) →
      unseen p.decls.size seen < n → f seen queue = g seen queue)
    (fun _ _ _ _ _ h => absurd h (Nat.not_lt_zero _)) (fun n f g hfg seen queue hq h => ?_)
    (fun f g hfg => hfg [d] _ (fun a => decl?_of_mem_parents) (unseen_lt _ _)) _
  unfold searchOnce
  cases hdrop : queue.dropWhile fun a => seen.contains a with
  | nil => rfl
  | cons a rest =>
    have hsub : ∀ b ∈ a :: rest, b ∈ queue := fun b hb =>
      (List.dropWhile_suffix _).mem (hdrop ▸ hb)
    have ha : a ∉ seen := by
      have h := List.head?_dropWhile_not (fun a => seen.contains a) queue
      rw [hdrop] at h
      simpa using h
    obtain ⟨x, hx⟩ := hq a (hsub a List.mem_cons_self)
    have hlt := unseen_cons_of_decl? hx ha
    have hnext : f (a :: seen) (rest ++ p.parents a) = g (a :: seen) (rest ++ p.parents a) := by
      refine hfg _ _ (fun b hb => ?_) (by omega)
      rcases List.mem_append.mp hb with hb | hb
      · exact hq b (hsub b (List.mem_cons_of_mem a hb))
      · exact decl?_of_mem_parents hb
    simp only [hnext]

/-! ## Types -/

/-- `u` is one of the types that `t` is made of. -/
def PartOf (p : Program) (u t : TypeId) : Prop := ∃ form, p.form? t = some form ∧ u ∈ form.parts

/-- One turn of finding out whether a type erases to the top type. -/
def erasesOnce (p : Program) (again : TypeId → Bool) (t : TypeId) : Bool :=
  match p.optionalPayload? t with
  | some payload => again payload
  | none =>
    match p.form? t with
    | some (.nominal d _) => p.core.isTopClass d
    | some (.union _) | some (.intersection _) | some .nothing => true
    | some (.typeParameter _) | some .error | none => false

theorem erasesToObjectTo_eq (n : Nat) : p.erasesToObjectTo n = p.erasesOnce^[n] fun _ => false := by
  induction n with
  | zero => rfl
  | succ n ih =>
    rw [Function.iterate_succ_apply', ← ih]
    rfl

theorem partOf_of_optionalPayload? {t u : TypeId} (h : p.optionalPayload? t = some u) :
    p.PartOf u t := by
  unfold optionalPayload? at h
  split at h
  · next members hform =>
    split at h
    · next payload hpartition =>
      obtain rfl : payload = u := Option.some.inj h
      rw [List.partition_eq_filter_filter] at hpartition
      have hmem : payload ∈ members.filter (not ∘ p.isNull) := by
        rw [(Prod.mk.inj hpartition).2]
        exact List.mem_singleton_self payload
      exact ⟨_, hform, (List.mem_filter.mp hmem).1⟩
    · cases h
  · cases h

/-- Two walks over types that find the same for a type whenever they do for what it is made of find the
same for all types, if no type is nested in itself and both may go deeper than the table is long. -/
theorem eq_of_deep {α : Type} (hw : WellFounded p.PartOf) {F G : Nat → TypeId → α}
    (step : ∀ m n t, (∀ u, p.PartOf u t → F m u = G n u) → F (m + 1) t = G (n + 1) t)
    {m n : Nat} (hm : p.types.size < m) (hn : p.types.size < n) (t : TypeId) : F m t = G n t := by
  -- `seen` are the types around `t`, which are all different since none is nested in itself
  have within : ∀ m n t (seen : List TypeId), (∀ u ∈ seen, Relation.TransGen p.PartOf t u) →
      unseen p.types.size seen < m → unseen p.types.size seen < n → F m t = G n t := by
    intro m
    induction m with
    | zero => exact fun _ _ _ _ h => absurd h (Nat.not_lt_zero _)
    | succ m ih =>
      intro n t seen hs hm hn
      obtain ⟨n, rfl⟩ := Nat.exists_eq_succ_of_ne_zero (Nat.ne_zero_of_lt hn)
      refine step m n t fun u hu => ?_
      have ⟨form, hform, _⟩ := hu
      have ht : t ∉ seen := fun hmem => hw.transGen.asymmetric t t (hs t hmem) (hs t hmem)
      have hlt := unseen_cons_lt (of_decide_eq_true (hasType_of_form? hform)) ht
      have hnext : ∀ a ∈ t :: seen, Relation.TransGen p.PartOf u a :=
        List.forall_mem_cons.mpr ⟨.single hu, fun a ha => .head hu (hs a ha)⟩
      exact ih n u (t :: seen) hnext (by omega) (by omega)
  have hall := unseen_lt p.types.size ([] : List TypeId)
  exact within m n t [] (List.forall_mem_nil _) (by omega) (by omega)

theorem erasesOnce_congr {f g : TypeId → Bool} {t : TypeId} (h : ∀ u, p.PartOf u t → f u = g u) :
    p.erasesOnce f t = p.erasesOnce g t := by
  unfold erasesOnce
  cases hp : p.optionalPayload? t with
  | none => rfl
  | some u => exact h u (partOf_of_optionalPayload? hp)

/-- A type that is nested in itself is the only way not to end. -/
theorem erases_ends (hw : WellFounded p.PartOf) (t : TypeId) :
    Ends p.erasesOnce p.typeDepth (fun erases => erases t) (p.erasesToObject t) := by
  intro deeper
  rw [erasesToObject, erasesToObjectTo_eq]
  refine eq_of_deep hw (F := fun n => p.erasesOnce^[n] deeper)
    (G := fun n => p.erasesOnce^[n] fun _ => false) (fun m n t h => ?_)
    (Nat.lt_succ_self _) (Nat.lt_succ_self _) t
  simp only [Function.iterate_succ_apply']
  exact erasesOnce_congr h

/-! ## Resolution -/

/-- One turn of resolving `d`. -/
def resolveOnce (p : Program) (policy : Policy) (r : Rewrites) (limit : Nat)
    (again : DeclId → Resolving (Option DeclId)) (d : DeclId) : Resolving (Option DeclId) := do
  let path ← get
  if limit ≤ path.length || path.contains d then return none
  else Resolving.entering d (p.applyRules policy r again d)

section Resolution
variable {policy : Policy} {r : Rewrites} {limit : Nat}

theorem entering_congr {α : Type} {act act' : Resolving α} {path : List DeclId}
    (h : act.run (d :: path) = act'.run (d :: path)) :
    (Resolving.entering d act).run path = (Resolving.entering d act').run path := by
  have hrun (act : Resolving α) : (Resolving.entering d act).run path =
      ((act.run (d :: path)).1, (act.run (d :: path)).2.erase d) := rfl
  rw [hrun, hrun, h]

/-- The rules see nothing of the resolutions but what they find on the path. -/
theorem applyRules_congr {f g : DeclId → Resolving (Option DeclId)} {found : DeclId → Option DeclId}
    {path : List DeclId} (hf : ∀ e, (f e).run path = (found e, path))
    (hg : ∀ e, (g e).run path = (found e, path)) (d : DeclId) :
    (p.applyRules policy r f d).run path = (p.applyRules policy r g d).run path := by
  have hfollow (s : Standing) : (s.follow f).run path = (s.follow g).run path :=
    (follow_run hf s).trans (follow_run hg s).symm
  unfold applyRules
  cases hx : p.decl? d with
  | none => rfl
  | some x =>
    cases hm : p.askedMethod? policy x with
    | none =>
      simp only [hm]
      exact hfollow _
    | some function =>
      simp only [hm, run_bind (hf function), run_bind (hg function)]
      cases hr : found function with
      | none => rfl
      | some refined => exact hfollow _

/-- By induction on the turns: with every turn a declaration of the table is opened that was not open
before. -/
theorem resolveOnce_iterate {n : Nat} {deeper : DeclId → Resolving (Option DeclId)}
    {path : List DeclId} (h : unseen p.decls.size path < n) :
    (((p.resolveOnce policy r limit)^[n] deeper) d).run path =
      (p.resolve policy r (limit - path.length) d).run path := by
  induction n generalizing d path with
  | zero => exact absurd h (Nat.not_lt_zero _)
  | succ n ih =>
    rw [Function.iterate_succ_apply']
    have hget : ((get : Resolving (List DeclId))).run path = (path, path) := rfl
    rw [resolveOnce, run_bind hget]
    by_cases hl : limit ≤ path.length
    · rw [Nat.sub_eq_zero_of_le hl, if_pos (by simp [hl])]
      rfl
    · obtain ⟨k, hk⟩ : ∃ k, limit = path.length + 1 + k := ⟨limit - path.length - 1, by omega⟩
      have hroom : limit - path.length = k + 1 := by omega
      rw [hroom, resolve, run_bind hget]
      by_cases hd : d ∈ path
      · rw [if_pos (by simp [hd]), if_pos (by simpa using hd)]
      · rw [if_neg (by simp [hl, hd]), if_neg (by simpa using hd)]
        apply entering_congr
        cases hx : p.decl? d with
        | none => simp only [applyRules, hx]
        | some x =>
          have hlt := unseen_cons_of_decl? hx hd
          have hopen : unseen p.decls.size (d :: path) < n := by omega
          refine applyRules_congr (fun e => ?_) (resolve_run k (d :: path)) d
          rw [ih hopen, List.length_cons, resolve_run, hk, Nat.add_sub_cancel_left]

theorem resolve_ends (d : DeclId) :
    Ends (p.resolveOnce policy r (max limit 1)) (p.decls.size + 1)
      (fun resolve => ((resolve d).run []).1.getD d) (p.topmost policy limit r d) := by
  intro deeper
  dsimp only
  rw [resolveOnce_iterate (unseen_lt _ _)]
  rfl

variable (p policy r limit)

/-- The resolution of `d`, while the calls for `path` are open, calls for the resolution of another
declaration: of the function of a parameter, then of the counterpart that this leads to, or of the
declaration that the first rule gives. -/
inductive Asks (path : List DeclId) (d : DeclId) : DeclId → Prop where
  | standing {x : Declaration} {z : DeclId} (hx : p.decl? d = some x)
    (hm : p.askedMethod? policy x = none) (hs : p.standing policy r d x = .like z) : Asks path d z
  | function {x : Declaration} {f : DeclId} (hx : p.decl? d = some x)
    (hm : p.askedMethod? policy x = some f) : Asks path d f
  | counterpart {x : Declaration} {f refined z : DeclId} (hx : p.decl? d = some x)
    (hm : p.askedMethod? policy x = some f)
    (hf : ((p.resolve policy r (limit - (path.length + 1)) f).run (d :: path)).1 = some refined)
    (hs : p.methodParameter d f refined = .like z) : Asks path d z

/-- The resolution of `start` comes to a call for a declaration, while the calls for a path are open.
A call goes on to others unless it is too deep or for an open declaration. -/
inductive Nested (start : DeclId) : List DeclId → DeclId → Prop where
  | start : Nested start [] start
  | call {path : List DeclId} {d e : DeclId} (h : Nested start path d) (hl : path.length < limit)
    (hd : d ∉ path) (ha : p.Asks policy r limit path d e) : Nested start (d :: path) e

variable {p policy r limit}

/-- A call that finds nothing makes the one that it was made for find nothing. -/
theorem resolved_of_asks {path : List DeclId} {e : DeclId} (ha : p.Asks policy r limit path d e)
    (hl : path.length < limit)
    (h : p.resolved policy r (limit - (path.length + 1)) (d :: path) e = none) :
    p.resolved policy r (limit - path.length) path d = none := by
  obtain ⟨k, hk⟩ : ∃ k, limit - path.length = k + 1 := ⟨limit - path.length - 1, by omega⟩
  have hk' : limit - (path.length + 1) = k := by omega
  rw [hk'] at h
  rw [hk, resolved]
  by_cases hc : path.contains d = true
  · rw [if_pos hc]
  · rw [if_neg hc]
    cases ha with
    | standing hx hm hs =>
      simp only [hx, hm, hs]
      exact h
    | function hx hm => simp only [hx, hm, h]
    | @counterpart x f refined _ hx hm hf hs =>
      have hf' : p.resolved policy r k (d :: path) f = some refined := by
        rwa [resolve_run, hk'] at hf
      simp only [hx, hm, hf', hs]
      exact h

theorem resolved_of_nested {start e : DeclId} {path : List DeclId}
    (hn : p.Nested policy r limit start path e)
    (h : p.resolved policy r (limit - path.length) path e = none) :
    p.resolved policy r limit [] start = none := by
  induction hn with
  | start => exact h
  | call _ hl _ ha ih => exact ih (resolved_of_asks ha hl h)

/-- A resolution that comes back to an open declaration leaves the declaration it started from. -/
theorem topmost_of_nested {start e : DeclId} {path : List DeclId}
    (hn : p.Nested policy r (max limit 1) start path e) (he : e ∈ path) :
    p.topmost policy limit r start = start := by
  have hnone : p.resolved policy r (max limit 1 - path.length) path e = none := by
    cases max limit 1 - path.length with
    | zero => rfl
    | succ room => rw [resolved, if_pos (by simpa using he)]
  rw [topmost_eq, resolved_of_nested hn hnone]
  rfl

end Resolution

end Program

/-! ## Decisions -/

namespace Decide
variable {α β : Type}

/-- While exactly the declarations `pending` are being decided, both steps do the same. -/
def SameAt (pending : List DeclId) (x y : Decide α) : Prop :=
  ∀ s : Decisions, s.pending = pending → x.run.run s = y.run.run s

namespace SameAt
variable {pending : List DeclId} {W : Marks → Marks → Prop}

theorem refl (x : Decide α) : SameAt pending x x := fun _ _ => rfl

theorem bind_left {x y : Decide α} (h : SameAt pending x y) (f : α → Decide β) :
    SameAt pending (x >>= f) (y >>= f) := by
  intro s hs
  simp only [ExceptT.run_bind, StateT.run_bind, h s hs]

/-- What comes first leaves the declarations being decided. -/
theorem bind_right {x : Decide α} {f g : α → Decide β} (hx : Follows W x)
    (h : ∀ a, SameAt pending (f a) (g a)) : SameAt pending (x >>= f) (x >>= g) := by
  intro s hs
  have hafter : (x.run.run s).2.pending = pending := (hx s).pending.trans hs
  simp only [ExceptT.run_bind, StateT.run_bind]
  rcases hrun : x.run.run s with ⟨e | a, t⟩
  · rfl
  · rw [hrun] at hafter
    exact h a t hafter

theorem get_bind {f g : Decisions → Decide β}
    (h : ∀ s : Decisions, s.pending = pending → SameAt pending (f s) (g s)) :
    SameAt pending (get >>= f) (get >>= g) := fun s hs => h s hs s hs

theorem lookup_bind {c : Context} {d : DeclId} {f g : Declaration → Decide β}
    (h : ∀ x, c.program.decl? d = some x → SameAt pending (f x) (g x)) :
    SameAt pending (c.lookup d >>= f) (c.lookup d >>= g) := by
  cases hx : c.program.decl? d with
  | some x =>
    rw [Context.lookup_bind_of_decl? hx, Context.lookup_bind_of_decl? hx]
    exact h x hx
  | none =>
    have hfails (f : Declaration → Decide β) : c.lookup d >>= f =
        throw (.unknownDeclaration d .unknown) := by
      rw [Context.lookup, Context.lookupAt, Program.decl, hx]
      rfl
    rw [hfails, hfails]
    exact refl _

theorem ite {p : Prop} [Decidable p] {x x' y y' : Decide α} (hx : p → SameAt pending x x')
    (hy : ¬ p → SameAt pending y y') :
    SameAt pending (if p then x else y) (if p then x' else y') := by
  split
  · next h => exact hx h
  · next h => exact hy h

theorem deciding {d : DeclId} {x y : Decide α} (h : SameAt (d :: pending) x y) :
    SameAt pending (deciding d x) (deciding d y) := by
  intro s hs
  have hrun (act : Decide α) : (Decide.deciding d act).run.run s =
      let q := act.run.run { s with pending := d :: s.pending }
      (q.1, { q.2 with pending := q.2.pending.erase d }) := rfl
  rw [hrun, hrun, h _ (congrArg (d :: ·) hs)]

end SameAt

end Decide

namespace Context
open Decide
variable (c : Context)

/-- One turn of settling `d`, given its topmost declaration. -/
def settleOnce (again : DeclId → DeclId → Decide Unit) (d topmost : DeclId) : Decide Unit := do
  let x ← c.lookup d
  let some type := x.type | return
  let refined := c.source d topmost x
  c.inheritUnderlying d refined type
  if (← unboxed d).isSome then return
  if (← get).pending.contains d then
    count fun s => { s with reentrant := s.reentrant + 1 }
    return
  let inherit (r : DeclId) : Decide Unit := do
    let _ ← c.lookup r
    if (← unboxed r).isNone then again r r
  match ← deciding d (c.verdict inherit d refined type) with
  | some b => modifyMarks (·.setUnboxed d b)
  | none => return

/-- Decides a declaration outside of any tree, and settles it with `settle`. -/
def ensureBy (settle : DeclId → DeclId → Decide Unit) (d : DeclId) : Decide Unit := do
  if (← c.lookup d).isMethod then
    let refined ← c.topmost d
    if !(← c.lookup refined).isMethod then return
    if (← c.lookup d).name.isSome then settle d refined
    else modifyMarks (·.setUnboxed d false)
  else
    let refined ← c.topmost d
    settle d refined

variable {c}

theorem settleWithin_eq (n : Nat) :
    c.settleWithin n = c.settleOnce^[n] fun _ _ => pure () := by
  induction n with
  | zero => rfl
  | succ n ih =>
    rw [Function.iterate_succ_apply', ← ih]
    rfl

section SameAt
variable {pending : List DeclId} {f g : DeclId → Decide Unit}

theorem sameAt_inheritedFrom (h : ∀ z, SameAt pending (f z) (g z)) (z : DeclId) :
    SameAt pending (c.inheritedFrom f z) (c.inheritedFrom g z) := (h z).bind_left _

/-- A verdict depends on what is settled for it only as far as that is asked for while the same
declarations are being decided. -/
theorem sameAt_verdict (h : ∀ z, SameAt pending (f z) (g z)) (d refined : DeclId) (type : TypeId) :
    SameAt pending (c.verdict f d refined type) (c.verdict g d refined type) := by
  have erased : Follows (Write c.toTarget ⊥ ⊥) (c.isErasedTypeParameter type) :=
    .isErasedTypeParameter type
  have nested {α : Type} (e : Except Failure α) :
      Follows (Write c.toTarget ⊥ ⊥) (MonadExcept.ofExcept e : Decide α) := .ofExcept e
  have topmost (f : DeclId) : Follows (Write c.toTarget ⊥ ⊥) (c.topmost f) := .topmost f
  unfold verdict
  refine .lookup_bind fun x _ => .ite (fun _ => .refl _) fun _ => ?_
  refine .ite (fun _ => sameAt_inheritedFrom h refined) fun _ => ?_
  refine .bind_right erased fun _ => .bind_right (nested _) fun _ => ?_
  refine .ite (fun _ => .refl _) fun _ => .ite (fun _ => .refl _) fun _ => ?_
  refine .ite (fun _ => .bind_right (nested _) fun function => ?_) fun _ => .refl _
  refine .ite (fun _ => ?_) fun _ => .refl _
  refine .bind_right (topmost function) fun _ => .ite (fun _ => .refl _) fun _ => ?_
  exact sameAt_inheritedFrom h _

/-- A turn settles others only while one more declaration of the table is being decided. -/
theorem sameAt_settleOnce {again again' : DeclId → DeclId → Decide Unit} {d topmost : DeclId}
    (h : ∀ x, c.program.decl? d = some x → d ∉ pending →
      ∀ z, SameAt (d :: pending) (again z z) (again' z z)) :
    SameAt pending (c.settleOnce again d topmost) (c.settleOnce again' d topmost) := by
  unfold settleOnce
  refine .lookup_bind fun x hx => ?_
  cases x.type with
  | none => exact .refl _
  | some type =>
    have underlying : Follows (Write c.toTarget ⊥ ⊥)
        (c.inheritUnderlying d (c.source d topmost x) type) := .inheritUnderlying d _ type
    have decision (z : DeclId) : Follows (Write c.toTarget ⊥ ⊥) (unboxed z) := .unboxed z
    dsimp only
    refine .bind_right underlying fun _ => .bind_right (decision d) fun _ => ?_
    refine .ite (fun _ => .refl _) fun _ => .get_bind fun s hs => .ite (fun _ => .refl _) fun hd => ?_
    refine .bind_left (.deciding (sameAt_verdict (fun z => ?_) d _ type)) _
    refine .lookup_bind fun _ _ => .bind_right (decision z) fun _ => ?_
    refine .ite (fun _ => h x hx ?_ z) fun _ => .refl _
    rw [← hs]
    simpa using hd

end SameAt

theorem sameAt_ensureBy {pending : List DeclId} {f g : DeclId → DeclId → Decide Unit}
    (h : ∀ d e, SameAt pending (f d e) (g d e)) (d : DeclId) :
    SameAt pending (c.ensureBy f d) (c.ensureBy g d) := by
  have topmost : Follows (Write c.toTarget ⊥ ⊥) (c.topmost d) := .topmost d
  unfold ensureBy
  refine .lookup_bind fun x _ => .ite (fun _ => .bind_right topmost fun refined => ?_) fun _ => ?_
  · refine .lookup_bind fun _ _ => .ite (fun _ => .refl _) fun _ => .lookup_bind fun _ _ => ?_
    exact .ite (fun _ => h d refined) fun _ => .refl _
  · exact .bind_right topmost fun refined => h d refined

theorem ensure_ends (d : DeclId) (s : Decisions) :
    Ends c.settleOnce (c.program.decls.size + 1) (fun settle => (c.ensureBy settle d).run.run s)
      ((c.ensure d).run.run s) := by
  have hensure : c.ensure d = c.ensureBy (c.settleWithin (c.program.decls.size + 1)) d := rfl
  rw [hensure, settleWithin_eq]
  refine ends_of_agree (fun n f g => ∀ pending, unseen c.program.decls.size pending < n →
      ∀ d e, SameAt pending (f d e) (g d e))
    (fun _ _ _ h => absurd h (Nat.not_lt_zero _)) (fun n f g hfg pending h d e => ?_)
    (fun f g hfg => sameAt_ensureBy (f := f) (g := g) (hfg _ (unseen_lt _ s.pending)) d s rfl) _
  refine sameAt_settleOnce fun x hx hd z => hfg _ ?_ z z
  have hlt := Program.unseen_cons_of_decl? hx hd
  omega

/-- If no type is nested in itself, then whatever else of the program is cyclic, and whatever rewrites
are in force, resolution, the walks that it makes, erasure and requests end: no calls are nested
deeper than there are entries in the table, and one more. And if a call of the resolution of `d` comes
back to a declaration whose own call is open, then `d` is its own topmost declaration. -/
theorem recursions_end (c : Context) (hw : WellFounded c.program.PartOf) :
    let p := c.program
    (∀ r d, Ends (p.resolveOnce c.policy r (max c.limit 1)) (p.decls.size + 1)
      (fun resolve => ((resolve d).run []).1.getD d) (p.topmost c.policy c.limit r d)) ∧
    (∀ keep d, Ends (p.climbOnce keep) (p.decls.size + 1) (fun climb => climb [] d)
      (p.climbWhile keep d)) ∧
    (∀ d, Ends (Program.searchOnce p.parents) (p.decls.size + 1)
      (fun search => search [d] (p.parents d)) (p.ancestors d)) ∧
    (∀ t, Ends p.erasesOnce (p.types.size + 1) (fun erases => erases t) (p.erasesToObject t)) ∧
    (∀ d s, Ends c.settleOnce (p.decls.size + 1) (fun settle => (c.ensureBy settle d).run.run s)
      ((c.ensure d).run.run s)) ∧
    ∀ r d path e, p.Nested c.policy r (max c.limit 1) d path e → e ∈ path →
      p.topmost c.policy c.limit r d = d :=
  ⟨fun _ => Program.resolve_ends, Program.climb_ends, Program.search_ends,
    Program.erases_ends hw, ensure_ends, fun _ _ _ _ => Program.topmost_of_nested⟩

end Context

/-- Two values that refine each other (0 and 1), and an alias (2) of itself with a parameter (3). -/
def Program.circular : Program where
  decls := #[
    { name := some ⟨0⟩, kind := .value, scope := .unit, type := some ⟨0⟩, refined := some ⟨1⟩ },
    { name := some ⟨1⟩, kind := .value, scope := .unit, type := some ⟨0⟩, refined := some ⟨0⟩ },
    { name := some ⟨2⟩, kind := .classType { list := some [⟨3⟩], extended := some ⟨0⟩ },
      scope := .unit, modifiers := ⟨[.synonym]⟩ },
    { name := some ⟨3⟩, kind := .value, scope := .declaration ⟨2⟩, type := some ⟨0⟩,
      modifiers := ⟨[.parameter]⟩ }]
  types := #[.nominal ⟨2⟩ []]

namespace Context

/-- The first value is its own topmost declaration since its resolution comes back to it, and the climb
from the alias ends with nothing after at most as many turns as there are declarations, and one. -/
theorem recursions_end_circular :
    let c : Context := ⟨⟨.circular, .standard⟩, 8⟩
    WellFounded c.program.PartOf ∧ c.program.topmost c.policy c.limit {} ⟨0⟩ = ⟨0⟩ ∧
      ∀ deeper, (c.program.climbOnce Declaration.isAlias)^[5] deeper [] ⟨2⟩ = none := by
  intro c
  have hw : WellFounded c.program.PartOf := by
    refine ⟨fun t => ⟨t, ?_⟩⟩
    rintro u ⟨form, hform, hu⟩
    obtain ⟨_ | n⟩ := t
    · cases hform
      cases hu
    · cases hform
  obtain ⟨-, hclimb, -, -, -, hopen⟩ := recursions_end c hw
  refine ⟨hw, hopen {} ⟨0⟩ [⟨1⟩, ⟨0⟩] ⟨0⟩ ?_ (by decide), hclimb Declaration.isAlias ⟨2⟩⟩
  have first : c.program.Nested c.policy {} 8 ⟨0⟩ [⟨0⟩] ⟨1⟩ :=
    .call .start (by decide) (by decide) (.standing rfl rfl rfl)
  exact .call first (by decide) (by decide) (.standing rfl rfl rfl)

end Context

end Unbox
