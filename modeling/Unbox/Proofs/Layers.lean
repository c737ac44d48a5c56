import Mathlib.Data.List.Nodup
import Mathlib.Data.Nat.Find
import Mathlib.Logic.Relation
import Unbox.Refinement

/-!
# Breadth-first search, layer by layer

A search that passes over what it has seen lists every element once, where the ways from the start
first come to it. So it is compared with the list of all ways, in which nothing is passed over.

* `layer next n as` : the ends of the ways of `n` steps from `as`, in the order in which the ways
  branch off; `layers next n as` : the layers before `n`, one after the other;
* `fresh seen as` : the first occurrences in `as` of what is not in `seen`;
* `breadthFirst_layers` : a search lists what is fresh in the layers;
* `Foremost next test s a` : among what passes the test, `a` is nearest to `s`, and it is the first in
  its layer; `exists_foremost`, there is one as soon as something in reach passes;
* `breadthFirst_of_foremost` : a search with enough fuel comes to `a` before anything else that
  passes.
-/

namespace Unbox

section Layers
variable {α : Type} (next : α → List α)

/-- The ends of the ways of `n` steps along `next` from `as`, in the order of the ways. -/
def layer : Nat → List α → List α
  | 0, as => as
  | n + 1, as => layer n (as.flatMap next)

/-- The layers before the given one, one after the other. -/
def layers : Nat → List α → List α
  | 0, _ => []
  | n + 1, as => as ++ layers n (as.flatMap next)

/-- A way along `next` leads from `a` to `b`. -/
def Reaches (a b : α) : Prop := Relation.ReflTransGen (fun c d => d ∈ next c) a b

/-- In the order of the layers, `a` is the first that passes the test: no nearer one does, and in the
layer of `a` none before it. -/
def Foremost (test : α → Prop) (s a : α) : Prop :=
  test a ∧ ∃ n before after, layer next n [s] = before ++ a :: after ∧ (∀ b ∈ before, ¬ test b) ∧
    ∀ k < n, ∀ b ∈ layer next k [s], ¬ test b

variable {next}

theorem layer_succ (n : Nat) (as : List α) :
    layer next (n + 1) as = (layer next n as).flatMap next := by
  induction n generalizing as with
  | zero => rfl
  | succ n ih => exact ih (as.flatMap next)

theorem layers_succ (n : Nat) (as : List α) :
    layers next (n + 1) as = layers next n as ++ layer next n as := by
  induction n generalizing as with
  | zero => simp [layers, layer]
  | succ n ih =>
    rw [layers, ih, layers, List.append_assoc]
    rfl

theorem mem_layers {n : Nat} {as : List α} {a : α} :
    a ∈ layers next n as ↔ ∃ k < n, a ∈ layer next k as := by
  induction n with
  | zero => simp [layers]
  | succ n ih =>
    rw [layers_succ, List.mem_append, ih]
    constructor
    · rintro (⟨k, hk, ha⟩ | ha)
      · exact ⟨k, by omega, ha⟩
      · exact ⟨n, by omega, ha⟩
    · rintro ⟨k, hk, ha⟩
      obtain hk | rfl : k < n ∨ k = n := by omega
      · exact .inl ⟨k, hk, ha⟩
      · exact .inr ha

theorem reaches_iff {s a : α} : Reaches next s a ↔ ∃ n, a ∈ layer next n [s] := by
  constructor
  · intro h
    induction h with
    | refl => exact ⟨0, List.mem_singleton_self s⟩
    | tail _ hstep ih =>
      obtain ⟨n, hn⟩ := ih
      exact ⟨n + 1, by rw [layer_succ]; exact List.mem_flatMap_of_mem hn hstep⟩
  · rintro ⟨n, h⟩
    induction n generalizing a with
    | zero =>
      obtain rfl := List.mem_singleton.mp h
      exact .refl
    | succ n ih =>
      rw [layer_succ] at h
      obtain ⟨b, hb, ha⟩ := List.mem_flatMap.mp h
      exact (ih hb).tail ha

/-- The first element of a list that passes a test, with what comes before and after. -/
theorem exists_first {test : α → Prop} {as : List α} (h : ∃ a ∈ as, test a) :
    ∃ a before after, as = before ++ a :: after ∧ test a ∧ ∀ b ∈ before, ¬ test b := by
  classical
  obtain ⟨a, ha, hta⟩ := h
  cases hfind : as.find? fun b => decide (test b) with
  | none => simpa [hta] using List.find?_eq_none.mp hfind a ha
  | some b =>
    obtain ⟨hb, before, after, heq, hbefore⟩ := List.find?_eq_some_iff_append.mp hfind
    exact ⟨b, before, after, heq, by simpa using hb, by simpa using hbefore⟩

theorem exists_foremost {test : α → Prop} {s : α} (h : ∃ a, Reaches next s a ∧ test a) :
    ∃ a, Foremost next test s a := by
  classical
  have hn : ∃ n, ∃ a ∈ layer next n [s], test a := by
    obtain ⟨a, hr, ha⟩ := h
    obtain ⟨n, hn⟩ := reaches_iff.mp hr
    exact ⟨n, a, hn, ha⟩
  obtain ⟨a, before, after, heq, ha, hbefore⟩ := exists_first (Nat.find_spec hn)
  refine ⟨a, ha, Nat.find hn, before, after, heq, hbefore, fun k hk b hb htb => ?_⟩
  exact Nat.find_min hn hk ⟨b, hb, htb⟩

/-- What is foremost for a test is so for a stronger one that it passes, as long as what is in reach
and passes the second test passes the first. -/
theorem Foremost.mono {test test' : α → Prop} {s a : α} (h : Foremost next test s a)
    (himp : ∀ b, Reaches next s b → test' b → test b) (ha : test' a) :
    Foremost next test' s a := by
  obtain ⟨-, n, before, after, heq, hbefore, hnearer⟩ := h
  refine ⟨ha, n, before, after, heq, fun b hb htest => ?_, fun k hk b hb htest => ?_⟩
  · exact hbefore b hb (himp b (reaches_iff.mpr ⟨n, by simp [heq, hb]⟩) htest)
  · exact hnearer k hk b hb (himp b (reaches_iff.mpr ⟨k, hb⟩) htest)

end Layers

/-! ## First occurrences -/

section Fresh
variable {α : Type} [DecidableEq α]

/-- The first occurrences of what is not in `seen`. -/
def fresh (seen : List α) : List α → List α
  | [] => []
  | a :: as => if a ∈ seen then fresh seen as else a :: fresh (a :: seen) as

variable {seen seen' as bs : List α}

theorem mem_fresh {a : α} : a ∈ fresh seen as ↔ a ∈ as ∧ a ∉ seen := by
  induction as generalizing seen with
  | nil => simp [fresh]
  | cons b as ih =>
    unfold fresh
    by_cases hb : b ∈ seen
    · rw [if_pos hb, ih, List.mem_cons]
      constructor
      · exact fun ⟨ha, hs⟩ => ⟨.inr ha, hs⟩
      · rintro ⟨rfl | ha, hs⟩
        · exact absurd hb hs
        · exact ⟨ha, hs⟩
    · rw [if_neg hb, List.mem_cons, ih, List.mem_cons, List.mem_cons]
      by_cases hab : a = b
      · simp [hab, hb]
      · simp [hab]

theorem nodup_fresh : (fresh seen as).Nodup := by
  induction as generalizing seen with
  | nil => exact List.nodup_nil
  | cons a as ih =>
    unfold fresh
    split
    · exact ih
    · exact List.nodup_cons.mpr ⟨fun h => (mem_fresh.mp h).2 List.mem_cons_self, ih⟩

theorem fresh_congr (h : ∀ a, a ∈ seen ↔ a ∈ seen') : fresh seen as = fresh seen' as := by
  induction as generalizing seen seen' with
  | nil => rfl
  | cons a as ih =>
    have hcons : ∀ b, b ∈ a :: seen ↔ b ∈ a :: seen' := fun b => by
      rw [List.mem_cons, List.mem_cons, h b]
    simp only [fresh, h a, ih h, ih hcons]

theorem fresh_append : fresh seen (as ++ bs) = fresh seen as ++ fresh (as ++ seen) bs := by
  induction as generalizing seen with
  | nil => rfl
  | cons a as ih =>
    rw [List.cons_append, fresh, fresh]
    by_cases ha : a ∈ seen
    · rw [if_pos ha, if_pos ha, ih]
      congr 1
      apply fresh_congr
      intro b
      by_cases hb : b = a
      · simp [hb, ha]
      · simp [hb]
    · rw [if_neg ha, if_neg ha, ih, List.cons_append]
      congr 2
      apply fresh_congr
      intro b
      simp only [List.mem_append, List.mem_cons]
      tauto

theorem fresh_of_subset (h : ∀ a ∈ as, a ∈ seen) : fresh seen as = [] := by
  apply List.eq_nil_iff_forall_not_mem.mpr
  intro a ha
  obtain ⟨ha, hs⟩ := mem_fresh.mp ha
  exact hs (h a ha)

theorem fresh_append_congr (h : fresh seen as = fresh seen bs) (cs : List α) :
    fresh seen (as ++ cs) = fresh seen (bs ++ cs) := by
  rw [fresh_append, fresh_append, h]
  congr 1
  apply fresh_congr
  intro a
  have ha : a ∈ fresh seen as ↔ a ∈ fresh seen bs := by rw [h]
  rw [mem_fresh, mem_fresh] at ha
  simp only [List.mem_append]
  tauto

/-- Elements that are not fresh add nothing to the next layer, if what comes next after those seen is
listed already. By induction on the layer, since `done` grows with what was seen. -/
theorem fresh_flatMap {next : α → List α} {done : List α}
    (h : ∀ a ∈ seen, ∀ b ∈ next a, b ∈ done) :
    fresh done ((fresh seen as).flatMap next) = fresh done (as.flatMap next) := by
  induction as generalizing seen done with
  | nil => rfl
  | cons a as ih =>
    rw [fresh, List.flatMap_cons]
    by_cases ha : a ∈ seen
    · have hdone : ∀ c, c ∈ next a ++ done ↔ c ∈ done := fun c => by
        have := h a ha c
        simp only [List.mem_append]
        tauto
      rw [if_pos ha, ih h, fresh_append, fresh_of_subset (h a ha), List.nil_append,
        fresh_congr hdone]
    · rw [if_neg ha, List.flatMap_cons, fresh_append, fresh_append]
      congr 1
      apply ih
      intro b hb c hc
      rcases List.mem_cons.mp hb with rfl | hb
      · exact List.mem_append_left _ hc
      · exact List.mem_append_right _ (h b hb c hc)

end Fresh

/-! ## The search -/

section Search
variable {α : Type} [DecidableEq α] {next : α → List α} {seen queue : List α} {a : α}

theorem breadthFirst_skip (ha : a ∈ seen) (fuel : Nat) :
    breadthFirst next fuel seen (a :: queue) = breadthFirst next fuel seen queue := by
  cases fuel with
  | zero => rfl
  | succ fuel => rw [breadthFirst, breadthFirst, List.dropWhile_cons_of_pos (by simpa using ha)]

theorem breadthFirst_visit (ha : a ∉ seen) (fuel : Nat) :
    breadthFirst next (fuel + 1) seen (a :: queue) =
      a :: breadthFirst next fuel (a :: seen) (queue ++ next a) := by
  rw [breadthFirst, List.dropWhile_cons_of_neg (by simpa using ha)]

theorem breadthFirst_nil (fuel : Nat) : breadthFirst next fuel seen [] = [] := by
  cases fuel <;> rfl

theorem breadthFirst_take (n k : Nat) :
    breadthFirst next n seen queue = (breadthFirst next (n + k) seen queue).take n := by
  induction n generalizing seen queue with
  | zero => rfl
  | succ n ih =>
    rw [Nat.add_right_comm, breadthFirst, breadthFirst]
    cases queue.dropWhile fun a => seen.contains a with
    | nil => rfl
    | cons a rest => rw [List.take_succ_cons, ← ih]

theorem breadthFirst_of_fresh_nil (h : fresh seen queue = []) (fuel : Nat) :
    breadthFirst next fuel seen queue = [] := by
  induction queue with
  | nil => exact breadthFirst_nil fuel
  | cons b queue ih =>
    by_cases hb : b ∈ seen
    · rw [fresh, if_pos hb] at h
      rw [breadthFirst_skip hb, ih h]
    · rw [fresh, if_neg hb] at h
      cases h

theorem breadthFirst_of_fresh_cons (next : α → List α) {as : List α}
    (h : fresh seen queue = a :: as) :
    ∃ rest, rest ⊆ queue ∧ fresh (a :: seen) rest = as ∧
      ∀ fuel, breadthFirst next (fuel + 1) seen queue =
        a :: breadthFirst next fuel (a :: seen) (rest ++ next a) := by
  induction queue with
  | nil => cases h
  | cons b queue ih =>
    by_cases hb : b ∈ seen
    · rw [fresh, if_pos hb] at h
      obtain ⟨rest, hsub, hrest, hsearch⟩ := ih h
      refine ⟨rest, fun c hc => List.mem_cons_of_mem b (hsub hc), hrest, fun fuel => ?_⟩
      rw [breadthFirst_skip hb, hsearch]
    · rw [fresh, if_neg hb] at h
      obtain ⟨rfl, rfl⟩ := List.cons.inj h
      exact ⟨queue, List.subset_cons_self b queue, rfl, breadthFirst_visit hb⟩

/-- A search only depends on which elements were seen and on what is fresh in the queue. -/
theorem breadthFirst_congr {seen' queue' : List α} (hs : ∀ a, a ∈ seen ↔ a ∈ seen')
    (hq : fresh seen queue = fresh seen queue') (fuel : Nat) :
    breadthFirst next fuel seen queue = breadthFirst next fuel seen' queue' := by
  induction fuel generalizing seen seen' queue queue' with
  | zero => rfl
  | succ fuel ih =>
    have hq' : fresh seen' queue' = fresh seen queue := by rw [hq, fresh_congr hs]
    cases h : fresh seen queue with
    | nil => rw [breadthFirst_of_fresh_nil h, breadthFirst_of_fresh_nil (hq'.trans h)]
    | cons a as =>
      obtain ⟨rest, -, hrest, hsearch⟩ := breadthFirst_of_fresh_cons next h
      obtain ⟨rest', -, hrest', hsearch'⟩ := breadthFirst_of_fresh_cons next (hq'.trans h)
      have hs' : ∀ b, b ∈ a :: seen ↔ b ∈ a :: seen' := fun b => by
        rw [List.mem_cons, List.mem_cons, hs b]
      rw [hsearch, hsearch', ih hs']
      apply fresh_append_congr
      rw [hrest, ← hrest', fresh_congr hs']

/-- The fresh elements at the front of the queue are listed, and what comes next after them is put at
the end of the queue. -/
theorem breadthFirst_append (next : α → List α) (seen as bs : List α) (fuel : Nat) :
    breadthFirst next ((fresh seen as).length + fuel) seen (as ++ bs) =
      fresh seen as ++ breadthFirst next fuel (as ++ seen) (bs ++ (fresh seen as).flatMap next) := by
  induction as generalizing seen bs with
  | nil => simp [fresh]
  | cons a as ih =>
    rw [fresh]
    by_cases ha : a ∈ seen
    · rw [if_pos ha, List.cons_append, breadthFirst_skip ha, ih]
      congr 1
      refine breadthFirst_congr (fun b => ?_) rfl fuel
      by_cases hb : b = a
      · simp [hb, ha]
      · simp [hb]
    · rw [if_neg ha, List.length_cons, Nat.add_right_comm, List.cons_append, breadthFirst_visit ha,
        List.append_assoc, ih, List.cons_append, List.append_assoc, List.flatMap_cons]
      congr 2
      refine breadthFirst_congr (fun b => ?_) rfl fuel
      simp only [List.cons_append, List.mem_append, List.mem_cons]
      tauto

/-- A search from `as` lists what is fresh in the first layers and goes on with the next one, if what
comes next after those seen is seen or in `as`. By induction on the number of layers: after the first
one, what comes next after those seen is seen or in the second one. -/
theorem breadthFirst_layers {as : List α} (h : ∀ a ∈ seen, ∀ b ∈ next a, b ∈ seen ∨ b ∈ as)
    (n fuel : Nat) :
    breadthFirst next ((fresh seen (layers next n as)).length + fuel) seen as =
      fresh seen (layers next n as) ++
        breadthFirst next fuel (layers next n as ++ seen) (layer next n as) := by
  induction n generalizing seen as with
  | zero => simp [layers, fresh, layer]
  | succ n ih =>
    have hclosed : ∀ a ∈ as ++ seen, ∀ b ∈ next a, b ∈ as ++ seen ∨ b ∈ as.flatMap next := by
      intro a ha b hb
      rcases List.mem_append.mp ha with ha | ha
      · exact .inr (List.mem_flatMap_of_mem ha hb)
      · have := h a ha b hb
        rw [List.mem_append]
        tauto
    have hqueue : fresh (as ++ seen) ((fresh seen as).flatMap next) =
        fresh (as ++ seen) (as.flatMap next) := by
      apply fresh_flatMap
      intro a ha b hb
      have := h a ha b hb
      rw [List.mem_append]
      tauto
    have hfirst := breadthFirst_append next seen as []
    simp only [List.append_nil, List.nil_append] at hfirst
    rw [layers, fresh_append, List.length_append, Nat.add_assoc, hfirst,
      breadthFirst_congr (fun _ => Iff.rfl) hqueue, ih hclosed, List.append_assoc]
    congr 2
    refine breadthFirst_congr (fun b => ?_) rfl fuel
    simp only [List.mem_append]
    tauto

/-- Only what is in reach of the queue and was not seen is listed. -/
theorem of_mem_breadthFirst {fuel : Nat} (h : a ∈ breadthFirst next fuel seen queue) :
    a ∉ seen ∧ ∃ b ∈ queue, Reaches next b a := by
  induction fuel generalizing seen queue with
  | zero => cases h
  | succ fuel ih =>
    cases hf : fresh seen queue with
    | nil => simp [breadthFirst_of_fresh_nil hf] at h
    | cons b as =>
      have hb : b ∈ queue ∧ b ∉ seen := mem_fresh.mp (by rw [hf]; exact List.mem_cons_self)
      obtain ⟨rest, hsub, -, hsearch⟩ := breadthFirst_of_fresh_cons next hf
      rw [hsearch] at h
      rcases List.mem_cons.mp h with rfl | h
      · exact ⟨hb.2, a, hb.1, .refl⟩
      · obtain ⟨ha, c, hc, hreach⟩ := ih h
        refine ⟨fun hs => ha (List.mem_cons_of_mem b hs), ?_⟩
        rcases List.mem_append.mp hc with hc | hc
        · exact ⟨c, hsub hc, hreach⟩
        · exact ⟨b, hb.1, hreach.head hc⟩

/-- A search comes to the foremost element that passes the test before any other that does, if it has
fuel for all the different elements that it may list before. -/
theorem breadthFirst_of_foremost {test : α → Prop} {s : α} {fuel : Nat}
    (h : Foremost next test s a) (hfuel : ∀ before : List α, before.Nodup →
      (∀ b ∈ before, Reaches next s b ∧ ¬ test b) → before.length < fuel) :
    ∃ before after, breadthFirst next fuel [] [s] = before ++ a :: after ∧
      ∀ b ∈ before, ¬ test b := by
  obtain ⟨ha, n, before, after, hlayer, hbefore, hnearer⟩ := h
  have hfails : ∀ b ∈ layers next n [s] ++ before, Reaches next s b ∧ ¬ test b := by
    intro b hb
    rcases List.mem_append.mp hb with hb | hb
    · obtain ⟨k, hk, hb⟩ := mem_layers.mp hb
      exact ⟨reaches_iff.mpr ⟨k, hb⟩, hnearer k hk b hb⟩
    · exact ⟨reaches_iff.mpr ⟨n, by simp [hlayer, hb]⟩, hbefore b hb⟩
  have hnew : a ∉ (layers next n [s] ++ before) ++ [] := by
    intro hmem
    rw [List.append_nil] at hmem
    exact (hfails a hmem).2 ha
  have hlist : layers next (n + 1) [s] = (layers next n [s] ++ before) ++ a :: after := by
    rw [layers_succ, hlayer, List.append_assoc]
  generalize layers next n [s] ++ before = ways at hfails hnew hlist
  have hfresh : ∀ b ∈ fresh [] ways, ¬ test b := fun b hb => (hfails b (mem_fresh.mp hb).1).2
  have hlength : (fresh [] ways).length < fuel :=
    hfuel _ nodup_fresh fun b hb => hfails b (mem_fresh.mp hb).1
  have hsearch := breadthFirst_layers
    (List.forall_mem_nil fun a => ∀ b ∈ next a, b ∈ [] ∨ b ∈ [s]) (n + 1) fuel
  rw [hlist, fresh_append, fresh, if_neg hnew, List.append_assoc, List.cons_append] at hsearch
  rw [breadthFirst_take fuel, Nat.add_comm fuel, hsearch, List.take_append, List.take_of_length_le
    (by omega)]
  obtain ⟨k, hk⟩ := Nat.exists_eq_succ_of_ne_zero (Nat.sub_ne_zero_of_lt hlength)
  rw [hk, List.take_succ_cons]
  exact ⟨_, _, rfl, hfresh⟩

end Search

end Unbox
