import Mathlib.Data.List.Nodup
import Mathlib.Logic.Relation
import Unbox.Policy.Standard
import Unbox.Proofs.Idempotence
import Unbox.Proofs.Limits

/-!
# Chains of refinement under a limit

The limit decides whether a resolution finds anything, never what it finds. Where no parameter is on
the way, it finds the end of the chain of refinement pointers, which is also the last declaration
that the test for widening looks at.

* `ComesBack next a` : the way from `a` along `next` comes to something that it leads back to;
* `Program.raised_limit_keeps_answer` : what is resolved under one limit is resolved alike under every
  higher one, and limits beyond the number of declarations agree;
* `Program.Refines`, `Program.Cyclic` : the pointers to other declarations, and a way along them that
  comes back;
* `Program.Plain d` : there is no parameter from `d` on along the pointers;
* `Program.resolved_plain_iff` : what the resolution of a plain chain finds, exactly;
* `Program.refinementChain_of_climbs` : the declarations that are looked at for widening;
* `Program.topmost_of_plain` : the topmost declaration of a plain chain under every limit.
-/

namespace Unbox

/-- The way from `a` along `next` comes to something that it leads back to. -/
def ComesBack {α : Type} (next : α → Option α) (a : α) : Prop :=
  ∃ b, Relation.ReflTransGen (fun x y => next x = some y) a b ∧
    Relation.TransGen (fun x y => next x = some y) b b

/-- A way that comes back goes on, and what it goes on to comes back too. -/
theorem ComesBack.exists_next {α : Type} {next : α → Option α} {a : α} (h : ComesBack next a) :
    ∃ b, next a = some b ∧ ComesBack next b := by
  obtain ⟨b, hab, hbb⟩ := h
  rcases Relation.ReflTransGen.cases_head hab with rfl | ⟨c, hac, hcb⟩
  · obtain ⟨c, hac, hca⟩ := Relation.TransGen.head'_iff.mp hbb
    exact ⟨c, hac, a, hca, hbb⟩
  · exact ⟨c, hac, b, hcb, hbb⟩

namespace Program
variable {p : Program} {policy : Policy} {r : Rewrites}

/-! ## Higher limits -/

/-- What is resolved, while `path` is being resolved, is resolved alike under every higher limit. So
the topmost declaration under a limit is the declaration itself or what it is under all higher limits,
and all limits beyond the number of declarations give the same. -/
theorem raised_limit_keeps_answer (p : Program) (policy : Policy) (r : Rewrites) (d : DeclId) :
    (∀ limit limit' path e, limit ≤ limit' →
      ((p.resolve policy r (max limit 1 - path.length) d).run path).1 = some e →
        ((p.resolve policy r (max limit' 1 - path.length) d).run path).1 = some e) ∧
    (∀ limit limit', limit ≤ limit' → p.topmost policy limit r d = d ∨
      p.topmost policy limit r d = p.topmost policy limit' r d) ∧
    ∀ limit limit', p.decls.size < limit → p.decls.size < limit' →
      p.topmost policy limit r d = p.topmost policy limit' r d := by
  refine ⟨fun limit limit' path e hl h => ?_, fun limit limit' hl => ?_, fun limit limit' h h' => ?_⟩
  · rw [resolve_run] at h ⊢
    exact resolved_mono h (by omega) (List.Subset.refl path)
  · rw [topmost_eq, topmost_eq]
    cases h : p.resolved policy r (max limit 1) [] d with
    | none => exact .inl rfl
    | some e =>
      rw [resolved_mono h (by omega : max limit 1 ≤ max limit' 1) (List.Subset.refl [])]
      exact .inr rfl
  · exact topmost_of_limit h h' d

/-- A method (0) with a parameter (1), and a method (2) that refines it, with a parameter (3). -/
def overridden : Program where
  decls := #[
    { name := some ⟨0⟩, kind := .method { lists := [[⟨1⟩]] }, scope := .unit, type := some ⟨0⟩ },
    { name := some ⟨1⟩, kind := .value, scope := .declaration ⟨0⟩, type := some ⟨0⟩,
      modifiers := ⟨[.parameter]⟩ },
    { name := some ⟨0⟩, kind := .method { lists := [[⟨3⟩]] }, scope := .unit, type := some ⟨0⟩,
      refined := some ⟨0⟩ },
    { name := some ⟨1⟩, kind := .value, scope := .declaration ⟨2⟩, type := some ⟨0⟩,
      modifiers := ⟨[.parameter]⟩ }]
  types := #[.nothing]

/-- The parameter asks for its method, which asks for the one that it refines: with a limit of two
that is too deep, and from three on every limit gives the parameter at the same place. -/
theorem raised_limit_keeps_answer_overridden :
    overridden.topmost .standard 2 {} ⟨3⟩ = ⟨3⟩ ∧ overridden.topmost .standard 3 {} ⟨3⟩ = ⟨1⟩ ∧
      overridden.topmost .standard 300 {} ⟨3⟩ = ⟨1⟩ ∧
      overridden.topmost .standard 5 {} ⟨3⟩ = overridden.topmost .standard 300 {} ⟨3⟩ := by
  obtain ⟨-, hraised, hbeyond⟩ := raised_limit_keeps_answer overridden .standard {} ⟨3⟩
  have h : overridden.topmost .standard 3 {} ⟨3⟩ = ⟨1⟩ := by decide
  refine ⟨by decide, h, ?_, hbeyond 5 300 (by decide) (by decide)⟩
  rcases hraised 3 300 (by decide) with hself | hsame
  · exact absurd (hself.symm.trans h) (by decide)
  · exact hsame.symm.trans h

/-! ## Plain chains -/

/-- The refinement pointer of `d` leads to `e`, which is another declaration. -/
def Refines (p : Program) (d e : DeclId) : Prop := p.refinedOther? d = some e

/-- The way along the pointers from `d` comes to a declaration to which it leads back. -/
def Cyclic (p : Program) (d : DeclId) : Prop := ComesBack p.refinedOther? d

/-- Neither `d` nor anything on the way along the pointers from `d` is a parameter. -/
def Plain (p : Program) (d : DeclId) : Prop :=
  ∀ e, Relation.ReflTransGen p.Refines d e → ∀ x, p.decl? e = some x → x.isParameter = false

theorem refines_iff {d e : DeclId} :
    p.Refines d e ↔ p.decl? d >>= Declaration.refined = some e ∧ e ≠ d := by
  simp [Refines, refinedOther?, Option.filter_eq_some_iff]

theorem Plain.refines {d e : DeclId} (h : p.Plain d) (he : p.Refines d e) : p.Plain e :=
  fun a ha => h a (.head he ha)

/-- The end of a chain without a repetition has no pointer to another declaration, and every
declaration before it has one to the next. -/
theorem Climbs.cases_nodup {d top : DeclId} {chain : List DeclId} (h : p.Climbs d chain top)
    (hn : chain.Nodup) :
    (p.refinedOther? d = none ∧ chain = [d] ∧ top = d) ∨ ∃ e rest, p.Refines d e ∧
      p.Climbs e rest top ∧ rest.Nodup ∧ d ∉ rest ∧ chain = d :: rest := by
  cases h with
  | top h => exact .inl ⟨h, rfl, rfl⟩
  | @step _ e _ rest h hs =>
    obtain ⟨hd, hrest⟩ := List.nodup_cons.mp hn
    have hne : e ≠ d := fun heq => hd (heq ▸ hs.mem)
    exact .inr ⟨e, rest, refines_iff.mpr ⟨h, hne⟩, hs, hrest, hd, rfl⟩

theorem Climbs.unique {d top top' : DeclId} {chain chain' : List DeclId} (h : p.Climbs d chain top)
    (hn : chain.Nodup) (h' : p.Climbs d chain' top') (hn' : chain'.Nodup) :
    chain' = chain ∧ top' = top := by
  induction chain generalizing d chain' with
  | nil => cases h
  | cons a chain ih =>
    rcases h.cases_nodup hn with ⟨hnone, hc, rfl⟩ | ⟨e, rest, he, hs, hrest, -, hc⟩
    · rcases h'.cases_nodup hn' with ⟨-, hc', rfl⟩ | ⟨e', _, he', -⟩
      · exact ⟨hc'.trans hc.symm, rfl⟩
      · exact absurd (hnone.symm.trans he') (by simp)
    · rcases h'.cases_nodup hn' with ⟨hnone, -⟩ | ⟨e', rest', he', hs', hrest', -, hc'⟩
      · exact absurd (hnone.symm.trans he) (by simp)
      · obtain rfl : e = e' := Option.some.inj (he.symm.trans he')
        obtain ⟨rfl, rfl⟩ := List.cons.inj hc
        obtain ⟨rfl, rfl⟩ := ih hs hrest hs' hrest'
        exact ⟨hc', rfl⟩

/-- A chain that ends does not come back, by induction on the chain. -/
theorem Climbs.not_cyclic {d top : DeclId} {chain : List DeclId} (h : p.Climbs d chain top)
    (hn : chain.Nodup) : ¬ p.Cyclic d := by
  induction chain generalizing d with
  | nil => cases h
  | cons a chain ih =>
    intro hcyclic
    obtain ⟨b, hb, hback⟩ := hcyclic.exists_next
    rcases h.cases_nodup hn with ⟨hnone, -⟩ | ⟨e, rest, he, hs, hrest, -, hc⟩
    · exact absurd (hnone.symm.trans hb) (by simp)
    · obtain rfl : e = b := Option.some.inj (he.symm.trans hb)
      obtain ⟨rfl, rfl⟩ := List.cons.inj hc
      exact ih hs hrest hback

/-- Where no parameter is on the way and no rewrite in force, only the pointer counts. -/
theorem resolved_of_plain {room : Nat} {path : List DeclId} {d : DeclId} (h : p.Plain d)
    (hd : d ∉ path) : p.resolved policy {} (room + 1) path d =
      (p.through d).target (p.resolved policy {} room (d :: path)) := by
  cases hx : p.decl? d with
  | none =>
    have hnone : p.refinedOther? d = none := by simp [refinedOther?, hx]
    simp [resolved, hd, hx, through_of_none hnone, Standing.target]
  | some x =>
    rw [resolved_of_not_parameter hx (h d .refl x hx) hd, shortcut_of_lookup rfl, Option.getD_none]

/-- By induction on the room: the declarations so far are on `path`, and each of the chain takes one
of the `room`. -/
theorem resolved_plain_iff {room : Nat} {path : List DeclId} {d top : DeclId} (h : p.Plain d) :
    p.resolved policy {} room path d = some top ↔ ∃ chain, p.Climbs d chain top ∧ chain.Nodup ∧
      chain.length ≤ room ∧ ∀ e ∈ chain, e ∉ path := by
  induction room generalizing path d with
  | zero =>
    refine ⟨nofun, ?_⟩
    rintro ⟨chain, hc, -, hl, -⟩
    exact absurd (List.length_pos_of_mem hc.mem) (by omega)
  | succ room ih =>
    by_cases hd : d ∈ path
    · constructor
      · intro hr
        rw [resolved, if_pos (by simpa using hd)] at hr
        cases hr
      · rintro ⟨chain, hc, -, -, hp⟩
        exact absurd hd (hp d hc.mem)
    rw [resolved_of_plain h hd]
    cases he : p.refinedOther? d with
    | none =>
      rw [through_of_none he]
      constructor
      · intro hr
        obtain rfl : d = top := Option.some.inj hr
        exact ⟨[d], .top he, List.nodup_singleton d, by simp, by simpa using hd⟩
      · rintro ⟨chain, hc, hn, -, -⟩
        rcases hc.cases_nodup hn with ⟨-, -, rfl⟩ | ⟨e, _, he', -⟩
        · rfl
        · exact absurd (he.symm.trans he') (by simp)
    | some e =>
      rw [through_of_some he]
      refine (ih (h.refines he)).trans ⟨?_, ?_⟩
      · rintro ⟨chain, hc, hn, hl, hp⟩
        have hdc : d ∉ chain := fun hmem => hp d hmem List.mem_cons_self
        refine ⟨d :: chain, .step (refines_iff.mp he).1 hc, List.nodup_cons.mpr ⟨hdc, hn⟩, ?_, ?_⟩
        · simpa using hl
        · exact List.forall_mem_cons.mpr ⟨hd, fun a ha hmem => hp a ha (List.mem_cons_of_mem d hmem)⟩
      · rintro ⟨chain, hc, hn, hl, hp⟩
        rcases hc.cases_nodup hn with ⟨hnone, -⟩ | ⟨b, rest, hb, hs, hrest, hdr, rfl⟩
        · exact absurd (hnone.symm.trans he) (by simp)
        · obtain rfl : e = b := Option.some.inj (he.symm.trans hb)
          refine ⟨rest, hs, hrest, by simpa using hl, fun a ha hmem => ?_⟩
          rcases List.mem_cons.mp hmem with rfl | hmem
          · exact hdr ha
          · exact hp a (List.mem_cons_of_mem d ha) hmem

/-! ## What is looked at for widening -/

theorem Climbs.getLastD {d top : DeclId} {chain : List DeclId} (h : p.Climbs d chain top) :
    chain.tail.getLastD d = top := by
  induction h with
  | top => rfl
  | @step d e top chain _ hs ih =>
    obtain ⟨rest, rfl⟩ : ∃ rest, chain = e :: rest := by cases hs <;> exact ⟨_, rfl⟩
    rw [List.tail_cons, List.getLastD_cons]
    exact ih

/-- Only the end of a chain may be missing from the table. -/
theorem Climbs.length_le {d top : DeclId} {chain : List DeclId} (h : p.Climbs d chain top)
    (hn : chain.Nodup) : chain.length ≤ p.decls.size + 1 := by
  have hdecl : ∀ e ∈ chain, e = top ∨ p.hasDecl e = true := by
    clear hn
    induction h with
    | top => exact fun e he => .inl (List.mem_singleton.mp he)
    | @step d e top chain h _ ih =>
      obtain ⟨x, hx, -⟩ := Option.bind_eq_some_iff.mp h
      exact List.forall_mem_cons.mpr ⟨.inr (hasDecl_of_decl? hx), ih⟩
  have hrest : ∀ e ∈ chain.erase top, p.hasDecl e = true := fun e he =>
    (hdecl e (List.mem_of_mem_erase he)).resolve_left (hn.mem_erase_iff.mp he).1
  have hlen := length_le_of_nodup (hn.erase top) hrest
  rw [List.length_erase_of_mem h.top_mem] at hlen
  omega

/-- By induction on the chain: `seen` holds what comes before. -/
theorem refinementChainTo_of_climbs {d top : DeclId} {chain seen : List DeclId} {depth : Nat}
    (h : p.Climbs d chain top) (hn : chain.Nodup) (hl : chain.length ≤ depth) (hd : d ∈ seen)
    (hs : ∀ e ∈ chain.tail, e ∉ seen) :
    p.refinementChainTo depth seen (p.decl? d >>= Declaration.refined) = chain.tail := by
  induction chain generalizing d seen depth with
  | nil => cases h
  | cons a chain ih =>
    obtain ⟨depth, rfl⟩ : ∃ k, depth = k + 1 := ⟨depth - 1, by simp at hl; omega⟩
    rcases h.cases_nodup hn with ⟨hnone, hc, -⟩ | ⟨e, rest, he, hc, hrest, -, heq⟩
    · rw [hc]
      cases hp : p.decl? d >>= Declaration.refined with
      | none => rfl
      | some e =>
        obtain rfl : e = d := by
          by_contra hne
          exact absurd (hnone.symm.trans (refines_iff.mpr ⟨hp, hne⟩)) (by simp)
        rw [refinementChainTo, if_pos (by simpa using hd)]
        rfl
    · obtain ⟨rfl, rfl⟩ := List.cons.inj heq
      rw [List.tail_cons] at hs ⊢
      obtain ⟨tail, rfl⟩ : ∃ tail, chain = e :: tail := by cases hc <;> exact ⟨_, rfl⟩
      have hseen : e ∉ seen := hs e List.mem_cons_self
      rw [(refines_iff.mp he).1, refinementChainTo, if_neg (by simpa using hseen),
        ih hc hrest (by simpa using hl) List.mem_cons_self]
      · rfl
      · intro b hb hmem
        rcases List.mem_cons.mp hmem with rfl | hmem
        · exact (List.nodup_cons.mp hrest).1 hb
        · exact hs b (List.mem_cons_of_mem e hb) hmem

theorem refinementChain_of_climbs {d top : DeclId} {chain : List DeclId} (h : p.Climbs d chain top)
    (hn : chain.Nodup) : p.refinementChain d = chain.tail := by
  have hd : d ∉ chain.tail := by
    rcases h.cases_nodup hn with ⟨-, rfl, -⟩ | ⟨e, rest, -, -, -, hd, rfl⟩
    · simp
    · exact hd
  refine refinementChainTo_of_climbs h hn (h.length_le hn) (List.mem_singleton_self d) ?_
  intro e he hmem
  exact hd (List.mem_singleton.mp hmem ▸ he)

/-- If there is no parameter from `d` on along the refinement pointers, and no rewrite is in force,
then under every limit the topmost declaration of `d` is the end of its chain, if the chain ends and
is not longer than the limit, and `d` itself if it is longer or cyclic. The end of a chain is also the
last declaration that is looked at to find out whether `d` widens its type. -/
theorem topmost_of_plain (p : Program) (policy : Policy) (limit : Nat) (d : DeclId)
    (h : p.Plain d) :
    (∀ chain top, p.Climbs d chain top → chain.Nodup →
      p.topmost policy limit {} d = (if chain.length ≤ max limit 1 then top else d) ∧
        (p.refinementChain d).getLastD d = top) ∧
    (p.Cyclic d → p.topmost policy limit {} d = d) := by
  refine ⟨fun chain top hc hn => ⟨?_, ?_⟩, fun hcyclic => ?_⟩
  · rw [topmost_eq]
    split
    · next hl =>
      rw [(resolved_plain_iff h).mpr ⟨chain, hc, hn, hl, by simp⟩]
      rfl
    · next hl =>
      cases hr : p.resolved policy {} (max limit 1) [] d with
      | none => rfl
      | some e =>
        obtain ⟨chain', hc', hn', hl', -⟩ := (resolved_plain_iff h).mp hr
        rw [(hc.unique hn hc' hn').1] at hl'
        exact absurd hl' hl
  · rw [refinementChain_of_climbs hc hn]
    exact hc.getLastD
  · rw [topmost_eq]
    cases hr : p.resolved policy {} (max limit 1) [] d with
    | none => rfl
    | some e =>
      obtain ⟨chain, hc, hn, -⟩ := (resolved_plain_iff h).mp hr
      exact absurd hcyclic (hc.not_cyclic hn)

/-- Values that refine each other: 0, 1 and 2 one after the other, and the last of them one that is
missing (9); 3 refines 4, and 4 and 5 each other; 6 refines itself. -/
def pointing : Program :=
  let value (refined : Nat) : Declaration :=
    { name := some ⟨0⟩, kind := .value, scope := .unit, type := some ⟨0⟩, refined := some ⟨refined⟩ }
  { decls := #[value 1, value 2, value 9, value 4, value 5, value 4, value 6], types := #[.nothing] }

/-- A chain of four declarations ends within the limit of four, at the missing one, and not within
three; a cycle need not contain the declaration it is reached from, and one that refines itself is
the end of its chain. -/
theorem topmost_of_plain_pointing :
    (∀ d, pointing.Plain d) ∧ pointing.topmost .standard 4 {} ⟨0⟩ = ⟨9⟩ ∧
      pointing.topmost .standard 3 {} ⟨0⟩ = ⟨0⟩ ∧ (pointing.refinementChain ⟨0⟩).getLastD ⟨0⟩ = ⟨9⟩ ∧
      (∀ limit, pointing.topmost .standard limit {} ⟨3⟩ = ⟨3⟩) ∧
      ∀ limit, pointing.topmost .standard limit {} ⟨6⟩ = ⟨6⟩ := by
  have hplain (d : DeclId) : pointing.Plain d := by
    intro e _ x hx
    have hall : ∀ x ∈ pointing.decls, x.isParameter = false := by decide
    exact hall x (Array.mem_of_getElem? hx)
  have hchain : pointing.Climbs ⟨0⟩ [⟨0⟩, ⟨1⟩, ⟨2⟩, ⟨9⟩] ⟨9⟩ := .step rfl (.step rfl (.step rfl (.top rfl)))
  have hcyclic : pointing.Cyclic ⟨3⟩ := ⟨⟨4⟩, .single rfl, .head rfl (.single rfl)⟩
  have hends (limit : Nat) := (topmost_of_plain pointing .standard limit ⟨0⟩ (hplain _)).1 _ _ hchain
    (by decide)
  have hself (limit : Nat) := (topmost_of_plain pointing .standard limit ⟨6⟩ (hplain _)).1 [⟨6⟩] ⟨6⟩
    (.top rfl) (by decide)
  refine ⟨hplain, (hends 4).1, (hends 3).1, (hends 4).2, fun limit => ?_, fun limit => ?_⟩
  · exact (topmost_of_plain pointing .standard limit ⟨3⟩ (hplain _)).2 hcyclic
  · exact (hself limit).1.trans (if_pos (Nat.le_max_right limit 1))

end Program

end Unbox
