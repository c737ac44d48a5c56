import Unbox.Proofs.Layers
import Unbox.Proofs.Limits
import Unbox.Proofs.Termination
import Unbox.Rules

/-!
# Members of the nearest supertype

Two searches go through the supertypes of a declaration, nearest first: one for the member that
another one refines, one for the accessor that an indexed expression calls. What they find is said
here by the layers of supertypes, in which the extended class stands before the satisfied interfaces.

* `Declaration.Candidate x member` : `member` may refine `x`;
* `Program.Lists test owner`, `Program.FirstListed test owner c` : some member of `owner` passes the
  test, and `c` is the first that does;
* `Program.refinedMember_nearest` : the first candidate of the foremost proper supertype that has one,
  or else of the owner itself;
* `Program.Stops name s` : the search for an accessor goes no further than `s`;
* `Program.accessor_nearest` : the accessor of the foremost declaration that has one, as long as no
  id without a declaration comes before it;
* `Program.accessor_hidden` : such an id hides an accessor.
-/

namespace Unbox

/-! ## Candidates -/

/-- What a member is to one that refines it. -/
inductive Role where
  | attribute
  | method
  | memberClass
deriving DecidableEq

namespace Declaration

/-- A setter counts as its value; interfaces, aliases and type parameters are never refined. -/
def role? (x : Declaration) : Option Role :=
  match x.kind with
  | .value | .setter _ => some .attribute
  | .method _ => some .method
  | .classType _ => some .memberClass
  | .interfaceType _ | .typeAlias _ | .typeParameter _ => none

/-- `x` is what a member like `member` may refine: it has the name, is shared and not actual, and is
of the same kind with parameter lists of the same lengths. -/
structure Candidate (x member : Declaration) : Prop where
  name : ∃ y, x.name = some y ∧ member.name = some y
  shared : x.isShared = true
  notActual : x.isActual = false
  kind : ∃ role, x.role? = some role ∧ member.role? = some role
  shape : x.parameterLists.map List.length = member.parameterLists.map List.length

theorem sameSignature_iff {a b : Declaration} :
    a.sameSignature b = true ↔ (∃ role, a.role? = some role ∧ b.role? = some role) ∧
      a.parameterLists.map List.length = b.parameterLists.map List.length := by
  unfold sameSignature role?
  cases a.kind <;> cases b.kind <;> simp

end Declaration

namespace Program
variable {p : Program} {owner : DeclId}

/-- The declaration of id `c` is what a member like `member` may refine. -/
def IsCandidate (p : Program) (member : Declaration) (c : DeclId) : Prop :=
  ∃ x, p.decl? c = some x ∧ x.Candidate member

theorem isRefinable_iff {member : Declaration} {y : Symbol} (hname : member.name = some y)
    (c : DeclId) : p.isRefinable member c = true ↔ p.IsCandidate member c := by
  unfold isRefinable IsCandidate
  rw [Option.any_eq_true]
  apply exists_congr
  intro x
  simp only [hname, Bool.and_eq_true, beq_iff_eq, Bool.not_eq_true', Declaration.sameSignature_iff]
  apply and_congr_right
  intro _
  constructor
  · rintro ⟨⟨⟨hx, hs⟩, ha⟩, hk, hl⟩
    exact ⟨⟨y, hx, hname⟩, hs, ha, hk, hl⟩
  · rintro ⟨⟨z, hx, hz⟩, hs, ha, hk, hl⟩
    rw [hname] at hz
    exact ⟨⟨⟨hx.trans hz.symm, hs⟩, ha⟩, hk, hl⟩

/-! ## Listed members -/

section Listed
variable {test : DeclId → Prop} {f : DeclId → Bool}

/-- The owner lists a member that passes the test. -/
def Lists (p : Program) (test : DeclId → Prop) (owner : DeclId) : Prop :=
  ∃ x, p.decl? owner = some x ∧ ∃ c ∈ x.members, test c

/-- `c` is the first member of the owner that passes the test. -/
def FirstListed (p : Program) (test : DeclId → Prop) (owner c : DeclId) : Prop :=
  ∃ x before after, p.decl? owner = some x ∧ x.members = before ++ c :: after ∧ test c ∧
    ∀ b ∈ before, ¬ test b

theorem FirstListed.lists {c : DeclId} (h : p.FirstListed test owner c) : p.Lists test owner := by
  obtain ⟨x, before, after, hx, hmembers, hc, -⟩ := h
  exact ⟨x, hx, c, by simp [hmembers], hc⟩

theorem Lists.hasDecl (h : p.Lists test owner) : p.hasDecl owner = true := by
  obtain ⟨x, hx, -⟩ := h
  exact hasDecl_of_decl? hx

theorem find_listed_iff (hf : ∀ c, f c = true ↔ test c) {c : DeclId} :
    (p.decl? owner >>= fun x => x.members.find? f) = some c ↔ p.FirstListed test owner c := by
  constructor
  · intro h
    obtain ⟨x, hx, hfind⟩ := Option.bind_eq_some_iff.mp h
    obtain ⟨hc, before, after, hmembers, hbefore⟩ := List.find?_eq_some_iff_append.mp hfind
    refine ⟨x, before, after, hx, hmembers, (hf c).mp hc, fun b hb htest => ?_⟩
    simpa [(hf b).mpr htest] using hbefore b hb
  · rintro ⟨x, before, after, hx, hmembers, hc, hbefore⟩
    refine Option.bind_eq_some_iff.mpr ⟨x, hx, List.find?_eq_some_iff_append.mpr ?_⟩
    refine ⟨(hf c).mpr hc, before, after, hmembers, fun b hb => ?_⟩
    rw [Bool.not_eq_true', ← Bool.not_eq_true, hf]
    exact hbefore b hb

theorem find_listed_eq_none_iff (hf : ∀ c, f c = true ↔ test c) :
    (p.decl? owner >>= fun x => x.members.find? f) = none ↔ ¬ p.Lists test owner := by
  constructor
  · rintro h ⟨x, hx, c, hc, htest⟩
    rw [hx] at h
    exact List.find?_eq_none.mp h c hc ((hf c).mpr htest)
  · intro h
    apply Option.bind_eq_none_iff.mpr
    intro x hx
    apply List.find?_eq_none.mpr
    intro c hc htest
    exact h ⟨x, hx, c, hc, (hf c).mp htest⟩

theorem exists_firstListed (h : p.Lists test owner) : ∃ c, p.FirstListed test owner c := by
  obtain ⟨x, hx, hc⟩ := h
  obtain ⟨c, before, after, hmembers, htest, hbefore⟩ := exists_first hc
  exact ⟨c, x, before, after, hx, hmembers, htest, hbefore⟩

end Listed

/-! ## The refined member -/

/-- A class or interface above `owner` that is not `owner` itself. -/
def ProperSupertype (p : Program) (owner s : DeclId) : Prop := Reaches p.parents owner s ∧ s ≠ owner

theorem hasDecl_of_properSupertype {s : DeclId} (h : p.ProperSupertype owner s) :
    p.hasDecl s = true := by
  obtain ⟨h, hne⟩ := h
  cases h with
  | refl => exact absurd rfl hne
  | tail _ hstep =>
    obtain ⟨x, hx⟩ := decl?_of_mem_parents hstep
    exact hasDecl_of_decl? hx

/-- The ancestors are what a search from the owner lists after the owner. -/
theorem breadthFirst_owner :
    breadthFirst p.parents (p.decls.size + 2) [] [owner] = owner :: p.ancestors owner := by
  rw [breadthFirst_visit List.not_mem_nil]
  rfl

theorem properSupertype_of_mem_ancestors {s : DeclId} (h : s ∈ p.ancestors owner) :
    p.ProperSupertype owner s := by
  obtain ⟨hs, b, hb, hreach⟩ := of_mem_breadthFirst h
  exact ⟨hreach.head hb, by simpa using hs⟩

/-- Different declarations in reach of the owner are no more than there are in the table, and the
owner. -/
theorem length_lt_of_reaches {ds : List DeclId} (hn : ds.Nodup)
    (hd : ∀ d ∈ ds, Reaches p.parents owner d) : ds.length < p.decls.size + 2 := by
  have hle : (ds.erase owner).length ≤ p.decls.size := by
    apply length_le_of_nodup (hn.erase owner)
    intro d hmem
    obtain ⟨hne, hmem⟩ := hn.mem_erase_iff.mp hmem
    exact hasDecl_of_properSupertype ⟨hd d hmem, hne⟩
  rw [List.length_erase] at hle
  split at hle <;> omega

/-- The ancestors up to the foremost one that passes the test. -/
theorem ancestors_of_foremost {test : DeclId → Prop} {s : DeclId}
    (h : Foremost p.parents (fun s => s ≠ owner ∧ test s) owner s) :
    ∃ before after, p.ancestors owner = before ++ s :: after ∧ ∀ b ∈ before, ¬ test b := by
  obtain ⟨before, after, hsearch, hbefore⟩ := breadthFirst_of_foremost h
    fun ds hn hd => length_lt_of_reaches hn fun d hmem => (hd d hmem).1
  rw [breadthFirst_owner] at hsearch
  cases before with
  | nil =>
    obtain ⟨rfl, -⟩ := List.cons.inj hsearch
    exact absurd rfl h.1.1
  | cons d before =>
    obtain ⟨-, hsearch⟩ := List.cons.inj hsearch
    refine ⟨before, after, hsearch, fun b hb htest => ?_⟩
    have hmem : b ∈ p.ancestors owner := by simp [hsearch, hb]
    exact hbefore b (List.mem_cons_of_mem d hb) ⟨(properSupertype_of_mem_ancestors hmem).2, htest⟩

theorem not_lists_of_unnamed {member : Declaration} (hname : member.name = none) (s : DeclId) :
    ¬ p.Lists (p.IsCandidate member) s := by
  rintro ⟨-, -, c, -, x, -, hx⟩
  obtain ⟨y, -, hy⟩ := hx.name
  rw [hname] at hy
  cases hy

theorem refinedMember_of_foremost {member : Declaration} {s : DeclId}
    (h : Foremost p.parents (fun s => s ≠ owner ∧ p.Lists (p.IsCandidate member) s) owner s) :
    ∃ c, p.refinedMember owner member = some c ∧ p.FirstListed (p.IsCandidate member) s c := by
  obtain ⟨y, hname⟩ : ∃ y, member.name = some y := by
    apply Option.ne_none_iff_exists'.mp
    intro hname
    exact not_lists_of_unnamed hname s h.1.2
  obtain ⟨c, hc⟩ := exists_firstListed h.1.2
  have hfound : p.refinableIn member s = some c := (find_listed_iff (isRefinable_iff hname)).mpr hc
  obtain ⟨before, after, hancestors, hbefore⟩ := ancestors_of_foremost h
  have hnone : before.findSome? (p.refinableIn member) = none := by
    apply List.findSome?_eq_none_iff.mpr
    intro b hb
    exact (find_listed_eq_none_iff (isRefinable_iff hname)).mpr (hbefore b hb)
  refine ⟨c, ?_, hc⟩
  simp [refinedMember, hname, hancestors, List.findSome?_append, hnone, hfound]

theorem refinedMember_of_above {member : Declaration}
    (h : ∃ s, p.ProperSupertype owner s ∧ p.Lists (p.IsCandidate member) s) :
    ∃ s c, p.refinedMember owner member = some c ∧ p.FirstListed (p.IsCandidate member) s c ∧
      Foremost p.parents (fun s => s ≠ owner ∧ p.Lists (p.IsCandidate member) s) owner s := by
  obtain ⟨s, ⟨hreach, hne⟩, hlists⟩ := h
  have hpasses : ∃ s, Reaches p.parents owner s ∧ s ≠ owner ∧ p.Lists (p.IsCandidate member) s :=
    ⟨s, hreach, hne, hlists⟩
  obtain ⟨t, ht⟩ := exists_foremost hpasses
  obtain ⟨c, hc, hfirst⟩ := refinedMember_of_foremost ht
  exact ⟨t, c, hc, hfirst, ht⟩

theorem refinedMember_of_not_above {member : Declaration}
    (h : ¬ ∃ s, p.ProperSupertype owner s ∧ p.Lists (p.IsCandidate member) s) (c : DeclId) :
    p.refinedMember owner member = some c ↔ p.FirstListed (p.IsCandidate member) owner c := by
  cases hname : member.name with
  | none =>
    simp only [refinedMember, hname, Option.isNone_none, if_true, reduceCtorEq, false_iff]
    exact fun hc => not_lists_of_unnamed hname owner hc.lists
  | some y =>
    have hnone : (p.ancestors owner).findSome? (p.refinableIn member) = none := by
      apply List.findSome?_eq_none_iff.mpr
      intro s hs
      apply (find_listed_eq_none_iff (isRefinable_iff hname)).mpr
      exact fun hlists => h ⟨s, properSupertype_of_mem_ancestors hs, hlists⟩
    rw [← find_listed_iff (isRefinable_iff hname)]
    simp [refinedMember, hname, hnone, refinableIn]

/-- The search for the member that `member` of `owner` refines ends, however the supertypes hang
together. If some proper supertype lists a candidate, then the search gives the first candidate of the
foremost such supertype: none that is nearer has a candidate, and none that comes before it at the same
distance, where what is above the extended class comes before what is above a satisfied interface, and
these come in the order of declaration. Otherwise it gives the first candidate of the owner itself. It
gives nothing only if there is neither. -/
theorem refinedMember_nearest (p : Program) (owner : DeclId) (member : Declaration) :
    Ends (searchOnce p.parents) (p.decls.size + 1) (fun search => search [owner] (p.parents owner))
      (p.ancestors owner) ∧
    ((∃ s, p.ProperSupertype owner s ∧ p.Lists (p.IsCandidate member) s) →
      ∃ s c, p.refinedMember owner member = some c ∧ p.FirstListed (p.IsCandidate member) s c ∧
        Foremost p.parents (fun s => s ≠ owner ∧ p.Lists (p.IsCandidate member) s) owner s) ∧
    ((¬ ∃ s, p.ProperSupertype owner s ∧ p.Lists (p.IsCandidate member) s) →
      ∀ c, p.refinedMember owner member = some c ↔ p.FirstListed (p.IsCandidate member) owner c) ∧
    (p.refinedMember owner member = none ↔
      (¬ ∃ s, p.ProperSupertype owner s ∧ p.Lists (p.IsCandidate member) s) ∧
        ¬ p.Lists (p.IsCandidate member) owner) := by
  refine ⟨search_ends owner, refinedMember_of_above, refinedMember_of_not_above, ?_⟩
  constructor
  · intro hnone
    have hno : ¬ ∃ s, p.ProperSupertype owner s ∧ p.Lists (p.IsCandidate member) s := by
      intro h
      obtain ⟨s, c, hc, -⟩ := refinedMember_of_above h
      rw [hnone] at hc
      cases hc
    refine ⟨hno, fun hlists => ?_⟩
    obtain ⟨c, hc⟩ := exists_firstListed hlists
    rw [(refinedMember_of_not_above hno c).mpr hc] at hnone
    cases hnone
  · rintro ⟨hno, hlists⟩
    cases hc : p.refinedMember owner member with
    | none => rfl
    | some c => exact absurd ((refinedMember_of_not_above hno c).mp hc).lists hlists

/-- A shared parameter of a class (0), which has the name of attributes further up. -/
def entangledParameter : Declaration where
  name := some ⟨3⟩
  kind := .value
  scope := .declaration ⟨0⟩
  modifiers := ⟨[.shared, .parameter]⟩

/-- A class (0) that extends a class (1) and satisfies an interface (2). Both list an attribute, 3 and
4, of the name of the class's own parameter (5), the extended class extends the class in turn, and it
satisfies the interface as well. -/
def entangled : Program where
  decls := #[
    { name := some ⟨0⟩, scope := .unit, kind := .classType
        { list := some [⟨5⟩], extended := some ⟨0⟩, satisfied := [⟨1⟩], members := [⟨5⟩] } },
    { name := some ⟨1⟩, scope := .unit, kind := .classType
        { extended := some ⟨2⟩, satisfied := [⟨1⟩], members := [⟨3⟩] } },
    { name := some ⟨2⟩, scope := .unit, kind := .interfaceType { members := [⟨4⟩] } },
    { name := some ⟨3⟩, kind := .value, scope := .declaration ⟨1⟩, modifiers := ⟨[.shared]⟩ },
    { name := some ⟨3⟩, kind := .value, scope := .declaration ⟨2⟩, modifiers := ⟨[.shared, .formal]⟩ },
    entangledParameter]
  types := #[.nominal ⟨1⟩ [], .nominal ⟨2⟩ [], .nominal ⟨0⟩ []]

/-- The parameter refines the attribute of the extended class. -/
theorem refinedMember_nearest_entangled :
    (∃ s, entangled.ProperSupertype ⟨0⟩ s ∧
      entangled.Lists (entangled.IsCandidate entangledParameter) s) ∧
    entangled.refinedMember ⟨0⟩ entangledParameter = some ⟨3⟩ ∧
    ∃ s c, entangled.refinedMember ⟨0⟩ entangledParameter = some c ∧
      entangled.FirstListed (entangled.IsCandidate entangledParameter) s c ∧
      Foremost entangled.parents
        (fun s => s ≠ ⟨0⟩ ∧ entangled.Lists (entangled.IsCandidate entangledParameter) s) ⟨0⟩ s := by
  have habove : ∃ s, entangled.ProperSupertype ⟨0⟩ s ∧
      entangled.Lists (entangled.IsCandidate entangledParameter) s := by
    refine ⟨⟨2⟩, ⟨.single (by decide), by decide⟩, _, rfl, ⟨4⟩, by decide, _, rfl, ?_⟩
    exact ⟨⟨⟨3⟩, rfl, rfl⟩, by decide, by decide, ⟨.attribute, rfl, rfl⟩, rfl⟩
  exact ⟨habove, by decide, (refinedMember_nearest entangled ⟨0⟩ entangledParameter).2.1 habove⟩

/-! ## Accessors -/

/-- The declaration of id `c` is a method of this name. -/
def IsMethodCalled (p : Program) (name : String) (c : DeclId) : Prop :=
  ∃ y x, p.names.symbol? name = some y ∧ p.decl? c = some x ∧ x.name = some y ∧ x.isMethod = true

theorem isMethodNamed_iff {name : String} {y : Symbol} (hy : p.names.symbol? name = some y)
    (c : DeclId) : p.isMethodNamed y c = true ↔ p.IsMethodCalled name c := by
  unfold isMethodNamed IsMethodCalled
  rw [Option.any_eq_true]
  simp [hy]

/-- The search for an accessor goes no further: the id has no declaration, or lists an accessor. -/
def Stops (p : Program) (name : String) (s : DeclId) : Prop :=
  p.hasDecl s = false ∨ p.Lists (p.IsMethodCalled name) s

theorem hasDecl_of_not_stops {name : String} {s : DeclId} (h : ¬ p.Stops name s) :
    p.hasDecl s = true := by
  rw [← Bool.not_eq_false]
  exact fun hmissing => h (.inl hmissing)

theorem accessor?_of_symbol {name : String} {y : Symbol} (hy : p.names.symbol? name = some y) :
    p.accessor? owner name =
      ((breadthFirst p.above (p.decls.size + 1) [] [owner]).takeWhile p.hasDecl).findSome?
        (p.methodIn y) := by
  unfold accessor?
  rw [hy]
  rfl

/-- Before the search stops it comes to different declarations of the table, so it has fuel left. -/
theorem search_of_foremost {name : String} {s : DeclId}
    (h : Foremost p.above (p.Stops name) owner s) :
    ∃ before after, breadthFirst p.above (p.decls.size + 1) [] [owner] = before ++ s :: after ∧
      ∀ b ∈ before, ¬ p.Stops name b := by
  apply breadthFirst_of_foremost h
  intro ds hn hd
  apply Nat.lt_succ_of_le
  apply length_le_of_nodup hn
  exact fun d hmem => hasDecl_of_not_stops (hd d hmem).2

/-- What is found is up to the foremost id at which the search stops. -/
theorem accessor?_of_foremost {name : String} {s : DeclId}
    (h : Foremost p.above (p.Stops name) owner s) (c : DeclId) :
    p.accessor? owner name = some c ↔ p.FirstListed (p.IsMethodCalled name) s c := by
  cases hy : p.names.symbol? name with
  | none =>
    constructor
    · intro hc
      simp [accessor?, hy] at hc
    · rintro ⟨-, -, -, -, -, ⟨y, -, hname, -⟩, -⟩
      rw [hy] at hname
      cases hname
  | some y =>
    obtain ⟨before, after, hsearch, hbefore⟩ := search_of_foremost h
    have hdecl : ∀ b ∈ before, p.hasDecl b = true := fun b hb => hasDecl_of_not_stops (hbefore b hb)
    have hnone : before.findSome? (p.methodIn y) = none := by
      apply List.findSome?_eq_none_iff.mpr
      intro b hb
      exact (find_listed_eq_none_iff (isMethodNamed_iff hy)).mpr fun hl => hbefore b hb (.inr hl)
    rw [accessor?_of_symbol hy, hsearch, List.takeWhile_append_of_pos hdecl, List.findSome?_append,
      hnone, Option.none_or, ← find_listed_iff (isMethodNamed_iff hy)]
    change _ ↔ p.methodIn y s = some c
    rcases h.1 with hmissing | hoffers
    · have hs : p.methodIn y s = none :=
        (find_listed_eq_none_iff (isMethodNamed_iff hy)).mpr fun hl => by
          rw [hl.hasDecl] at hmissing
          cases hmissing
      rw [List.takeWhile_cons_of_neg (by simp [hmissing]), hs]
      rfl
    · obtain ⟨e, he⟩ := exists_firstListed hoffers
      have hfound : p.methodIn y s = some e := (find_listed_iff (isMethodNamed_iff hy)).mpr he
      rw [List.takeWhile_cons_of_pos hoffers.hasDecl, List.findSome?_cons, hfound]

theorem lists_of_accessor? {name : String} {c : DeclId} (h : p.accessor? owner name = some c) :
    ∃ s, Reaches p.above owner s ∧ p.Lists (p.IsMethodCalled name) s := by
  obtain ⟨y, hy, h⟩ := Option.bind_eq_some_iff.mp h
  obtain ⟨s, hs, hfound⟩ := List.exists_of_findSome?_eq_some h
  obtain ⟨-, d, hd, hreach⟩ := of_mem_breadthFirst ((List.takeWhile_prefix _).mem hs)
  rw [List.mem_singleton] at hd
  subst hd
  exact ⟨s, hreach, ((find_listed_iff (isMethodNamed_iff hy)).mp hfound).lists⟩

theorem accessor?_eq_some_iff {name : String} {c : DeclId} :
    p.accessor? owner name = some c ↔
      ∃ s, Foremost p.above (p.Stops name) owner s ∧ p.FirstListed (p.IsMethodCalled name) s c := by
  constructor
  · intro hc
    obtain ⟨d, hreach, hl⟩ := lists_of_accessor? hc
    have hstops : ∃ d, Reaches p.above owner d ∧ p.Stops name d := ⟨d, hreach, .inr hl⟩
    obtain ⟨s, hs⟩ := exists_foremost hstops
    exact ⟨s, hs, (accessor?_of_foremost hs c).mp hc⟩
  · rintro ⟨s, hs, hfirst⟩
    exact (accessor?_of_foremost hs c).mpr hfirst

/-- What is found is the accessor of the foremost declaration that has one, unless an id without a
declaration comes before it: the search ends there. So what is found is always an accessor of a
declaration at the smallest distance, and where every id in reach has a declaration, an accessor is
found exactly if some declaration in reach lists one. -/
theorem accessor_nearest (p : Program) (owner : DeclId) (name : String) :
    (∀ c, p.accessor? owner name = some c ↔
      ∃ s, Foremost p.above (p.Stops name) owner s ∧ p.FirstListed (p.IsMethodCalled name) s c) ∧
    (∀ c, p.accessor? owner name = some c →
      ∃ s, Foremost p.above (p.Lists (p.IsMethodCalled name)) owner s ∧
        p.FirstListed (p.IsMethodCalled name) s c) ∧
    ((∀ s, Reaches p.above owner s → p.hasDecl s = true) →
      ((∃ c, p.accessor? owner name = some c) ↔
        ∃ s, Reaches p.above owner s ∧ p.Lists (p.IsMethodCalled name) s)) := by
  refine ⟨fun c => accessor?_eq_some_iff, fun c hc => ?_,
    fun hdecl => ⟨fun ⟨c, hc⟩ => lists_of_accessor? hc, fun hoffers => ?_⟩⟩
  · obtain ⟨s, hs, hfirst⟩ := accessor?_eq_some_iff.mp hc
    exact ⟨s, hs.mono (fun _ _ => .inr) hfirst.lists, hfirst⟩
  · obtain ⟨s, hs⟩ := exists_foremost hoffers
    obtain ⟨c, hc⟩ := exists_firstListed hs.1
    refine ⟨c, accessor?_eq_some_iff.mpr ⟨s, hs.mono (fun d hreach h => ?_) (.inr hs.1), hc⟩⟩
    exact h.resolve_left (by simp [hdecl d hreach])

/-- A class (0) that satisfies what the given types refer to: 0 refers to an id without a declaration, 1
to an interface (1) with an accessor (2). -/
def gapped (satisfied : List TypeId) : Program where
  names := ⟨#["get"]⟩
  decls := #[
    { name := none, scope := .unit, kind := .classType { satisfied } },
    { name := none, scope := .unit, kind := .interfaceType { members := [⟨2⟩] } },
    { name := some ⟨0⟩, scope := .declaration ⟨1⟩, kind := .method {} }]
  types := #[.nominal ⟨9⟩ [], .nominal ⟨1⟩ []]

theorem lists_gapped (satisfied : List TypeId) :
    (gapped satisfied).Lists ((gapped satisfied).IsMethodCalled "get") ⟨1⟩ :=
  ⟨_, rfl, ⟨2⟩, List.mem_singleton_self _, ⟨0⟩, _, rfl, rfl, rfl, rfl⟩

/-- An accessor before the gap is found. -/
theorem accessor_nearest_gapped :
    (gapped [⟨1⟩, ⟨0⟩]).accessor? ⟨0⟩ "get" = some ⟨2⟩ ∧
    ∃ s, Foremost (gapped [⟨1⟩, ⟨0⟩]).above
        ((gapped [⟨1⟩, ⟨0⟩]).Lists ((gapped [⟨1⟩, ⟨0⟩]).IsMethodCalled "get")) ⟨0⟩ s ∧
      (gapped [⟨1⟩, ⟨0⟩]).FirstListed ((gapped [⟨1⟩, ⟨0⟩]).IsMethodCalled "get") s ⟨2⟩ := by
  have hfound : (gapped [⟨1⟩, ⟨0⟩]).accessor? ⟨0⟩ "get" = some ⟨2⟩ := by decide
  exact ⟨hfound, (accessor_nearest _ ⟨0⟩ "get").2.1 ⟨2⟩ hfound⟩

/-- An accessor after the gap is not found, though the class satisfies the interface that lists it. -/
theorem accessor_hidden :
    Reaches (gapped [⟨0⟩, ⟨1⟩]).above ⟨0⟩ ⟨1⟩ ∧
    (gapped [⟨0⟩, ⟨1⟩]).Lists ((gapped [⟨0⟩, ⟨1⟩]).IsMethodCalled "get") ⟨1⟩ ∧
    (gapped [⟨0⟩, ⟨1⟩]).accessor? ⟨0⟩ "get" = none :=
  ⟨.single (by decide), lists_gapped _, by decide⟩

end Program

end Unbox
