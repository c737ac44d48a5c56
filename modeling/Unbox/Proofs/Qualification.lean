import Unbox.Proofs.Chains

/-!
# Qualified names

A qualified name is made of the names of a declaration and of the declarations around it. The way
outwards is cut at the number of declarations, which shows only where it comes back.

* `Program.OwnedBy d os` : `os` are all the owners of `d` from the inside out; the last of them, or `d`
  itself, stands at the top level of a unit or is missing from the table;
* `OwnedBy.nodup`, `OwnedBy.length_le` : no owner occurs twice, and there are no more of them than
  declarations, even if the last one is none of these;
* `exists_ownedBy_iff` : the owners come to an end exactly if the way does not come back;
* `qualifiedName_of_ownedBy` : the name is then that of all owners.
-/

namespace Unbox

theorem Scope.owner?_eq_none {s : Scope} : s.owner? = none ↔ s = .unit := by
  cases s <;> simp [Scope.owner?]

namespace Program
variable {p : Program} {d o : DeclId} {os : List DeclId}

/-- The owners of a declaration from the inside out, all of them. -/
inductive OwnedBy (p : Program) : DeclId → List DeclId → Prop where
  | missing {d : DeclId} : p.decl? d = none → OwnedBy p d []
  | toplevel {d : DeclId} {x : Declaration} : p.decl? d = some x → x.scope = .unit → OwnedBy p d []
  | inside {d o : DeclId} {x : Declaration} {os : List DeclId} : p.decl? d = some x →
      x.scope.owner? = some o → OwnedBy p o os → OwnedBy p d (o :: os)

theorem ownerOf?_eq_some : p.ownerOf? d = some o ↔
    ∃ x, p.decl? d = some x ∧ x.scope.owner? = some o := Option.bind_eq_some_iff

theorem hasDecl_of_ownerOf? (h : p.ownerOf? d = some o) : p.hasDecl d = true := by
  obtain ⟨x, hx, -⟩ := ownerOf?_eq_some.mp h
  exact hasDecl_of_decl? hx

theorem ownedBy_of_none (h : p.ownerOf? d = none) : p.OwnedBy d [] := by
  cases hx : p.decl? d with
  | none => exact .missing hx
  | some x =>
    rw [ownerOf?, hx] at h
    exact .toplevel hx (Scope.owner?_eq_none.mp h)

theorem OwnedBy.of_some (h : p.ownerOf? d = some o) (ho : p.OwnedBy o os) :
    p.OwnedBy d (o :: os) := by
  obtain ⟨x, hx, hs⟩ := ownerOf?_eq_some.mp h
  exact .inside hx hs ho

theorem OwnedBy.cases_owner (h : p.OwnedBy d os) :
    (p.ownerOf? d = none ∧ os = []) ∨
      ∃ o rest, p.ownerOf? d = some o ∧ p.OwnedBy o rest ∧ os = o :: rest := by
  cases h with
  | missing hx => exact .inl ⟨by rw [ownerOf?, hx]; rfl, rfl⟩
  | toplevel hx hs =>
    refine .inl ⟨?_, rfl⟩
    rw [ownerOf?, hx]
    exact Scope.owner?_eq_none.mpr hs
  | inside hx hs ho => exact .inr ⟨_, _, ownerOf?_eq_some.mpr ⟨_, hx, hs⟩, ho, rfl⟩

/-! ## Owners that come to an end -/

/-- An owner is owned by those after it. -/
theorem OwnedBy.of_mem (h : p.OwnedBy d os) (ho : o ∈ os) :
    ∃ rest, p.OwnedBy o rest ∧ rest.length < os.length := by
  induction os generalizing d with
  | nil => cases ho
  | cons a os ih =>
    rcases h.cases_owner with ⟨-, hnil⟩ | ⟨b, rest, -, hb, heq⟩
    · cases hnil
    · obtain ⟨rfl, rfl⟩ := List.cons.inj heq
      rcases List.mem_cons.mp ho with rfl | ho
      · exact ⟨os, hb, Nat.lt_succ_self _⟩
      · obtain ⟨rest, hrest, hlt⟩ := ih hb ho
        exact ⟨rest, hrest, Nat.lt_succ_of_lt hlt⟩

/-- The owners are found by going on until there is none, if there is fuel for all of them. -/
theorem OwnedBy.owners_eq (h : p.OwnedBy d os) {fuel : Nat} (hf : os.length ≤ fuel) :
    p.owners fuel d = os := by
  induction os generalizing d fuel with
  | nil =>
    rcases h.cases_owner with ⟨hnone, -⟩ | ⟨o, rest, -, -, heq⟩
    · cases fuel with
      | zero => rfl
      | succ fuel => rw [owners, hnone]
    · cases heq
  | cons a os ih =>
    rcases h.cases_owner with ⟨-, hnil⟩ | ⟨o, rest, ho, hrest, heq⟩
    · cases hnil
    · obtain ⟨rfl, rfl⟩ := List.cons.inj heq
      obtain ⟨fuel, rfl⟩ : ∃ k, fuel = k + 1 := ⟨fuel - 1, by simp at hf; omega⟩
      rw [owners, ho]
      simp only [ih hrest (Nat.le_of_succ_le_succ hf)]

theorem OwnedBy.unique {os' : List DeclId} (h : p.OwnedBy d os) (h' : p.OwnedBy d os') : os = os' := by
  rw [← h.owners_eq (Nat.le_max_left os.length os'.length),
    h'.owners_eq (Nat.le_max_right os.length os'.length)]

theorem OwnedBy.nodup (h : p.OwnedBy d os) : (d :: os).Nodup := by
  induction os generalizing d with
  | nil => exact List.nodup_singleton d
  | cons a os ih =>
    rcases h.cases_owner with ⟨-, hnil⟩ | ⟨o, rest, -, ho, heq⟩
    · cases hnil
    · obtain ⟨rfl, rfl⟩ := List.cons.inj heq
      refine List.nodup_cons.mpr ⟨fun hmem => ?_, ih ho⟩
      -- a declaration among its own owners would have fewer owners than it has
      obtain ⟨rest, hrest, hlt⟩ := h.of_mem hmem
      rw [hrest.unique h] at hlt
      exact Nat.lt_irrefl _ hlt

/-- Only the outermost may be missing from the table. -/
theorem OwnedBy.hasDecl_dropLast (h : p.OwnedBy d os) :
    ∀ e ∈ (d :: os).dropLast, p.hasDecl e = true := by
  induction os generalizing d with
  | nil => exact List.forall_mem_nil _
  | cons a os ih =>
    rcases h.cases_owner with ⟨-, hnil⟩ | ⟨o, rest, ho, hrest, heq⟩
    · cases hnil
    · obtain ⟨rfl, rfl⟩ := List.cons.inj heq
      rw [List.dropLast_cons_of_ne_nil (List.cons_ne_nil _ _)]
      exact List.forall_mem_cons.mpr ⟨hasDecl_of_ownerOf? ho, ih hrest⟩

theorem OwnedBy.length_le (h : p.OwnedBy d os) : os.length ≤ p.decls.size := by
  have hle := length_le_of_nodup (h.nodup.sublist (List.dropLast_sublist _)) h.hasDecl_dropLast
  rw [List.length_dropLast] at hle
  exact hle

theorem qualifiedName_of_ownedBy (h : p.OwnedBy d os) :
    p.qualifiedName d = ".".intercalate ((d :: os).reverse.map p.nameOf) := by
  rw [qualifiedName, h.owners_eq h.length_le]

/-! ## Owners that come back -/

theorem OwnedBy.not_comesBack (h : p.OwnedBy d os) : ¬ ComesBack p.ownerOf? d := by
  induction os generalizing d with
  | nil =>
    intro hback
    obtain ⟨o, ho, -⟩ := hback.exists_next
    rcases h.cases_owner with ⟨hnone, -⟩ | ⟨_, _, -, -, heq⟩
    · rw [hnone] at ho
      cases ho
    · cases heq
  | cons a os ih =>
    intro hback
    obtain ⟨o, ho, hback⟩ := hback.exists_next
    rcases h.cases_owner with ⟨-, hnil⟩ | ⟨b, rest, hb, hrest, heq⟩
    · cases hnil
    · obtain ⟨rfl, rfl⟩ := List.cons.inj heq
      obtain rfl : a = o := Option.some.inj (hb.symm.trans ho)
      exact ih hrest hback

/-- By induction on the room that the declarations passed, `seen`, leave in the table: they are all
different, since none of them is come back to. -/
theorem exists_ownedBy {room : Nat} {seen : List DeclId} (hn : seen.Nodup)
    (hseen : ∀ e ∈ seen, p.hasDecl e = true ∧
      Relation.TransGen (fun a b => p.ownerOf? a = some b) e d)
    (hroom : p.decls.size + 1 ≤ room + seen.length) (h : ¬ ComesBack p.ownerOf? d) :
    ∃ os, p.OwnedBy d os := by
  induction room generalizing d seen with
  | zero =>
    have hle := length_le_of_nodup hn fun e he => (hseen e he).1
    omega
  | succ room ih =>
    cases ho : p.ownerOf? d with
    | none => exact ⟨[], ownedBy_of_none ho⟩
    | some o =>
      have hd : d ∉ seen := fun hmem => h ⟨d, .refl, (hseen d hmem).2⟩
      have hon : ¬ ComesBack p.ownerOf? o := fun ⟨b, hob, hbb⟩ => h ⟨b, .head ho hob, hbb⟩
      obtain ⟨os, hos⟩ := ih (List.nodup_cons.mpr ⟨hd, hn⟩)
        (List.forall_mem_cons.mpr ⟨⟨hasDecl_of_ownerOf? ho, .single ho⟩,
          fun e he => ⟨(hseen e he).1, (hseen e he).2.tail ho⟩⟩)
        (by rw [List.length_cons]; omega) hon
      exact ⟨o :: os, .of_some ho hos⟩

theorem exists_ownedBy_iff : (∃ os, p.OwnedBy d os) ↔ ¬ ComesBack p.ownerOf? d :=
  ⟨fun ⟨_, h⟩ => h.not_comesBack,
    exists_ownedBy List.nodup_nil (List.forall_mem_nil _) (Nat.le_refl _)⟩

theorem length_owners_le (fuel : Nat) (d : DeclId) : (p.owners fuel d).length ≤ fuel := by
  induction fuel generalizing d with
  | zero => exact Nat.le_refl 0
  | succ fuel ih =>
    rw [owners]
    cases p.ownerOf? d with
    | none => exact Nat.zero_le _
    | some o => exact Nat.succ_le_succ (ih o)

theorem isChain_owners (fuel : Nat) (d : DeclId) :
    (d :: p.owners fuel d).IsChain fun a b => p.ownerOf? a = some b := by
  induction fuel generalizing d with
  | zero => exact .singleton d
  | succ fuel ih =>
    rw [owners]
    cases ho : p.ownerOf? d with
    | none => exact .singleton d
    | some o => exact .cons_cons ho (ih o)

/-- A way that comes back goes on as long as there is fuel. -/
theorem length_owners_of_comesBack {fuel : Nat} (h : ComesBack p.ownerOf? d) :
    (p.owners fuel d).length = fuel := by
  induction fuel generalizing d with
  | zero => rfl
  | succ fuel ih =>
    obtain ⟨o, ho, hback⟩ := h.exists_next
    rw [owners, ho]
    exact congrArg Nat.succ (ih hback)

/-- The parts of a qualified name are those of a way outwards from the declaration, outermost first,
and there is at most one more of them than there are declarations, whatever the owners are. The owners
come to an end, at unit level or at an id without a declaration, exactly if the way does not come back,
and then the name has all of them; otherwise it is cut where it has one part more than there are
declarations. -/
theorem qualifiedName_owners (p : Program) (d : DeclId) :
    (∃ os, p.qualifiedName d = ".".intercalate ((d :: os).reverse.map p.nameOf) ∧
      (d :: os).IsChain (fun a b => p.ownerOf? a = some b) ∧
      (d :: os).length ≤ p.decls.size + 1 ∧
      (ComesBack p.ownerOf? d → (d :: os).length = p.decls.size + 1)) ∧
    ((∃ os, p.OwnedBy d os) ↔ ¬ ComesBack p.ownerOf? d) ∧
    ∀ os, p.OwnedBy d os →
      p.qualifiedName d = ".".intercalate ((d :: os).reverse.map p.nameOf) := by
  refine ⟨⟨p.owners p.decls.size d, rfl, isChain_owners _ d, ?_, fun hback => ?_⟩, exists_ownedBy_iff,
    fun os hos => qualifiedName_of_ownedBy hos⟩
  · exact Nat.succ_le_succ (length_owners_le _ d)
  · rw [List.length_cons, length_owners_of_comesBack hback]

/-- A value in a method in a class, all there is, and the class in an id without a declaration. -/
def nestedOutside : Program where
  names := ⟨#["Outer", "inner", "x"]⟩
  decls := #[
    { name := some ⟨2⟩, kind := .value, scope := .block ⟨1⟩ },
    { name := some ⟨1⟩, kind := .method {}, scope := .declaration ⟨2⟩ },
    { name := some ⟨0⟩, kind := .classType {}, scope := .specification ⟨9⟩ }]

/-- The owners are as many as there are declarations, and none is left out. -/
theorem qualifiedName_owners_outside :
    nestedOutside.OwnedBy ⟨0⟩ [⟨1⟩, ⟨2⟩, ⟨9⟩] ∧
    nestedOutside.qualifiedName ⟨0⟩ = "<anonymous>.Outer.inner.x" := by
  have howned : nestedOutside.OwnedBy ⟨0⟩ [⟨1⟩, ⟨2⟩, ⟨9⟩] :=
    .inside rfl rfl (.inside rfl rfl (.inside rfl rfl (.missing rfl)))
  refine ⟨howned, ?_⟩
  rw [(qualifiedName_owners nestedOutside ⟨0⟩).2.2 _ howned]
  decide +kernel

end Program

end Unbox
