import Unbox.Proofs.Closed
import Unbox.Proofs.Topmost
import Unbox.Proofs.Writes
import Unbox.Rules

/-!
# What is found is in the table

* `Program.Closed.pointer` : what a declaration of a closed program points at is in the table;
* `Rewrites.Within p r` : so is every method that a literal stands for;
* `Program.Closed.topmost` : the topmost declaration of a declaration in the table is in the table;
* `Program.Closed.positionalCounterpart`, `Program.hasDecl_of_accessor?` : and likewise for the
  other declarations that are searched for.
-/

namespace Unbox

/-- The methods that literals stand for are in the table. -/
def Rewrites.Within (p : Program) (r : Rewrites) : Prop :=
  ∀ pair ∈ r.entries, p.hasDecl pair.2 = true

theorem Rewrites.Within.lookup {p : Program} {r : Rewrites} {d e : DeclId} (hr : r.Within p)
    (h : r.lookup d = some e) : p.hasDecl e = true := by
  obtain ⟨before, rest, heq, -⟩ := List.lookup_eq_some_iff.mp h
  exact hr (d, e) (by simp [heq])

namespace Program
variable {p : Program} {policy : Policy} {r : Rewrites}

namespace Closed
variable {d e : DeclId} {x : Declaration}

theorem pointer (hp : p.Closed) (hx : p.decl? d = some x) (he : e ∈ x.pointers) :
    p.hasDecl e = true := hp x (Array.mem_of_getElem? hx) e he

theorem scope (hp : p.Closed) (hx : p.decl? d = some x) (he : x.scope.declaration? = some e) :
    p.hasDecl e = true :=
  hp.pointer hx (by simp [Declaration.pointers, he])

theorem refined (hp : p.Closed) (hx : p.decl? d = some x) (he : x.refined = some e) :
    p.hasDecl e = true :=
  hp.pointer hx (by simp [Declaration.pointers, he])

theorem listed (hp : p.Closed) (h : p.Listed d) : p.hasDecl d = true := by
  obtain ⟨x, hx, list, hl, hd⟩ := h
  exact hp x hx d (List.mem_append_right _ (List.mem_flatten_of_mem hl hd))

theorem refinedOther? (hp : p.Closed) (h : p.refinedOther? d = some e) : p.hasDecl e = true := by
  obtain ⟨h, -⟩ := Option.filter_eq_some_iff.mp h
  obtain ⟨x, hx, he⟩ := Option.bind_eq_some_iff.mp h
  exact hp.refined hx he

theorem resolved (hp : p.Closed) (hr : r.Within p) :
    ∀ {room : Nat} {path : List DeclId} {d e : DeclId},
    p.hasDecl d = true → p.resolved policy r room path d = some e → p.hasDecl e = true
  | 0, _, _, _, _, h => by cases h
  | room + 1, path, d, e, hd, h => by
    rcases resolved_cases h with ⟨-, rfl⟩ | ⟨x, s, -, happ, ht⟩
    · exact hd
    cases s with
    | settled a =>
      obtain rfl : a = e := Option.some.inj ht
      rcases happ.settled with ⟨rfl, -⟩ | hl | ⟨-, rfl | hl⟩
      · exact hd
      · exact hp.listed hl
      · exact hd
      · exact hr.lookup hl
    | like a =>
      have ha : p.hasDecl a = true := by
        rcases happ.like with hs | hl | ⟨b, hb⟩
        · obtain ⟨y, hy⟩ := Option.isSome_iff_exists.mp hs
          exact hasDecl_of_decl? hy
        · exact hp.listed hl
        · exact hp.refinedOther? hb
      exact resolved hp hr ha ht

theorem topmost (hp : p.Closed) (hr : r.Within p) (limit : Nat) (hd : p.hasDecl d = true) :
    p.hasDecl (p.topmost policy limit r d) = true := by
  rw [topmost_eq]
  cases h : p.resolved policy r (max limit 1) [] d with
  | none => exact hd
  | some e => exact hp.resolved hr hd h

theorem positionalCounterpart {c : Context} {function refined : DeclId} (hp : c.program.Closed)
    (h : c.positionalCounterpart function refined d = some e) : c.program.hasDecl e = true := by
  obtain ⟨f, -, h⟩ := Option.bind_eq_some_iff.mp h
  obtain ⟨y, hy, h⟩ := Option.bind_eq_some_iff.mp h
  obtain ⟨⟨as, bs⟩, hab, h⟩ := List.exists_of_findSome?_eq_some h
  obtain ⟨i, -, hi⟩ := Option.bind_eq_some_iff.mp h
  exact hp.listed (listed_of_mem hy (List.of_mem_zip hab).2 (List.mem_of_getElem? hi))

/-- What is declared in a functional parameter has a declaration for its scope. -/
theorem inFunctionalParameter (hp : p.Closed) (hx : p.decl? d = some x) :
    ∃ nested, p.inFunctionalParameter x = .ok nested ∧
      (nested = true → ∃ owner, x.scope.declaration? = some owner ∧ p.hasDecl owner = true) := by
  cases ho : x.scope.declaration? with
  | none =>
    refine ⟨false, ?_, fun h => nomatch h⟩
    simp only [Program.inFunctionalParameter, ho]
    rfl
  | some owner =>
    have howner := hp.scope hx ho
    obtain ⟨y, hy⟩ := exists_decl? howner
    refine ⟨y.isFunctionalParameter, ?_, fun _ => ⟨owner, rfl, howner⟩⟩
    simp only [Program.inFunctionalParameter, ho, decl_eq_ok_iff.mpr hy]
    rfl

end Closed

theorem parameterized_of_scope {d owner : DeclId} {x : Declaration} (hx : x.isParameter = true)
    (ho : x.scope.declaration? = some owner) : p.parameterized d x = .ok owner := by
  simp only [parameterized, hx, ho]

theorem hasDecl_of_accessor? {owner d : DeclId} {name : String}
    (h : p.accessor? owner name = some d) : p.hasDecl d = true := by
  obtain ⟨y, -, h⟩ := Option.bind_eq_some_iff.mp h
  obtain ⟨a, -, ha⟩ := List.exists_of_findSome?_eq_some h
  obtain ⟨x, -, hd⟩ := Option.bind_eq_some_iff.mp ha
  have hm := List.find?_some hd
  unfold isMethodNamed at hm
  cases hz : p.decl? d with
  | none => simp [hz] at hm
  | some z => exact hasDecl_of_decl? hz

end Program

end Unbox
