import Unbox.Id

/-!
# Columns: a value for every id

* `Column e α` : a value of `α` for every id of kind `e`, all but finitely many of them the default;
* `Column.get`, `Column.set`, `Column.update`, with `get_set`, `set_set` and `get_update`.
-/

namespace Unbox

/-- A value for every id. Ids past the end of `cells` have the default. -/
structure Column (e : Entity) (α : Type) where
  cells : Array α := #[]

namespace Column
variable {e : Entity} {α : Type} [Inhabited α]

def get (c : Column e α) (i : Id e) : α := c.cells[i.index]?.getD default

/-- Defaults are put in between if the id lies past the end. -/
def set (c : Column e α) (i : Id e) (a : α) : Column e α :=
  if i.index < c.cells.size then ⟨c.cells.setIfInBounds i.index a⟩
  else ⟨(c.cells ++ Array.replicate (i.index - c.cells.size) default).push a⟩

def update (c : Column e α) (i : Id e) (f : α → α) : Column e α := c.set i (f (c.get i))

@[simp] theorem get_empty (i : Id e) : (({} : Column e α)).get i = default := rfl

theorem get_set (c : Column e α) (i j : Id e) (a : α) :
    (c.set i a).get j = if j = i then a else c.get j := by
  obtain ⟨i⟩ := i
  obtain ⟨j⟩ := j
  simp only [set, get, Id.mk.injEq]
  split
  · next h =>
    by_cases hij : j = i
    · subst hij; simp [h]
    · rw [Array.getElem?_setIfInBounds_ne (Ne.symm hij), if_neg hij]
  · next h =>
    rw [Array.getElem?_push, Array.size_append, Array.size_replicate]
    have hs : c.cells.size + (i - c.cells.size) = i := by omega
    rw [hs]
    by_cases hij : j = i
    · simp [hij]
    · rw [if_neg hij, if_neg hij, Array.getElem?_append]
      split
      · rfl
      · rw [Array.getElem?_replicate]
        have : c.cells[j]? = none := Array.getElem?_eq_none (by omega)
        rw [this]
        split <;> rfl

@[simp] theorem get_set_self (c : Column e α) (i : Id e) (a : α) : (c.set i a).get i = a := by
  simp [get_set]

/-- The last write counts. -/
theorem set_set (c : Column e α) (i : Id e) (a b : α) : (c.set i a).set i b = c.set i b := by
  unfold set
  by_cases h : i.index < c.cells.size
  · simp [h]
  · have hsize :
        (c.cells ++ Array.replicate (i.index - c.cells.size) (default : α)).size = i.index := by
      simp only [Array.size_append, Array.size_replicate]
      omega
    generalize c.cells ++ Array.replicate (i.index - c.cells.size) default = cells at hsize
    simp only [if_neg h, Array.size_push, hsize, Nat.lt_succ_self, if_true, mk.injEq]
    apply Array.ext'
    rw [Array.toList_setIfInBounds, Array.toList_push, Array.toList_push, ← hsize]
    simp

theorem get_update (c : Column e α) (i j : Id e) (f : α → α) :
    (c.update i f).get j = if j = i then f (c.get j) else c.get j := by
  rw [update, get_set]
  split
  · next h => rw [h]
  · rfl

end Column

end Unbox
