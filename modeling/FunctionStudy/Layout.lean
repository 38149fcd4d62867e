import FunctionStudy.Binary64.Arithmetic

/-! The order of sets. A set of doubles is read in ascending order. A NaN compares with nothing, so
the order of a set that holds one is left to the memory of the run: it may be any. -/

namespace FunctionStudy

/-- The sets of a run. -/
inductive SetName where
  /-- The roots of an equation that was split with so many splits left. -/
  | roots (remaining : Nat)
  /-- The bounds of the inequalities of pieces. -/
  | bounds (pieces : List String)
  | areaPoints
deriving DecidableEq

/-- The order in which each set is read if it cannot be sorted. -/
structure Layout where
  arrange : SetName → List Binary64 → List Binary64
  perm : ∀ name xs, (arrange name xs).Perm xs

namespace Layout

/-- Sets keep the order of insertion, and sorting starts from there. -/
def insertion : Layout where
  arrange _ xs := Binary64.sortAscending xs
  perm _ xs := List.mergeSort_perm xs _

/-- The elements of a set, each once. -/
def ascending (layout : Layout) (name : SetName) (xs : List Binary64) : List Binary64 :=
  let kept := Binary64.distinct xs
  if kept.any (·.isNaN) then layout.arrange name kept else Binary64.sortAscending kept

variable {layout : Layout} {name : SetName} {xs : List Binary64} {x : Binary64}

theorem ascending_perm : (layout.ascending name xs).Perm (Binary64.distinct xs) := by
  unfold ascending
  dsimp only
  split
  · exact layout.perm name _
  · exact List.mergeSort_perm _ _

theorem mem_ascending : x ∈ layout.ascending name xs ↔ x ∈ Binary64.distinct xs :=
  ascending_perm.mem_iff

theorem mem_of_mem_ascending (h : x ∈ layout.ascending name xs) : x ∈ xs :=
  Binary64.mem_of_mem_distinct (mem_ascending.mp h)

theorem ascending_of_numbers (numbers : ∀ x ∈ Binary64.distinct xs, x.isNaN = false) :
    layout.ascending name xs = Binary64.sortAscending (Binary64.distinct xs) := by
  unfold ascending
  dsimp only
  rw [if_neg]
  simpa using numbers

/-- A NaN leaves the order open. -/
example : ascending ⟨fun _ xs => xs.reverse, fun _ xs => List.reverse_perm xs⟩ .areaPoints [.nan, .zero] ≠
    ascending ⟨fun _ xs => xs, fun _ _ => .refl _⟩ .areaPoints [.nan, .zero] := by decide

@[simp] theorem insertion_ascending :
    insertion.ascending name xs = Binary64.sortAscending (Binary64.distinct xs) := by
  unfold ascending
  dsimp only
  split <;> rfl

end Layout
end FunctionStudy
