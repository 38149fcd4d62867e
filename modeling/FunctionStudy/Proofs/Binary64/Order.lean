import FunctionStudy.Layout
import FunctionStudy.Proofs.Binary64.Exact

/-! Sorted lists of doubles without repeats. For finite doubles other than the negative zero,
numeric equality is equality. A list of such is sorted strictly once its repeats are dropped. -/

namespace FunctionStudy

theorem mergeSort_congr {α : Type} {l : List α} {r s : α → α → Bool}
    (h : ∀ a ∈ l, ∀ b ∈ l, r a b = s a b) : l.mergeSort r = l.mergeSort s := by
  have mapped := List.map_mergeSort (f := id) h
  rwa [List.map_id, List.map_id] at mapped

namespace Binary64

/-- A finite double that is not the negative zero. -/
def IsUnsigned (x : Binary64) : Prop := ∃ v h, x = .finite v h

variable {x y : Binary64} {xs : List Binary64}

theorem isUnsigned_round {v : ℚ} (h : OnGrid v) : (round v).IsUnsigned :=
  ⟨v, h, round_of_onGrid h⟩

theorem isUnsigned_ofInt {n : ℤ} (h : |n| ≤ 2 ^ 53) : (ofInt n).IsUnsigned :=
  isUnsigned_round (onGrid_intCast h)

theorem isUnsigned_unsignedZero {a : ℚ} (hx : x.toRat? = some a) : x.unsignedZero.IsUnsigned := by
  rw [unsignedZero_eq hx]
  exact isUnsigned_round (onGrid_of_toRat? hx)

theorem IsUnsigned.toRat?_eq (h : x.IsUnsigned) : x.toRat? = some x.toRat := by
  obtain ⟨v, grid, rfl⟩ := h
  rfl

theorem IsUnsigned.eq_of_toRat (hx : x.IsUnsigned) (hy : y.IsUnsigned) (h : x.toRat = y.toRat) :
    x = y := by
  obtain ⟨v, gridv, rfl⟩ := hx
  obtain ⟨w, gridw, rfl⟩ := hy
  obtain rfl : v = w := h
  rfl

theorem IsUnsigned.ne_negZero (h : x.IsUnsigned) : x ≠ .negZero := by
  obtain ⟨v, grid, rfl⟩ := h
  exact nofun

theorem toRat?_of_finite (h : x.isFinite = true) : x.toRat? = some x.toRat := by
  obtain ⟨a, ha⟩ := Option.isSome_iff_exists.mp h
  rw [ha, toRat_eq ha]

theorem isNaN_of_toRat? {a : ℚ} (hx : x.toRat? = some a) : x.isNaN = false := by
  cases x with
  | nan => cases hx
  | _ => rfl

theorem isNaN_of_isFinite (h : x.isFinite = true) : x.isNaN = false := isNaN_of_toRat? (toRat?_of_finite h)

theorem IsUnsigned.isFinite (h : x.IsUnsigned) : x.isFinite = true := by
  rw [Binary64.isFinite, h.toRat?_eq, Option.isSome_some]

theorem same_iff_toRat (hx : x.isFinite = true) (hy : y.isFinite = true) :
    x.same y = true ↔ x.toRat = y.toRat :=
  same_iff (toRat?_of_finite hx) (toRat?_of_finite hy)

/-- What is dropped is numerically equal to a value that is kept. -/
theorem exists_mem_distinct (h : ∀ y ∈ xs, y.isFinite = true) (hx : x ∈ xs) :
    ∃ y ∈ distinct xs, y.toRat = x.toRat := by
  induction xs with
  | nil => cases hx
  | cons y xs ih =>
    rw [distinct]
    rcases List.mem_cons.mp hx with rfl | hx
    · exact ⟨x, List.mem_cons_self, rfl⟩
    · obtain ⟨z, hz, value⟩ := ih (fun z hz => h z (by simp [hz])) hx
      by_cases same : y.same z = true
      · have finite := h z (List.mem_cons_of_mem y (mem_of_mem_distinct hz))
        have equal := (same_iff_toRat (h y (by simp)) finite).mp same
        exact ⟨y, List.mem_cons_self, equal.trans value⟩
      · exact ⟨z, List.mem_cons_of_mem y (List.mem_filter.mpr ⟨hz, by simpa using same⟩), value⟩

theorem pairwise_distinct (h : ∀ y ∈ xs, y.isFinite = true) :
    (distinct xs).Pairwise fun x y => x.toRat ≠ y.toRat := by
  induction xs with
  | nil => exact .nil
  | cons y xs ih =>
    have rest : ∀ z ∈ xs, z.isFinite = true := fun z hz => h z (by simp [hz])
    rw [distinct, List.pairwise_cons]
    refine ⟨fun z hz equal => ?_, (ih rest).filter _⟩
    obtain ⟨member, other⟩ := List.mem_filter.mp hz
    rw [(same_iff_toRat (h y (by simp)) (rest z (mem_of_mem_distinct member))).mpr equal] at other
    cases other

theorem unsignedZero_ne_negZero (x : Binary64) : x.unsignedZero ≠ .negZero := by
  cases value : x.toRat? with
  | some a => exact (isUnsigned_unsignedZero value).ne_negZero
  | none =>
    cases x with
    | nan => exact nofun
    | inf s => exact nofun
    | negZero => cases value
    | finite v grid => cases value

/-- Numeric equality is equality but for the negative zero; what is not a number equals nothing. -/
theorem eq_of_same (hx : x ≠ .negZero) (hy : y ≠ .negZero) (h : x.same y = true) : x = y := by
  cases x with
  | nan => cases h
  | inf s =>
    cases y with
    | inf t => exact congrArg inf (beq_iff_eq.mp h)
    | nan => cases h
    | negZero => cases h
    | finite w grid => cases h
  | negZero => exact absurd rfl hx
  | finite v gridv =>
    cases y with
    | finite w gridw =>
      obtain rfl : v = w := of_decide_eq_true h
      rfl
    | nan => cases h
    | inf t => cases h
    | negZero => exact absurd rfl hy

theorem mem_distinct_of_ne_negZero (h : ∀ y ∈ xs, y ≠ .negZero) : x ∈ distinct xs ↔ x ∈ xs := by
  refine ⟨mem_of_mem_distinct, fun hx => ?_⟩
  induction xs with
  | nil => cases hx
  | cons y xs ih =>
    rw [distinct, List.mem_cons, List.mem_filter]
    rcases List.mem_cons.mp hx with rfl | hx
    · exact .inl rfl
    · by_cases same : y.same x = true
      · exact .inl (eq_of_same (h y (by simp)) (h x (by simp [hx])) same).symm
      · exact .inr ⟨ih (fun z hz => h z (by simp [hz])) hx, by simpa using same⟩

theorem mem_distinct (h : ∀ y ∈ xs, y.IsUnsigned) : x ∈ distinct xs ↔ x ∈ xs :=
  mem_distinct_of_ne_negZero fun y hy => (h y hy).ne_negZero

theorem nodup_distinct (h : ∀ y ∈ xs, y.IsUnsigned) : (distinct xs).Nodup :=
  (pairwise_distinct fun y hy => (h y hy).isFinite).imp fun different equal =>
    different (congrArg toRat equal)

theorem pairwise_sortAscending_of_apart (h : ∀ y ∈ xs, y.isFinite = true)
    (apart : xs.Pairwise fun x y => x.toRat ≠ y.toRat) :
    (sortAscending xs).Pairwise fun x y => x.toRat < y.toRat := by
  have order : ∀ x ∈ xs, ∀ y ∈ xs, (!(y.lt x)) = decide (x.toRat ≤ y.toRat) := by
    intro x hx y hy
    have below := lt_iff (toRat?_of_finite (h y hy)) (toRat?_of_finite (h x hx))
    rw [Bool.eq_iff_iff, decide_eq_true_iff, Bool.not_eq_true', ← Bool.not_eq_true, below, not_lt]
  have sorted : (sortAscending xs).Pairwise fun x y => x.toRat ≤ y.toRat := by
    rw [sortAscending, mergeSort_congr order]
    refine (List.pairwise_mergeSort ?_ ?_ xs).imp of_decide_eq_true
    · intro a b c ab bc
      exact decide_eq_true ((of_decide_eq_true ab).trans (of_decide_eq_true bc))
    · intro a b
      rw [Bool.or_eq_true, decide_eq_true_iff, decide_eq_true_iff]
      exact le_total _ _
  have different : (sortAscending xs).Pairwise fun x y => x.toRat ≠ y.toRat :=
    ((List.mergeSort_perm xs _).pairwise_iff fun ne => ne.symm).mpr apart
  exact (sorted.and different).imp fun ⟨le, ne⟩ => lt_of_le_of_ne le ne

theorem pairwise_sortAscending (h : ∀ y ∈ xs, y.IsUnsigned) (distinct : xs.Nodup) :
    (sortAscending xs).Pairwise fun x y => x.toRat < y.toRat := by
  refine pairwise_sortAscending_of_apart (fun y hy => (h y hy).isFinite) ?_
  exact distinct.imp_of_mem fun hx hy different equal => different ((h _ hx).eq_of_toRat (h _ hy) equal)

end Binary64

namespace Layout

variable {layout : Layout} {name : SetName} {xs : List Binary64} {x : Binary64}

theorem mem_ascending_of_ne_negZero (h : ∀ y ∈ xs, y ≠ .negZero) : x ∈ layout.ascending name xs ↔ x ∈ xs :=
  mem_ascending.trans (Binary64.mem_distinct_of_ne_negZero h)

theorem pairwise_ascending (h : ∀ y ∈ xs, y.isFinite = true) :
    (layout.ascending name xs).Pairwise fun x y => x.toRat < y.toRat := by
  have finite : ∀ y ∈ Binary64.distinct xs, y.isFinite = true := fun y hy => h y (Binary64.mem_of_mem_distinct hy)
  rw [ascending_of_numbers fun y hy => Binary64.isNaN_of_isFinite (finite y hy)]
  exact Binary64.pairwise_sortAscending_of_apart finite (Binary64.pairwise_distinct h)

end Layout
end FunctionStudy
