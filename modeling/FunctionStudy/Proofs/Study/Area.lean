import Mathlib.Data.Finset.Sort
import FunctionStudy.Proofs.Calculus.Primitive
import FunctionStudy.Proofs.Work.Layouts
import FunctionStudy.Study.Area

/-! Area and cancellation. Between two neighbouring points the area is the absolute value of one
integral, so a part cancels where the function changes its sign between them. -/

namespace FunctionStudy

open MeasureTheory Set Polynomial

variable {p : Member}

section Neighbours

variable {α β : Type}

theorem neighbours_map (g : α → β) (xs : List α) :
    neighbours (xs.map g) = (neighbours xs).map fun pair => (g pair.1, g pair.2) := by
  rw [neighbours, neighbours, ← List.map_tail, List.zip_map]
  rfl

theorem forall_neighbours {R : α → α → Prop} {xs : List α} (chain : xs.IsChain R) :
    ∀ pair ∈ neighbours xs, R pair.1 pair.2 := by
  induction xs with
  | nil => exact List.forall_mem_nil _
  | cons x rest ih =>
    cases rest with
    | nil => exact List.forall_mem_nil _
    | cons y rest =>
      obtain ⟨related, chain⟩ := List.isChain_cons_cons.mp chain
      exact List.forall_mem_cons.mpr ⟨related, ih chain⟩

end Neighbours

section Integrals

variable {g : ℝ → ℝ} {a b : ℝ}

theorem sum_integral_neighbours (hg : Continuous g) (first : ℚ) (rest : List ℚ) :
    ((neighbours (first :: rest)).map fun pair => ∫ x in (pair.1 : ℝ)..pair.2, g x).sum =
      ∫ x in (first : ℝ)..((first :: rest).getLast (List.cons_ne_nil _ _)), g x := by
  induction rest generalizing first with
  | nil => exact intervalIntegral.integral_same.symm
  | cons second rest ih =>
    have split : neighbours (first :: second :: rest) = (first, second) :: neighbours (second :: rest) := rfl
    rw [split, List.map_cons, List.sum_cons, ih, List.getLast_cons (List.cons_ne_nil _ _)]
    exact intervalIntegral.integral_add_adjacent_intervals (hg.intervalIntegrable _ _) (hg.intervalIntegrable _ _)

/-- A function with values on one side of the axis. -/
def KeepsSign (g : ℝ → ℝ) (a b : ℝ) : Prop := (∀ x ∈ Icc a b, 0 ≤ g x) ∨ ∀ x ∈ Icc a b, g x ≤ 0

/-- What cancels when a function is integrated. -/
noncomputable def cancelledBetween (g : ℝ → ℝ) (a b : ℝ) : ℝ := (∫ x in a..b, |g x|) - |∫ x in a..b, g x|

theorem cancelledBetween_nonneg (hab : a ≤ b) : 0 ≤ cancelledBetween g a b :=
  sub_nonneg.mpr (intervalIntegral.abs_integral_le_integral_abs hab)

theorem cancelledBetween_neg (g : ℝ → ℝ) (a b : ℝ) :
    cancelledBetween (fun x => -g x) a b = cancelledBetween g a b := by
  simp only [cancelledBetween, abs_neg, intervalIntegral.integral_neg]

theorem cancelledBetween_of_nonneg (hab : a ≤ b) (h : ∀ x ∈ Icc a b, 0 ≤ g x) : cancelledBetween g a b = 0 := by
  have same : ∫ x in a..b, |g x| = ∫ x in a..b, g x := by
    refine intervalIntegral.integral_congr fun x hx => abs_of_nonneg (h x ?_)
    rwa [uIcc_of_le hab] at hx
  rw [cancelledBetween, same, abs_of_nonneg (intervalIntegral.integral_nonneg hab h), sub_self]

theorem nonneg_of_cancelledBetween (hg : Continuous g) (hab : a < b) (none : cancelledBetween g a b = 0)
    (positive : 0 ≤ ∫ x in a..b, g x) : ∀ x ∈ Icc a b, 0 ≤ g x := by
  by_contra some
  obtain ⟨c, hc, below⟩ := by simpa only [not_forall, not_le] using some
  -- `|g| - g` is continuous and nowhere negative, so that one positive value makes its integral positive.
  have excess : 0 < ∫ x in a..b, (|g x| - g x) :=
    intervalIntegral.integral_pos hab (hg.abs.sub hg).continuousOn (fun x _ => sub_nonneg.mpr (le_abs_self _))
      ⟨c, hc, by rw [abs_of_neg below]; linarith⟩
  rw [intervalIntegral.integral_sub (hg.abs.intervalIntegrable _ _) (hg.intervalIntegrable _ _)] at excess
  rw [cancelledBetween, abs_of_nonneg positive] at none
  linarith

theorem cancelledBetween_eq_zero_iff (hg : Continuous g) (hab : a < b) :
    cancelledBetween g a b = 0 ↔ KeepsSign g a b := by
  constructor
  · intro none
    rcases le_total 0 (∫ x in a..b, g x) with positive | negative
    · exact .inl (nonneg_of_cancelledBetween hg hab none positive)
    · right
      have opposite := nonneg_of_cancelledBetween (g := fun x => -g x) hg.neg hab
        ((cancelledBetween_neg g a b).trans none)
        (by rw [intervalIntegral.integral_neg]; exact neg_nonneg.mpr negative)
      exact fun x hx => neg_nonneg.mp (opposite x hx)
  · rintro (above | below)
    · exact cancelledBetween_of_nonneg hab.le above
    · rw [← cancelledBetween_neg]
      exact cancelledBetween_of_nonneg hab.le fun x hx => neg_nonneg.mpr (below x hx)

end Integrals

section Areas

namespace Member

noncomputable def graph (p : Member) (x : ℝ) : ℝ := aeval x p.toPolynomial

theorem continuous_graph (p : Member) : Continuous p.graph := p.toPolynomial.continuous_aeval

/-- The area between each two neighbours, nothing rounded. -/
def gaps (p : Member) (xs : List ℚ) : List ℚ :=
  (neighbours xs).map fun pair => |p.primitiveAt pair.2 - p.primitiveAt pair.1|

/-- The area over points, nothing rounded. -/
def areaOver (p : Member) (points : Finset ℚ) : ℚ := (p.gaps points.sort).sum

/-- What cancels between neighbouring points. -/
noncomputable def cancelledOver (p : Member) (points : Finset ℚ) : ℝ :=
  ((neighbours points.sort).map fun pair => cancelledBetween p.graph pair.1 pair.2).sum

/-- No two neighbouring points have a change of sign between them. -/
def KeepsSignOver (p : Member) (points : Finset ℚ) : Prop :=
  ∀ pair ∈ neighbours points.sort, KeepsSign p.graph pair.1 pair.2

theorem gap_eq (p : Member) (a b : ℚ) : ((|p.primitiveAt b - p.primitiveAt a| : ℚ) : ℝ) =
    (∫ x in (a : ℝ)..b, |p.graph x|) - cancelledBetween p.graph a b := by
  rw [cancelledBetween, sub_sub_cancel, Rat.cast_abs, ← integral_toPolynomial]
  rfl

theorem sum_gaps_add_cancelled (p : Member) (xs : List (ℚ × ℚ)) :
    (((xs.map fun pair => |p.primitiveAt pair.2 - p.primitiveAt pair.1|).sum : ℚ) : ℝ) +
        (xs.map fun pair => cancelledBetween p.graph pair.1 pair.2).sum =
      (xs.map fun pair => ∫ x in (pair.1 : ℝ)..pair.2, |p.graph x|).sum := by
  induction xs with
  | nil => simp
  | cons pair rest ih =>
    simp only [List.map_cons, List.sum_cons, Rat.cast_add, gap_eq, ← ih]
    ring

variable {points others : Finset ℚ} {a b : ℚ}

theorem neighbours_sort_lt (points : Finset ℚ) : ∀ pair ∈ neighbours points.sort, (pair.1 : ℝ) < pair.2 := by
  intro pair hp
  exact_mod_cast forall_neighbours points.sortedLT_sort.pairwise.isChain pair hp

theorem exists_sort_eq_cons (least : IsLeast (points : Set ℚ) a) (greatest : IsGreatest (points : Set ℚ) b) :
    ∃ rest, points.sort = a :: rest ∧ (a :: rest).getLast (List.cons_ne_nil _ _) = b := by
  have nonempty : points.Nonempty := ⟨a, least.1⟩
  have low := (points.isLeast_min' nonempty).unique least
  have high := (points.isGreatest_max' nonempty).unique greatest
  rw [Finset.min'_eq_sorted_zero] at low
  rw [Finset.max'_eq_sorted_last] at high
  have some : points.sort ≠ [] := fun none => by
    have length := points.length_sort (· ≤ ·)
    rw [none] at length
    exact nonempty.card_ne_zero length.symm
  obtain ⟨first, rest, sorted⟩ := List.exists_cons_of_ne_nil some
  simp only [sorted, List.getElem_cons_zero] at low high
  obtain rfl := low
  exact ⟨rest, sorted, by rw [List.getLast_eq_getElem, high]⟩

/-- The area and what cancels make up the area between the graph and the axis. -/
theorem areaOver_add_cancelledOver (p : Member) (least : IsLeast (points : Set ℚ) a)
    (greatest : IsGreatest (points : Set ℚ) b) :
    (p.areaOver points : ℝ) + p.cancelledOver points = ∫ x in (a : ℝ)..b, |p.graph x| := by
  obtain ⟨rest, sorted, last⟩ := exists_sort_eq_cons least greatest
  rw [areaOver, gaps, cancelledOver, sum_gaps_add_cancelled, sorted, ← last]
  exact sum_integral_neighbours p.continuous_graph.abs a rest

theorem cancelledOver_nonneg (p : Member) (points : Finset ℚ) : 0 ≤ p.cancelledOver points :=
  List.sum_nonneg (List.forall_mem_map.mpr fun pair hp =>
    cancelledBetween_nonneg (neighbours_sort_lt points pair hp).le)

theorem cancelledOver_eq_zero_iff (p : Member) (points : Finset ℚ) :
    p.cancelledOver points = 0 ↔ p.KeepsSignOver points := by
  have each : ∀ pair ∈ neighbours points.sort,
      cancelledBetween p.graph pair.1 pair.2 = 0 ↔ KeepsSign p.graph pair.1 pair.2 :=
    fun pair hp => cancelledBetween_eq_zero_iff p.continuous_graph (neighbours_sort_lt points pair hp)
  constructor
  · intro none pair hp
    refine (each pair hp).mp (List.all_zero_of_le_zero_le_of_sum_eq_zero ?_ none (List.mem_map_of_mem hp))
    exact List.forall_mem_map.mpr fun pair hp => cancelledBetween_nonneg (neighbours_sort_lt points pair hp).le
  · intro keeps
    exact List.sum_eq_zero (List.forall_mem_map.mpr fun pair hp => (each pair hp).mpr (keeps pair hp))

end Member

end Areas

section Exactness

abbrev wholeNumbers : Subring ℚ := (Int.castRingHom ℚ).range

theorem onGrid_of_whole {v : ℚ} (whole : v ∈ wholeNumbers) (small : |v| ≤ 2 ^ 53) : OnGrid v := by
  obtain ⟨z, rfl⟩ := whole
  rw [eq_intCast] at small ⊢
  exact onGrid_intCast (by exact_mod_cast small)

theorem writtenValue_of_whole {v : ℚ} (whole : v ∈ wholeNumbers) : writtenValue v = v := by
  obtain ⟨z, rfl⟩ := whole
  exact writtenValue_intCast z

namespace Member

variable {points : Finset ℚ}

/-- Every number that the area over the points is computed from is a double, and written as it is. -/
structure IsExactOver (p : Member) (points : Finset ℚ) : Prop where
  coefficients : p.IntegratesExactly
  written : ∀ x ∈ points, FunctionStudy.writtenValue x = x
  values : ∀ x ∈ points, OnGrid (p.primitiveAt x)
  gaps : ∀ v ∈ p.gaps points.sort, OnGrid v
  sums : ∀ s, s <+: p.gaps points.sort → OnGrid s.sum

theorem whole_primitiveAt (coefficients : ∀ t ∈ p.terms, t.raisedCoefficient ∈ wholeNumbers) {x : ℚ}
    (whole : x ∈ wholeNumbers) : p.primitiveAt x ∈ wholeNumbers :=
  list_sum_mem (List.forall_mem_map.mpr fun t ht => mul_mem (coefficients t ht) (pow_mem whole _))

theorem whole_gaps (coefficients : ∀ t ∈ p.terms, t.raisedCoefficient ∈ wholeNumbers)
    (whole : ∀ x ∈ points, x ∈ wholeNumbers) : ∀ v ∈ p.gaps points.sort, v ∈ wholeNumbers ∧ 0 ≤ v := by
  have primitive : ∀ x ∈ points.sort, p.primitiveAt x ∈ wholeNumbers := fun x hx =>
    whole_primitiveAt coefficients (whole x ((Finset.mem_sort _).mp hx))
  refine List.forall_mem_map.mpr fun pair hp => ⟨?_, abs_nonneg _⟩
  obtain ⟨left, right⟩ := List.of_mem_zip hp
  have difference := sub_mem (primitive _ (List.mem_of_mem_tail right)) (primitive _ left)
  rcases abs_choice (p.primitiveAt pair.2 - p.primitiveAt pair.1) with same | opposite
  · rwa [same]
  · rw [opposite]
    exact neg_mem difference

/-- Integers are exact, as long as the values and the area stay small. -/
theorem isExactOver_of_whole (coefficients : ∀ t ∈ p.terms, t.raisedCoefficient ∈ wholeNumbers)
    (small : ∀ t ∈ p.terms, |t.raisedCoefficient| ≤ 2 ^ 53) (whole : ∀ x ∈ points, x ∈ wholeNumbers)
    (values : ∀ x ∈ points, |p.primitiveAt x| ≤ 2 ^ 53) (total : p.areaOver points ≤ 2 ^ 53) :
    p.IsExactOver points where
  coefficients t ht :=
    ⟨onGrid_of_whole (coefficients t ht) (small t ht), writtenValue_of_whole (coefficients t ht)⟩
  written x hx := writtenValue_of_whole (whole x hx)
  values x hx := onGrid_of_whole (whole_primitiveAt coefficients (whole x hx)) (values x hx)
  gaps v hv := by
    have gaps := whole_gaps coefficients whole
    have below : v ≤ p.areaOver points := List.single_le_sum (fun w hw => (gaps w hw).2) v hv
    exact onGrid_of_whole (gaps v hv).1 ((abs_of_nonneg (gaps v hv).2).trans_le (below.trans total))
  sums := by
    rintro s ⟨others, parts⟩
    have gaps := whole_gaps coefficients whole
    have own : ∀ v ∈ s, v ∈ wholeNumbers ∧ 0 ≤ v := fun v hv => gaps v (parts ▸ List.mem_append_left others hv)
    have rest : 0 ≤ others.sum := List.sum_nonneg fun v hv => (gaps v (parts ▸ List.mem_append_right s hv)).2
    have nonneg : 0 ≤ s.sum := List.sum_nonneg fun v hv => (own v hv).2
    refine onGrid_of_whole (list_sum_mem fun v hv => (own v hv).1) ?_
    rw [areaOver, ← parts, List.sum_append] at total
    rw [abs_of_nonneg nonneg]
    linarith

end Member

end Exactness

section Program

/-- The numbers that points are at. -/
def pointSet (points : List Binary64) : Finset ℚ := (points.map Binary64.toRat).toFinset

/-- The points in the order of the program. -/
def areaPoints (points : List Binary64) : List Binary64 :=
  Binary64.sortAscending (Binary64.distinct (points.map (·.unsignedZero)))

variable {points : List Binary64} (finite : ∀ x ∈ points, x.isFinite = true)

include finite

theorem isUnsigned_of_mem_areaPoints : ∀ x ∈ areaPoints points, x.IsUnsigned := by
  intro x hx
  obtain ⟨y, hy, rfl⟩ := List.mem_map.mp (Binary64.mem_of_mem_distinct (Binary64.mem_sortAscending.mp hx))
  exact Binary64.isUnsigned_unsignedZero (Binary64.toRat?_of_finite (finite y hy))

theorem map_areaPoints : (areaPoints points).map Binary64.toRat = (pointSet points).sort := by
  have unsigned : ∀ y ∈ points.map (·.unsignedZero), y.IsUnsigned := List.forall_mem_map.mpr fun y hy =>
    Binary64.isUnsigned_unsignedZero (Binary64.toRat?_of_finite (finite y hy))
  have order : ((areaPoints points).map Binary64.toRat).Pairwise (· < ·) := List.pairwise_map.mpr
    (Binary64.pairwise_sortAscending (fun y hy => unsigned y (Binary64.mem_of_mem_distinct hy))
      (Binary64.nodup_distinct unsigned))
  have members : ((areaPoints points).map Binary64.toRat).toFinset = pointSet points := by
    ext v
    simp only [pointSet, areaPoints, List.mem_toFinset, List.mem_map, Binary64.mem_sortAscending,
      Binary64.mem_distinct unsigned, exists_exists_and_eq_and]
    exact exists_congr fun x => and_congr_right fun _ => by
      rw [Binary64.toRat, Binary64.toRat?_unsignedZero_eq, Binary64.toRat]
  rw [← members]
  exact ((List.toFinset_sort (· ≤ ·) order.nodup).mpr (order.imp le_of_lt)).symm

omit finite

variable {settings : Settings} {f : Equation} {l : Char}

theorem map_pieces (g : Binary64 → Binary64) (xs : List Binary64) :
    ((neighbours (xs.zip (xs.map g))).map fun ((a, fa), (b, fb)) =>
      ((fb.sub fa).abs, areaLine a b fa fb (fb.sub fa).abs)).map (·.1) =
      (neighbours xs).map fun pair => ((g pair.2).sub (g pair.1)).abs := by
  have pairs : xs.zip (xs.map g) = xs.map fun x => (x, g x) := by
    induction xs with
    | nil => rfl
    | cons x rest ih => rw [List.map_cons, List.zip_cons_cons, ih, List.map_cons]
  rw [pairs, neighbours_map, List.map_map, List.map_map]
  rfl

theorem toRat?_sum_pieces {xs : List Binary64} {g : Binary64 → Binary64}
    (values : ∀ x ∈ xs, (g x).toRat? = some (p.primitiveAt x.toRat))
    (gaps : ∀ v ∈ p.gaps (xs.map Binary64.toRat), OnGrid v)
    (sums : ∀ s, s <+: p.gaps (xs.map Binary64.toRat) → OnGrid s.sum) :
    (Binary64.sum ((neighbours xs).map fun pair => ((g pair.2).sub (g pair.1)).abs)).toRat? =
      some (p.gaps (xs.map Binary64.toRat)).sum := by
  refine Binary64.toRat?_sum ?_ sums
  rw [Member.gaps, neighbours_map, List.map_map] at gaps ⊢
  rw [List.forall₂_map_left_iff, List.forall₂_map_right_iff, List.forall₂_same]
  intro pair hp
  obtain ⟨left, right⟩ := List.of_mem_zip hp
  have difference := Binary64.toRat?_sub (values _ (List.mem_of_mem_tail right)) (values _ left)
    (Binary64.onGrid_of_abs (gaps _ (List.mem_map_of_mem hp)))
  exact Binary64.toRat?_abs difference

theorem area_returns (hp : f.polynomial = .ok p) (hl : IsReadable l) (terms : ∀ t ∈ p.terms, t.IsIntegerIn l)
    (small : ∀ t ∈ p.terms, t.natExponent < 2 ^ 53) (degree : settings.checkDegree f.degree f.text = .ok ())
    (finite : ∀ x ∈ points, x.isFinite = true) (two : 2 ≤ (pointSet points).card) :
    (area settings (.ok f) points).Returns fun r =>
      ∃ total, r.value = some total ∧ r.xs.map Binary64.toRat = (pointSet points).sort ∧
        (p.IsExactOver (pointSet points) → total.toRat? = some (p.areaOver (pointSet points))) := by
  obtain ⟨F, right, own, function, values, exactly⟩ := Equation.exists_primitive hp hl terms small
  have order := map_areaPoints finite
  have enough : ¬ (areaPoints points).length < 2 := by
    have length := congrArg List.length order
    rw [List.length_map, Finset.length_sort] at length
    omega
  let g : Binary64 → Binary64 := fun x => .round (right.writtenValue (FunctionStudy.writtenValue x.toRat))
  have evaluations : ((areaPoints points).mapM fun x => F.function.evaluate (.double x)) =
      .ok ((areaPoints points).map g) := mapM_eq_ok fun x hx =>
    values x x.toRat (isUnsigned_of_mem_areaPoints finite x hx).toRat?_eq
  have numbers : ∀ x ∈ Binary64.distinct (points.map (·.unsignedZero)), x.isNaN = false := fun x hx =>
    Binary64.isNaN_of_toRat?
      (isUnsigned_of_mem_areaPoints finite x (Binary64.mem_sortAscending.mpr hx)).toRat?_eq
  unfold area
  rw [Work.ascending_of_numbers numbers, pure_bind, ← areaPoints, if_neg enough]
  refine Work.Returns.ofExcept_bind rfl (Work.Returns.ofExcept_bind degree (Work.Returns.ofExcept_bind own
    (Work.Returns.ofExcept_bind evaluations (Work.Returns.record_bind (Work.Returns.pure ?_)))))
  refine ⟨_, rfl, order, fun exact => ?_⟩
  have measured : ∀ x ∈ areaPoints points, (g x).toRat? = some (p.primitiveAt x.toRat) := fun x hx => by
    have member : x.toRat ∈ pointSet points := by
      rw [← Finset.mem_sort (· ≤ ·), ← order]
      exact List.mem_map_of_mem hx
    simp only [g, exact.written _ member, exactly exact.coefficients]
    exact Binary64.toRat?_round (exact.values _ member)
  rw [map_pieces, Member.areaOver, ← order]
  exact toRat?_sum_pieces measured (order ▸ exact.gaps) (order ▸ exact.sums)

/-- The area of a function of integer terms, for every two sets of points with the same least and the same
greatest element. Nothing rounded, the program's value and what cancels between neighbouring points make up the
area between the graph and the axis. Nothing cancels exactly where the function keeps its sign between any two
neighbours: only there does all that lies below the axis add to the total. So two sets have the same value
exactly if the same amount cancels. -/
theorem area_cancellation (hp : f.polynomial = .ok p) (hl : IsReadable l) (terms : ∀ t ∈ p.terms, t.IsIntegerIn l)
    (small : ∀ t ∈ p.terms, t.natExponent < 2 ^ 53) (degree : settings.checkDegree f.degree f.text = .ok ()) :
    (∀ points : List Binary64, (∀ x ∈ points, x.isFinite = true) → 2 ≤ (pointSet points).card →
      (area settings (.ok f) points).Returns fun r =>
        ∃ total, r.value = some total ∧ r.xs.map Binary64.toRat = (pointSet points).sort ∧
          (p.IsExactOver (pointSet points) → total.toRat? = some (p.areaOver (pointSet points)))) ∧
    ∀ (points : Finset ℚ) (a b : ℚ), IsLeast (points : Set ℚ) a → IsGreatest (points : Set ℚ) b →
      (p.areaOver points : ℝ) + p.cancelledOver points = ∫ x in (a : ℝ)..b, |p.graph x| ∧
      0 ≤ p.cancelledOver points ∧ (p.cancelledOver points = 0 ↔ p.KeepsSignOver points) ∧
      ∀ others : Finset ℚ, IsLeast (others : Set ℚ) a → IsGreatest (others : Set ℚ) b →
        ((p.areaOver points = p.areaOver others ↔ p.cancelledOver points = p.cancelledOver others) ∧
          (p.KeepsSignOver points → p.KeepsSignOver others → p.areaOver points = p.areaOver others)) := by
  refine ⟨fun points finite two => area_returns hp hl terms small degree finite two,
    fun points a b least greatest => ?_⟩
  have total := p.areaOver_add_cancelledOver least greatest
  have none := p.cancelledOver_eq_zero_iff points
  refine ⟨total, p.cancelledOver_nonneg points, none, fun others least' greatest' => ?_⟩
  -- The area between the graph and the axis depends on the outermost points alone.
  have total' := p.areaOver_add_cancelledOver least' greatest'
  have same : p.areaOver points = p.areaOver others ↔ p.cancelledOver points = p.cancelledOver others := by
    rw [← Rat.cast_inj (α := ℝ)]
    constructor <;> intro equal <;> linarith
  refine ⟨same, fun keeps keeps' => same.mpr ?_⟩
  rw [none.mpr keeps, (p.cancelledOver_eq_zero_iff others).mpr keeps']

section Lines

def doubled : Member := ⟨[⟨.ofInt 2, some { letter := .singleton 'x', exponent := .ofInt 1 }⟩]⟩

theorem raisedCoefficient_doubled : ∀ t ∈ doubled.terms, t.raisedCoefficient = 1 ∧ t.natExponent = 1 := by
  decide +kernel

theorem primitiveAt_doubled (x : ℚ) : doubled.primitiveAt x = x ^ 2 := by
  obtain ⟨coefficient, exponent⟩ := raisedCoefficient_doubled _ (List.mem_singleton_self _)
  rw [Member.primitiveAt, doubled, List.map_singleton, List.sum_singleton, coefficient, exponent, one_mul]

theorem areaOver_doubled {xs : List ℚ} (order : xs.Pairwise (· < ·)) :
    doubled.areaOver xs.toFinset = ((neighbours xs).map fun pair => |pair.2 ^ 2 - pair.1 ^ 2|).sum := by
  rw [Member.areaOver, (List.toFinset_sort (· ≤ ·) order.nodup).mpr (order.imp le_of_lt), Member.gaps]
  simp only [primitiveAt_doubled]

theorem isIntegerIn_doubled : ∀ t ∈ doubled.terms, t.IsIntegerIn 'x' :=
  List.forall_mem_singleton.mpr (Equation.isIntegerIn_written (k := 1) (by norm_num) (by norm_num))

theorem isExactOver_doubled {xs : List ℚ} (order : xs.Pairwise (· < ·)) (within : ∀ x ∈ xs, x = -1 ∨ x = 0 ∨ x = 1)
    (total : ((neighbours xs).map fun pair => |pair.2 ^ 2 - pair.1 ^ 2|).sum ≤ 2) :
    doubled.IsExactOver xs.toFinset := by
  refine Member.isExactOver_of_whole (fun t ht => ?_) (fun t ht => ?_) (fun x hx => ?_) (fun x hx => ?_) ?_
  · rw [(raisedCoefficient_doubled t ht).1]
    exact one_mem _
  · rw [(raisedCoefficient_doubled t ht).1]
    norm_num
  · rcases within x (List.mem_toFinset.mp hx) with rfl | rfl | rfl
    · exact neg_mem (one_mem _)
    · exact zero_mem _
    · exact one_mem _
  · rw [primitiveAt_doubled]
    rcases within x (List.mem_toFinset.mp hx) with rfl | rfl | rfl <;> norm_num
  · rw [areaOver_doubled order]
    exact total.trans (by norm_num)

def doubledEquation : Equation := ⟨⟨[⟨.ofInt 1, some (.ofLetter "y")⟩]⟩, doubled⟩

theorem checkDegree_doubledEquation :
    Settings.defaults.checkDegree doubledEquation.degree doubledEquation.text = .ok () := by
  decide +kernel

theorem pointSet_line : pointSet [.ofInt 1, .zero, .ofInt (-1), .ofInt 1] = [-1, 0, 1].toFinset := by
  have numbers : [Binary64.ofInt 1, .zero, .ofInt (-1), .ofInt 1].map Binary64.toRat = [1, 0, -1, 1] := by
    decide +kernel
  rw [pointSet, numbers]
  decide +kernel

theorem areaOver_line : doubled.areaOver [-1, 0, 1].toFinset = 2 := by
  rw [areaOver_doubled (by decide +kernel)]
  decide +kernel

theorem isExactOver_line : doubled.IsExactOver [-1, 0, 1].toFinset :=
  isExactOver_doubled (by decide +kernel) (by simp) (by decide +kernel)

/-- Points on both sides of the axis have the value 2 together with 0, where the function changes its sign. -/
theorem area_cancellation_line : ∃ f, Equation.parse "y=2x" = .ok f ∧
    (area .defaults (.ok f) [.ofInt 1, .zero, .ofInt (-1), .ofInt 1]).Returns fun r =>
      ∃ total, r.value = some total ∧ total.toRat? = some 2 := by
  have runs := (area_cancellation (f := doubledEquation) (p := doubled) (by decide +kernel) isReadable_x
    isIntegerIn_doubled (by decide +kernel) checkDegree_doubledEquation).1
  refine ⟨doubledEquation, by decide +kernel,
    (runs _ (by decide +kernel) (by rw [pointSet_line]; decide +kernel)).imp fun r answer => ?_⟩
  obtain ⟨total, value, -, exactly⟩ := answer
  rw [pointSet_line, areaOver_line] at exactly
  exact ⟨total, value, exactly isExactOver_line⟩

/-- The value over -1 and 1 is 0, and with 0 between them it is 2. -/
theorem area_line : ∃ f p, Equation.parse "y=2x" = .ok f ∧ f.polynomial = .ok p ∧
    (∀ t ∈ p.terms, t.IsIntegerIn 'x') ∧
    ∃ first second : List Binary64,
      (IsLeast (pointSet first : Set ℚ) (-1) ∧ IsGreatest (pointSet first : Set ℚ) 1) ∧
      (IsLeast (pointSet second : Set ℚ) (-1) ∧ IsGreatest (pointSet second : Set ℚ) 1) ∧
      p.areaOver (pointSet first) = 0 ∧ p.areaOver (pointSet second) = 2 ∧
      ((area .defaults (.ok f) first).Returns fun r => ∃ total, r.value = some total ∧ total.toRat? = some 0) ∧
      (area .defaults (.ok f) second).Returns fun r => ∃ total, r.value = some total ∧ total.toRat? = some 2 := by
  have runs {points : List Binary64} (finite : ∀ x ∈ points, x.isFinite = true)
      (two : 2 ≤ (pointSet points).card) :=
    area_returns (f := doubledEquation) (p := doubled) (by decide +kernel) isReadable_x isIntegerIn_doubled
      (by decide +kernel) checkDegree_doubledEquation finite two
  have ends : pointSet [.ofInt (-1), .ofInt 1] = [-1, 1].toFinset := by
    have numbers : [Binary64.ofInt (-1), .ofInt 1].map Binary64.toRat = [-1, 1] := by decide +kernel
    rw [pointSet, numbers]
  have cancelled : doubled.areaOver [-1, 1].toFinset = 0 := by
    rw [areaOver_doubled (by decide +kernel)]
    decide +kernel
  have exact : doubled.IsExactOver [-1, 1].toFinset :=
    isExactOver_doubled (by decide +kernel) (by simp) (by decide +kernel)
  have outer : ∀ xs : List ℚ, (-1 ∈ xs ∧ 1 ∈ xs ∧ ∀ x ∈ xs, -1 ≤ x ∧ x ≤ 1) →
      IsLeast (xs.toFinset : Set ℚ) (-1) ∧ IsGreatest (xs.toFinset : Set ℚ) 1 := by
    intro xs ⟨low, high, within⟩
    simp only [IsLeast, IsGreatest, lowerBounds, upperBounds, List.coe_toFinset]
    exact ⟨⟨low, fun x hx => (within x hx).1⟩, high, fun x hx => (within x hx).2⟩
  refine ⟨doubledEquation, doubled, by decide +kernel, by decide +kernel, isIntegerIn_doubled,
    [.ofInt (-1), .ofInt 1], [.ofInt 1, .zero, .ofInt (-1), .ofInt 1], ?_⟩
  rw [ends, pointSet_line]
  refine ⟨outer _ (by decide +kernel), outer _ (by decide +kernel), cancelled, areaOver_line, ?_, ?_⟩
  · refine (runs (by decide +kernel) (by rw [ends]; decide +kernel)).imp fun r ⟨total, value, _, exactly⟩ => ?_
    rw [ends, cancelled] at exactly
    exact ⟨total, value, exactly exact⟩
  · refine (runs (by decide +kernel) (by rw [pointSet_line]; decide +kernel)).imp
      fun r ⟨total, value, _, exactly⟩ => ?_
    rw [pointSet_line, areaOver_line] at exactly
    exact ⟨total, value, exactly isExactOver_line⟩

end Lines

end Program

end FunctionStudy
