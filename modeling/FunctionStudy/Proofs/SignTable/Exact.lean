import Mathlib.Algebra.Order.Archimedean.Real.Basic
import FunctionStudy.Proofs.SignTable

/-! Exact sign tables. The intervals of a sign table cut the line at breakpoints: each begins where
the one before it ends, and neighbours have opposite signs. -/

namespace FunctionStudy

section Runs

/-- Runs that begin at some of the columns, in whatever order these are: each where the one before it ends, and
with another sign. -/
structure AreCuts (columns : List Binary64) (runs : List SignedInterval) : Prop where
  first : (runs.head?.map fun i => i.interval.start) = columns.head?
  last : (runs.getLast?.map fun i => i.interval.finish) = some (.inf false)
  starts : (runs.map fun i => i.interval.start).Sublist columns
  finishes : (runs.map fun i => i.interval.finish).Sublist (columns.tail ++ [.inf false])
  adjacent : runs.IsChain fun i j => i.interval.finish = j.interval.start
  unit : ∀ i ∈ runs, i.sign = 1 ∨ i.sign = -1
  different : runs.IsChain fun i j => i.sign ≠ j.sign

/-- Runs that cut the line at some of the columns, from the first of them up to infinity. -/
structure AreRuns (columns : List Binary64) (runs : List SignedInterval) : Prop where
  first : (runs.head?.map fun i => i.interval.start) = columns.head?
  last : (runs.getLast?.map fun i => i.interval.finish) = some (.inf false)
  starts : (runs.map fun i => i.interval.start).Sublist columns
  finishes : (runs.map fun i => i.interval.finish).Sublist (columns.tail ++ [.inf false])
  adjacent : runs.IsChain fun i j => i.interval.finish = j.interval.start
  apart : runs.Pairwise fun i j =>
    i.interval.finish = j.interval.start ∨ i.interval.finish.lt j.interval.start = true
  unit : ∀ i ∈ runs, i.sign = 1 ∨ i.sign = -1
  different : runs.IsChain fun i j => i.sign ≠ j.sign

variable {columns : List Binary64} {b : Binary64} {s : Int} {next : SignedInterval}
  {more runs : List SignedInterval}

theorem AreCuts.single (b : Binary64) (unit : s = 1 ∨ s = -1) :
    AreCuts [b] [⟨s, ⟨b, .inf false⟩⟩] where
  first := rfl
  last := rfl
  starts := .refl _
  finishes := .refl _
  adjacent := .singleton _
  unit := by simpa using unit
  different := .singleton _

theorem AreCuts.withColumn (h : AreCuts columns (next :: more)) (b : Binary64) (unit : s = 1 ∨ s = -1) :
    AreCuts (b :: columns) (withColumn b s next more) := by
  have start : columns.head? = some next.interval.start := h.first.symm
  obtain ⟨rest, rfl⟩ : ∃ rest, columns = next.interval.start :: rest := List.head?_eq_some_iff.mp start
  unfold FunctionStudy.withColumn
  split_ifs with same
  · exact {
      first := rfl
      last := by
        have last := h.last
        cases more <;> simpa using last
      starts := (List.Sublist.cons_cons b ((List.sublist_cons_self _ _).trans h.starts))
      finishes := by
        refine h.finishes.trans ?_
        simp
      adjacent := by
        refine h.adjacent.imp_head fun {j} met => ?_
        exact met
      unit := fun i hi => by
        rcases List.mem_cons.mp hi with rfl | hi
        · exact unit
        · exact h.unit i (List.mem_cons_of_mem _ hi)
      different := by
        refine h.different.imp_head fun {j} other => ?_
        exact same ▸ other }
  · exact {
      first := rfl
      last := by simpa using h.last
      starts := h.starts.cons_cons b
      finishes := h.finishes.cons_cons next.interval.start
      adjacent := List.isChain_cons_cons.mpr ⟨rfl, h.adjacent⟩
      unit := fun i hi => by
        rcases List.mem_cons.mp hi with rfl | hi
        · exact unit
        · exact h.unit i hi
      different := List.isChain_cons_cons.mpr ⟨fun equal => same equal.symm, h.different⟩ }

theorem areCuts_signRuns (sign : Binary64 → Int) (unit : ∀ b, sign b = 1 ∨ sign b = -1) (b : Binary64)
    (columns : List Binary64) :
    AreCuts (b :: columns) (signRuns ((b :: columns).map fun c => (c, sign c))) := by
  induction columns generalizing b with
  | nil => exact .single b (unit b)
  | cons c columns ih =>
    have runs := ih c
    rw [List.map_cons, signRuns]
    cases shape : signRuns ((c :: columns).map fun c => (c, sign c)) with
    | nil =>
      rw [shape] at runs
      cases runs.first
    | cons next more =>
      rw [shape] at runs
      exact runs.withColumn b (unit b)

theorem pairwise_apart (adjacent : runs.IsChain fun i j => i.interval.finish = j.interval.start)
    (order : (runs.map fun i => i.interval.start).Pairwise fun a b => a.lt b = true) :
    runs.Pairwise fun i j =>
      i.interval.finish = j.interval.start ∨ i.interval.finish.lt j.interval.start = true := by
  induction runs with
  | nil => exact .nil
  | cons i rest ih =>
    rw [List.map_cons, List.pairwise_cons] at order
    refine List.pairwise_cons.mpr ⟨fun j hj => ?_, ih adjacent.tail order.2⟩
    cases rest with
    | nil => cases hj
    | cons next more =>
      rw [(List.isChain_cons_cons.mp adjacent).1]
      rcases List.mem_cons.mp hj with rfl | hj
      · exact .inl rfl
      · exact .inr (List.rel_of_pairwise_cons order.2 (List.mem_map_of_mem hj))

theorem AreCuts.areRuns (h : AreCuts columns runs) (order : columns.Pairwise fun a b => a.lt b = true) :
    AreRuns columns runs where
  first := h.first
  last := h.last
  starts := h.starts
  finishes := h.finishes
  adjacent := h.adjacent
  apart := pairwise_apart h.adjacent (order.sublist h.starts)
  unit := h.unit
  different := h.different

theorem areRuns_signRuns (sign : Binary64 → Int) (unit : ∀ b, sign b = 1 ∨ sign b = -1)
    (order : (b :: columns).Pairwise fun a b => a.lt b = true) :
    AreRuns (b :: columns) (signRuns ((b :: columns).map fun c => (c, sign c))) :=
  (areCuts_signRuns sign unit b columns).areRuns order

end Runs

section Order

variable {is : List Inequality} {runs : List SignedInterval} {layout : Layout}

theorem HasFiniteBounds.finite_breakpoints (h : HasFiniteBounds is) :
    ∀ b ∈ breakpoints layout is, b.isFinite = true := fun b hb => h b (mem_of_mem_breakpoints hb)

theorem lt_of_toRat_lt {b c : Binary64} (hb : b.isFinite = true) (hc : c.isFinite = true)
    (below : b.toRat < c.toRat) : b.lt c = true :=
  (Binary64.lt_iff (Binary64.toRat?_of_finite hb) (Binary64.toRat?_of_finite hc)).mpr below

theorem inf_lt_inf : (Binary64.inf true).lt (.inf false) = true := rfl

theorem lt_inf {b : Binary64} (hb : b.isFinite = true) :
    (Binary64.inf true).lt b = true ∧ b.lt (.inf false) = true := by
  cases b with
  | nan => cases hb
  | inf negative => cases hb
  | negZero => exact ⟨rfl, rfl⟩
  | finite v grid => exact ⟨rfl, rfl⟩

theorem HasFiniteBounds.pairwise_lt (h : HasFiniteBounds is) (layout : Layout) :
    (columnsOf layout is ++ [Binary64.inf false]).Pairwise fun a b => a.lt b = true := by
  have finite : ∀ b ∈ breakpoints layout is, b.isFinite = true := h.finite_breakpoints
  refine List.pairwise_append.mpr ⟨List.pairwise_cons.mpr ⟨fun b hb => (lt_inf (finite b hb)).1, ?_⟩,
    List.pairwise_singleton _ _, fun b hb c hc => ?_⟩
  · exact h.pairwise.imp_of_mem fun ha hb below => lt_of_toRat_lt (finite _ ha) (finite _ hb) below
  · rw [List.mem_singleton.mp hc]
    rcases List.mem_cons.mp hb with rfl | hb
    · exact inf_lt_inf
    · exact (lt_inf (finite b hb)).2

/-- Intervals of opposite signs from minus infinity to infinity, one after the other. -/
structure IsPartition (runs : List SignedInterval) : Prop where
  first : (runs.head?.map fun i => i.interval.start) = some (.inf true)
  last : (runs.getLast?.map fun i => i.interval.finish) = some (.inf false)
  adjacent : runs.IsChain fun i j => i.interval.finish = j.interval.start
  increasing : runs.Pairwise fun i j => i.interval.finish.lt j.interval.finish = true
  unit : ∀ i ∈ runs, i.sign = 1 ∨ i.sign = -1
  opposite : runs.IsChain fun i j => j.sign = -i.sign

theorem opposite_of_different (unit : ∀ i ∈ runs, i.sign = 1 ∨ i.sign = -1)
    (different : runs.IsChain fun i j => i.sign ≠ j.sign) : runs.IsChain fun i j => j.sign = -i.sign := by
  refine different.imp_of_mem_imp fun i j hi hj other => ?_
  rcases unit i hi with one | one <;> rcases unit j hj with two | two <;> simp_all

theorem AreRuns.isPartition (h : AreRuns (columnsOf layout is) runs) (finite : HasFiniteBounds is) :
    IsPartition runs where
  first := h.first
  last := h.last
  adjacent := h.adjacent
  increasing := by
    have order := (List.pairwise_cons.mp (finite.pairwise_lt layout)).2
    exact List.pairwise_map.mp (order.sublist h.finishes)
  unit := h.unit
  opposite := opposite_of_different h.unit h.different

end Order

section Reals

/-- Whether a real lies strictly between the ends. -/
def Interval.ContainsReal (i : Interval) (x : ℝ) : Prop :=
  (match i.start with
    | .inf true => True
    | .inf false | .nan => False
    | start => (start.toRat : ℝ) < x) ∧
  (match i.finish with
    | .inf false => True
    | .inf true | .nan => False
    | finish => x < (finish.toRat : ℝ))

/-- Whether the condition holds at a real. -/
def Condition.HoldsReal (c : Condition) (x : ℝ) : Prop :=
  match c.comparison with
  | .above => (c.bound.toRat : ℝ) < x
  | .below => x < (c.bound.toRat : ℝ)
  | .other _ => False

/-- Whether the piece is positive at a real, with its conditions taken strictly. -/
def Inequality.HoldsReal (i : Inequality) (x : ℝ) : Prop :=
  match i.mode with
  | .always => True
  | .never => False
  | .all => ∀ c ∈ i.conditions, c.HoldsReal x
  | .any | .other => ∃ c ∈ i.conditions, c.HoldsReal x

/-- A rational on the same side of some doubles as a real. -/
def SeesAlike (bs : List Binary64) (x : ℝ) (y : ℚ) : Prop :=
  ∀ b ∈ bs, ((b.toRat : ℝ) < x ↔ b.toRat < y) ∧ (x < b.toRat ↔ y < b.toRat)

variable {bs : List Binary64} {x : ℝ} {y : ℚ}

theorem exists_gap (apart : ∀ b ∈ bs, (b.toRat : ℝ) ≠ x) :
    ∃ low high : ℚ, (low : ℝ) < x ∧ x < high ∧ ∀ b ∈ bs, b.toRat ≤ low ∨ high ≤ b.toRat := by
  induction bs with
  | nil =>
    obtain ⟨low, below⟩ := exists_rat_lt x
    obtain ⟨high, above⟩ := exists_rat_gt x
    exact ⟨low, high, below, above, by simp⟩
  | cons b bs ih =>
    obtain ⟨low, high, below, above, outside⟩ := ih fun c hc => apart c (by simp [hc])
    rcases lt_or_gt_of_ne (apart b (by simp)) with left | right
    · refine ⟨max low b.toRat, high, by simp [below, left], above, fun c hc => ?_⟩
      rcases List.mem_cons.mp hc with rfl | hc
      · exact .inl (le_max_right _ _)
      · exact (outside c hc).imp_left fun le => le.trans (le_max_left _ _)
    · refine ⟨low, min high b.toRat, below, by simp [above, right], fun c hc => ?_⟩
      rcases List.mem_cons.mp hc with rfl | hc
      · exact .inr (min_le_right _ _)
      · exact (outside c hc).imp_right fun le => (min_le_left _ _).trans le

theorem exists_seesAlike (apart : ∀ b ∈ bs, (b.toRat : ℝ) ≠ x) :
    ∃ y : ℚ, SeesAlike bs x y ∧ ∀ b ∈ bs, b.toRat ≠ y := by
  obtain ⟨low, high, below, above, outside⟩ := exists_gap apart
  have gap : low < high := by exact_mod_cast below.trans above
  refine ⟨(low + high) / 2, fun b hb => ?_, fun b hb => ?_⟩
  · rcases outside b hb with left | right
    · have real : (b.toRat : ℝ) < x := lt_of_le_of_lt (by exact_mod_cast left) below
      have rational : b.toRat < (low + high) / 2 := by linarith
      simp only [real, rational, real.not_gt, rational.not_gt, iff_self, and_self]
    · have real : x < (b.toRat : ℝ) := lt_of_lt_of_le above (by exact_mod_cast right)
      have rational : (low + high) / 2 < b.toRat := by linarith
      simp only [real, rational, real.not_gt, rational.not_gt, iff_self, and_self]
  · intro equal
    rcases outside b hb with left | right <;> linarith

theorem SeesAlike.holds_iff {i : Inequality} (h : SeesAlike i.bounds x y) :
    i.HoldsReal x ↔ i.Holds y := by
  have conditions : ∀ c ∈ i.conditions, (c.HoldsReal x ↔ c.Holds y) := by
    intro c hc
    obtain ⟨left, right⟩ := h c.bound (List.mem_map_of_mem hc)
    unfold Condition.HoldsReal Condition.Holds
    cases c.comparison with
    | above => exact left
    | below => exact right
    | other sign => rfl
  unfold Inequality.HoldsReal Inequality.Holds
  cases i.mode with
  | always => rfl
  | never => rfl
  | all => exact forall₂_congr conditions
  | any => exact exists_congr fun c => and_congr_right fun hc => conditions c hc
  | other => exact exists_congr fun c => and_congr_right fun hc => conditions c hc

theorem SeesAlike.contains_iff {i : Interval} (h : SeesAlike bs x y)
    (start : i.start = .inf true ∨ i.start ∈ bs) (finish : i.finish = .inf false ∨ i.finish ∈ bs) :
    i.ContainsReal x ↔ i.Contains y := by
  obtain ⟨start', finish'⟩ := i
  refine and_congr ?_ ?_
  · rcases start with rfl | member
    · rfl
    · have left := (h _ member).1
      rcases start' with _ | (_ | _) | _ | _ <;> first | rfl | exact left
  · rcases finish with rfl | member
    · rfl
    · have right := (h _ member).2
      rcases finish' with _ | (_ | _) | _ | _ <;> first | rfl | exact right

open Classical in
/-- The product of 1 for each inequality that holds and -1 for each that does not. -/
noncomputable def signAt (is : List Inequality) (x : ℝ) : Int :=
  (is.map fun i => if i.HoldsReal x then 1 else -1).prod

variable {is : List Inequality} {layout : Layout}

theorem SeesAlike.exists_columnAt (h : SeesAlike (is.flatMap (·.bounds)) x y) (avoids : AvoidsBounds y is) :
    ∃ c, columnAt y (columnsOf layout is) = some c ∧ (is.map (Inequality.columnSign c)).prod = signAt is x := by
  obtain ⟨c, hc, compares⟩ := avoids.exists_columnAt
  refine ⟨c, hc, congrArg List.prod (List.map_congr_left fun i hi => ?_)⟩
  have bounds : ∀ b ∈ i.bounds, b ∈ is.flatMap (·.bounds) := fun b hb =>
    List.mem_flatMap.mpr ⟨i, hi, hb⟩
  have row := Inequality.rightOf_iff fun b hb => compares b (bounds b hb)
  have alike : SeesAlike i.bounds x y := fun b hb => h b (bounds b hb)
  have same : i.rightOf c = true ↔ i.HoldsReal x := row.trans alike.holds_iff.symm
  by_cases holds : i.HoldsReal x
  · rw [Inequality.columnSign, if_pos holds, if_pos (same.mpr holds)]
  · rw [Inequality.columnSign, if_neg holds, if_neg (mt same.mp holds)]

theorem startsLeftOf_eq_false {b c : Binary64} (later : b = c ∨ b.lt c = true)
    (before : startsRightOf y b = true) : startsLeftOf y c = false := by
  by_cases finite : b.isFinite = true
  · have above : y < b.toRat := by
      rwa [(startsLeftOf_eq finite).2, decide_eq_true_iff] at before
    by_cases other : c.isFinite = true
    · have le : b.toRat ≤ c.toRat := by
        rcases later with rfl | later
        · exact le_rfl
        · exact ((Binary64.lt_iff (Binary64.toRat?_of_finite finite)
            (Binary64.toRat?_of_finite other)).mp later).le
      rw [(startsLeftOf_eq other).1, decide_eq_false (above.trans_le le).not_gt]
    · cases c with
      | nan => rfl
      | inf negative =>
        have lt := later.resolve_left (by rintro rfl; exact other finite)
        cases negative with
        | false => rfl
        | true =>
          cases b with
          | nan => cases finite
          | inf s => cases finite
          | negZero => cases lt
          | finite v grid => cases lt
      | negZero => exact absurd rfl other
      | finite v grid => exact absurd rfl other
  · cases b with
    | nan => cases before
    | inf negative =>
      cases negative with
      | true => cases before
      | false =>
        rcases later with rfl | later
        · rfl
        · cases c <;> cases later
    | negZero => exact absurd rfl finite
    | finite v grid => exact absurd rfl finite

theorem AreRuns.contains_unique {columns : List Binary64} {runs : List SignedInterval}
    (h : AreRuns columns runs) {i j : SignedInterval} (hi : i ∈ runs) (hj : j ∈ runs)
    (left : i.interval.Contains y) (right : j.interval.Contains y) : i = j := by
  by_contra different
  have disjoint : runs.Pairwise fun i j => ¬ (i.interval.Contains y ∧ j.interval.Contains y) := by
    refine h.apart.imp fun {i j} later both => ?_
    rw [Interval.contains_iff, Interval.contains_iff] at both
    rw [startsLeftOf_eq_false later both.1.2] at both
    cases both.2.1
  have : Std.Symm fun i j : SignedInterval => ¬ (i.interval.Contains y ∧ j.interval.Contains y) :=
    ⟨fun _ _ none both => none both.symm⟩
  exact disjoint.forall hi hj different ⟨left, right⟩

theorem prod_columnSign_unit (is : List Inequality) (b : Binary64) :
    (is.map (Inequality.columnSign b)).prod = 1 ∨ (is.map (Inequality.columnSign b)).prod = -1 := by
  induction is with
  | nil => exact .inl rfl
  | cons i is ih =>
    rw [List.map_cons, List.prod_cons, Inequality.columnSign]
    split_ifs
    · rwa [one_mul]
    · rw [neg_one_mul, neg_inj, neg_eq_iff_eq_neg]
      exact ih.symm

theorem AreRuns.ends {runs : List SignedInterval} (h : AreRuns (columnsOf layout is) runs) :
    ∀ i ∈ runs, (i.interval.start = .inf true ∨ i.interval.start ∈ is.flatMap (·.bounds)) ∧
      (i.interval.finish = .inf false ∨ i.interval.finish ∈ is.flatMap (·.bounds)) := by
  intro i hi
  have start := h.starts.subset (List.mem_map_of_mem hi)
  have finish := h.finishes.subset (List.mem_map_of_mem hi)
  rw [List.mem_append, List.mem_singleton] at finish
  exact ⟨(List.mem_cons.mp start).imp_right mem_of_mem_breakpoints,
    finish.symm.imp_right mem_of_mem_breakpoints⟩

/-- The table is exact: its intervals are a partition at the bounds, a real that is no bound is in
one of them, and its sign there is the product of the rows. -/
theorem solveInequalities_exact (is : List Inequality) (letter : String)
    (sided : ∀ i ∈ is, i.IsOneSided) (finite : HasFiniteBounds is) :
    (solveInequalities is letter).Returns fun s =>
      IsPartition s.ordered ∧
      (∀ v, (∃ b ∈ s.breakpoints, b.toRat = v) ↔ ∃ b ∈ is.flatMap (·.bounds), b.toRat = v) ∧
      (∀ x : ℝ, (∀ b ∈ s.breakpoints, (b.toRat : ℝ) ≠ x) →
        (∃! i, i ∈ s.ordered ∧ i.interval.ContainsReal x) ∧
        ∀ i ∈ s.ordered, i.interval.ContainsReal x → i.sign = signAt is x) ∧
      s.positive = (s.ordered.filter fun i => i.sign = 1).map (·.interval) ∧
      s.negative = (s.ordered.filter fun i => i.sign = -1).map (·.interval) := by
  refine (solveInequalities_returns is letter sided).imp fun s right => ?_
  obtain ⟨-, layout, points, ordered⟩ := right
  have runs := areRuns_signRuns (fun b => (is.map (Inequality.columnSign b)).prod)
    (prod_columnSign_unit is) (List.pairwise_append.mp (finite.pairwise_lt layout)).1
  rw [← columnsOf, ← ordered] at runs
  have partition := runs.isPartition finite
  refine ⟨partition, fun v => ?_, fun x apart => ?_, ?_, ?_⟩
  · rw [points]
    constructor
    · rintro ⟨b, hb, rfl⟩
      exact ⟨b, mem_of_mem_breakpoints hb, rfl⟩
    · rintro ⟨b, hb, rfl⟩
      exact finite.exists_breakpoint layout hb
  · have away : ∀ b ∈ is.flatMap (·.bounds), (b.toRat : ℝ) ≠ x := by
      intro b hb
      obtain ⟨c, hc, value⟩ := finite.exists_breakpoint layout hb
      rw [← value]
      exact apart c (points ▸ hc)
    obtain ⟨y, alike, different⟩ := exists_seesAlike away
    have avoids : AvoidsBounds y is := ⟨finite, different⟩
    obtain ⟨c, hc, sign⟩ := alike.exists_columnAt avoids
    obtain ⟨first, more, shape, -, -, covers⟩ := exists_signRuns
      (fun b => (is.map (Inequality.columnSign b)).prod) (.inf true) (avoids.areOrdered layout)
    rw [← columnsOf, ← ordered] at shape
    rw [← shape, ← columnsOf, hc, Option.map_some, sign] at covers
    have contains : ∀ i ∈ s.ordered, (i.interval.ContainsReal x ↔ i.interval.Contains y) :=
      fun i hi => alike.contains_iff (runs.ends i hi).1 (runs.ends i hi).2
    obtain ⟨i, hi, -, inside⟩ := (covers (signAt is x)).mpr rfl
    refine ⟨⟨i, ⟨hi, (contains i hi).mpr inside⟩, fun j hj => ?_⟩, fun j hj within => ?_⟩
    · exact runs.contains_unique hj.1 hi ((contains j hj.1).mp hj.2) inside
    · exact (Option.some_inj.mp ((covers j.sign).mp ⟨j, hj, rfl, (contains j hj).mp within⟩)).symm
  · refine congrArg _ (List.filter_congr fun i hi => ?_)
    rcases partition.unit i hi with one | one <;> simp [one]
  · refine congrArg _ (List.filter_congr fun i hi => ?_)
    rcases partition.unit i hi with one | one <;> simp [one]

/-- Two rows with a common bound: `x<-1 ∨ x>1` and `x>1`. -/
def sharedBound : List Inequality :=
  [⟨.any, [⟨.below, .ofInt (-1)⟩, ⟨.above, .ofInt 1⟩], ""⟩, ⟨.all, [⟨.above, .ofInt 1⟩], ""⟩]

theorem solveInequalities_exact_sharedBound :
    (solveInequalities sharedBound "x").Returns fun s =>
      IsPartition s.ordered ∧ ∀ i ∈ s.ordered, i.interval.ContainsReal 0 → i.sign = 1 := by
  have sided : ∀ i ∈ sharedBound, i.IsOneSided := by
    simp [sharedBound, Inequality.IsOneSided]
  have finite : ∀ b ∈ sharedBound.flatMap (·.bounds), b.isFinite = true := by decide +kernel
  have one : (Binary64.ofInt 1).toRat = 1 := by decide +kernel
  have opposite : (Binary64.ofInt (-1)).toRat = -1 := by decide +kernel
  refine (solveInequalities_exact sharedBound "x" sided finite).imp fun s right => ?_
  obtain ⟨partition, points, signs, -, -⟩ := right
  have apart : ∀ b ∈ s.breakpoints, (b.toRat : ℝ) ≠ 0 := by
    intro b hb
    obtain ⟨c, hc, value⟩ := (points b.toRat).mp ⟨b, hb, rfl⟩
    have bounds : c = .ofInt (-1) ∨ c = .ofInt 1 ∨ c = .ofInt 1 := by
      simpa [sharedBound, Inequality.bounds] using hc
    rw [← value]
    rcases bounds with rfl | rfl | rfl <;> simp [one, opposite]
  have sign : signAt sharedBound 0 = 1 := by
    norm_num [signAt, sharedBound, Inequality.HoldsReal, Condition.HoldsReal, one, opposite]
  exact ⟨partition, fun i hi within => sign ▸ (signs 0 apart).2 i hi within⟩

end Reals

end FunctionStudy
