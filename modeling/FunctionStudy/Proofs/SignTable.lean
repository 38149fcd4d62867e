import Mathlib.Algebra.BigOperators.Group.List.Basic
import Mathlib.Data.Sign.Basic
import Mathlib.Tactic.Ring
import FunctionStudy.Proofs.Binary64.Order
import FunctionStudy.Proofs.Work
import FunctionStudy.SignTable

/-! Sign tables. The run that contains a point has the sign of its column, the last one that starts
left of it, and a row asked at the start of the column answers for the point. -/

namespace FunctionStudy

open Binary64 (IsUnsigned)

section Columns

variable {x : ℚ} {columns : List Binary64}

/-- Whether a column starts left of a point. -/
def startsLeftOf (x : ℚ) : Binary64 → Bool
  | .inf negative => negative
  | .nan => false
  | b => b.toRat < x

/-- Whether a column that starts at a bound comes after a point. -/
def startsRightOf (x : ℚ) : Binary64 → Bool
  | .inf negative => !negative
  | .nan => false
  | b => x < b.toRat

theorem Interval.contains_iff (i : Interval) :
    i.Contains x ↔ startsLeftOf x i.start = true ∧ startsRightOf x i.finish = true := by
  obtain ⟨start, finish⟩ := i
  refine and_congr ?_ ?_
  · rcases start with _ | (_ | _) | _ | _ <;> simp [startsLeftOf]
  · rcases finish with _ | (_ | _) | _ | _ <;> simp [startsRightOf]

/-- The last column that starts left of a point. -/
def columnAt (x : ℚ) (columns : List Binary64) : Option Binary64 :=
  (columns.filter (startsLeftOf x)).getLast?

/-- Columns that come in order around a point, which is no start of one. -/
structure AreOrdered (x : ℚ) (columns : List Binary64) : Prop where
  pairwise : columns.Pairwise fun a b => startsLeftOf x b = true → startsLeftOf x a = true
  apart : ∀ b ∈ columns, startsRightOf x b = !startsLeftOf x b

theorem AreOrdered.tail {b : Binary64} (h : AreOrdered x (b :: columns)) : AreOrdered x columns :=
  ⟨h.pairwise.tail, fun c hc => h.apart c (by simp [hc])⟩

theorem columnAt_cons (b : Binary64) (columns : List Binary64) :
    columnAt x (b :: columns) =
      (columnAt x columns).or (if startsLeftOf x b then some b else none) := by
  unfold columnAt
  cases left : startsLeftOf x b with
  | false => simp [left]
  | true => cases last : (columns.filter (startsLeftOf x)).getLast? <;> simp [left, last, List.getLast?_cons]

theorem AreOrdered.columnAt_eq_none {b : Binary64} (h : AreOrdered x (b :: columns))
    (after : startsLeftOf x b = false) : columnAt x (b :: columns) = none := by
  have none : ∀ c ∈ b :: columns, ¬ startsLeftOf x c = true := by
    intro c hc left
    rcases List.mem_cons.mp hc with rfl | hc
    · rw [after] at left
      cases left
    · rw [List.rel_of_pairwise_cons h.pairwise hc left] at after
      cases after
  rw [columnAt, List.filter_eq_nil_iff.mpr none, List.getLast?_nil]

end Columns

section Runs

variable {x : ℚ} {columns : List Binary64}

/-- A run of the sign contains the point. -/
def Covers (runs : List SignedInterval) (x : ℚ) (s : Int) : Prop :=
  ∃ i ∈ runs, i.sign = s ∧ i.interval.Contains x

theorem covers_cons {i : SignedInterval} {runs : List SignedInterval} {s : Int} :
    Covers (i :: runs) x s ↔ (i.sign = s ∧ i.interval.Contains x) ∨ Covers runs x s := by
  simp [Covers]

/-- The runs after a column is put in front of them. -/
def withColumn (b : Binary64) (s : Int) (next : SignedInterval) (more : List SignedInterval) :
    List SignedInterval :=
  if next.sign = s then ⟨s, ⟨b, next.interval.finish⟩⟩ :: more
  else ⟨s, ⟨b, next.interval.start⟩⟩ :: next :: more

variable {b : Binary64} {s t : Int} {next : SignedInterval} {more : List SignedInterval}

/-- A point beyond the start of the next run is where it was. -/
theorem covers_withColumn_of_left (before : startsLeftOf x b = true)
    (left : startsLeftOf x next.interval.start = true)
    (right : startsRightOf x next.interval.start = false) :
    Covers (withColumn b s next more) x t ↔ Covers (next :: more) x t := by
  unfold withColumn
  split_ifs with same
  · simp only [covers_cons, Interval.contains_iff, before, left, same]
  · simp only [covers_cons, Interval.contains_iff, right, Bool.false_eq_true, and_false, false_or]

/-- A point before the next run is in the new column if anywhere. -/
theorem covers_withColumn_of_right (right : startsRightOf x next.interval.start = true)
    (finish : startsRightOf x next.interval.finish = true)
    (outside : ¬ Covers (next :: more) x t) :
    Covers (withColumn b s next more) x t ↔ startsLeftOf x b = true ∧ s = t := by
  have later : ¬ Covers more x t := fun h => outside (covers_cons.mpr (.inr h))
  unfold withColumn
  split_ifs with same
  · rw [covers_cons, Interval.contains_iff, or_iff_left later]
    simp [finish, and_comm]
  · rw [covers_cons, Interval.contains_iff, or_iff_left outside]
    simp [right, and_comm]

theorem exists_withColumn (x : ℚ) (b : Binary64) (s : Int) (next : SignedInterval)
    (more : List SignedInterval) :
    ∃ first rest, withColumn b s next more = first :: rest ∧ first.interval.start = b ∧
      (startsRightOf x next.interval.start = true → startsRightOf x next.interval.finish = true →
        startsRightOf x first.interval.finish = true) := by
  unfold withColumn
  split_ifs
  · exact ⟨_, _, rfl, rfl, fun _ finish => finish⟩
  · exact ⟨_, _, rfl, rfl, fun start _ => start⟩

/-- The runs of ordered columns start with the first one, and the run around the point has the sign
of its column. -/
theorem exists_signRuns (sign : Binary64 → Int) (b : Binary64) (h : AreOrdered x (b :: columns)) :
    ∃ first more, signRuns ((b :: columns).map fun c => (c, sign c)) = first :: more ∧
      first.interval.start = b ∧
      (startsLeftOf x b = false → startsRightOf x first.interval.finish = true) ∧
      ∀ s, Covers (first :: more) x s ↔ ((columnAt x (b :: columns)).map sign) = some s := by
  -- Runs are merged from the right; where the first one ends is what the next column needs to know.
  induction columns generalizing b with
  | nil =>
    refine ⟨⟨sign b, ⟨b, .inf false⟩⟩, [], rfl, rfl, fun _ => rfl, fun s => ?_⟩
    rw [columnAt_cons, covers_cons, Interval.contains_iff]
    cases startsLeftOf x b <;> simp [columnAt, Covers, startsRightOf]
  | cons c columns ih =>
    obtain ⟨next, more, runs, start, after, covers⟩ := ih c h.tail
    have order : startsLeftOf x c = true → startsLeftOf x b = true :=
      List.rel_of_pairwise_cons h.pairwise (by simp)
    have apart := h.apart c (by simp)
    have whole : signRuns ((b :: c :: columns).map fun c => (c, sign c)) =
        withColumn b (sign b) next more := by
      rw [List.map_cons, signRuns, runs]
      rfl
    obtain ⟨first, rest, shape, start', finish⟩ := exists_withColumn x b (sign b) next more
    rw [whole, shape]
    refine ⟨first, rest, rfl, start', fun outside => ?_, fun t => ?_⟩
    · have right : startsLeftOf x c = false := by
        rw [← Bool.not_eq_true]
        exact fun left => by rw [order left] at outside; cases outside
      rw [right, Bool.not_false, ← start] at apart
      exact finish apart (after right)
    rw [← shape, columnAt_cons]
    cases left : startsLeftOf x c with
    | true =>
      rw [left, Bool.not_true] at apart
      rw [covers_withColumn_of_left (order left) (start ▸ left) (start ▸ apart), covers, columnAt_cons,
        left, if_pos rfl]
      cases columnAt x columns <;> rfl
    | false =>
      rw [left, Bool.not_false] at apart
      have none := h.tail.columnAt_eq_none left
      have outside : ¬ Covers (next :: more) x t := by
        rw [covers, none]
        simp
      rw [covers_withColumn_of_right (start ▸ apart) (after left) outside, none]
      cases startsLeftOf x b <;> simp

end Runs

section Rows

variable {columns : List Binary64} {b c : Binary64}

/-- Whether a condition holds just to the right of a column's start. -/
def Condition.rightOf (b : Binary64) (c : Condition) : Bool :=
  match c.comparison with
  | .above => c.bound.le b
  | .below => b.lt c.bound
  | .other _ => false

/-- Whether a piece is positive just to the right of a column's start. -/
def Inequality.rightOf (b : Binary64) (i : Inequality) : Bool :=
  match i.mode with
  | .always => true
  | .never => false
  | .all => i.conditions.all (Condition.rightOf b)
  | .any | .other => i.conditions.any (Condition.rightOf b)

def Inequality.columnSign (b : Binary64) (i : Inequality) : Int := if i.rightOf b then 1 else -1

/-- Every condition compares with its bound. -/
def Inequality.IsOneSided (i : Inequality) : Prop :=
  ∀ c ∈ i.conditions, c.comparison = .above ∨ c.comparison = .below

theorem Inequality.signRightOf_eq {i : Inequality} (h : i.IsOneSided) (b : Binary64) :
    i.signRightOf b = .ok (i.columnSign b) := by
  have checks : i.conditions.mapM (·.holdsRightOf b) =
      .ok (i.conditions.map (Condition.rightOf b)) := by
    refine mapM_eq_ok fun c hc => ?_
    rcases h c hc with above | below
    · simp [Condition.holdsRightOf, Condition.rightOf, above]
    · simp [Condition.holdsRightOf, Condition.rightOf, below]
  rw [signRightOf, columnSign, rightOf]
  cases i.mode <;> simp [checks, bind, Except.bind, pure, Except.pure, List.all_map, List.any_map]

def Inequality.row (letter : String) (columns : List Binary64) (i : Inequality) : SignRow :=
  ⟨i.piece, i.format letter, columns.map fun b => i.columnSign b⟩

theorem productSigns_rows (letter : String) (columns : List Binary64) (is : List Inequality) :
    productSigns columns.length (is.map (Inequality.row letter columns)) =
      columns.map fun b => (is.map (Inequality.columnSign b)).prod := by
  suffices ∀ start : Binary64 → Int,
      (is.map (Inequality.row letter columns)).foldl
        (fun product row => List.zipWith (· * ·) row.signs product) (columns.map start) =
      columns.map fun b => start b * (is.map (Inequality.columnSign b)).prod by
    rw [productSigns, ← List.map_const', this]
    simp only [one_mul]
  intro start
  induction is generalizing start with
  | nil => simp
  | cons i is ih =>
    rw [List.map_cons, List.foldl_cons, Inequality.row, List.zipWith_map, List.zipWith_self, ih]
    refine List.map_congr_left fun b _ => ?_
    rw [List.map_cons, List.prod_cons]
    ring

/-- The columns of a table: one from minus infinity on, and one from each breakpoint on. -/
def columnsOf (layout : Layout) (is : List Inequality) : List Binary64 := .inf true :: breakpoints layout is

theorem mapM_signRow {is : List Inequality} (letter : String) (columns : List Binary64)
    (h : ∀ i ∈ is, i.IsOneSided) :
    is.mapM (signRow letter columns) = .ok (is.map (Inequality.row letter columns)) := by
  refine mapM_eq_ok fun i hi => ?_
  rw [signRow, mapM_eq_ok fun b _ => i.signRightOf_eq (h i hi) b]
  rfl

theorem solveInequalities_runs (is : List Inequality) (letter : String) (h : ∀ i ∈ is, i.IsOneSided)
    (start : Notebook) (layout : Layout) :
    ∃ s after, (solveInequalities is letter).runFrom start layout = (.ok s, after) ∧ s.status = .solved ∧
      s.breakpoints = breakpoints layout is ∧
      s.ordered = signRuns ((columnsOf layout is).map fun b =>
        (b, (is.map (Inequality.columnSign b)).prod)) := by
  unfold solveInequalities
  rw [Work.runFrom_read_bind]
  refine Work.Returns.ofExcept_bind (mapM_signRow letter (columnsOf layout is) h) ?_ start layout
  refine Work.Returns.record_bind (Work.Returns.pure ⟨rfl, rfl, congrArg signRuns ?_⟩)
  have product := productSigns_rows letter (columnsOf layout is) is
  rw [columnsOf] at product ⊢
  rw [product, ← List.map_prod_left_eq_zip]

theorem solveInequalities_returns (is : List Inequality) (letter : String) (h : ∀ i ∈ is, i.IsOneSided) :
    (solveInequalities is letter).Returns fun s => s.status = .solved ∧ ∃ layout,
      s.breakpoints = breakpoints layout is ∧
      s.ordered = signRuns ((columnsOf layout is).map fun b =>
        (b, (is.map (Inequality.columnSign b)).prod)) := by
  intro start layout
  obtain ⟨s, after, run, status, points, ordered⟩ := solveInequalities_runs is letter h start layout
  exact ⟨s, after, run, status, layout, points, ordered⟩

theorem solveInequalities_ordered {is : List Inequality} {letter : String} {layout : Layout} {s : SignAnalysis}
    (sided : ∀ i ∈ is, i.IsOneSided) (h : (solveInequalities is letter).Yields layout s) :
    s.status = .solved ∧ s.breakpoints = breakpoints layout is ∧
      s.ordered = signRuns ((columnsOf layout is).map fun b =>
        (b, (is.map (Inequality.columnSign b)).prod)) := by
  obtain ⟨start, after, run⟩ := h
  obtain ⟨t, after', run', right⟩ := solveInequalities_runs is letter sided start layout
  obtain ⟨same, -⟩ := Prod.mk.inj (run.symm.trans run')
  exact Except.ok.inj same ▸ right

end Rows

section Points

variable {x : ℚ} {is : List Inequality} {i : Inequality} {layout : Layout}

def HasFiniteBounds (is : List Inequality) : Prop :=
  ∀ b ∈ is.flatMap (·.bounds), b.isFinite = true

/-- Finite bounds, none of them a negative zero. -/
def HasUnsignedBounds (is : List Inequality) : Prop :=
  ∀ b ∈ is.flatMap (·.bounds), b.IsUnsigned

theorem HasUnsignedBounds.hasFiniteBounds (h : HasUnsignedBounds is) : HasFiniteBounds is :=
  fun b hb => (h b hb).isFinite

/-- A point that is no bound. -/
structure AvoidsBounds (x : ℚ) (is : List Inequality) : Prop where
  finite : HasFiniteBounds is
  apart : ∀ b ∈ is.flatMap (·.bounds), b.toRat ≠ x

theorem mem_of_mem_breakpoints {b : Binary64} (h : b ∈ breakpoints layout is) :
    b ∈ is.flatMap (·.bounds) :=
  Layout.mem_of_mem_ascending h

theorem mem_breakpoints (h : HasUnsignedBounds is) {b : Binary64} :
    b ∈ breakpoints layout is ↔ b ∈ is.flatMap (·.bounds) :=
  Layout.mem_ascending_of_ne_negZero fun c hc => (h c hc).ne_negZero

theorem HasFiniteBounds.exists_breakpoint (h : HasFiniteBounds is) (layout : Layout) {b : Binary64}
    (hb : b ∈ is.flatMap (·.bounds)) : ∃ c ∈ breakpoints layout is, c.toRat = b.toRat := by
  obtain ⟨c, hc, value⟩ := Binary64.exists_mem_distinct h hb
  exact ⟨c, Layout.mem_ascending.mpr hc, value⟩

theorem AvoidsBounds.breakpoints (h : AvoidsBounds x is) :
    ∀ b ∈ breakpoints layout is, b.isFinite = true ∧ b.toRat ≠ x := by
  intro b hb
  have bound := mem_of_mem_breakpoints hb
  exact ⟨h.finite b bound, h.apart b bound⟩

theorem HasFiniteBounds.pairwise (h : HasFiniteBounds is) :
    (breakpoints layout is).Pairwise fun a b => a.toRat < b.toRat :=
  Layout.pairwise_ascending h

theorem startsLeftOf_eq {b : Binary64} (hb : b.isFinite = true) :
    startsLeftOf x b = decide (b.toRat < x) ∧ startsRightOf x b = decide (x < b.toRat) := by
  cases b with
  | nan => cases hb
  | inf negative => cases hb
  | negZero => exact ⟨rfl, rfl⟩
  | finite v grid => exact ⟨rfl, rfl⟩

theorem AvoidsBounds.areOrdered (h : AvoidsBounds x is) (layout : Layout) : AreOrdered x (columnsOf layout is) where
  pairwise := by
    refine List.pairwise_cons.mpr ⟨fun _ _ _ => rfl, ?_⟩
    refine h.finite.pairwise.imp_of_mem fun {a b} ha hb below left => ?_
    rw [(startsLeftOf_eq (h.breakpoints a ha).1).1, decide_eq_true_iff]
    rw [(startsLeftOf_eq (h.breakpoints b hb).1).1, decide_eq_true_iff] at left
    exact below.trans left
  apart b hb := by
    rcases List.mem_cons.mp hb with rfl | hb
    · rfl
    · obtain ⟨finite, different⟩ := h.breakpoints b hb
      rw [(startsLeftOf_eq finite).1, (startsLeftOf_eq finite).2]
      rcases lt_or_gt_of_ne different with below | above
      · rw [decide_eq_true below, decide_eq_false below.not_gt, Bool.not_true]
      · rw [decide_eq_true above, decide_eq_false above.not_gt, Bool.not_false]

theorem column_lt_iff {b c : Binary64} (hc : c = .inf true ∨ c.isFinite = true) (hb : b.isFinite = true) :
    (c.lt b = true ↔ c = .inf true ∨ c.toRat < b.toRat) ∧
      (b.le c = true ↔ c ≠ .inf true ∧ b.toRat ≤ c.toRat) := by
  have value := Binary64.toRat?_of_finite hb
  rcases hc with rfl | hc
  · cases b with
    | nan => cases hb
    | inf negative => cases hb
    | negZero => simp [Binary64.lt, Binary64.le, Binary64.same]
    | finite v grid => simp [Binary64.lt, Binary64.le, Binary64.same]
  · have other : c ≠ .inf true := by
      rintro rfl
      cases hc
    rw [Binary64.lt_iff (Binary64.toRat?_of_finite hc) value,
      Binary64.le_iff value (Binary64.toRat?_of_finite hc)]
    exact ⟨(or_iff_right other).symm, (and_iff_right other).symm⟩

/-- The column of a point compares with every bound as the point does. -/
theorem AvoidsBounds.exists_columnAt (h : AvoidsBounds x is) :
    ∃ c, columnAt x (columnsOf layout is) = some c ∧ ∀ b ∈ is.flatMap (·.bounds),
      b.le c = decide (b.toRat < x) ∧ c.lt b = decide (x < b.toRat) := by
  have first : Binary64.inf true ∈ (columnsOf layout is).filter (startsLeftOf x) :=
    List.mem_filter.mpr ⟨List.mem_cons_self, rfl⟩
  have kind : ∀ b ∈ columnsOf layout is, b = .inf true ∨ b.isFinite = true := fun b hb =>
    (List.mem_cons.mp hb).imp_right fun hb => (h.breakpoints b hb).1
  have some : ∀ b ∈ FunctionStudy.breakpoints layout is, b ≠ .inf true := by
    rintro _ hb rfl
    cases (h.breakpoints _ hb).1
  have order : (columnsOf layout is).Pairwise fun a b => b ≠ .inf true ∧ (a = .inf true ∨ a.toRat < b.toRat) :=
    List.pairwise_cons.mpr ⟨fun b hb => ⟨some b hb, .inl rfl⟩,
      h.finite.pairwise.imp_of_mem fun _ hb below => ⟨some _ hb, .inr below⟩⟩
  cases hc : columnAt x (columnsOf layout is) with
  | none => exact absurd (List.getLast?_eq_none_iff.mp hc) (List.ne_nil_of_mem first)
  | some c =>
    obtain ⟨before, shape⟩ := List.getLast?_eq_some_iff.mp hc
    have last : c ∈ (columnsOf layout is).filter (startsLeftOf x) := by rw [shape]; simp
    obtain ⟨column, left⟩ := List.mem_filter.mp last
    have earlier := order.filter (startsLeftOf x)
    rw [shape, List.pairwise_append] at earlier
    have size : c = .inf true ∨ c.toRat < x := by
      refine (kind c column).imp_right fun finite => ?_
      rwa [(startsLeftOf_eq finite).1, decide_eq_true_iff] at left
    refine ⟨c, rfl, fun b hb => ?_⟩
    obtain ⟨lower, upper⟩ := column_lt_iff (kind c column) (h.finite b hb)
    rcases lt_or_gt_of_ne (h.apart b hb) with below | above
    · -- The breakpoint at a bound before the point is the last column or an earlier one.
      obtain ⟨d, hd, value⟩ := h.finite.exists_breakpoint layout hb
      have member : d ∈ (columnsOf layout is).filter (startsLeftOf x) :=
        List.mem_filter.mpr ⟨List.mem_cons_of_mem _ hd, by
          rw [(startsLeftOf_eq (h.breakpoints d hd).1).1, value, decide_eq_true below]⟩
      rw [shape, List.mem_append, List.mem_singleton] at member
      have le : c ≠ .inf true ∧ b.toRat ≤ c.toRat := by
        rw [← value]
        rcases member with member | rfl
        · obtain ⟨other, order⟩ := earlier.2.2 d member c (by simp)
          exact ⟨other, (order.resolve_left (some d hd)).le⟩
        · exact ⟨some d hd, le_rfl⟩
      rw [decide_eq_true below, decide_eq_false below.not_gt, ← Bool.not_eq_true, upper, lower]
      exact ⟨le, not_or.mpr ⟨le.1, le.2.not_gt⟩⟩
    · have lt : c = .inf true ∨ c.toRat < b.toRat := size.imp_right fun size => size.trans above
      rw [decide_eq_true above, decide_eq_false above.not_gt, ← Bool.not_eq_true, upper, lower]
      exact ⟨fun ⟨other, le⟩ => (lt.resolve_left other).not_ge le, lt⟩

theorem Condition.rightOf_iff {c : Condition} {b : Binary64}
    (above : c.bound.le b = decide (c.bound.toRat < x))
    (below : b.lt c.bound = decide (x < c.bound.toRat)) : c.rightOf b = true ↔ c.Holds x := by
  unfold Condition.rightOf Condition.Holds
  cases c.comparison <;> simp [above, below]

/-- A row answers at the start of the column for the whole of it. -/
theorem Inequality.rightOf_iff {b : Binary64} (h : ∀ c ∈ i.bounds,
      c.le b = decide (c.toRat < x) ∧ b.lt c = decide (x < c.toRat)) :
    i.rightOf b = true ↔ i.Holds x := by
  have conditions : ∀ c ∈ i.conditions, (c.rightOf b = true ↔ c.Holds x) := fun c hc =>
    have bound := h c.bound (List.mem_map_of_mem hc)
    Condition.rightOf_iff bound.1 bound.2
  unfold Inequality.rightOf Inequality.Holds
  cases i.mode with
  | always => simp
  | never => simp
  | all =>
    rw [List.all_eq_true]
    exact forall₂_congr conditions
  | any =>
    rw [List.any_eq_true]
    exact exists_congr fun c => and_congr_right fun hc => conditions c hc
  | other =>
    rw [List.any_eq_true]
    exact exists_congr fun c => and_congr_right fun hc => conditions c hc

/-- An inequality that tells where a quantity is positive, at a point where it is not zero. -/
def Decides (x : ℚ) (i : Inequality) (v : ℚ) : Prop := v ≠ 0 ∧ (i.Holds x ↔ 0 < v)

theorem prod_columnSign {b : Binary64} {vs : List ℚ} (decides : List.Forall₂ (Decides x) is vs)
    (h : ∀ i ∈ is, i.rightOf b = true ↔ i.Holds x) :
    (is.map (Inequality.columnSign b)).prod = (SignType.sign vs.prod : ℤ) := by
  induction decides with
  | nil => simp
  | @cons i v is vs first _ ih =>
    have sign : i.columnSign b = (SignType.sign v : ℤ) := by
      unfold Inequality.columnSign
      rcases lt_or_gt_of_ne first.1 with negative | positive
      · rw [if_neg (by rw [h i (by simp), first.2]; exact negative.not_gt), sign_neg negative]
        rfl
      · rw [if_pos (by rw [h i (by simp), first.2]; exact positive), sign_pos positive]
        rfl
    rw [List.map_cons, List.prod_cons, List.prod_cons, sign_mul, ih fun j hj => h j (by simp [hj]), sign,
      SignType.coe_mul]

/-- The table of pieces gives each point between breakpoints the sign of their product. -/
theorem solveInequalities_sound (is : List Inequality) (letter : String)
    (sided : ∀ i ∈ is, i.IsOneSided) (unsigned : HasUnsignedBounds is) :
    (solveInequalities is letter).Returns fun s => s.status = .solved ∧
      (∀ b, b ∈ s.breakpoints ↔ b ∈ is.flatMap (·.bounds)) ∧
      ∀ x vs, (∀ b ∈ is.flatMap (·.bounds), b.toRat ≠ x) → List.Forall₂ (Decides x) is vs →
        ∀ t, Covers s.ordered x t ↔ t = (SignType.sign vs.prod : ℤ) := by
  refine (solveInequalities_returns is letter sided).imp fun s right => ?_
  obtain ⟨status, layout, points, ordered⟩ := right
  refine ⟨status, fun b => by rw [points, mem_breakpoints unsigned], fun x vs apart decides t => ?_⟩
  have avoids : AvoidsBounds x is := ⟨unsigned.hasFiniteBounds, apart⟩
  obtain ⟨c, hc, compares⟩ := avoids.exists_columnAt
  obtain ⟨first, more, runs, -, -, covers⟩ := exists_signRuns
    (fun b => (is.map (Inequality.columnSign b)).prod) (.inf true) (avoids.areOrdered layout)
  have sign := prod_columnSign decides fun i hi => Inequality.rightOf_iff fun b hb =>
    compares b (List.mem_flatMap.mpr ⟨i, hi, hb⟩)
  rw [ordered, columnsOf, runs, covers, ← columnsOf, hc, Option.map_some, sign, Option.some_inj, eq_comm]

theorem SignAnalysis.contains_iff {s : SignAnalysis} {v : ℚ}
    (covers : ∀ t, Covers s.ordered x t ↔ t = (SignType.sign v : ℤ)) :
    ((∃ j ∈ s.positive, j.Contains x) ↔ 0 < v) ∧ ((∃ j ∈ s.negative, j.Contains x) ↔ v < 0) := by
  have above : (∃ j ∈ s.positive, j.Contains x) ↔ ∃ t, Covers s.ordered x t ∧ 0 < t := by
    simp only [positive, Covers, List.mem_map, List.mem_filter, decide_eq_true_iff]
    aesop
  have below : (∃ j ∈ s.negative, j.Contains x) ↔ ∃ t, Covers s.ordered x t ∧ t < 0 := by
    simp only [negative, Covers, List.mem_map, List.mem_filter, decide_eq_true_iff]
    aesop
  simp only [above, below, covers, exists_eq_left]
  rcases lt_trichotomy v 0 with negative | rfl | positive
  · simp [sign_neg negative, negative, negative.not_gt]
  · simp
  · simp [sign_pos positive, positive, positive.not_gt]

end Points

end FunctionStudy
