import FunctionStudy.Proofs.Study.Sections
import FunctionStudy.Proofs.Study.Turning

/-! Studies in two layouts. A study reads as sets the roots of its equation, the bounds of its
inequalities and the points of its area. The first two show in its steps, so that a report without a
NaN in them is the same in every layout. -/

namespace FunctionStudy

open Work

variable {settings : Settings} {f : Equation} {C : Step → Prop}

section Solving

variable {axis equation : String} {claimed : Option Number} {height a b c : Binary64} {higher : HigherSolver}

theorem rootPoints_ignoresLayout (roots : List Binary64) (height : Binary64) :
    (rootPoints roots height).IgnoresLayout C :=
  (ignoresLayout_isKind C).mapM fun x _ => ignoresLayout_point x height

theorem solveConstant_ignoresLayout : (solveConstant settings equation c).IgnoresLayout C := by
  unfold solveConstant
  split_ifs
  · exact (ignoresLayout_record _).bind fun _ => ignoresLayout_pure _
  · exact (ignoresLayout_record _).bind fun _ => ignoresLayout_pure _

theorem solveLinear_ignoresLayout : (solveLinear settings equation height a b).IgnoresLayout C := by
  unfold solveLinear
  split_ifs
  · exact ignoresLayout_throw _
  · refine (ignoresLayout_ofExcept _).bind fun q => (ignoresLayout_record _).bind fun _ => ?_
    exact (rootPoints_ignoresLayout _ _).bind fun _ => ignoresLayout_pure _

theorem solveQuadratic_ignoresLayout : (solveQuadratic settings equation height a b c).IgnoresLayout C := by
  unfold solveQuadratic
  split_ifs
  · exact ignoresLayout_throw _
  · refine (ignoresLayout_record _).bind fun _ => (ignoresLayout_ofExcept _).bind fun roots => ?_
    cases roots with
    | none => exact (ignoresLayout_record _).bind fun _ => ignoresLayout_pure _
    | some xs =>
      refine (ignoresLayout_record _).bind fun _ => ?_
      exact (rootPoints_ignoresLayout _ _).bind fun _ => ignoresLayout_pure _

theorem solveWith_ignoresLayout (high : ∀ n, (higher f n).IgnoresLayout C) :
    (solveWith higher settings axis f claimed).IgnoresLayout C := by
  unfold solveWith
  refine (ignoresLayout_ofExcept _).bind fun p => (ignoresLayout_ofExcept _).bind fun n => ?_
  refine (ignoresLayout_ofExcept _).bind fun height => (ignoresLayout_record _).bind fun _ => ?_
  split_ifs
  · exact high n
  · refine (ignoresLayout_ofExcept _).bind fun cs => ?_
    split
    · exact solveConstant_ignoresLayout
    · exact solveLinear_ignoresLayout
    · exact solveQuadratic_ignoresLayout
    · exact ignoresLayout_throw _

/-- The roots of every split are shown as they are read. -/
theorem solveHigher_ignoresLayout (settings : Settings) (axis : String) (remaining : ℕ) (f : Equation) (n : ℤ) :
    (solveHigher settings axis remaining f n).IgnoresLayout Step.IsOrdered := by
  induction remaining generalizing f n with
  | zero =>
    unfold solveHigher
    refine (ignoresLayout_ofExcept _).bind fun p => ?_
    exact (ignoresLayout_record _).bind fun _ => ignoresLayout_pure _
  | succ remaining ih =>
    unfold solveHigher
    refine (ignoresLayout_ofExcept _).bind fun p => ?_
    refine (factor_isOf (ignoresLayout_isKind _) settings f).bind fun F => ?_
    dsimp only
    split_ifs
    · exact ignoresLayout_pure _
    · refine IgnoresLayout.bind ((ignoresLayout_isKind _).foldlM (fun found text _ => ?_) _) fun found => ?_
      · refine (ignoresLayout_ofExcept _).bind fun g => ?_
        exact (solveWith_ignoresLayout fun n => ih g n).bind fun s => ignoresLayout_pure _
      · refine ignoresLayout_ascending_bind (fun _ => Step.isOrdered_roots.mp) fun _ => ?_
        exact ignoresLayout_pure _

theorem solve_ignoresLayout (settings : Settings) (axis : String) (depth : ℤ) (f : Equation)
    (claimed : Option Number) : (solve settings axis depth f claimed).IgnoresLayout Step.IsOrdered :=
  solveWith_ignoresLayout fun n => solveHigher_ignoresLayout settings axis _ f n

theorem intersectAxis_ignoresLayout (settings : Settings) (f : Equation) (axis : String) :
    (intersectAxis settings f axis).IgnoresLayout Step.IsOrdered := by
  unfold intersectAxis
  split_ifs
  · refine (ignoresLayout_ofExcept _).bind fun p => (ignoresLayout_point _ _).bind fun q => ?_
    exact (ignoresLayout_record _).bind fun _ => ignoresLayout_pure _
  · exact solve_ignoresLayout settings _ _ f none
  · exact ignoresLayout_throw _

end Solving

section Signs

variable {is : List Inequality}

/-- One-sided inequalities have a sign at every bound, so that the bounds are shown before anything can fail. -/
theorem solveInequalities_ignoresLayout (letter : String) (sided : ∀ i ∈ is, i.IsOneSided) :
    (solveInequalities is letter).IgnoresLayout Step.IsOrdered := by
  have whole : solveInequalities is letter = (do
      let bounds ← Work.ascending (.bounds (is.map (·.piece))) (is.flatMap (·.bounds))
      let columns := Binary64.inf true :: bounds
      let pieceRows := is.map (Inequality.row letter columns)
      let product := productSigns columns.length pieceRows
      let rows := pieceRows ++ [⟨"product", "", product⟩]
      Work.record (.signTable bounds rows)
      return { ordered := signRuns (columns.zip product), breakpoints := bounds, rows }) := by
    unfold solveInequalities
    simp only [mapM_signRow letter _ sided]
    rfl
  rw [whole]
  exact ignoresLayout_ascending_bind (fun _ => Step.isOrdered_signTable.mp) fun _ => ignoresLayout_pure _

theorem positivity_ignoresLayout (settings : Settings) (f : Equation) :
    (positivity settings f).IgnoresLayout Step.IsOrdered := by
  have kind := ignoresLayout_isKind Step.IsOrdered
  unfold positivity
  refine (ignoresLayout_ofExcept _).bind fun p => ?_
  dsimp only
  split_ifs
  · exact (ignoresLayout_record _).bind fun _ => ignoresLayout_pure _
  · refine (splitPieces_isOf kind settings _ _).bind fun pieces => ?_
    split
    · exact (ignoresLayout_record _).bind fun _ => ignoresLayout_pure _
    · refine (pieceInequalities_isOf kind settings _ _).bind_yields fun is known => ?_
      exact solveInequalities_ignoresLayout _ (pieceInequalities_yields known).isOneSided

theorem monotonicity_ignoresLayout (settings : Settings) (f : Equation) :
    (monotonicity settings f).IgnoresLayout Step.IsOrdered := by
  refine (ignoresLayout_ofExcept _).bind fun d => (ignoresLayout_record _).bind fun _ => ?_
  refine (positivity_ignoresLayout settings d).bind fun signs => ?_
  refine IgnoresLayout.bind ((ignoresLayout_isKind _).mapM fun i _ => ?_) fun extrema => ignoresLayout_pure _
  refine (ignoresLayout_ofExcept _).bind fun y => (ignoresLayout_point _ _).bind fun p => ?_
  exact (ignoresLayout_record _).bind fun _ => ignoresLayout_pure _

theorem concavity_ignoresLayout (settings : Settings) (f : Equation) :
    (concavity settings f).IgnoresLayout Step.IsOrdered :=
  (ignoresLayout_ofExcept _).bind fun d => (ignoresLayout_record _).bind fun _ =>
    (positivity_ignoresLayout settings d).bind fun _ => ignoresLayout_pure _

end Signs

section Studies

variable {points : List Binary64} {registry : Registry} {text : String} {layout layout' : Layout}

theorem area_ignoresLayout (settings : Settings) (f : Except Error Equation)
    (numbers : ∀ x ∈ points, x.isNaN = false) : (area settings f points).IgnoresLayout C := by
  have unsigned : ∀ x ∈ Binary64.distinct (points.map (·.unsignedZero)), x.isNaN = false := by
    intro x hx
    obtain ⟨y, hy, rfl⟩ := List.mem_map.mp (Binary64.mem_of_mem_distinct hx)
    rw [Binary64.isNaN_unsignedZero, numbers y hy]
  unfold area
  rw [ascending_of_numbers unsigned, pure_bind]
  split_ifs
  · exact ignoresLayout_pure _
  · refine (ignoresLayout_ofExcept _).bind fun _ => (ignoresLayout_ofExcept _).bind fun _ => ?_
    refine (ignoresLayout_ofExcept _).bind fun _ => (ignoresLayout_ofExcept _).bind fun _ => ?_
    exact (ignoresLayout_record _).bind fun _ => ignoresLayout_pure _

theorem section?_ignoresLayout (settings : Settings) (f : Equation) (numbers : ∀ x ∈ points, x.isNaN = false)
    (op : Operation) : (section? settings f points op).IgnoresLayout Step.IsOrdered := by
  cases op with
  | intersections =>
    exact (intersectAxis_ignoresLayout settings f "x").bind fun x =>
      (intersectAxis_ignoresLayout settings f "y").bind fun y => ignoresLayout_pure _
  | slope => exact ignoresLayout_pure _
  | parity =>
    refine IgnoresLayout.bind ?_ fun _ => ignoresLayout_pure _
    exact (ignoresLayout_ofExcept _).bind fun _ => (ignoresLayout_record _).bind fun _ => ignoresLayout_pure _
  | positivity => exact (positivity_ignoresLayout settings f).bind fun _ => ignoresLayout_pure _
  | monotonicity => exact (monotonicity_ignoresLayout settings f).bind fun _ => ignoresLayout_pure _
  | concavity => exact (concavity_ignoresLayout settings f).bind fun _ => ignoresLayout_pure _
  | derivative => exact (ignoresLayout_ofExcept _).bind fun _ => ignoresLayout_pure _
  | primitive => exact (ignoresLayout_ofExcept _).bind fun _ => ignoresLayout_pure _
  | area => exact (area_ignoresLayout settings (.ok f) numbers).bind fun _ => ignoresLayout_pure _

theorem sections_ignoresLayout (settings : Settings) (f : Equation) (numbers : ∀ x ∈ points, x.isNaN = false)
    (ops : List Operation) : (sections settings f points ops).IgnoresLayout Step.IsOrdered :=
  (ignoresLayout_isKind _).foldlM (fun _ op _ =>
    (section?_ignoresLayout settings f numbers op).bind fun _ => ignoresLayout_pure _) []

/-- A report shows all steps of its work. -/
theorem reportOn_eq_of_ordered {work : Equation → Work (List (String × Data))} {check : Except Error Unit}
    (ignores : ∀ f, (work f).IgnoresLayout Step.IsOrdered)
    (ordered : ∀ s ∈ (reportOn settings registry text work check layout).1.steps, s.IsOrdered) :
    reportOn settings registry text work check layout' = reportOn settings registry text work check layout := by
  have whole := (ignoresLayout_ofExcept (check >>= fun _ => Equation.ofText text)).bind ignores
    ⟨[], some registry⟩ layout
  unfold reportOn at ordered ⊢
  dsimp only at ordered ⊢
  rw [whole.2 (fun s hs => ordered s (List.mem_append_left _ hs)) layout']

/-- The layouts are one, or they read the area points and all that the report shows alike, since nothing there
is a NaN. -/
def Report.AreReadAlike (r : Report) (points : List Binary64) (layout layout' : Layout) : Prop :=
  layout = layout' ∨ (∀ x ∈ points, x.isNaN = false) ∧ ∀ s ∈ r.steps, s.IsOrdered

theorem reportStudy_congr {operations : Option (List String)}
    (alike : (reportStudy settings registry text operations points layout).1.AreReadAlike points layout layout') :
    reportStudy settings registry text operations points layout' =
      reportStudy settings registry text operations points layout := by
  rcases alike with rfl | ⟨numbers, ordered⟩
  · rfl
  · refine reportOn_eq_of_ordered (fun f => ?_) ordered
    refine (ignoresLayout_ofExcept _).bind fun ops => (ignoresLayout_record _).bind fun _ => ?_
    exact sections_ignoresLayout settings f numbers ops

end Studies

end FunctionStudy
