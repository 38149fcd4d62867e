import FunctionStudy.Proofs.Points
import FunctionStudy.Proofs.Ruffini.Splitting
import FunctionStudy.Proofs.Solution.Reduction

/-! Roots and registered points. Roots are sorted and freed of repeats, points only of those that
compare equal, and still they match at every level of the recursion. -/

namespace FunctionStudy

open Registry (Registers)

variable {settings : Settings} {axis : String} {height : Binary64} {r r' r'' : Registry}

section Matching

variable {xs ys : List Binary64} {ps qs : List Point}

/-- The point lies at the height, which need not be a number. -/
def Point.LiesAt (height : Binary64) (p : Point) : Prop :=
  p.y.same height = true ∨ p.y = height

/-- Roots and points that were found on the way from one registry to another, on an axis. -/
structure Registry.Shows (before : Registry) (height : Binary64) (results : List Binary64)
    (points : List Point) (after : Registry) : Prop where
  registers : ∃ new, before.Registers points after new
  height : ∀ p ∈ points, p.LiesAt height
  coordinate : (∀ x ∈ results, x.isNaN = false) → ∀ p ∈ points, ∃ x ∈ results, p.x.same x = true
  point : (∀ x ∈ results, x.isNaN = false) → ∀ x ∈ results, ∃ p ∈ points, p.x.same x = true

theorem Registry.Shows.none (r : Registry) (height : Binary64) : r.Shows height [] [] r where
  registers := ⟨[], .none r⟩
  height := List.forall_mem_nil _
  coordinate _ := List.forall_mem_nil _
  point _ := List.forall_mem_nil _

theorem joinPoints_covers (ps qs : List Point) :
    ∀ q ∈ qs, q ∈ joinPoints ps qs ∨ ∃ p ∈ ps, p.isAt q.x q.y = true := by
  intro q hq
  by_cases known : ps.any (·.same q) = true
  · obtain ⟨p, hp, same⟩ := List.any_eq_true.mp known
    exact .inr ⟨p, hp, Point.isAt_of_same same⟩
  · refine .inl (List.mem_append_right _ (List.mem_filter.mpr ⟨hq, ?_⟩))
    rw [Bool.not_eq_true] at known
    rw [known]
    rfl

theorem mem_of_mem_joinPoints {p : Point} (h : p ∈ joinPoints ps qs) : p ∈ ps ∨ p ∈ qs :=
  (List.mem_append.mp h).imp_right List.mem_of_mem_filter

/-- Roots and points of two parts, one after the other. A point of the second part may be left out if
one of the first has its coordinates. -/
theorem Registry.Shows.trans {all : List Point} (h : r.Shows height xs ps r')
    (h' : r'.Shows height ys qs r'') (first : ∀ p ∈ ps, p ∈ all) (both : ∀ p ∈ all, p ∈ ps ∨ p ∈ qs)
    (covered : ∀ q ∈ qs, q ∈ all ∨ ∃ p ∈ ps, p.isAt q.x q.y = true) :
    r.Shows height (xs ++ ys) all r'' := by
  obtain ⟨new, registers⟩ := h.registers
  obtain ⟨new', registers'⟩ := h'.registers
  refine ⟨⟨_, registers.trans registers' first both covered⟩, fun p hp => ?_, fun numbers p hp => ?_,
    fun numbers x hx => ?_⟩
  · exact (both p hp).elim (h.height p) (h'.height p)
  · obtain ⟨left, right⟩ := List.forall_mem_append.mp numbers
    rcases both p hp with hp | hp
    · obtain ⟨x, hx, same⟩ := h.coordinate left p hp
      exact ⟨x, List.mem_append_left _ hx, same⟩
    · obtain ⟨x, hx, same⟩ := h'.coordinate right p hp
      exact ⟨x, List.mem_append_right _ hx, same⟩
  · obtain ⟨left, right⟩ := List.forall_mem_append.mp numbers
    rcases List.mem_append.mp hx with hx | hx
    · obtain ⟨p, hp, same⟩ := h.point left x hx
      exact ⟨p, first p hp, same⟩
    · obtain ⟨q, hq, same⟩ := h'.point right x hx
      rcases covered q hq with kept | ⟨p, hp, covers⟩
      · exact ⟨q, kept, same⟩
      · exact ⟨p, first p hp, Binary64.same_trans (Point.isAt_iff.mp covers).1 same⟩

theorem Registry.Shows.cons {x : Binary64} {p : Point} (h : r.Shows height [x] [p] r')
    (h' : r'.Shows height xs ps r'') : r.Shows height (x :: xs) (p :: ps) r'' :=
  h.trans h' (fun _ hp => List.mem_cons.mpr (.inl (List.mem_singleton.mp hp)))
    (fun _ hp => (List.mem_cons.mp hp).imp_left List.mem_singleton.mpr)
    fun _ hq => .inl (List.mem_cons_of_mem p hq)

theorem Registry.Shows.join (h : r.Shows height xs ps r') (h' : r'.Shows height ys qs r'') :
    r.Shows height (xs ++ ys) (joinPoints ps qs) r'' :=
  h.trans h' (fun _ hp => List.mem_append_left _ hp) (fun _ hp => mem_of_mem_joinPoints hp)
    (joinPoints_covers ps qs)

theorem Binary64.exists_same_mem_distinct {x : Binary64} (hx : x ∈ xs) :
    ∃ y ∈ distinct xs, y = x ∨ y.same x = true := by
  induction xs with
  | nil => cases hx
  | cons z xs ih =>
    rw [distinct]
    rcases List.mem_cons.mp hx with rfl | hx
    · exact ⟨x, List.mem_cons_self, .inl rfl⟩
    · obtain ⟨y, hy, equal⟩ := ih hx
      by_cases same : z.same y = true
      · refine ⟨z, List.mem_cons_self, .inr ?_⟩
        rcases equal with rfl | equal
        · exact same
        · exact same_trans same equal
      · exact ⟨y, List.mem_cons_of_mem _ (List.mem_filter.mpr ⟨hy, by simpa using same⟩), equal⟩

theorem Registry.Shows.ascending (h : r.Shows height xs ps r') (layout : Layout) (name : SetName) :
    r.Shows height (layout.ascending name xs) ps r' := by
  have kept : ∀ x ∈ xs, ∃ y ∈ layout.ascending name xs, y = x ∨ y.same x = true := by
    intro x hx
    obtain ⟨y, hy, equal⟩ := Binary64.exists_same_mem_distinct hx
    exact ⟨y, Layout.mem_ascending.mpr hy, equal⟩
  have among : ∀ x ∈ layout.ascending name xs, x ∈ xs := fun x => Layout.mem_of_mem_ascending
  -- What is not a number is not dropped.
  have all : (∀ x ∈ layout.ascending name xs, x.isNaN = false) →
      ∀ x ∈ xs, x.isNaN = false := by
    intro numbers x hx
    obtain ⟨y, hy, rfl | same⟩ := kept x hx
    · exact numbers y hy
    · exact (Binary64.same_iff_unsignedZero.mp (Binary64.same_symm same)).1
  refine ⟨h.registers, h.height, fun numbers p hp => ?_, fun numbers x hx => ?_⟩
  · obtain ⟨x, hx, same⟩ := h.coordinate (all numbers) p hp
    obtain ⟨y, hy, rfl | equal⟩ := kept x hx
    · exact ⟨y, hy, same⟩
    · exact ⟨y, hy, Binary64.same_trans same (Binary64.same_symm equal)⟩
  · exact h.point (all numbers) x (among x hx)

theorem shows_point {x : Binary64} {p : Point} (added : r.add x height none none = (p, r')) :
    r.Shows height [x] [p] r' := by
  have coordinates := r.add_coordinates x height none none
  have registers := r.registers_add x height none none
  rw [added] at coordinates registers
  have abscissa : x.isNaN = false → p.x.same x = true := by
    intro number
    rcases coordinates with at_ | ⟨hx, -⟩
    · exact (Point.isAt_iff.mp at_).1
    · exact hx ▸ Binary64.unsignedZero_same number
  have lies : p.LiesAt height := by
    rcases coordinates with at_ | ⟨-, hy⟩
    · exact .inl (Point.isAt_iff.mp at_).2
    · cases number : height.isNaN with
      | false => exact .inl (hy ▸ Binary64.unsignedZero_same number)
      | true =>
        obtain rfl : height = .nan := by cases height <;> first | rfl | cases number
        exact .inr hy
  refine ⟨registers, ?_, fun numbers => ?_, fun numbers => ?_⟩
  · exact List.forall_mem_singleton.mpr lies
  · exact List.forall_mem_singleton.mpr ⟨x, List.mem_singleton_self x, abscissa (numbers x (by simp))⟩
  · exact List.forall_mem_singleton.mpr ⟨p, List.mem_singleton_self p, abscissa (numbers x (by simp))⟩

end Matching

section Solvers

variable {equation : String} {a b c : Binary64} {higher : HigherSolver} {f : Equation}
  {claimed : Option Number} {before : Registry}

theorem rootPoints_shows (roots : List Binary64) (height : Binary64) (r : Registry) :
    (rootPoints roots height).EndsWith r fun ps r' => r.Shows height roots ps r' := by
  induction roots generalizing r with
  | nil => exact Work.endsWith_pure (.none r height)
  | cons x xs ih =>
    rw [rootPoints, List.mapM_cons]
    refine (Work.endsWith_point x height).bind fun p r' added => ?_
    refine (ih r').bind fun ps r'' shown => ?_
    exact Work.endsWith_pure ((shows_point added).cons shown)

/-- What a solution returns matches what solving has registered. -/
def Shown (before : Registry) (height : Binary64) (s : EquationSolution) (after : Registry) : Prop :=
  before.Shows height s.results s.points after

theorem solveConstant_shows (settings : Settings) (equation : String) (c height : Binary64)
    (before : Registry) :
    (solveConstant settings equation c).EndsWith before (Shown before height) := by
  unfold solveConstant
  split_ifs
  · exact (Work.keepsRegistry_record _).bind_endsWith fun _ => Work.endsWith_pure (.none _ _)
  · exact (Work.keepsRegistry_record _).bind_endsWith fun _ => Work.endsWith_pure (.none _ _)

theorem solveLinear_shows (settings : Settings) (equation : String) (height a b : Binary64)
    (before : Registry) :
    (solveLinear settings equation height a b).EndsWith before (Shown before height) := by
  unfold solveLinear
  split_ifs
  · exact Work.endsWith_throw _
  · refine Work.endsWith_ofExcept_bind fun q _ => ?_
    refine (Work.keepsRegistry_record _).bind_endsWith fun _ => ?_
    refine (rootPoints_shows _ _ _).bind fun ps r' shown => ?_
    exact Work.endsWith_pure shown

theorem solveQuadratic_shows (settings : Settings) (equation : String) (height a b c : Binary64)
    (before : Registry) :
    (solveQuadratic settings equation height a b c).EndsWith before (Shown before height) := by
  unfold solveQuadratic
  split_ifs
  · exact Work.endsWith_throw _
  · refine (Work.keepsRegistry_record _).bind_endsWith fun _ => ?_
    refine Work.endsWith_ofExcept_bind fun roots _ => ?_
    cases roots with
    | none => exact (Work.keepsRegistry_record _).bind_endsWith fun _ => Work.endsWith_pure (.none _ _)
    | some xs =>
      refine (Work.keepsRegistry_record _).bind_endsWith fun _ => ?_
      refine (rootPoints_shows _ _ _).bind fun ps r' shown => ?_
      exact Work.endsWith_pure shown

/-- The points of a solution lie on the axis, which has a height. -/
def ShownOn (axis : String) (before : Registry) (s : EquationSolution) (after : Registry) : Prop :=
  ∃ height, axisHeight axis = .ok height ∧ Shown before height s after

theorem solveWith_shows
    (high : ∀ height, axisHeight axis = .ok height → ∀ f n before,
      (higher f n).EndsWith before (ShownOn axis before)) (f : Equation) (claimed : Option Number) (before : Registry) :
    (solveWith higher settings axis f claimed).EndsWith before (ShownOn axis before) := by
  unfold solveWith
  refine Work.endsWith_ofExcept_bind fun p _ => ?_
  refine Work.endsWith_ofExcept_bind fun n _ => ?_
  refine Work.endsWith_ofExcept_bind fun height hh => ?_
  refine (Work.keepsRegistry_record _).bind_endsWith fun _ => ?_
  have onAxis : ∀ {w : Work EquationSolution}, w.EndsWith before (Shown before height) →
      w.EndsWith before (ShownOn axis before) := fun hw => hw.imp fun _ _ shown => ⟨height, hh, shown⟩
  split_ifs
  · exact high height hh f n before
  · refine Work.endsWith_ofExcept_bind fun cs _ => ?_
    split
    · exact onAxis (solveConstant_shows _ _ _ _ _)
    · exact onAxis (solveLinear_shows _ _ _ _ _ _)
    · exact onAxis (solveQuadratic_shows _ _ _ _ _ _ _)
    · exact Work.endsWith_throw _

/-- The recursion, by the number of splits that are left. The fold over the factors keeps roots and
points in step. -/
theorem solveHigher_shows (settings : Settings) (hh : axisHeight axis = .ok height) (remaining : ℕ)
    (f : Equation) (n : ℤ) (before : Registry) :
    (solveHigher settings axis remaining f n).EndsWith before (ShownOn axis before) := by
  induction remaining generalizing f n before with
  | zero =>
    unfold solveHigher
    refine Work.endsWith_ofExcept_bind fun p _ => ?_
    refine (Work.keepsRegistry_record _).bind_endsWith fun _ => ?_
    exact Work.endsWith_pure ⟨height, hh, .none _ _⟩
  | succ remaining ih =>
    unfold solveHigher
    refine Work.endsWith_ofExcept_bind fun p _ => ?_
    refine (factor_onlyWrites settings f).keepsRegistry.bind_endsWith fun F => ?_
    dsimp only
    split_ifs
    · exact Work.endsWith_pure ⟨height, hh, .none _ _⟩
    · refine Work.EndsWith.bind (P := fun found r' => before.Shows height found.results found.points r')
        ?_ fun found r' shown => ?_
      · refine Work.endsWith_foldlM (fun found text r' _ shown => ?_) (.none before height)
        refine Work.endsWith_ofExcept_bind fun g _ => ?_
        refine (solveWith_shows (fun _ _ => ih) g none r').bind fun s r'' factor => ?_
        obtain ⟨level, hl, factor⟩ := factor
        obtain rfl := Except.ok.inj (hh.symm.trans hl)
        exact Work.endsWith_pure (shown.join factor)
      · refine Work.endsWith_ascending_bind fun layout => (Work.keepsRegistry_record _).bind_endsWith fun _ => ?_
        exact Work.endsWith_pure ⟨height, hh, shown.ascending layout _⟩

theorem solve_shows (settings : Settings) (axis : String) (depth : ℤ) (f : Equation)
    (claimed : Option Number) (before : Registry) :
    (solve settings axis depth f claimed).EndsWith before (ShownOn axis before) :=
  solveWith_shows (fun _ hh => solveHigher_shows settings hh _) f claimed before

/-- Reported roots and registered points match. Whatever the status, the returned points lie at the
results and nowhere else, all at the height of the axis, and the registry grows by those of them whose
coordinates it did not have, each once. -/
theorem solve_registers_results {depth : ℤ} {steps : List Step} {layout : Layout} {s : EquationSolution}
    {after : Notebook}
    (run : (solve settings axis depth f claimed).runFrom ⟨steps, some before⟩ layout = (.ok s, after))
    (numbers : ∀ x ∈ s.results, x.isNaN = false) :
    ∃ height registry new, axisHeight axis = .ok height ∧ after.registry = some registry ∧
      (∀ p ∈ s.points, ∃ x ∈ s.results, p.x.same x = true) ∧
      (∀ x ∈ s.results, ∃ p ∈ s.points, p.x.same x = true) ∧
      (∀ p ∈ s.points, p.y.same height = true ∨ p.y = height) ∧
      registry.points = before.points ++ new ∧ new.Nodup ∧
      (new.Pairwise fun p q => p.isAt q.x q.y = false) ∧
      ∀ p, p ∈ new ↔ p ∈ s.points ∧ ¬ before.HasAt p.x p.y := by
  obtain ⟨registry, left, height, hh, shown⟩ :=
    solve_shows settings axis depth f claimed before steps layout s after run
  obtain ⟨new, registers⟩ := shown.registers
  exact ⟨height, registry, new, hh, left, shown.coordinate numbers, shown.point numbers,
    shown.height, registers.extends_eq, registers.nodup, registers.apart, registers.mem_new⟩

/-- The triple root of a cube is one result, with a point that is registered and given back. -/
theorem solve_registers_cube : ∃ s after registry,
    (solve .defaults "y=0" 0 (.explicit "y" (Member.canonicalOf (Polynomial.X ^ 3) 'x')) none).runFrom
      ⟨[], some .empty⟩ = (.ok s, after) ∧ after.registry = some registry ∧
    ∃ p ∈ s.points, p.x.same (.ofInt 0) = true ∧ p.y.same .zero = true ∧ p ∈ registry.points := by
  have degree : (Polynomial.X ^ 3 : Polynomial ℤ).natDegree = 3 := Polynomial.natDegree_X_pow 3
  obtain ⟨s, after, run, right⟩ := solvesUpTo_solveHigher isReadable_x Settings.tellsIntegers_defaults
    axisHeight_zero (by decide) (remainingDepth .defaults 0) (Polynomial.X ^ 3) _ isSolvable_cube
    (by omega) (by rw [degree]; decide) ⟨[], some .empty⟩ .insertion
  have numbers : ∀ x ∈ s.results, x.isNaN = false := fun x hx =>
    Binary64.isNaN_of_toRat? (right.unsigned x hx).toRat?_eq
  have root : Binary64.ofInt 0 ∈ s.results :=
    (right.mem_results _).mpr (.inl ⟨0, by simp, rfl⟩)
  obtain ⟨height, registry, new, hh, left, -, points, level, registered, -, -, all⟩ :=
    solve_registers_results run numbers
  obtain rfl := Except.ok.inj (axisHeight_zero.symm.trans hh)
  obtain ⟨p, hp, abscissa⟩ := points _ root
  have ordinate : p.y.same .zero = true := by
    rcases level p hp with same | equal
    · exact same
    · rw [equal]
      exact Binary64.same_self rfl
  have fresh : ¬ Registry.empty.HasAt p.x p.y := by
    rintro ⟨q, hq, -⟩
    exact List.not_mem_nil hq
  refine ⟨s, after, registry, run, left, p, hp, abscissa, ordinate, ?_⟩
  rw [registered]
  exact List.mem_append_right _ ((all p).mpr ⟨hp, fresh⟩)

end Solvers

end FunctionStudy
