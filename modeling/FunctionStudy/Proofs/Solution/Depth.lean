import FunctionStudy.Proofs.Agreement

/-! Deeper limits lose nothing. The relation is one between two runs of the recursion, of which the
second one has more splits left at every level. -/

namespace FunctionStudy

variable {settings : Settings} {axis : String} {f : Equation} {claimed : Option Number} {equation : String}
  {height a b c : Binary64} {higher higher' : HigherSolver}

/-- Two layouts that read every set alike, whatever its name. -/
def Layout.ReadAlike (layout layout' : Layout) : Prop :=
  ∀ name name' xs, layout.ascending name xs = layout'.ascending name' xs

/-- Numbers that come in one order in both layouts. -/
def Layout.AreOrdered (layout layout' : Layout) (xs : List Binary64) : Prop :=
  layout.ReadAlike layout' ∨ ∀ x ∈ xs, x.isNaN = false

variable {layout layout' : Layout}

/-- The second solution has the results of the first one, without a signed zero among its own. It is the
same up to its points unless the first one was left with a factor, or its results cannot be ordered. -/
structure EquationSolution.GoesOn (layout layout' : Layout) (s t : EquationSolution) : Prop where
  results : ∀ x ∈ s.results, x ∈ t.results
  unsigned : ∀ x ∈ t.results, x ≠ .negZero
  same : s.status ≠ .unfactorable → t.status = s.status ∧ t.factored = s.factored ∧
    (∀ x ∈ t.results, x ∈ s.results) ∧ (layout.AreOrdered layout' s.results → t.results = s.results)

structure FactorRoots.GoesOn (layout layout' : Layout) (found more : FactorRoots) : Prop where
  results : ∀ x ∈ found.results, x ∈ more.results
  unsigned : ∀ x ∈ more.results, x ≠ .negZero
  same : found.status ≠ .unfactorable → more.status = found.status ∧ more.factored = found.factored ∧
    (∀ x ∈ more.results, x ∈ found.results) ∧
      (layout.AreOrdered layout' found.results → more.results = found.results)

open EquationSolution (GoesOn)

section Direct

open Work

theorem EquationSolution.GoesOn.of_results {s t : EquationSolution} (results : t.results = s.results)
    (status : t.status = s.status) (factored : t.factored = s.factored)
    (unsigned : ∀ x ∈ t.results, x ≠ .negZero) : GoesOn layout layout' s t where
  results _ hx := results ▸ hx
  unsigned := unsigned
  same _ := ⟨status, factored, fun _ hx => results ▸ hx, fun _ => results⟩

theorem EquationSolution.GoesOn.of_none {s : EquationSolution} (none : s.results = []) :
    GoesOn layout layout' s s :=
  .of_results rfl rfl rfl (none ▸ List.forall_mem_nil _)

theorem rootPoints_relates (roots : List Binary64) (height : Binary64) :
    Relates layout layout' (fun _ _ => True) (rootPoints roots height) (rootPoints roots height) :=
  fun _ _ _ _ => trivial

theorem solveConstant_goesOn :
    Relates layout layout' (GoesOn layout layout') (solveConstant settings equation c)
      (solveConstant settings equation c) := by
  unfold solveConstant
  split_ifs
  · exact relates_record_bind (relates_pure (.of_none rfl))
  · exact relates_record_bind (relates_pure (.of_none rfl))

theorem solveLinear_goesOn :
    Relates layout layout' (GoesOn layout layout') (solveLinear settings equation height a b)
      (solveLinear settings equation height a b) := by
  unfold solveLinear
  split_ifs
  · exact relates_throw _
  · refine relates_ofExcept_bind fun q _ => relates_record_bind ?_
    refine (rootPoints_relates _ _).bind fun _ _ _ => relates_pure (.of_results rfl rfl rfl ?_)
    exact List.forall_mem_singleton.mpr (Binary64.unsignedZero_ne_negZero q)

theorem solveQuadratic_goesOn :
    Relates layout layout' (GoesOn layout layout') (solveQuadratic settings equation height a b c)
      (solveQuadratic settings equation height a b c) := by
  unfold solveQuadratic
  split_ifs
  · exact relates_throw _
  · refine relates_record_bind (relates_ofExcept_bind fun roots known => ?_)
    have unsigned := (quadraticRoots_cases known).1
    cases roots with
    | none => exact relates_record_bind (relates_pure (.of_none rfl))
    | some xs =>
      refine relates_record_bind ((rootPoints_relates _ _).bind fun _ _ _ => relates_pure ?_)
      exact .of_results rfl rfl rfl unsigned

theorem solveWith_goesOn
    (high : ∀ n : ℤ, Relates layout layout' (GoesOn layout layout') (higher f n) (higher' f n)) :
    Relates layout layout' (GoesOn layout layout') (solveWith higher settings axis f claimed)
      (solveWith higher' settings axis f claimed) := by
  unfold solveWith
  refine relates_ofExcept_bind fun p _ => relates_ofExcept_bind fun n _ => ?_
  refine relates_ofExcept_bind fun height _ => relates_record_bind ?_
  split_ifs
  · exact high n
  · refine relates_ofExcept_bind fun cs _ => ?_
    split
    · exact solveConstant_goesOn
    · exact solveLinear_goesOn
    · exact solveQuadratic_goesOn
    · exact relates_throw _

end Direct

section Recursion

open Work

theorem FactorRoots.goesOn_start : FactorRoots.GoesOn layout layout' {} {} :=
  ⟨List.forall_mem_nil _, List.forall_mem_nil _, fun _ => ⟨rfl, rfl, fun _ hx => hx, fun _ => rfl⟩⟩

theorem FactorRoots.status_add {found : FactorRoots} {factor : String} {s : EquationSolution} :
    (found.add factor s).status = .unfactorable ↔ s.status = .unfactorable ∨ found.status = .unfactorable := by
  unfold FactorRoots.add
  dsimp only
  split_ifs with h
  · exact iff_of_true rfl (.inl h)
  · exact (or_iff_right h).symm

theorem Layout.AreOrdered.of_append {xs ys : List Binary64} (h : layout.AreOrdered layout' (xs ++ ys)) :
    layout.AreOrdered layout' xs ∧ layout.AreOrdered layout' ys :=
  ⟨h.imp_right fun numbers x hx => numbers x (List.mem_append_left ys hx),
    h.imp_right fun numbers x hx => numbers x (List.mem_append_right xs hx)⟩

/-- A factor that was not solved to its end leaves its mark on the status, whatever follows. -/
theorem FactorRoots.GoesOn.add {found more : FactorRoots} {s t : EquationSolution}
    (h : found.GoesOn layout layout' more) (factor : String) (solved : s.GoesOn layout layout' t) :
    (found.add factor s).GoesOn layout layout' (more.add factor t) where
  results x hx := List.mem_append.mpr ((List.mem_append.mp hx).imp (h.results x) (solved.results x))
  unsigned x hx := (List.mem_append.mp hx).elim (h.unsigned x) (solved.unsigned x)
  same decided := by
    rw [Ne, FactorRoots.status_add, not_or] at decided
    obtain ⟨status, factored, kept, results⟩ := h.same decided.2
    obtain ⟨status', factored', kept', results'⟩ := solved.same decided.1
    refine ⟨by simp only [FactorRoots.add, status, status'], by simp only [FactorRoots.add, factored, factored'],
      fun x hx => List.mem_append.mpr ((List.mem_append.mp hx).imp (kept x) (kept' x)), fun ordered => ?_⟩
    simp only [FactorRoots.add, results ordered.of_append.1, results' ordered.of_append.2]

theorem Layout.AreOrdered.ascending_eq {name : SetName} (name' : SetName) {xs : List Binary64}
    (unsigned : ∀ x ∈ xs, x ≠ .negZero) (h : layout.AreOrdered layout' (layout.ascending name xs)) :
    layout.AreOrdered layout' xs ∧ layout'.ascending name' xs = layout.ascending name xs := by
  rcases h with alike | numbers
  · exact ⟨.inl alike, (alike name name' xs).symm⟩
  · have all : ∀ x ∈ xs, x.isNaN = false := fun x hx => numbers x ((mem_ascending_of_ne_negZero unsigned).mpr hx)
    have kept : ∀ x ∈ Binary64.distinct xs, x.isNaN = false := fun x hx => all x (Binary64.mem_of_mem_distinct hx)
    exact ⟨.inr all, by rw [ascending_of_numbers kept, ascending_of_numbers kept]⟩

theorem FactorRoots.GoesOn.ascending {found more : FactorRoots} (h : found.GoesOn layout layout' more)
    {name name' : SetName} {d : ℤ} {points points' : List Point} :
    let results := layout.ascending name found.results
    let results' := layout'.ascending name' more.results
    EquationSolution.GoesOn layout layout'
      { equation, degree := d, results,
        status := if results.isEmpty ∧ found.status = .solved then .impossible else found.status,
        factored := found.factored, points }
      { equation, degree := d, results := results',
        status := if results'.isEmpty ∧ more.status = .solved then .impossible else more.status,
        factored := more.factored, points := points' } := by
  intro results results'
  have original : ∀ x ∈ found.results, x ≠ .negZero := fun x hx => h.unsigned x (h.results x hx)
  have members : ∀ x, x ∈ results ↔ x ∈ found.results := fun x =>
    Layout.mem_ascending_of_ne_negZero original
  have members' : ∀ x, x ∈ results' ↔ x ∈ more.results := fun x =>
    Layout.mem_ascending_of_ne_negZero h.unsigned
  refine ⟨fun x hx => (members' x).mpr (h.results x ((members x).mp hx)),
    fun x hx => h.unsigned x ((members' x).mp hx), fun decided => ?_⟩
  obtain ⟨status, factored, kept, same⟩ := h.same (mt unfactorable_iff.mpr decided)
  have back : ∀ x ∈ results', x ∈ results := fun x hx => (members x).mpr (kept x ((members' x).mp hx))
  have empty : results'.isEmpty = results.isEmpty := by
    rw [Bool.eq_iff_iff, List.isEmpty_iff, List.isEmpty_iff, List.eq_nil_iff_forall_not_mem,
      List.eq_nil_iff_forall_not_mem]
    exact forall_congr' fun x => not_congr
      ⟨back x, fun hx => (members' x).mpr (h.results x ((members x).mp hx))⟩
  refine ⟨by simp only [status, empty], factored, back, fun ordered => ?_⟩
  obtain ⟨own, equal⟩ := ordered.ascending_eq name' original
  exact (congrArg (layout'.ascending name') (same own)).trans equal

theorem solveHigher_succ_goesOn {n m : ℕ}
    (below : ∀ f d, Relates layout layout' (GoesOn layout layout') (solveHigher settings axis n f d)
      (solveHigher settings axis m f d)) (f : Equation) (d : ℤ) :
    Relates layout layout' (GoesOn layout layout') (solveHigher settings axis (n + 1) f d)
      (solveHigher settings axis (m + 1) f d) := by
  unfold solveHigher
  refine relates_ofExcept_bind fun p _ => ?_
  have factored : Relates layout layout' Eq (factor settings f) (factor settings f) :=
    fun _ _ => factor_yields_unique
  refine factored.bind fun F _ same => ?_
  subst same
  dsimp only
  split_ifs
  · exact relates_pure (.of_none rfl)
  · refine Relates.bind (R := FactorRoots.GoesOn layout layout') ?_ fun found more goesOn => ?_
    · refine relates_foldlM (fun found more goesOn text _ => ?_) FactorRoots.goesOn_start
      refine relates_ofExcept_bind fun g _ => (solveWith_goesOn (below g)).bind fun s t solved => ?_
      exact relates_pure (goesOn.add text solved)
    · exact relates_ascending_bind (relates_record_bind (relates_pure goesOn.ascending))

theorem solveHigher_goesOn_self (n : ℕ) (f : Equation) (d : ℤ) :
    Relates layout layout' (GoesOn layout layout') (solveHigher settings axis n f d)
      (solveHigher settings axis n f d) := by
  induction n generalizing f d with
  | zero =>
    unfold solveHigher
    exact relates_ofExcept_bind fun p _ => relates_record_bind (relates_pure (.of_none rfl))
  | succ n ih => exact solveHigher_succ_goesOn ih f d

/-- With more splits left at every level the solver goes on. The induction is on the splits that the first
run has left; where it has none, it has no results either. -/
theorem solveHigher_goesOn {n m : ℕ} (more : n ≤ m) (f : Equation) (d : ℤ) :
    Relates layout layout' (GoesOn layout layout') (solveHigher settings axis n f d)
      (solveHigher settings axis m f d) := by
  induction n generalizing m f d with
  | zero =>
    intro s t first second
    have unsigned := (solveHigher_goesOn_self m f d t t second second).unsigned
    unfold solveHigher at first
    obtain ⟨p, -, first⟩ := first.of_ofExcept_bind
    obtain rfl := first.of_record_bind.of_pure
    exact ⟨List.forall_mem_nil _, unsigned, fun decided => absurd rfl decided⟩
  | succ n ih =>
    obtain ⟨m, rfl⟩ := Nat.exists_eq_add_of_lt more
    rw [show n + m + 1 = (n + m) + 1 from rfl]
    exact solveHigher_succ_goesOn (fun f d => ih (Nat.le_add_right n m) f d) f d

end Recursion

section Limits

/-- The depth limit counts splits and is looked at nowhere else. -/
theorem solveHigher_maxDepth (limit : ℤ) (n : ℕ) :
    solveHigher { settings with maxDepth := limit } axis n = solveHigher settings axis n := by
  induction n with
  | zero => rfl
  | succ n ih =>
    funext f d
    unfold solveHigher
    rw [ih]
    rfl

theorem solve_maxDepth (limit depth : ℤ) :
    solve { settings with maxDepth := limit } axis depth f claimed =
      solveWith (solveHigher settings axis (limit - depth).toNat) settings axis f claimed := by
  rw [← solveHigher_maxDepth limit]
  rfl

/-- A deeper limit loses nothing, whatever the layouts of the two runs. Every result is a result under the deeper
limit too, and an equation that was not left with a factor has the same status and factors, and the same results
unless a NaN among them is read in different places. -/
theorem solve_deeper {limit depth : ℤ} {s t : EquationSolution} (deeper : settings.maxDepth ≤ limit)
    (hs : (solve settings axis depth f claimed).Yields layout s)
    (ht : (solve { settings with maxDepth := limit } axis depth f claimed).Yields layout' t) :
    (∀ x ∈ s.results, x ∈ t.results) ∧ (s.status ≠ .unfactorable → t.status = s.status ∧ t.factored = s.factored ∧
      (layout.ReadAlike layout' ∨ (∀ x ∈ s.results, x.isNaN = false) → t.results = s.results)) := by
  rw [solve_maxDepth] at ht
  have more : remainingDepth settings depth ≤ (limit - depth).toNat :=
    Int.toNat_le_toNat (sub_le_sub_right deeper depth)
  have goesOn : s.GoesOn layout layout' t := solveWith_goesOn (solveHigher_goesOn more f) s t hs ht
  refine ⟨goesOn.results, fun decided => ?_⟩
  obtain ⟨status, factored, -, results⟩ := goesOn.same decided
  exact ⟨status, factored, results⟩

/-- A cube is solved with a single split, and a limit of eight splits does not change what is found. -/
theorem solve_deeper_cube : ∃ s t,
    (solve { Settings.defaults with maxDepth := 1 } "y=0" 0
      (.explicit "y" (Member.canonicalOf (Polynomial.X ^ 3) 'x')) none).Yields .insertion s ∧
    (solve .defaults "y=0" 0 (.explicit "y" (Member.canonicalOf (Polynomial.X ^ 3) 'x')) none).Yields .insertion t ∧
    s.status ≠ .unfactorable ∧ .ofInt 0 ∈ t.results ∧ t.results = s.results ∧ t.factored = s.factored := by
  have degree : (Polynomial.X ^ 3 : Polynomial ℤ).natDegree = 3 := Polynomial.natDegree_X_pow 3
  have solved : ∀ n : ℕ, 1 ≤ n → (solveWith (solveHigher .defaults "y=0" n) .defaults "y=0"
      (.explicit "y" (Member.canonicalOf (Polynomial.X ^ 3) 'x')) none).Returns
        (·.IsRight .defaults (Polynomial.X ^ 3) 'x') := fun n hn =>
    solvesUpTo_solveHigher isReadable_x Settings.tellsIntegers_defaults axisHeight_zero (by decide) n _ _
      isSolvable_cube (by omega) (by omega)
  obtain ⟨s, hs, right⟩ := (solved 1 le_rfl).exists_yields .insertion
  obtain ⟨t, ht, -⟩ := (solved 8 (by decide)).exists_yields .insertion
  rw [show 1 = ((1 : ℤ) - 0).toNat from rfl, ← solve_maxDepth] at hs
  rw [show 8 = ((8 : ℤ) - 0).toNat from rfl, ← solve_maxDepth] at ht
  have decided : s.status ≠ .unfactorable := fun status => by
    have few := right.unfactorable_iff.mp status
    rw [Polynomial.roots_X_pow, Multiset.card_nsmul, Multiset.card_singleton, degree] at few
    omega
  have root : Binary64.ofInt 0 ∈ s.results := (right.mem_results _).mpr (.inl ⟨0, by simp, rfl⟩)
  have deeper : ({ Settings.defaults with maxDepth := 1 } : Settings).maxDepth ≤ 8 := by decide
  obtain ⟨kept, same⟩ := solve_deeper deeper hs ht
  obtain ⟨-, factored, results⟩ := same decided
  have number : ∀ x ∈ s.results, x.isNaN = false := fun x hx =>
    Binary64.isNaN_of_isFinite (right.unsigned x hx).isFinite
  exact ⟨s, t, hs, ht, decided, kept _ root, results (.inr number), factored⟩

end Limits

end FunctionStudy
