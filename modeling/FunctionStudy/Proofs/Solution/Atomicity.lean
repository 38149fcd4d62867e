import FunctionStudy.Proofs.Agreement.Pieces
import FunctionStudy.Proofs.Ruffini.Letter
import FunctionStudy.Proofs.Solution.Registration

/-! A failing solve registers nothing, although points are registered deep in the recursion: a
quotient that has registered some lies on an axis with a height, so that the linear divisor is
solved for sure. -/

namespace FunctionStudy

variable {settings : Settings} {axis : String} {height : Binary64} {higher : HigherSolver}
  {f g : Equation} {s : EquationSolution} {start after : Notebook} {layout : Layout}

section Divisor

variable {l : Char} {x : Binary64}

theorem solveWith_linear_returns {p : Powers} {b q : Binary64} (hl : l ≠ 'y')
    (dense : p.dense = [.ofInt p.leading, b]) (quotient : b.neg.div (.ofInt p.leading) = .ok q)
    (tells : settings.TellsIntegers) (hh : axisHeight axis = .ok height)
    (within : 1 ≤ settings.maxDegree) :
    (solveWith higher settings axis ⟨p.member l, ⟨[.constant .zero]⟩⟩ none).Returns fun s =>
      s.results = [q.unsignedZero] := by
  obtain ⟨m, hm, -, collected⟩ := p.setsToZero_eqZero hl
  have one : p.collected.degree = 1 := by
    obtain ⟨rest, length, shape⟩ := p.exists_dense
    rw [dense, List.cons.injEq] at shape
    rw [← shape.2] at length
    exact length.symm
  have value := p.collected.toRat?_degree_member (l := l)
  have coefficients := p.collected.coefficientsTo_member (l := l)
  rw [one] at value coefficients
  rw [p.dense_collected, dense] at coefficients
  have inside : isBeyond settings (.double (p.collected.member l).degree) = false :=
    exceeds_eq_false value within
  have atOne : solvingDegree settings (p.collected.member l) none = .ok 1 := by
    simp [solvingDegree, inside, Number.whole?_double value, bind, Except.bind, pure, Except.pure]
  have nonzero : settings.isZero (.ofInt p.leading) = false := by
    rw [tells.isZero_eq (Binary64.toRat?_ofInt p.leading_le)]
    exact decide_eq_false p.leading_ne_zero
  unfold solveWith
  refine Work.Returns.ofExcept_bind hm ?_
  rw [collected]
  refine Work.Returns.ofExcept_bind atOne (Work.Returns.ofExcept_bind hh (Work.Returns.record_bind ?_))
  rw [if_neg (by decide)]
  refine Work.Returns.ofExcept_bind coefficients ?_
  exact (solveLinear_returns nonzero quotient).imp fun _ solved => solved.1

theorem exists_linear_quotient (isAlpha : l.isAlpha = true) (finite : x.isFinite = true) :
    ∃ constant known b q, ((Powers.linear constant known).member l).IsWrittenAs
        (linearFactor x (String.singleton l)) ∧
      (Powers.linear constant known).dense = [.ofInt 1, b] ∧ b.neg.div (.ofInt 1) = .ok q ∧
      q.isFinite = true ∧ q.unsignedZero = x.reread.unsignedZero := by
  obtain ⟨constant, known, written, w, read, -, value⟩ :=
    exists_linear_isWrittenAs isAlpha (Binary64.toRat?_of_finite finite)
  obtain ⟨b, dense, opposite⟩ : ∃ b, (Powers.linear constant known).dense = [.ofInt 1, b] ∧
      b.toRat? = some (-w) := by
    have first : (Binary64.ofInt 1).unsignedZero = .ofInt 1 := by decide +kernel
    cases constant with
    | none => exact ⟨.zero, congrArg (· :: _) first, value⟩
    | some c => exact ⟨c.unsignedZero, congrArg (· :: _) first, Binary64.toRat?_unsignedZero value⟩
  have numerator : b.neg.toRat? = some w := neg_neg w ▸ Binary64.toRat?_neg opposite
  have one : (Binary64.ofInt 1).toRat? = some 1 := Binary64.toRat?_ofInt (n := 1) (by norm_num)
  obtain ⟨q, quotient, number⟩ := Binary64.toRat?_div? numerator one one_ne_zero
    (by rw [div_one]; exact Binary64.onGrid_of_toRat? numerator)
  refine ⟨constant, known, b, q, written, dense, ?_, ?_, ?_⟩
  · rw [Binary64.div, quotient]
  · rw [Binary64.isFinite, number, Option.isSome_some]
  · rw [Binary64.unsignedZero_eq number, Binary64.unsignedZero_eq read, div_one]

theorem exists_solved_linearFactor (isAlpha : l.isAlpha = true) (hl : l ≠ 'y') (finite : x.isFinite = true)
    (tells : settings.TellsIntegers) (within : 1 ≤ settings.maxDegree) :
    ∃ g, Equation.ofText (linearFactor x (String.singleton l)) = .ok g ∧
      ∀ {axis height} higher, axisHeight axis = .ok height →
        (solveWith higher settings axis g none).Returns fun s => s.results = [x.reread.unsignedZero] := by
  obtain ⟨constant, known, b, q, written, dense, quotient, -, same⟩ := exists_linear_quotient isAlpha finite
  refine ⟨_, written.ofText, fun higher hh => ?_⟩
  exact same ▸ solveWith_linear_returns hl dense quotient tells hh within

end Divisor

section Changes

theorem Number.toRat?_of_whole? {x : Binary64} {z : ℤ} (h : (Number.double x).whole? = .ok (some z)) :
    x.toRat? = some (z : ℚ) := by
  have whole : ∀ {v : ℚ} {w : ℤ}, (if v = w then some w else none) = some z → v = z := by
    intro v w same
    split_ifs at same with equal
    rw [equal, Option.some.inj same]
  cases x with
  | nan => cases h
  | inf s => cases h
  | negZero => exact congrArg some (whole (Except.ok.inj h))
  | finite v grid => exact congrArg some (whole (Except.ok.inj h))

theorem toRat?_of_solvingDegree {m : Member} {n : ℕ} (h : solvingDegree settings m none = .ok n) :
    m.degree.toRat? = some (n : ℚ) ∧ (n : ℤ) ≤ settings.maxDegree := by
  unfold solvingDegree at h
  dsimp only [Option.getD_none] at h
  split_ifs at h with beyond
  · cases h
  · cases whole : (Number.double m.degree).whole? with
    | error e =>
      rw [whole] at h
      cases h
    | ok z =>
      rw [whole] at h
      dsimp only [bind, Except.bind] at h
      split at h
      · rename_i k
        obtain rfl := Except.ok.inj h
        have value := Number.toRat?_of_whole? whole
        rw [isBeyond, exceeds_eq_decide value, decide_eq_true_iff, not_lt] at beyond
        exact ⟨by exact_mod_cast value, by exact_mod_cast beyond⟩
      · cases h

theorem Member.length_of_coefficientsTo {m : Member} {d : ℤ} {cs : List Binary64}
    (h : m.coefficientsTo d = .ok cs) : cs.length = (d + 1).toNat := by
  unfold coefficientsTo at h
  cases indexed : m.naturalExponents with
  | error e =>
    rw [indexed] at h
    cases h
  | ok ts =>
    rw [indexed] at h
    dsimp only [bind, Except.bind, pure, Except.pure] at h
    split at h
    · cases h
    · obtain rfl := Except.ok.inj h
      simp

theorem solveConstant_keepsRegistry (settings : Settings) (equation : String) (c : Binary64) :
    (solveConstant settings equation c).KeepsRegistry := by
  unfold solveConstant
  split_ifs
  · exact (Work.keepsRegistry_record _).bind fun _ => Work.keepsRegistry_pure _
  · exact (Work.keepsRegistry_record _).bind fun _ => Work.keepsRegistry_pure _

theorem exists_height_of_changed
    (run : (solveWith higher settings axis g none).runFrom start layout = (.ok s, after))
    (changed : after.registry ≠ start.registry) :
    (∃ height, axisHeight axis = .ok height) ∧ 1 ≤ settings.maxDegree := by
  unfold solveWith at run
  obtain ⟨m, -, run⟩ := Work.runFrom_ofExcept_bind_ok run
  obtain ⟨n, hn, run⟩ := Work.runFrom_ofExcept_bind_ok run
  obtain ⟨height, hh, run⟩ := Work.runFrom_ofExcept_bind_ok run
  refine ⟨⟨height, hh⟩, ?_⟩
  have within := (toRat?_of_solvingDegree hn).2
  rcases Nat.eq_zero_or_pos n with rfl | positive
  · -- A constant has no points.
    obtain ⟨_, middle, recorded, run⟩ := Work.runFrom_bind_ok run
    rw [if_neg (by decide)] at run
    obtain ⟨cs, hcs, run⟩ := Work.runFrom_ofExcept_bind_ok run
    obtain ⟨c, rfl⟩ := List.length_eq_one_iff.mp (Member.length_of_coefficientsTo hcs)
    have kept := solveConstant_keepsRegistry settings (m.simplify.normalize.text ++ "=0") c middle layout
    rw [run] at kept
    cases recorded
    exact absurd kept changed
  · omega

end Changes

section Recursion

theorem rootPoints_bind_isAtomic (roots : List Binary64) (height : Binary64)
    (answer : List Point → EquationSolution) :
    (rootPoints roots height >>= fun points => pure (answer points)).IsAtomic :=
  ((Work.returns_rootPoints roots height).bind (R := fun _ => True) fun _ _ =>
    Work.Returns.pure trivial).isAtomic

theorem solveLinear_isAtomic (settings : Settings) (equation : String) (height a b : Binary64) :
    (solveLinear settings equation height a b).IsAtomic := by
  unfold solveLinear
  split_ifs
  · exact (Work.keepsRegistry_throw _).isAtomic
  · refine Work.isAtomic_ofExcept_bind fun q _ => ?_
    exact (Work.keepsRegistry_record _).bind_isAtomic fun _ _ => rootPoints_bind_isAtomic _ _ _

theorem solveQuadratic_isAtomic (settings : Settings) (equation : String) (height a b c : Binary64) :
    (solveQuadratic settings equation height a b c).IsAtomic := by
  unfold solveQuadratic
  split_ifs
  · exact (Work.keepsRegistry_throw _).isAtomic
  · refine (Work.keepsRegistry_record _).bind_isAtomic fun _ _ => ?_
    refine Work.isAtomic_ofExcept_bind fun roots _ => ?_
    cases roots with
    | none => exact ((Work.keepsRegistry_record _).bind fun _ => Work.keepsRegistry_pure _).isAtomic
    | some xs => exact (Work.keepsRegistry_record _).bind_isAtomic fun _ _ => rootPoints_bind_isAtomic _ _ _

theorem solveWith_isAtomic (high : ∀ n, (higher f n).IsAtomic) (claimed : Option Number) :
    (solveWith higher settings axis f claimed).IsAtomic := by
  unfold solveWith
  refine Work.isAtomic_ofExcept_bind fun p _ => ?_
  refine Work.isAtomic_ofExcept_bind fun n _ => ?_
  refine Work.isAtomic_ofExcept_bind fun height _ => ?_
  refine (Work.keepsRegistry_record _).bind_isAtomic fun _ _ => ?_
  split_ifs
  · exact high n
  · refine Work.isAtomic_ofExcept_bind fun cs _ => ?_
    split
    · exact (solveConstant_keepsRegistry _ _ _).isAtomic
    · exact solveLinear_isAtomic _ _ _ _ _
    · exact solveQuadratic_isAtomic _ _ _ _ _ _
    · exact (Work.keepsRegistry_throw _).isAtomic

/-- The part of the recursion that is about one factor. -/
def solveFactor (higher : HigherSolver) (settings : Settings) (axis : String) (found : FactorRoots)
    (text : String) : Work FactorRoots := do
  let g ← Work.ofExcept (Equation.ofText text)
  let s ← solveWith higher settings axis g none
  return found.add text s

theorem solveFactor_isAtomic (high : ∀ g, g.HasLetterNames → ∀ n, (higher g n).IsAtomic)
    (found : FactorRoots) (text : String) :
    (solveFactor higher settings axis found text).IsAtomic := by
  refine Work.isAtomic_ofExcept_bind fun g read => ?_
  exact (solveWith_isAtomic (high g (Equation.hasLetterNames_ofText read)) none).bind_returns
    (Q := fun _ => True) fun s => Work.Returns.pure trivial

theorem exists_height_of_solveFactor {found next : FactorRoots} {text : String}
    (run : (solveFactor higher settings axis found text).runFrom start layout = (.ok next, after))
    (changed : after.registry ≠ start.registry) :
    (∃ height, axisHeight axis = .ok height) ∧ 1 ≤ settings.maxDegree := by
  obtain ⟨g, -, run⟩ := Work.runFrom_ofExcept_bind_ok run
  obtain ⟨s, middle, solved, run⟩ := Work.runFrom_bind_ok run
  cases run
  exact exists_height_of_changed solved changed

/-- The recursion, by the number of splits that are left. The quotient is solved before anything is
registered, and what it registers makes sure that the divisor is solved. -/
theorem solveHigher_isAtomic (tells : settings.TellsIntegers) (axis : String) (remaining : ℕ)
    (names : f.HasLetterNames) (n : ℤ) : (solveHigher settings axis remaining f n).IsAtomic := by
  induction remaining generalizing f n with
  | zero =>
    unfold solveHigher
    refine Work.isAtomic_ofExcept_bind fun p _ => ?_
    exact ((Work.keepsRegistry_record _).bind fun _ => Work.keepsRegistry_pure _).isAtomic
  | succ remaining ih =>
    have factors : ∀ found text,
        (solveFactor (solveHigher settings axis remaining) settings axis found text).IsAtomic :=
      solveFactor_isAtomic fun g names n => ih names n
    unfold solveHigher
    refine Work.isAtomic_ofExcept_bind fun p _ => ?_
    refine (factor_onlyWrites settings f).keepsRegistry.bind_isAtomic fun F factored => ?_
    dsimp only
    cases outcome : F.split with
    | none =>
      have unsplit : F.isSplit = false := by rw [Factorization.isSplit, outcome]; rfl
      rw [unsplit, Bool.not_false, if_pos rfl]
      exact (Work.keepsRegistry_pure _).isAtomic
    | some split =>
      have isSplit : F.isSplit = true := by rw [Factorization.isSplit, outcome]; rfl
      have two : F.factors = [split.quotient, split.divisor] := by rw [Factorization.factors, outcome]
      rw [isSplit, Bool.not_true, if_neg Bool.false_ne_true, two]
      refine Work.IsAtomic.bind_returns (Q := fun _ => True) ?_ fun found =>
        (Work.returns_ascending _ _).bind fun _ _ => Work.Returns.record_bind (Work.Returns.pure trivial)
      refine (factors {} split.quotient).bind (fun found _ => ?_) fun start layout found after run changed => ?_
      · exact (factors found split.divisor).bind_returns (Q := fun _ => True) fun _ => Work.Returns.pure trivial
      · obtain ⟨⟨height, hh⟩, within⟩ := exists_height_of_solveFactor run changed
        obtain ⟨l, x, isAlpha, independent, finite, divisor⟩ := exists_divisor names.unknown factored outcome
        obtain ⟨g, read, solved⟩ := exists_solved_linearFactor isAlpha independent finite tells within
        rw [divisor]
        refine Work.Returns.bind (P := fun _ => True) ?_ fun _ _ => Work.Returns.pure trivial
        exact Work.Returns.ofExcept_bind read ((solved _ hh).bind fun _ _ => Work.Returns.pure trivial)

/-- A failing solve leaves the registry as it was: at any degree, claimed or not, at any depth, on any
axis, and also where the failure comes after some of the roots were found. -/
theorem failed_solve_keeps_registry (tells : settings.TellsIntegers) (names : f.HasLetterNames)
    (axis : String) (depth : ℤ) :
    (∀ claimed, (solve settings axis depth f claimed).IsAtomic) ∧
      (∀ degree, (solveHigher settings axis (remainingDepth settings depth) f degree).IsAtomic) ∧
      (intersectAxis settings f axis).IsAtomic := by
  have higher : ∀ axis remaining degree, (solveHigher settings axis remaining f degree).IsAtomic :=
    fun axis remaining degree => solveHigher_isAtomic tells axis remaining names degree
  refine ⟨fun claimed => solveWith_isAtomic (higher _ _) claimed, higher _ _, ?_⟩
  unfold intersectAxis
  split_ifs
  · refine Work.isAtomic_ofExcept_bind fun p _ => ?_
    refine Work.Returns.isAtomic (Q := fun _ => True) ?_
    exact (Work.returns_point _ _).bind fun p _ => Work.Returns.record_bind (Work.Returns.pure trivial)
  · exact solveWith_isAtomic (higher _ _) none
  · exact (Work.keepsRegistry_throw _).isAtomic

/-- The same of an equation that is given as text, which may also fail to be one. -/
theorem failed_solve_text_keeps_registry (tells : settings.TellsIntegers) (text axis : String)
    (depth : ℤ) (claimed : Option Number) :
    (Work.ofExcept (Equation.ofText text) >>= fun f => solve settings axis depth f claimed).IsAtomic :=
  Work.isAtomic_ofExcept_bind fun _ read => solveWith_isAtomic
    (fun degree => solveHigher_isAtomic tells axis _ (Equation.hasLetterNames_ofText read) degree) claimed

/-- The equation `x=0`, solved at degree 2, fails: its leading coefficient is zero. -/
theorem failed_solve_keeps_registry_letter : ∃ e after,
    (solve .defaults "y=0" 0 (.explicit "y" ⟨[⟨.ofInt 1, some (.ofLetter "x")⟩]⟩)
      (some (.exact 2))).runFrom ⟨[], some ⟨[.unnamed .zero .zero]⟩⟩ = (.error e, after) ∧
    after.registry = some ⟨[.unnamed .zero .zero]⟩ := by
  have tells := Settings.tellsIntegers_defaults
  have names : (Equation.explicit "y" ⟨[⟨.ofInt 1, some (.ofLetter "x")⟩]⟩).HasLetterNames := by
    unfold Equation.HasLetterNames
    decide +kernel
  have normal : (Member.mk [⟨.ofInt 1, some (.ofLetter "x")⟩]).simplify.normalize =
      ⟨[⟨.ofInt 1, some (.ofLetter "x")⟩]⟩ := by
    have simple : (Member.mk [⟨.ofInt 1, some (.ofLetter "x")⟩]).simplify =
        ⟨[⟨.ofInt 1, some (.ofLetter "x")⟩]⟩ := by decide +kernel
    rw [simple, Member.normalize, List.mergeSort_singleton]
  have degree : solvingDegree .defaults ⟨[⟨.ofInt 1, some (.ofLetter "x")⟩]⟩ (some (.exact 2)) = .ok 2 := by
    decide +kernel
  have coefficients : (Member.mk [⟨.ofInt 1, some (.ofLetter "x")⟩]).coefficientsTo 2 =
      .ok [.zero, .ofInt 1, .zero] := by decide +kernel
  cases run : (solve .defaults "y=0" 0 (.explicit "y" ⟨[⟨.ofInt 1, some (.ofLetter "x")⟩]⟩)
      (some (.exact 2))).runFrom ⟨[], some ⟨[.unnamed .zero .zero]⟩⟩ with
  | mk answer after =>
    cases answer with
    | error e => exact ⟨e, after, rfl, (failed_solve_keeps_registry tells names "y=0" 0).1 _ _ _ e after run⟩
    | ok s =>
      have yields : (solve .defaults "y=0" 0 (.explicit "y" ⟨[⟨.ofInt 1, some (.ofLetter "x")⟩]⟩)
        (some (.exact 2))).Yields .insertion s := ⟨_, _, run⟩
      unfold solve solveWith at yields
      obtain ⟨m, hm, yields⟩ := yields.of_ofExcept_bind
      obtain rfl := Except.ok.inj ((Equation.polynomial_explicit _).symm.trans hm)
      rw [normal] at yields
      obtain ⟨n, hn, yields⟩ := yields.of_ofExcept_bind
      obtain rfl := Except.ok.inj (degree.symm.trans hn)
      obtain ⟨height, -, yields⟩ := yields.of_ofExcept_bind
      have yields := yields.of_record_bind
      rw [if_neg (by decide)] at yields
      obtain ⟨cs, hcs, yields⟩ := yields.of_ofExcept_bind
      obtain rfl := Except.ok.inj (coefficients.symm.trans hcs)
      dsimp only at yields
      unfold solveQuadratic at yields
      rw [if_pos (by decide +kernel)] at yields
      exact (Work.Yields.of_throw yields.of_bind.choose_spec.1).elim

end Recursion

end FunctionStudy
