import FunctionStudy.Proofs.Solution.Direct
import FunctionStudy.Proofs.Solution.MonicQuadratic

/-! Reducing the degree. Solving a monic polynomial finds all its integer roots, at every level of
splitting, and ends as solved exactly when at most a quadratic factor is left without any. -/

namespace FunctionStudy

open Polynomial
open Binary64 (ofInt toRat?_ofInt)

/-- The monic divisors have coefficients up to `2^25` and constants that can be searched. -/
def HasSmallDivisors (settings : Settings) (P : ℤ[X]) : Prop :=
  ∀ D : ℤ[X], D.Monic → D ∣ P →
    (∀ k, |D.coeff k| ≤ 2 ^ 25) ∧ |D.coeff 0| ≤ settings.maxDivisor

/-- The texts of monic polynomials with the given product. -/
def AreFactors (P : ℤ[X]) (l : Char) (texts : List String) : Prop :=
  ∃ Qs : List ℤ[X], texts = Qs.map (Member.textOf · l) ∧ Qs.prod = P ∧ ∀ Q ∈ Qs, Q.Monic

/-- The factors of a solution; what was not split stands for itself. -/
def EquationSolution.parts (factor : String) (s : EquationSolution) : List String :=
  if s.factored.isEmpty then [factor] else s.factored

/-- What solving a monic polynomial comes to. -/
structure EquationSolution.IsRight (settings : Settings) (P : ℤ[X]) (l : Char)
    (s : EquationSolution) : Prop where
  unsigned : ∀ x ∈ s.results, x.IsUnsigned
  mem_results : ∀ x, x ∈ s.results ↔
    (∃ r, P.IsRoot r ∧ x = ofInt r) ∨ (s.status ≠ .unfactorable ∧ IsSurd settings P x)
  unfactorable_iff : s.status = .unfactorable ↔ P.roots.card + 2 < P.natDegree
  parts : AreFactors P l (s.parts (Member.textOf P l))
  unsplit : (∀ r, ¬ P.IsRoot r) → s.factored = []
  split : 3 ≤ P.natDegree → (∃ r, P.IsRoot r) → s.factored ≠ []
  ordered : 3 ≤ P.natDegree → s.results.Pairwise fun x y => x.toRat < y.toRat
  decided : 3 ≤ P.natDegree → s.status = .solved ∨ s.status = .unfactorable

variable {P Q : ℤ[X]} {l : Char} {settings : Settings} {r : ℤ} {x : Binary64}
  {s t : EquationSolution}

section Divisors

theorem HasSmallDivisors.of_dvd (h : HasSmallDivisors settings P) (divides : Q ∣ P) :
    HasSmallDivisors settings Q :=
  fun D monic divisor => h D monic (divisor.trans divides)

theorem HasSmallDivisors.coefficients (h : HasSmallDivisors settings P) (monic : P.Monic) (k : ℕ) :
    |P.coeff k| ≤ 2 ^ 25 :=
  (h P monic dvd_rfl).1 k

theorem HasSmallDivisors.small (h : HasSmallDivisors settings P) (monic : P.Monic) :
    HasSmallCoefficients P :=
  fun k => (h.coefficients monic k).trans (by norm_num)

theorem areFactors_self (monic : P.Monic) : AreFactors P l [Member.textOf P l] :=
  ⟨[P], rfl, by simp, by simpa using monic⟩

theorem AreFactors.append {texts others : List String} (h : AreFactors P l texts)
    (h' : AreFactors Q l others) : AreFactors (P * Q) l (texts ++ others) := by
  obtain ⟨Ps, rfl, rfl, monic⟩ := h
  obtain ⟨Qs, rfl, rfl, monic'⟩ := h'
  refine ⟨Ps ++ Qs, List.map_append.symm, List.prod_append, fun D hD => ?_⟩
  exact (List.mem_append.mp hD).elim (monic D) (monic' D)

end Divisors

section Leaves

variable {equation : String} {height : Binary64}

theorem isRight_leaf (monic : P.Monic) (degree : P.natDegree ≤ 2) (factored : s.factored = [])
    (status : s.status ≠ .unfactorable) (unsigned : ∀ x ∈ s.results, x.IsUnsigned)
    (results : ∀ x, x ∈ s.results ↔ (∃ r, P.IsRoot r ∧ x = ofInt r) ∨ IsSurd settings P x) :
    s.IsRight settings P l where
  unsigned := unsigned
  mem_results x := by rw [results x, iff_true_intro status, true_and]
  unfactorable_iff := iff_of_false status (by omega)
  parts := by
    rw [EquationSolution.parts, factored]
    exact areFactors_self monic
  unsplit _ := factored
  split three := by omega
  ordered three := by omega
  decided three := by omega

theorem solveLinear_isRight (tells : settings.TellsIntegers) (monic : P.Monic)
    (small : ∀ k, |P.coeff k| ≤ 2 ^ 25) (degree : P.natDegree = 1) :
    (solveLinear settings equation height (ofInt (P.coeff 1)) (ofInt (P.coeff 0))).Returns
      (·.IsRight settings P l) := by
  have leading : P.coeff 1 = 1 := by rw [← degree]; exact monic
  have constant := small 0
  have one := toRat?_ofInt (n := 1) (by norm_num)
  have opposite : (ofInt (P.coeff 0)).neg.toRat? = some ((-P.coeff 0 : ℤ) : ℚ) := by
    simpa using Binary64.toRat?_neg (toRat?_ofInt (n := P.coeff 0) (by omega))
  obtain ⟨q, hq, root⟩ := Binary64.exists_div_eq opposite one one_ne_zero (r := -P.coeff 0)
    (mul_one _).symm (by rw [abs_neg]; omega)
  rw [leading]
  refine (solveLinear_returns (by rw [tells.isZero_eq one]; rfl) hq).imp fun s hs => ?_
  obtain ⟨results, factored, status⟩ := hs
  rw [root] at results
  refine isRight_leaf monic (by omega) factored (by simp [status]) ?_ fun x => ?_
  · rw [results]
    intro x hx
    rw [List.mem_singleton.mp hx]
    exact Binary64.isUnsigned_ofInt (by rw [abs_neg]; omega)
  · have noSurd : ¬ IsSurd settings P x := not_isSurd_of_natDegree monic.ne_zero (by omega)
    have roots : ∀ r, P.IsRoot r ↔ r = -P.coeff 0 := by
      intro r
      rw [monic.eq_X_add_C degree]
      simp [add_eq_zero_iff_eq_neg]
    simp only [results, roots, noSurd, List.mem_singleton, exists_eq_left, or_false]

/-- What is computed for a monic quadratic: its integer roots, or its two other real ones. -/
def IsComputed (settings : Settings) (b c : ℤ) (roots : Option (List Binary64)) : Prop :=
  quadraticRoots settings (ofInt 1) (ofInt b) (discriminant (ofInt 1) (ofInt b) (ofInt c)) =
      .ok roots ∧
    (∀ x ∈ roots.getD [], x.IsUnsigned) ∧ ∀ x, x ∈ roots.getD [] ↔
      (∃ r, (quadratic b c).IsRoot r ∧ x = ofInt r) ∨ IsSurd settings (quadratic b c) x

variable {b c : ℤ}

theorem toRat?_monicDiscriminant (hb : |b| ≤ 2 ^ 25) (hc : |c| ≤ 2 ^ 25) :
    (discriminant (ofInt 1) (ofInt b) (ofInt c)).toRat? = some ((b * b - 4 * c : ℤ) : ℚ) := by
  have value := toRat?_discriminant (a := 1) (by norm_num) hb hc
  rwa [mul_one] at value

theorem isComputed_square (tells : settings.TellsIntegers) {r s : ℤ} (le : r ≤ s)
    (hr : |r| ≤ 2 ^ 25) (hs : |s| ≤ 2 ^ 25) (hb : |-(r + s)| ≤ 2 ^ 25) (hc : |r * s| ≤ 2 ^ 25) :
    IsComputed settings (-(r + s)) (r * s)
      (some (if r = s then [ofInt r] else [ofInt r, ofInt s])) := by
  have square : -(r + s) * -(r + s) - 4 * (r * s) = (s - r) * (s - r) := by ring
  have value := toRat?_monicDiscriminant hb hc
  rw [square] at value
  have noSurd : ∀ x, ¬ IsSurd settings (quadratic (-(r + s)) (r * s)) x := by
    intro x surd
    exact (isSurd_quadratic.mp surd).2.1 ⟨s - r, square⟩
  have known := quadraticRoots_of_roots tells one_ne_zero (by norm_num)
    (by rwa [one_mul, ← abs_neg]) hr hs le (by rw [value, one_mul])
  rw [one_mul] at known
  have members : ∀ x, x ∈ (if r = s then [ofInt r] else [ofInt r, ofInt s]) ↔
      x = ofInt r ∨ x = ofInt s := by
    intro x
    split_ifs with same <;> simp [same]
  refine ⟨known, fun x hx => ?_, fun x => ?_⟩
  · rcases (members x).mp hx with rfl | rfl
    · exact Binary64.isUnsigned_ofInt (by omega)
    · exact Binary64.isUnsigned_ofInt (by omega)
  · rw [Option.getD_some, members]
    simp only [isRoot_of_sum_product, noSurd, or_false, or_and_right, exists_or, exists_eq_left]

theorem isComputed_neg (tells : settings.TellsIntegers) (hb : |b| ≤ 2 ^ 25) (hc : |c| ≤ 2 ^ 25)
    (negative : b * b - 4 * c < 0) : IsComputed settings b c none := by
  refine ⟨quadraticRoots_of_neg tells (toRat?_monicDiscriminant hb hc) negative _ _, by simp,
    fun x => iff_of_false (by simp) ?_⟩
  rintro (⟨r, root, -⟩ | surd)
  · obtain ⟨z, square⟩ := isSquare_discriminant root
    exact absurd negative (square ▸ (mul_self_nonneg z).not_gt)
  · exact (isSurd_quadratic.mp surd).1.not_gt negative

theorem exists_isComputed_surd (tells : settings.TellsIntegers) (hb : |b| ≤ 2 ^ 25)
    (hc : |c| ≤ 2 ^ 25) (positive : 0 < b * b - 4 * c) (surd : ¬ IsSquare (b * b - 4 * c)) :
    ∃ roots, IsComputed settings b c roots := by
  have noRoot : ∀ r, ¬ (quadratic b c).IsRoot r := fun r root => surd (isSquare_discriminant root)
  have bound : b * b - 4 * c ≤ 2 ^ 54 := by
    have square := abs_mul_le hb hb
    have multiple := abs_mul_le (M := 4) (m := 4) (by norm_num) hc
    have := le_abs_self (b * b)
    have := neg_abs_le (4 * c)
    omega
  obtain ⟨roots, known, unsigned⟩ := exists_quadraticRoots tells one_ne_zero (by norm_num) hb
    (toRat?_monicDiscriminant hb hc) positive bound
  refine ⟨some roots, known, unsigned, fun x => ?_⟩
  simp only [Option.getD_some, noRoot, false_and, exists_false, false_or, isSurd_quadratic, known,
    positive, surd, not_false_eq_true, true_and]
  simp

theorem exists_isComputed (tells : settings.TellsIntegers)
    (small : ∀ k, |(quadratic b c).coeff k| ≤ 2 ^ 25) : ∃ roots, IsComputed settings b c roots := by
  have hb : |b| ≤ 2 ^ 25 := by simpa using small 1
  have hc : |c| ≤ 2 ^ 25 := by simpa using small 0
  have roots : ∀ {r}, (quadratic b c).IsRoot r → |r| ≤ 2 ^ 25 :=
    abs_le_of_isRoot small (monic_quadratic b c).ne_zero
  by_cases square : IsSquare (b * b - 4 * c)
  · obtain ⟨r, s, le, rfl, rfl⟩ := exists_roots_of_isSquare square
    exact ⟨_, isComputed_square tells le (roots (isRoot_of_sum_product.mpr (.inl rfl)))
      (roots (isRoot_of_sum_product.mpr (.inr rfl))) hb hc⟩
  · rcases lt_trichotomy (b * b - 4 * c) 0 with negative | zero | positive
    · exact ⟨none, isComputed_neg tells hb hc negative⟩
    · exact absurd (zero ▸ IsSquare.zero) square
    · exact exists_isComputed_surd tells hb hc positive square

theorem solveQuadratic_isRight (tells : settings.TellsIntegers) (monic : P.Monic)
    (small : ∀ k, |P.coeff k| ≤ 2 ^ 25) (degree : P.natDegree = 2) :
    (solveQuadratic settings equation height (ofInt (P.coeff 2)) (ofInt (P.coeff 1))
      (ofInt (P.coeff 0))).Returns (·.IsRight settings P l) := by
  have leading : P.coeff 2 = 1 := by rw [← degree]; exact monic
  have one := toRat?_ofInt (n := 1) (by norm_num)
  have shape := eq_quadratic monic degree
  rw [shape] at small
  obtain ⟨roots, known, unsigned, members⟩ := exists_isComputed tells small
  rw [← shape] at members
  rw [leading]
  refine (solveQuadratic_returns (by rw [tells.isZero_eq one]; rfl) known).imp fun s hs => ?_
  obtain ⟨results, factored, status⟩ := hs
  rw [← results] at unsigned members
  exact isRight_leaf monic degree.le factored status unsigned members

end Leaves

section Joining

variable {layout : Layout} {name : SetName}

def joined (first second : String) (s t : EquationSolution) : FactorRoots :=
  (({} : FactorRoots).add first s).add second t

theorem mem_results_linear (ht : t.IsRight settings (X - C r) l) : x ∈ t.results ↔ x = ofInt r := by
  have noSurd : ¬ IsSurd settings (X - C r) x :=
    not_isSurd_of_natDegree (X_sub_C_ne_zero r) (by rw [natDegree_X_sub_C]; omega)
  simp only [ht.mem_results, root_X_sub_C, noSurd, and_false, or_false, exists_eq_left']

/-- A product is solved as far as its quotient is; the linear divisor always is. -/
def EquationSolution.productStatus (s : EquationSolution) : Status :=
  if s.status = .unfactorable then .unfactorable else .solved

theorem productStatus_eq_iff : s.productStatus = .unfactorable ↔ s.status = .unfactorable := by
  unfold EquationSolution.productStatus
  split_ifs with left <;> simp [left]

theorem productStatus_cases (s : EquationSolution) :
    s.productStatus = .solved ∨ s.productStatus = .unfactorable := by
  unfold EquationSolution.productStatus
  split_ifs
  · exact .inr rfl
  · exact .inl rfl

theorem status_joined (first second : String) (decided : t.status ≠ .unfactorable) :
    (joined first second s t).status = s.productStatus := by
  simp [joined, FactorRoots.add, EquationSolution.productStatus, decided]

theorem status_linear (ht : t.IsRight settings (X - C r) l) : t.status ≠ .unfactorable := by
  intro status
  have few := ht.unfactorable_iff.mp status
  rw [natDegree_X_sub_C] at few
  omega

theorem results_joined (first second : String) :
    (joined first second s t).results = s.results ++ t.results := rfl

theorem factored_joined (first second : String) :
    (joined first second s t).factored = s.parts first ++ t.parts second := rfl

theorem parts_ne_nil (factor : String) : s.parts factor ≠ [] := by
  unfold EquationSolution.parts
  split_ifs with none
  · simp
  · simpa using none

theorem unsigned_joined (hs : s.IsRight settings Q l) (ht : t.IsRight settings (X - C r) l) :
    ∀ x ∈ s.results ++ t.results, x.IsUnsigned := by
  intro x hx
  rcases List.mem_append.mp hx with hx | hx
  · exact hs.unsigned x hx
  · exact ht.unsigned x hx

theorem mem_joined (hs : s.IsRight settings Q l) (ht : t.IsRight settings (X - C r) l) :
    x ∈ layout.ascending name (s.results ++ t.results) ↔ x ∈ s.results ∨ x = ofInt r := by
  rw [Layout.mem_ascending_of_ne_negZero fun y hy => (unsigned_joined hs ht y hy).ne_negZero, List.mem_append,
    mem_results_linear ht]

theorem card_roots_linear_mul (nonzero : Q ≠ 0) :
    ((X - C r) * Q).roots.card + 2 < ((X - C r) * Q).natDegree ↔
      Q.roots.card + 2 < Q.natDegree := by
  rw [roots_linear_mul nonzero, Multiset.card_cons, natDegree_linear_mul nonzero]
  omega

/-- The invariant of splitting: what is found for a product is what is found for its parts. -/
theorem isRight_joined {n : ℤ} {equation : String} {points : List Point} (monic : Q.Monic)
    (hs : s.IsRight settings Q l) (ht : t.IsRight settings (X - C r) l) {found : FactorRoots}
    (hf : found = joined (Member.textOf Q l) (Member.textOf (X - C r) l) s t) :
    let results := layout.ascending name found.results
    EquationSolution.IsRight settings ((X - C r) * Q) l
      { equation, degree := n, results,
        status := if results.isEmpty ∧ found.status = .solved then .impossible else found.status,
        factored := found.factored, points } := by
  subst hf
  rw [status_joined _ _ (status_linear ht), results_joined, factored_joined]
  intro results
  have unsigned := unsigned_joined hs ht
  have some : results.isEmpty = false := by
    rw [List.isEmpty_eq_false_iff]
    exact List.ne_nil_of_mem ((mem_joined hs ht).mpr (.inr rfl))
  have nonempty := parts_ne_nil (s := s) (Member.textOf Q l)
  simp only [some, Bool.false_eq_true, false_and, if_false]
  constructor
  case unsigned =>
    exact fun x hx => unsigned x (Layout.mem_of_mem_ascending hx)
  case mem_results =>
    intro x
    rw [mem_joined hs ht, hs.mem_results]
    simp only [isRoot_linear_mul, isSurd_linear_mul, ne_eq, productStatus_eq_iff, or_and_right,
      exists_or, exists_eq_left]
    exact or_right_comm.trans (or_congr_left or_comm)
  case unfactorable_iff =>
    rw [card_roots_linear_mul monic.ne_zero, ← hs.unfactorable_iff]
    exact productStatus_eq_iff
  case parts =>
    rw [EquationSolution.parts, if_neg (by simpa using fun h => absurd h nonempty), mul_comm]
    exact hs.parts.append ht.parts
  case unsplit =>
    intro noRoot
    exact absurd (isRoot_linear_mul.mpr (.inl rfl)) (noRoot r)
  case split =>
    intro _ _
    exact List.append_ne_nil_of_left_ne_nil nonempty _
  case ordered =>
    intro _
    exact Layout.pairwise_ascending fun x hx => (unsigned x hx).isFinite
  case decided =>
    intro _
    exact productStatus_cases s

theorem isRight_unsplit {n : ℤ} {equation : String} (monic : P.Monic) (degree : 3 ≤ P.natDegree)
    (noRoot : ∀ r, ¬ P.IsRoot r) :
    EquationSolution.IsRight settings P l { equation, degree := n, status := .unfactorable } := by
  have none : P.roots = 0 := Multiset.eq_zero_of_forall_notMem fun r hr =>
    noRoot r (isRoot_of_mem_roots hr)
  refine ⟨by simp, fun x => ?_, ?_, areFactors_self monic, fun _ => rfl, ?_, by simp, by simp⟩
  · refine iff_of_false (by simp) ?_
    rintro (⟨r, root, -⟩ | ⟨status, -⟩)
    · exact noRoot r root
    · exact status rfl
  · refine iff_of_true rfl ?_
    rw [none, Multiset.card_zero]
    omega
  · rintro - ⟨r, root⟩
    exact absurd root (noRoot r)

end Joining

section Recursion

variable {axis : String} {height : Binary64} {f : Equation}

theorem hasIntegerRoots_of_monic (monic : P.Monic) : HasIntegerRoots P := by
  intro x root
  obtain ⟨r, hr⟩ := isInteger_of_is_root_of_monic monic root
  exact ⟨r, hr.symm⟩

/-- A monic polynomial, with what solving it needs. Exponents are doubles, and a degree above `2^53`
need not be one after a split. -/
structure IsSolvable (settings : Settings) (P : ℤ[X]) (l : Char) (f : Equation) : Prop where
  function : f.IsFunctionOf P l settings.maxDegree
  monic : P.Monic
  divisors : HasSmallDivisors settings P
  exponents : P.natDegree ≤ 2 ^ 53

theorem IsSolvable.within (h : IsSolvable settings P l f) :
    (P.natDegree : ℤ) ≤ settings.maxDegree := by
  obtain ⟨p, -, -, rfl, written⟩ := h.function
  exact (Int.ofNat_le.mpr (Member.natDegree_le_writtenDegree p)).trans written

theorem IsSolvable.exists_ofText (hl : IsReadable l) (h : IsSolvable settings P l f)
    (monic : Q.Monic) (divides : Q ∣ P) :
    ∃ g, Equation.ofText (Member.textOf Q l) = .ok g ∧ IsSolvable settings Q l g := by
  have degree := natDegree_le_of_dvd divides h.monic.ne_zero
  have divisors := h.divisors.of_dvd divides
  have within : (Q.natDegree : ℤ) ≤ settings.maxDegree := (Int.ofNat_le.mpr degree).trans h.within
  obtain ⟨g, hg, function⟩ := exists_ofText_textOf hl monic.ne_zero (divisors.small monic)
    (degree.trans h.exponents) within
  exact ⟨g, hg, function, monic, divisors, degree.trans h.exponents⟩

def SolvesUpTo (settings : Settings) (axis : String) (l : Char) (higher : HigherSolver) (d : ℕ) :
    Prop :=
  ∀ P f, IsSolvable settings P l f → 0 < P.natDegree → P.natDegree ≤ d →
    (solveWith higher settings axis f none).Returns (·.IsRight settings P l)

variable {higher : HigherSolver} {d : ℕ}

theorem solvesUpTo_of_higher (tells : settings.TellsIntegers) (hh : axisHeight axis = .ok height)
    (high : ∀ P f, IsSolvable settings P l f → 3 ≤ P.natDegree → P.natDegree ≤ d →
      (higher f P.natDegree).Returns (·.IsRight settings P l)) :
    SolvesUpTo settings axis l higher d := by
  intro P f h positive le
  have representable := isRepresentable_of_le (h.divisors.small h.monic) h.exponents
  have small := h.divisors.coefficients h.monic
  refine solveWith_returns h.function (solvingDegree_none representable h.within) hh ?_ ?_ ?_ positive
  · exact fun three => high P f h three le
  · exact fun _ => solveLinear_isRight tells h.monic small
  · exact fun _ => solveQuadratic_isRight tells h.monic small

theorem solveHigher_isRight (hl : IsReadable l) (searched : 1 ≤ settings.maxDivisor)
    {remaining : ℕ} {n : ℤ} (below : SolvesUpTo settings axis l (solveHigher settings axis remaining) d)
    (h : IsSolvable settings P l f) (three : 3 ≤ P.natDegree) (le : P.natDegree ≤ d + 1) :
    (solveHigher settings axis (remaining + 1) f n).Returns (·.IsRight settings P l) := by
  obtain ⟨p, hp, integer, same, written⟩ := h.function
  have monic := h.monic
  have leading : |p.toPolynomial.leadingCoeff| ≤ settings.maxDivisor := by
    rw [same, monic.leadingCoeff]
    simpa using searched
  have constant : |p.toPolynomial.coeff 0| ≤ settings.maxDivisor := by
    rw [same]
    exact (h.divisors P monic dvd_rfl).2
  have factored := factor_returns hl hp integer (by rw [same]; omega) written leading constant
  rw [same] at factored
  unfold solveHigher
  refine Work.Returns.ofExcept_bind hp (factored.bind fun F right => ?_)
  rcases right.splitsOff (h.divisors.small monic) monic.ne_zero (hasIntegerRoots_of_monic monic) with
    ⟨unsplit, noRoot⟩ | ⟨s, r, Q, split, rfl, quotient, divisor⟩
  · have none : F.isSplit = false := by rw [Factorization.isSplit, unsplit, Option.isSome_none]
    rw [none]
    exact Work.Returns.pure (isRight_unsplit monic three noRoot)
  · have some : F.isSplit = true := by rw [Factorization.isSplit, split, Option.isSome_some]
    have factors : F.factors = [Member.textOf Q l, Member.textOf (X - C r) l] := by
      rw [Factorization.factors, split, ← quotient, ← divisor]
    have monicQ : Q.Monic := by rw [Monic, ← leadingCoeff_linear_mul (r := r), monic.leadingCoeff]
    have degree := natDegree_linear_mul (r := r) monicQ.ne_zero
    obtain ⟨g, readQ, solvableQ⟩ := h.exists_ofText hl monicQ (dvd_mul_left Q (X - C r))
    obtain ⟨k, readD, solvableD⟩ := h.exists_ofText hl (monic_X_sub_C r) (dvd_mul_right (X - C r) Q)
    rw [some, factors]
    have solvedQ := below Q g solvableQ (by omega) (by omega)
    have solvedD := below (X - C r) k solvableD (by rw [natDegree_X_sub_C]; omega)
      (by rw [natDegree_X_sub_C]; omega)
    simp only [List.foldlM_cons, List.foldlM_nil, bind_assoc, pure_bind, Bool.not_true,
      Bool.false_eq_true, if_false]
    refine Work.Returns.ofExcept_bind readQ (solvedQ.bind fun s hs => ?_)
    refine Work.Returns.ofExcept_bind readD (solvedD.bind fun t ht => ?_)
    refine (Work.returns_ascending _ _).bind fun results order => ?_
    obtain ⟨layout, rfl⟩ := order
    exact Work.Returns.record_bind (Work.Returns.pure (isRight_joined monicQ hs ht rfl))

/-- The depth lasts for every degree up to two above it. -/
theorem solvesUpTo_solveHigher (hl : IsReadable l) (tells : settings.TellsIntegers)
    (hh : axisHeight axis = .ok height) (searched : 1 ≤ settings.maxDivisor) (remaining : ℕ) :
    SolvesUpTo settings axis l (solveHigher settings axis remaining) (remaining + 2) := by
  induction remaining with
  | zero => exact solvesUpTo_of_higher tells hh fun P f _ three le => by omega
  | succ remaining ih =>
    refine solvesUpTo_of_higher tells hh fun P f h three le => ?_
    exact solveHigher_isRight hl searched ih h three le

theorem AreFactors.exists_parse (hl : IsReadable l) (h : IsSolvable settings P l f)
    {texts : List String} (factors : AreFactors P l texts) :
    ∃ ms : List Member, texts.mapM Member.parse = .ok ms ∧ (∀ m ∈ ms, m.IsIntegerIn l) ∧
      (ms.map Member.toPolynomial).prod = P := by
  obtain ⟨Qs, rfl, rfl, monic⟩ := factors
  have representable : ∀ Q ∈ Qs, IsRepresentable Q ∧
      Member.parse (Member.textOf Q l) = .ok (Member.canonicalOf Q l) := by
    intro Q hQ
    have divides : Q ∣ Qs.prod := List.dvd_prod hQ
    have small := (h.divisors.of_dvd divides).small (monic Q hQ)
    have degree := (natDegree_le_of_dvd divides h.monic.ne_zero).trans h.exponents
    exact ⟨isRepresentable_of_le small degree,
      Member.parse_textOf hl.isAlpha (monic Q hQ).ne_zero small degree⟩
  refine ⟨Qs.map (Member.canonicalOf · l), ?_, fun m hm => ?_, ?_⟩
  · rw [List.mapM_map]
    exact mapM_eq_ok fun Q hQ => (representable Q hQ).2
  · obtain ⟨Q, hQ, rfl⟩ := List.mem_map.mp hm
    exact Member.isIntegerIn_canonicalOf (representable Q hQ).1
  · rw [List.map_map]
    refine congrArg List.prod ((List.map_congr_left fun Q hQ => ?_).trans (List.map_id Qs))
    exact Member.toPolynomial_canonicalOf (representable Q hQ).1

/-- Solving a monic integer polynomial returns factors whose product it is if it has an integer
root, all its integer roots in strict order, and nothing else but the computed roots of a quadratic
factor that is left. -/
theorem solve_finds_integer_roots (hl : IsReadable l) (tells : settings.TellsIntegers)
    (hh : axisHeight axis = .ok height) (searched : 1 ≤ settings.maxDivisor)
    (h : IsSolvable settings P l f) (three : 3 ≤ P.natDegree)
    (deep : (P.natDegree : ℤ) ≤ settings.maxDepth + 2) :
    (solve settings axis 0 f none).Returns fun s =>
      ((∃ r, P.IsRoot r) → ∃ ms : List Member, s.factored.mapM Member.parse = .ok ms ∧
        (∀ m ∈ ms, m.IsIntegerIn l) ∧ (ms.map Member.toPolynomial).prod = P) ∧
      ((∀ r, ¬ P.IsRoot r) → s.factored = []) ∧
      (s.status = if P.natDegree ≤ P.roots.card + 2 then .solved else .unfactorable) ∧
      (s.results.Pairwise fun x y => x.lt y = true) ∧
      ∀ x, x ∈ s.results ↔
        (∃ r, P.IsRoot r ∧ x = ofInt r) ∨ (s.status = .solved ∧ IsSurd settings P x) := by
  have enough : P.natDegree ≤ remainingDepth settings 0 + 2 := by
    unfold remainingDepth
    omega
  refine (solvesUpTo_solveHigher hl tells hh searched _ P f h (by omega) enough).imp fun s right => ?_
  have status : s.status ≠ .unfactorable ↔ s.status = .solved := by
    rcases right.decided three with h | h <;> simp [h]
  refine ⟨fun root => ?_, right.unsplit, ?_, ?_, fun x => by rw [right.mem_results, status]⟩
  · have parts := right.parts
    rw [EquationSolution.parts, if_neg (by simpa using right.split three root)] at parts
    exact parts.exists_parse hl h
  · split_ifs with few
    · exact status.mp fun h => absurd (right.unfactorable_iff.mp h) (by omega)
    · exact right.unfactorable_iff.mpr (by omega)
  · refine (right.ordered three).imp_of_mem fun hx hy below => ?_
    exact (Binary64.lt_iff (right.unsigned _ hx).toRat?_eq (right.unsigned _ hy).toRat?_eq).mpr below

theorem hasSmallDivisors_cube : HasSmallDivisors .defaults (X ^ 3) := by
  intro D monic divides
  have coefficient := abs_coeff_le_of_dvd_X_pow monic divides
  have limit : (1 : ℤ) ≤ Settings.defaults.maxDivisor := by decide
  exact ⟨fun k => (coefficient k).trans (by norm_num), (coefficient 0).trans limit⟩

theorem isSolvable_cube :
    IsSolvable .defaults (X ^ 3) 'x' (.explicit "y" (Member.canonicalOf (X ^ 3) 'x')) := by
  have degree : (X ^ 3 : ℤ[X]).natDegree ≤ 2 ^ 53 := by
    rw [natDegree_X_pow]
    norm_num
  have small := hasSmallDivisors_cube.small (monic_X_pow 3)
  refine ⟨?_, monic_X_pow 3, hasSmallDivisors_cube, degree⟩
  refine isFunctionOf_canonicalOf (isRepresentable_of_le small degree) ?_ (Equation.polynomial_explicit _)
  rw [natDegree_X_pow]
  decide

/-- A triple root is split off once and counts three times. -/
theorem solve_cube :
    (solve .defaults "y=0" 0 (.explicit "y" (Member.canonicalOf (X ^ 3) 'x')) none).Returns fun s =>
      s.status = .solved ∧ ofInt 0 ∈ s.results ∧ ∃ ms : List Member,
        s.factored.mapM Member.parse = .ok ms ∧ (ms.map Member.toPolynomial).prod = X ^ 3 := by
  have degree : (X ^ 3 : ℤ[X]).natDegree = 3 := natDegree_X_pow 3
  have root : (X ^ 3 : ℤ[X]).IsRoot 0 := by simp
  have roots : (X ^ 3 : ℤ[X]).roots.card = 3 := by rw [roots_X_pow, Multiset.card_nsmul]; rfl
  refine (solve_finds_integer_roots isReadable_x Settings.tellsIntegers_defaults axisHeight_zero
    (by decide) isSolvable_cube degree.ge (by rw [degree]; decide)).imp fun s right => ?_
  obtain ⟨factors, -, status, -, results⟩ := right
  rw [degree, roots, if_pos (by decide)] at status
  obtain ⟨ms, parsed, -, product⟩ := factors ⟨0, root⟩
  exact ⟨status, (results _).mpr (.inl ⟨0, root, rfl⟩), ms, parsed, product⟩

end Recursion

end FunctionStudy
