import FunctionStudy.Proofs.Ruffini.IntegerRoot
import FunctionStudy.Proofs.Solution.Quadratic

/-! Solving at a known degree. The polynomial of an equation is put in canonical form before its
degree is looked at. Degrees 1 and 2 are solved from its dense coefficients, and a higher one is
handed on. -/

namespace FunctionStudy

open Polynomial
open Binary64 (ofInt toRat?_ofInt)

/-- A function whose polynomial is written in the letter, with a degree within the limit. -/
def Equation.IsFunctionOf (P : ℤ[X]) (l : Char) (limit : ℤ) (f : Equation) : Prop :=
  ∃ p, f.polynomial = .ok p ∧ p.IsIntegerIn l ∧ p.toPolynomial = P ∧ (p.writtenDegree : ℤ) ≤ limit

variable {P : ℤ[X]} {l : Char} {settings : Settings} {f : Equation}

section Functions

variable {limit : ℤ}

theorem Member.IsIntegerIn.isRepresentable {p : Member} (h : p.IsIntegerIn l) :
    IsRepresentable p.toPolynomial :=
  ⟨h.hasSmallCoefficients, fun _ hk => Member.isDouble_of_coeff h.terms hk⟩

theorem isFunctionOf_canonicalOf (h : IsRepresentable P) (degree : (P.natDegree : ℤ) ≤ limit)
    (hf : f.polynomial = .ok (Member.canonicalOf P l)) : f.IsFunctionOf P l limit :=
  ⟨_, hf, Member.isIntegerIn_canonicalOf h, Member.toPolynomial_canonicalOf h,
    by rwa [Member.writtenDegree_canonicalOf h]⟩

theorem exists_ofText_textOf (hl : IsReadable l) (nonzero : P ≠ 0) (small : HasSmallCoefficients P)
    (degree : P.natDegree ≤ 2 ^ 53) (within : (P.natDegree : ℤ) ≤ limit) :
    ∃ g, Equation.ofText (Member.textOf P l) = .ok g ∧ g.IsFunctionOf P l limit :=
  ⟨_, Equation.ofText_textOf hl.isAlpha nonzero small degree,
    isFunctionOf_canonicalOf (isRepresentable_of_le small degree) within
      (Equation.polynomial_eqZero hl.independent (isRepresentable_of_le small degree))⟩

end Functions

section Degree

theorem toRat?_degree_canonicalOf (h : IsRepresentable P) :
    (Member.canonicalOf P l).degree.toRat? = some (((P.natDegree : ℕ) : ℤ) : ℚ) := by
  have value := (Member.isIntegerIn_canonicalOf (l := l) h).toRat?_degree
  rw [Member.writtenDegree_canonicalOf h] at value
  exact_mod_cast value

theorem coefficientsTo_canonicalOf (h : IsRepresentable P) :
    (Member.canonicalOf P l).coefficientsTo P.natDegree = .ok (denseTo P P.natDegree) := by
  rw [(Member.isIntegerIn_canonicalOf h).coefficientsTo (Member.writtenDegree_canonicalOf h).le,
    Member.toPolynomial_canonicalOf h]

theorem solvingDegree_none (h : IsRepresentable P) (within : (P.natDegree : ℤ) ≤ settings.maxDegree) :
    solvingDegree settings (Member.canonicalOf P l) none = .ok P.natDegree := by
  have integer := toRat?_degree_canonicalOf (l := l) h
  have inside : isBeyond settings (.double (Member.canonicalOf P l).degree) = false :=
    exceeds_eq_false integer within
  simp [solvingDegree, inside, Number.whole?_double integer, bind, Except.bind, pure, Except.pure]

theorem solvingDegree_two (within : 2 ≤ settings.maxDegree) (p : Member) :
    solvingDegree settings p (some (.exact 2)) = .ok 2 := by
  have whole : (Number.exact 2).whole? = .ok (some 2) := by decide +kernel
  have inside : isBeyond settings (.exact 2) = false := by
    rw [isBeyond, decide_eq_false_iff_not, not_lt]
    exact_mod_cast within
  simp [solvingDegree, inside, whole, bind, Except.bind, pure, Except.pure]

end Degree

theorem axisHeight_zero : axisHeight "y=0" = .ok .zero := by decide +kernel

section Solvers

variable {equation axis : String} {height a b c : Binary64} {claimed : Option Number}
  {higher : HigherSolver} {R : EquationSolution → Prop}

theorem solveWith_returns (hf : f.IsFunctionOf P l settings.maxDegree)
    (hd : solvingDegree settings (Member.canonicalOf P l) claimed = .ok P.natDegree)
    (hh : axisHeight axis = .ok height)
    (high : 3 ≤ P.natDegree → (higher f P.natDegree).Returns R)
    (linear : ∀ equation, P.natDegree = 1 →
      (solveLinear settings equation height (ofInt (P.coeff 1)) (ofInt (P.coeff 0))).Returns R)
    (quadratic : ∀ equation, P.natDegree = 2 →
      (solveQuadratic settings equation height (ofInt (P.coeff 2)) (ofInt (P.coeff 1))
        (ofInt (P.coeff 0))).Returns R)
    (positive : 0 < P.natDegree) : (solveWith higher settings axis f claimed).Returns R := by
  obtain ⟨p, hp, integer, rfl, -⟩ := hf
  have dense := coefficientsTo_canonicalOf (l := l) integer.isRepresentable
  unfold solveWith
  refine Work.Returns.ofExcept_bind hp ?_
  rw [Member.simplify_normalize integer]
  refine Work.Returns.ofExcept_bind hd (Work.Returns.ofExcept_bind hh (Work.Returns.record_bind ?_))
  split_ifs with three
  · exact high three
  · refine Work.Returns.ofExcept_bind dense ?_
    have degree : p.toPolynomial.natDegree = 1 ∨ p.toPolynomial.natDegree = 2 := by omega
    rcases degree with degree | degree
    · have shape : denseTo p.toPolynomial p.toPolynomial.natDegree =
          [ofInt (p.toPolynomial.coeff 1), ofInt (p.toPolynomial.coeff 0)] := by
        rw [degree]
        rfl
      rw [shape]
      exact linear _ degree
    · have shape : denseTo p.toPolynomial p.toPolynomial.natDegree =
          [ofInt (p.toPolynomial.coeff 2), ofInt (p.toPolynomial.coeff 1),
            ofInt (p.toPolynomial.coeff 0)] := by
        rw [degree]
        rfl
      rw [shape]
      exact quadratic _ degree

theorem solveLinear_returns (ha : settings.isZero a = false) {q : Binary64}
    (hq : b.neg.div a = .ok q) :
    (solveLinear settings equation height a b).Returns fun s =>
      s.results = [q.unsignedZero] ∧ s.factored = [] ∧ s.status = .solved := by
  unfold solveLinear
  rw [ha, if_neg Bool.false_ne_true]
  refine Work.Returns.ofExcept_bind hq (Work.Returns.record_bind ?_)
  exact (Work.returns_rootPoints _ _).bind fun _ _ => Work.Returns.pure ⟨rfl, rfl, rfl⟩

theorem solveQuadratic_answers (ha : settings.isZero a = false) {roots : Option (List Binary64)}
    (hr : quadraticRoots settings a b (discriminant a b c) = .ok roots) :
    (solveQuadratic settings equation height a b c).Returns fun s =>
      s.results = roots.getD [] ∧ s.factored = [] ∧ s.delta = some (discriminant a b c) ∧
        s.status = if roots.isSome then .solved else .impossible := by
  unfold solveQuadratic
  rw [ha, if_neg Bool.false_ne_true]
  refine Work.Returns.record_bind (Work.Returns.ofExcept_bind hr ?_)
  cases roots with
  | none =>
    exact Work.Returns.record_bind (Work.Returns.pure ⟨rfl, rfl, rfl, rfl⟩)
  | some roots =>
    refine Work.Returns.record_bind ?_
    exact (Work.returns_rootPoints _ _).bind fun _ _ => Work.Returns.pure ⟨rfl, rfl, rfl, rfl⟩

theorem solveQuadratic_returns (ha : settings.isZero a = false) {roots : Option (List Binary64)}
    (hr : quadraticRoots settings a b (discriminant a b c) = .ok roots) :
    (solveQuadratic settings equation height a b c).Returns fun s =>
      s.results = roots.getD [] ∧ s.factored = [] ∧ s.status ≠ .unfactorable := by
  refine (solveQuadratic_answers ha hr).imp fun s answer => ?_
  obtain ⟨results, factored, -, status⟩ := answer
  refine ⟨results, factored, ?_⟩
  rw [status]
  split_ifs <;> decide

end Solvers

end FunctionStudy
