import Mathlib.Analysis.Complex.Polynomial.Basic
import FunctionStudy.Positivity
import FunctionStudy.Proofs.Inequality
import FunctionStudy.Proofs.Ruffini.Splitting

/-! Sign analysis. A polynomial with integer real roots and at most two others is split into pieces
with its product, and the table of these pieces has the sign of the polynomial at every rational
that is no root. -/

namespace FunctionStudy

open Polynomial
open Binary64 (ofInt toRat?_ofInt)

/-- At most two roots are not real, with multiplicity. -/
def HasFewNonReal (P : ℤ[X]) : Prop :=
  ((P.map (Int.castRingHom ℂ)).roots.filter fun z => z.im ≠ 0).card ≤ 2

/-- The quotients by linear factors have coefficients up to `2^25`. -/
def HasSmallQuotients (P : ℤ[X]) : Prop :=
  ∀ (rs : Multiset ℤ) (Q : ℤ[X]), P = (rs.map fun r => X - C r).prod * Q → ∀ k, |Q.coeff k| ≤ 2 ^ 25

/-- A polynomial that can be split into pieces. Exponents are doubles, and a degree above `2^53`
need not be one after a split. -/
structure IsSignable (P : ℤ[X]) : Prop where
  nonzero : P ≠ 0
  roots : HasIntegerRealRoots P
  few : HasFewNonReal P
  quotients : HasSmallQuotients P
  exponents : P.natDegree ≤ 2 ^ 53

/-- A factor that is compared as a whole. -/
structure IsPiece (Q : ℤ[X]) : Prop where
  nonzero : Q ≠ 0
  roots : HasIntegerRealRoots Q
  bound : ∀ k, |Q.coeff k| ≤ 2 ^ 25
  degree : Q.natDegree ≤ 2

/-- Pieces with the given product. -/
def ArePieces (P : ℤ[X]) (Qs : List ℤ[X]) : Prop := Qs.prod = P ∧ ∀ Q ∈ Qs, IsPiece Q

variable {P Q : ℤ[X]} {l : Char} {settings : Settings} {r : ℤ} {f : Equation}

section Roots

theorem HasFewNonReal.of_dvd (h : HasFewNonReal P) (nonzero : P ≠ 0) (divides : Q ∣ P) :
    HasFewNonReal Q := by
  have complex : P.map (Int.castRingHom ℂ) ≠ 0 :=
    (Polynomial.map_ne_zero_iff (RingHom.injective_int _)).mpr nonzero
  have roots := roots.le_of_dvd complex (Polynomial.map_dvd (Int.castRingHom ℂ) divides)
  exact (Multiset.card_le_card (Multiset.filter_le_filter _ roots)).trans h

/-- Of three roots one is real. -/
theorem HasFewNonReal.exists_real (h : HasFewNonReal P) (degree : 3 ≤ P.natDegree) :
    ∃ x : ℝ, aeval x P = 0 := by
  by_contra none
  have all : (P.map (Int.castRingHom ℂ)).roots.filter (fun z => z.im ≠ 0) =
      (P.map (Int.castRingHom ℂ)).roots := by
    refine Multiset.filter_eq_self.mpr fun z hz real => none ⟨z.re, ?_⟩
    have shape : z = (z.re : ℂ) := Complex.ext rfl (by simpa using real)
    have root : aeval z P = 0 := by
      rw [aeval_def, eval₂_eq_eval_map]
      exact isRoot_of_mem_roots hz
    have value : aeval (algebraMap ℝ ℂ z.re) P = algebraMap ℝ ℂ (aeval z.re P) :=
      aeval_algebraMap_apply ℂ z.re P
    rw [Complex.coe_algebraMap, ← shape, root] at value
    exact (Complex.ofReal_eq_zero.mp value.symm)
  have count := h
  rw [HasFewNonReal, all, IsAlgClosed.card_roots_eq_natDegree,
    natDegree_map_eq_of_injective (RingHom.injective_int _)] at count
  omega

theorem HasSmallQuotients.coefficients (h : HasSmallQuotients P) (k : ℕ) : |P.coeff k| ≤ 2 ^ 25 :=
  h 0 P (by rw [Multiset.map_zero, Multiset.prod_zero, one_mul]) k

end Roots

namespace IsSignable

theorem small (h : IsSignable P) : HasSmallCoefficients P :=
  fun k => (h.quotients.coefficients k).trans (by norm_num)

theorem isRepresentable (h : IsSignable P) : IsRepresentable P :=
  isRepresentable_of_le h.small h.exponents

theorem exists_isRoot (h : IsSignable P) (degree : 3 ≤ P.natDegree) : ∃ r, P.IsRoot r := by
  obtain ⟨x, root⟩ := h.few.exists_real degree
  exact h.roots.exists_isRoot root

theorem isPiece (h : IsSignable P) (degree : P.natDegree ≤ 2) : IsPiece P :=
  ⟨h.nonzero, h.roots, h.quotients.coefficients, degree⟩

theorem quotient (h : IsSignable ((X - C r) * Q)) : IsSignable Q where
  nonzero := right_ne_zero_of_mul h.nonzero
  roots := h.roots.of_dvd (dvd_mul_left Q _)
  few := h.few.of_dvd h.nonzero (dvd_mul_left Q _)
  quotients := by
    rintro rs D rfl
    exact h.quotients (r ::ₘ rs) D (by rw [Multiset.map_cons, Multiset.prod_cons, mul_assoc])
  exponents := by
    have degree := natDegree_linear_mul (r := r) (right_ne_zero_of_mul h.nonzero)
    have := h.exponents
    omega

theorem divisor (h : IsSignable ((X - C r) * Q)) : IsPiece (X - C r) where
  nonzero := X_sub_C_ne_zero r
  roots := h.roots.of_dvd (dvd_mul_right _ Q)
  bound k := by
    have root := abs_le_of_isRoot h.quotients.coefficients h.nonzero
      (isRoot_linear_mul.mpr (.inl rfl))
    rw [coeff_sub, coeff_X, coeff_C]
    split_ifs <;> simp_all
  degree := by
    rw [natDegree_X_sub_C]
    omega

end IsSignable

section Splitting

/-- Splitting only writes steps, or fails. -/
theorem splitPieces_isOf {K : ∀ {α : Type}, Work α → Prop} (kind : Work.IsKind K) (settings : Settings)
    (remaining : ℕ) (p : Member) : K (splitPieces settings remaining p) := by
  induction remaining generalizing p with
  | zero =>
    unfold splitPieces
    refine kind.bind (kind.ofExcept _) fun _ => ?_
    split_ifs
    · exact kind.pure _
    · exact kind.pure _
  | succ remaining ih =>
    unfold splitPieces
    refine kind.bind (kind.ofExcept _) fun _ => ?_
    split_ifs
    · exact kind.pure _
    · refine kind.bind (factor_isOf kind settings _) fun F => ?_
      split
      · exact kind.pure _
      · refine kind.bind (kind.ofExcept _) fun quotient => kind.bind (ih quotient) fun left => ?_
        split
        · exact kind.pure _
        · refine kind.bind (kind.ofExcept _) fun divisor => kind.bind (ih divisor) fun right => ?_
          split
          · exact kind.pure _
          · exact kind.pure _

theorem pieceInequalities_isOf {K : ∀ {α : Type}, Work α → Prop} (kind : Work.IsKind K) (settings : Settings)
    (letter : String) (pieces : List Member) : K (pieceInequalities settings letter pieces) :=
  kind.mapM fun _ _ => kind.bind (kind.ofExcept _) fun _ => kind.bind (kind.record _) fun _ => kind.pure _

variable {remaining : ℕ} {Ps Qs : List ℤ[X]}

theorem IsPiece.isRepresentable (h : IsPiece Q) : IsRepresentable Q :=
  isRepresentable_of_le (fun k => (h.bound k).trans (by norm_num)) (h.degree.trans (by norm_num))

theorem IsPiece.arePieces (h : IsPiece Q) : ArePieces Q [Q] :=
  ⟨by rw [List.prod_singleton], fun D hD => by rwa [List.mem_singleton.mp hD]⟩

theorem ArePieces.append (h : ArePieces P Ps) (h' : ArePieces Q Qs) :
    ArePieces (P * Q) (Ps ++ Qs) := by
  refine ⟨by rw [List.prod_append, h.1, h'.1], fun D hD => ?_⟩
  exact (List.mem_append.mp hD).elim (h.2 D) (h'.2 D)

theorem le_two_eq_decide {x : Binary64} {n : ℕ} (hx : x.toRat? = some ((n : ℤ) : ℚ)) :
    x.le (ofInt 2) = decide (n ≤ 2) := by
  rw [Bool.eq_iff_iff, Binary64.le_iff hx (toRat?_ofInt (by norm_num)), decide_eq_true_iff]
  norm_cast

theorem degree_le_two (h : IsRepresentable P) :
    (Member.canonicalOf P l).degree.le (ofInt 2) = decide (P.natDegree ≤ 2) :=
  le_two_eq_decide (toRat?_degree_canonicalOf h)

/-- Splitting returns pieces of the polynomial. -/
def IsSplitAt (settings : Settings) (l : Char) (remaining : ℕ) (P : ℤ[X]) : Prop :=
  (splitPieces settings remaining (Member.canonicalOf P l)).Returns fun pieces =>
    ∃ Qs, pieces = some (Qs.map (Member.canonicalOf · l)) ∧ ArePieces P Qs

theorem splitPieces_piece (h : IsPiece Q) (within : (Q.natDegree : ℤ) ≤ settings.maxDegree)
    (remaining : ℕ) :
    (splitPieces settings remaining (Member.canonicalOf Q l)).Returns
      (· = some [Member.canonicalOf Q l]) := by
  unfold splitPieces
  refine Work.Returns.ofExcept_bind (checkDegree_eq_ok
    (toRat?_degree_canonicalOf h.isRepresentable) within _) ?_
  rw [degree_le_two h.isRepresentable, decide_eq_true h.degree, if_pos rfl]
  exact Work.Returns.pure rfl

theorem isSplitAt_of_le_two (h : IsSignable P) (within : (P.natDegree : ℤ) ≤ settings.maxDegree)
    (degree : P.natDegree ≤ 2) : IsSplitAt settings l remaining P :=
  (splitPieces_piece (h.isPiece degree) within remaining).imp fun _ whole =>
    ⟨[P], whole, (h.isPiece degree).arePieces⟩

theorem factor_splitsOff (hl : IsReadable l) (searched : 2 ^ 25 ≤ settings.maxDivisor)
    (h : IsSignable P) (within : (P.natDegree : ℤ) ≤ settings.maxDegree) (degree : 3 ≤ P.natDegree) :
    (factor settings ⟨Member.canonicalOf P l, ⟨[]⟩⟩).Returns fun F => ∃ s r Q, F.split = some s ∧
      P = (X - C r) * Q ∧ s.quotient = Member.textOf Q l ∧ s.divisor = Member.textOf (X - C r) l := by
  have same := Member.toPolynomial_canonicalOf (l := l) h.isRepresentable
  have limit : ((Member.canonicalOf P l).writtenDegree : ℤ) ≤ settings.maxDegree := by
    rwa [Member.writtenDegree_canonicalOf h.isRepresentable]
  have factored := factor_returns hl
    (Equation.polynomial_oneSided hl.independent h.isRepresentable)
    (Member.isIntegerIn_canonicalOf h.isRepresentable) (by rw [same]; omega) limit
    (by rw [same]; exact (h.quotients.coefficients _).trans searched)
    (by rw [same]; exact (h.quotients.coefficients 0).trans searched)
  rw [same] at factored
  refine factored.imp fun F right => ?_
  rcases right.splitsOff h.small h.nonzero h.roots.rational with ⟨-, noRoot⟩ | split
  · obtain ⟨r, root⟩ := h.exists_isRoot degree
    exact absurd root (noRoot r)
  · exact split

theorem isSplitAt_succ (hl : IsReadable l) (searched : 2 ^ 25 ≤ settings.maxDivisor)
    (h : IsSignable P) (within : (P.natDegree : ℤ) ≤ settings.maxDegree) (degree : 3 ≤ P.natDegree)
    (below : ∀ Q, IsSignable Q → (Q.natDegree : ℤ) ≤ settings.maxDegree →
      Q.natDegree + 1 = P.natDegree → IsSplitAt settings l remaining Q) :
    IsSplitAt settings l (remaining + 1) P := by
  unfold IsSplitAt splitPieces
  refine Work.Returns.ofExcept_bind (checkDegree_eq_ok
    (toRat?_degree_canonicalOf h.isRepresentable) within _) ?_
  rw [degree_le_two h.isRepresentable, decide_eq_false (by omega), if_neg Bool.false_ne_true]
  refine (factor_splitsOff hl searched h within degree).bind fun F splitsOff => ?_
  obtain ⟨s, r, Q, split, rfl, quotient, divisor⟩ := splitsOff
  have left := h.quotient
  have right := h.divisor
  have count := natDegree_linear_mul (r := r) left.nonzero
  have one : ((X - C r : ℤ[X]).natDegree : ℤ) ≤ settings.maxDegree := by
    rw [natDegree_X_sub_C]
    omega
  have readLeft := Member.parse_textOf hl.isAlpha left.nonzero left.small left.exponents
  have readRight := Member.parse_textOf hl.isAlpha right.nonzero right.isRepresentable.small
    (right.degree.trans (by norm_num))
  rw [split]
  dsimp only
  refine Work.Returns.ofExcept_bind (quotient ▸ readLeft) ?_
  refine (below Q left (by omega) count.symm).bind fun pieces hQ => ?_
  obtain ⟨Qs, rfl, pieces⟩ := hQ
  refine Work.Returns.ofExcept_bind (divisor ▸ readRight) ?_
  refine (splitPieces_piece right one remaining).bind fun pieces hD => ?_
  subst hD
  refine Work.Returns.pure ⟨Qs ++ [X - C r], by rw [List.map_append]; rfl, ?_⟩
  rw [mul_comm]
  exact pieces.append right.arePieces

theorem isSplitAt_of_degree (hl : IsReadable l) (searched : 2 ^ 25 ≤ settings.maxDivisor)
    (h : IsSignable P) (within : (P.natDegree : ℤ) ≤ settings.maxDegree)
    (deep : P.natDegree ≤ remaining + 2) : IsSplitAt settings l remaining P := by
  induction remaining generalizing P with
  | zero => exact isSplitAt_of_le_two h within deep
  | succ remaining ih =>
    rcases Nat.lt_or_ge 2 P.natDegree with three | small
    · exact isSplitAt_succ hl searched h within three fun Q left inside count =>
        ih left inside (by omega)
    · exact isSplitAt_of_le_two h within small

end Splitting

section Table

variable {Qs : List ℤ[X]} {is : List Inequality} {x : ℚ}

/-- Inequalities of the pieces, in order. -/
def AreFor (Qs : List ℤ[X]) (is : List Inequality) : Prop :=
  List.Forall₂ (fun Q i => Inequality.IsFor Q i) Qs is

theorem AreFor.sided (h : AreFor Qs is) : ∀ i ∈ is, i.IsOneSided := by
  induction h with
  | nil => simp
  | cons first _ ih => exact List.forall_mem_cons.mpr ⟨first.sided, ih⟩

theorem AreFor.bounds (h : AreFor Qs is) :
    ∀ b ∈ is.flatMap (·.bounds), ∃ r, Qs.prod.IsRoot r ∧ |r| ≤ 2 ^ 53 ∧ b = ofInt r := by
  induction h with
  | nil => simp
  | @cons Q i Qs is first _ ih =>
    intro b hb
    rw [List.flatMap_cons, List.mem_append] at hb
    rw [List.prod_cons]
    rcases hb with hb | hb
    · obtain ⟨r, root, size, rfl⟩ := first.bounds b hb
      exact ⟨r, root.dvd (dvd_mul_right Q Qs.prod), size, rfl⟩
    · obtain ⟨r, root, size, rfl⟩ := ih b hb
      exact ⟨r, root.dvd (dvd_mul_left Qs.prod Q), size, rfl⟩

theorem AreFor.decides (h : AreFor Qs is) (nonzero : aeval x Qs.prod ≠ 0) :
    List.Forall₂ (Decides x) is (Qs.map (aeval x)) := by
  induction h with
  | nil => exact .nil
  | @cons Q i Qs is first _ ih =>
    rw [List.prod_cons, map_mul] at nonzero
    exact .cons (first.decides x (left_ne_zero_of_mul nonzero)) (ih (right_ne_zero_of_mul nonzero))

theorem AreFor.unsigned (h : AreFor Qs is) : HasUnsignedBounds is := by
  intro b hb
  obtain ⟨r, -, size, rfl⟩ := h.bounds b hb
  exact Binary64.isUnsigned_ofInt size

theorem AreFor.apart (h : AreFor Qs is) (nonzero : aeval x Qs.prod ≠ 0) :
    ∀ b ∈ is.flatMap (·.bounds), b.toRat ≠ x := by
  rintro b hb rfl
  obtain ⟨r, root, size, rfl⟩ := h.bounds b hb
  rw [toRat_ofInt size] at nonzero
  exact nonzero (aeval_intCast_eq_zero.mpr root)

theorem pieceInequalities_returns (hl : IsReadable l) (tells : settings.TellsIntegers)
    (pieces : ArePieces P Qs) (within : (P.natDegree : ℤ) ≤ settings.maxDegree) (letter : String)
    (nonzero : P ≠ 0) :
    (pieceInequalities settings letter (Qs.map (Member.canonicalOf · l))).Returns (AreFor Qs) := by
  obtain ⟨rfl, pieces⟩ := pieces
  unfold pieceInequalities
  rw [List.mapM_map]
  refine Work.returns_mapM fun Q hQ => ?_
  have piece := pieces Q hQ
  have degree := natDegree_le_of_dvd (List.dvd_prod hQ) nonzero
  obtain ⟨i, hi, right⟩ := exists_pieceInequality hl tells piece.nonzero piece.degree (by omega)
    piece.bound piece.roots
  exact Work.Returns.ofExcept_bind hi (Work.Returns.record_bind (Work.Returns.pure right))

end Table

theorem isEmpty_terms_canonicalOf (h : IsRepresentable P) (nonzero : P ≠ 0) :
    (Member.canonicalOf P l).terms.isEmpty = false := by
  rw [Member.terms_canonicalOf h.small, List.isEmpty_map, List.isEmpty_eq_false_iff]
  exact supportTo_ne_nil nonzero

/-- Sign analysis solves every polynomial that can be split into pieces. Its breakpoints are roots,
and a rational that is no root is in a positive interval exactly where the polynomial is positive,
and in a negative one exactly where it is negative. -/
theorem positivity_sound {p : Member} (hl : IsReadable l) (tells : settings.TellsIntegers)
    (searched : 2 ^ 25 ≤ settings.maxDivisor) (hp : f.polynomial = .ok p) (integer : p.IsIntegerIn l)
    (h : IsSignable p.toPolynomial) (within : (p.toPolynomial.natDegree : ℤ) ≤ settings.maxDegree)
    (deep : (p.toPolynomial.natDegree : ℤ) ≤ settings.maxDepth + 2) :
    (positivity settings f).Returns fun s => s.status = .solved ∧
      (∀ b ∈ s.breakpoints, ∃ r : ℤ, p.toPolynomial.IsRoot r ∧ b.toRat? = some (r : ℚ)) ∧
      ∀ x : ℚ, aeval x p.toPolynomial ≠ 0 →
        ((∃ i ∈ s.positive, i.Contains x) ↔ 0 < aeval x p.toPolynomial) ∧
        ((∃ i ∈ s.negative, i.Contains x) ↔ aeval x p.toPolynomial < 0) := by
  have enough : p.toPolynomial.natDegree ≤ remainingDepth settings 0 + 2 := by
    unfold remainingDepth
    omega
  unfold positivity
  refine Work.Returns.ofExcept_bind hp ?_
  rw [Member.simplify_normalize integer]
  dsimp only
  rw [isEmpty_terms_canonicalOf h.isRepresentable h.nonzero, if_neg Bool.false_ne_true]
  refine (isSplitAt_of_degree hl searched h within enough).bind fun found pieces => ?_
  obtain ⟨Qs, rfl, pieces⟩ := pieces
  refine (pieceInequalities_returns hl tells pieces within _ h.nonzero).bind fun is areFor => ?_
  refine (solveInequalities_sound is _ areFor.sided areFor.unsigned).imp fun s right => ?_
  obtain ⟨status, breakpoints, covers⟩ := right
  rw [← pieces.1]
  refine ⟨status, fun b hb => ?_, fun x nonzero => ?_⟩
  · obtain ⟨r, root, size, rfl⟩ := areFor.bounds b ((breakpoints b).mp hb)
    exact ⟨r, root, toRat?_ofInt size⟩
  · rw [map_list_prod]
    exact SignAnalysis.contains_iff
      (covers x _ (areFor.apart nonzero) (areFor.decides nonzero))

theorem isSignable_cube : IsSignable (X ^ 3) where
  nonzero := pow_ne_zero 3 X_ne_zero
  roots x root := by
    rw [map_pow, aeval_X] at root
    exact ⟨0, by rw [pow_eq_zero_iff three_ne_zero |>.mp root, Int.cast_zero]⟩
  few := by
    have none : ((X ^ 3 : ℤ[X]).map (Int.castRingHom ℂ)).roots.filter (fun z => z.im ≠ 0) = 0 := by
      rw [Polynomial.map_pow, map_X, roots_X_pow, Multiset.filter_nsmul]
      simp
    rw [HasFewNonReal, none, Multiset.card_zero]
    exact Nat.zero_le 2
  quotients rs Q product k := by
    have monic : ((rs.map fun r => X - C r).prod * Q).Monic := product ▸ monic_X_pow 3
    have linear : (rs.map fun r => X - C r).prod.Monic := monic_multisetProd_X_sub_C rs
    have divides : Q ∣ X ^ 3 := product ▸ dvd_mul_left Q _
    exact (abs_coeff_le_of_dvd_X_pow (linear.of_mul_monic_left monic) divides k).trans (by norm_num)
  exponents := by
    rw [natDegree_X_pow]
    norm_num

/-- A cube has the sign of its base. -/
theorem positivity_cube :
    (positivity .defaults (.explicit "y" (Member.canonicalOf (X ^ 3) 'x'))).Returns fun s =>
      s.status = .solved ∧ (∃ i ∈ s.positive, i.Contains 1) ∧ (∃ i ∈ s.negative, i.Contains (-1)) ∧
        ¬ ∃ i ∈ s.positive, i.Contains (-1) := by
  have degree : (X ^ 3 : ℤ[X]).natDegree = 3 := natDegree_X_pow 3
  have representable := isSignable_cube.isRepresentable
  have same := Member.toPolynomial_canonicalOf (l := 'x') representable
  refine (positivity_sound isReadable_x Settings.tellsIntegers_defaults (by decide)
    (Equation.polynomial_explicit _) (Member.isIntegerIn_canonicalOf representable)
    (by rw [same]; exact isSignable_cube) (by rw [same, degree]; decide)
    (by rw [same, degree]; decide)).imp fun s right => ?_
  rw [same] at right
  have value : ∀ x : ℚ, aeval x (X ^ 3 : ℤ[X]) = x ^ 3 := fun x => by rw [map_pow, aeval_X]
  obtain ⟨status, -, signs⟩ := right
  have one := signs 1 (by rw [value]; norm_num)
  have opposite := signs (-1) (by rw [value]; norm_num)
  rw [value] at one opposite
  refine ⟨status, one.1.mpr (by norm_num), opposite.2.mpr (by norm_num), fun covered => ?_⟩
  have positive := opposite.1.mp covered
  norm_num at positive

end FunctionStudy
