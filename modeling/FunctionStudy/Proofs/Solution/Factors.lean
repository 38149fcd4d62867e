import FunctionStudy.Proofs.Decimal.Positional
import FunctionStudy.Proofs.Solution.Atomicity

/-! Factors read back. The quotient is read as the polynomial of the table's coefficients. The
divisor is solved for what the text of the root is read as, which is the root itself from the fourth
place on. -/

namespace FunctionStudy

open Polynomial

variable {settings : Settings} {f : Equation} {F : Factorization} {s : Split} {layout : Layout}

section Coefficients

variable {z : ℤ} {zs : List ℤ} {l : Char}

/-- The polynomial of integer coefficients, highest first. -/
noncomputable def polynomialOf : List ℤ → ℤ[X]
  | [] => 0
  | z :: zs => monomial zs.length z + polynomialOf zs

theorem coeff_polynomialOf_of_le {k : ℕ} (h : zs.length ≤ k) : (polynomialOf zs).coeff k = 0 := by
  induction zs with
  | nil => rfl
  | cons z zs ih =>
    rw [List.length_cons] at h
    rw [polynomialOf, coeff_add, coeff_monomial, if_neg (by omega), ih (by omega), add_zero]

theorem coeff_polynomialOf_length (z : ℤ) (zs : List ℤ) : (polynomialOf (z :: zs)).coeff zs.length = z := by
  rw [polynomialOf, coeff_add, coeff_monomial, if_pos rfl, coeff_polynomialOf_of_le le_rfl, add_zero]

theorem coeff_polynomialOf_of_lt {k : ℕ} (h : k < zs.length) :
    (polynomialOf (z :: zs)).coeff k = (polynomialOf zs).coeff k := by
  rw [polynomialOf, coeff_add, coeff_monomial, if_neg h.ne', zero_add]

theorem coeff_polynomialOf_mem (zs : List ℤ) (k : ℕ) :
    (polynomialOf zs).coeff k = 0 ∨ (polynomialOf zs).coeff k ∈ zs := by
  induction zs with
  | nil => exact .inl rfl
  | cons z zs ih =>
    rcases lt_trichotomy k zs.length with below | rfl | above
    · rw [coeff_polynomialOf_of_lt below]
      exact ih.imp_right (List.mem_cons_of_mem z)
    · rw [coeff_polynomialOf_length]
      exact .inr List.mem_cons_self
    · exact .inl (coeff_polynomialOf_of_le above)

theorem natDegree_polynomialOf (zs : List ℤ) (nonzero : z ≠ 0) :
    (polynomialOf (z :: zs)).natDegree = zs.length := by
  refine le_antisymm ?_ (le_natDegree_of_ne_zero (by rwa [coeff_polynomialOf_length]))
  rw [natDegree_le_iff_coeff_eq_zero]
  exact fun k above => coeff_polynomialOf_of_le above

theorem map_coeff_polynomialOf (z : ℤ) (zs : List ℤ) :
    (List.range (zs.length + 1)).reverse.map (polynomialOf (z :: zs)).coeff = z :: zs := by
  induction zs generalizing z with
  | nil => exact congrArg (· :: []) (coeff_polynomialOf_length z [])
  | cons w ws ih =>
    have lower : (List.range (ws.length + 1)).reverse.map (polynomialOf (z :: w :: ws)).coeff = w :: ws := by
      refine (List.map_congr_left fun k hk => coeff_polynomialOf_of_lt ?_).trans (ih w)
      rwa [List.mem_reverse, List.mem_range] at hk
    rw [List.range_succ, List.reverse_append, List.map_append, List.length_cons, lower,
      List.reverse_singleton, List.map_singleton, ← List.length_cons, coeff_polynomialOf_length]
    rfl

theorem dense_polynomialOf (nonzero : z ≠ 0) : dense (polynomialOf (z :: zs)) = (z :: zs).map .ofInt := by
  have same := congrArg (List.map Binary64.ofInt) (map_coeff_polynomialOf z zs)
  rwa [List.map_map, ← natDegree_polynomialOf zs nonzero] at same

theorem exactDense_polynomialOf (nonzero : z ≠ 0) :
    exactDense (polynomialOf (z :: zs)) = (z :: zs).map fun c : ℤ => (c : ℚ) := by
  have same := congrArg (List.map fun c : ℤ => (c : ℚ)) (map_coeff_polynomialOf z zs)
  rwa [List.map_map, ← natDegree_polynomialOf zs nonzero] at same

theorem hasSmallCoefficients_polynomialOf (small : ∀ c ∈ zs, |c| ≤ 2 ^ 53) :
    HasSmallCoefficients (polynomialOf zs) := by
  intro k
  rcases coeff_polynomialOf_mem zs k with zero | mem
  · rw [zero, abs_zero]
    positivity
  · exact small _ mem

theorem abs_coeff_polynomialOf_le (zs : List ℤ) (k : ℕ) : |(polynomialOf zs).coeff k| ≤ (zs.map abs).sum := by
  have sizes : ∀ d ∈ zs.map abs, 0 ≤ d := by
    intro d hd
    obtain ⟨e, -, rfl⟩ := List.mem_map.mp hd
    exact abs_nonneg e
  rcases coeff_polynomialOf_mem zs k with zero | mem
  · rw [zero, abs_zero]
    exact List.sum_nonneg sizes
  · exact List.single_le_sum sizes _ (List.mem_map_of_mem mem)

theorem totalSize_polynomialOf (nonzero : z ≠ 0) :
    totalSize (exactDense (polynomialOf (z :: zs))) = (((z :: zs).map abs).sum : ℤ) := by
  rw [exactDense_polynomialOf nonzero, totalSize, List.map_map, Int.cast_list_sum, List.map_map]
  exact congrArg _ (List.map_congr_left fun c _ => Int.cast_abs.symm)

theorem polynomialOf_ne_zero (nonzero : z ≠ 0) : polynomialOf (z :: zs) ≠ 0 := by
  intro zero
  have leading := coeff_polynomialOf_length z zs
  rw [zero, coeff_zero] at leading
  exact nonzero leading.symm

theorem exists_parse_ofCoefficients (isAlpha : l.isAlpha = true) (nonzero : z ≠ 0)
    (small : ∀ c ∈ z :: zs, |c| ≤ 2 ^ 53) (length : zs.length ≤ 2 ^ 53) :
    ∃ m, Member.parse (Member.ofCoefficients ((z :: zs).map .ofInt) (String.singleton l)).text = .ok m ∧
      m.coefficients = .ok ((z :: zs).map .ofInt) := by
  have coefficients : dense (polynomialOf (z :: zs)) = (z :: zs).map .ofInt := dense_polynomialOf nonzero
  have bounded := hasSmallCoefficients_polynomialOf small
  have degree : (polynomialOf (z :: zs)).natDegree ≤ 2 ^ 53 :=
    (natDegree_polynomialOf zs nonzero).trans_le length
  have representable := isRepresentable_of_le bounded degree
  refine ⟨Member.canonicalOf (polynomialOf (z :: zs)) l, ?_, ?_⟩
  · rw [← coefficients]
    exact Member.parse_textOf isAlpha (polynomialOf_ne_zero nonzero) bounded degree
  · rw [(Member.isIntegerIn_canonicalOf representable).coefficients,
      Member.toPolynomial_canonicalOf representable, Member.writtenDegree_canonicalOf representable, ← dense,
      coefficients]

end Coefficients

section Tables

theorem length_dropLeadingZeros_le (cs : List Binary64) : (dropLeadingZeros cs).length ≤ cs.length := by
  fun_induction dropLeadingZeros cs with
  | case1 c d rest zero ih => exact ih.trans (Nat.le_succ _)
  | case2 => exact le_rfl
  | case3 => exact le_rfl

theorem Member.length_coefficients_le {m : Member} {cs : List Binary64} (h : m.coefficients = .ok cs)
    (checked : settings.checkDegree m.degree m.text = .ok ()) : (cs.length : ℤ) ≤ settings.maxDegree + 1 := by
  have natural : m.HasNaturalExponents := .of_coefficients h
  rw [natural.coefficients] at h
  have length := Member.length_of_coefficientsTo h
  unfold Settings.checkDegree at checked
  rw [exceeds_eq_decide natural.toRat?_degree] at checked
  split_ifs at checked with beyond
  rw [decide_eq_true_iff, not_lt] at beyond
  have within : (m.writtenDegree : ℤ) ≤ settings.maxDegree := by exact_mod_cast beyond
  omega

theorem one_le_maxDegree_of_split (h : (factor settings f).Yields layout F) (hs : F.split = some s) :
    1 ≤ settings.maxDegree := by
  obtain ⟨m, cs, _, _, -, checked, hcs, ⟨a, b, rest, shape⟩, -⟩ := exists_split_steps h hs
  have short := length_dropLeadingZeros_le cs
  have within := m.normalize.length_coefficients_le hcs checked
  rw [shape, List.length_cons, List.length_cons] at short
  omega

theorem exists_quotient_of_split (h : (factor settings f).Yields layout F) (hs : F.split = some s)
    (integral : ∀ c ∈ s.table.coefficients, c.isIntegral = true) :
    ∃ c others, s.table.quotient = c :: others ∧ c.isZero = false ∧
      others.length + 2 = s.table.coefficients.length := by
  obtain ⟨m, cs, root, division, -, -, -, ⟨a, b, rest, shape⟩, -, divided, tabled, -⟩ :=
    exists_split_steps h hs
  have nonzero := isZero_of_dropLeadingZeros shape
  rw [shape] at divided tabled
  obtain ⟨same, -, -⟩ := Division.of_table tabled
  obtain ⟨z, hz⟩ := Binary64.exists_intCast (integral a (same ▸ List.mem_cons_self))
  have value := Binary64.toRat?_round (Binary64.onGrid_of_toRat? hz)
  obtain ⟨-, others, quotient, count, -⟩ :=
    exists_quotient (Decimal.exact_intCast hz) (List.cons_ne_nil b rest) divided tabled
  rw [Binary64.isZero, hz] at nonzero
  refine ⟨.round z, others, quotient, by rwa [Binary64.isZero, value], ?_⟩
  rw [same, List.length_cons, ← count]

end Tables

/-- Doubles that hold integers exactly. -/
def AreSmallIntegers (cs : List Binary64) : Prop := ∀ c ∈ cs, ∃ z : ℤ, |z| ≤ 2 ^ 53 ∧ c = .ofInt z

theorem exists_parse_quotient (names : f.HasLetterNames) (h : (factor settings f).Yields layout F)
    (hs : F.split = some s) (length : s.table.coefficients.length ≤ 2 ^ 53)
    (integral : ∀ c ∈ s.table.coefficients, c.isIntegral = true)
    (integers : AreSmallIntegers s.table.quotient) :
    ∃ m, Member.parse s.quotient = .ok m ∧ m.coefficients = .ok s.table.quotient := by
  obtain ⟨p, _, _, _, hp, -, -, -, -, -, -, quotient, -⟩ := exists_split_steps h hs
  obtain ⟨l, letter, isAlpha, -⟩ := exists_letter names.unknown h hs hp
  obtain ⟨c, others, shape, nonzero, count⟩ := exists_quotient_of_split h hs integral
  rw [quotient, letter]
  rw [shape] at integers ⊢
  -- The leading coefficient is not zero, so that the text has a term for it.
  choose! integer small value using integers
  have list : c :: others = (integer c :: others.map integer).map .ofInt := by
    rw [← List.map_cons, List.map_map]
    exact (List.map_id _).symm.trans (List.map_congr_left value)
  rw [list]
  have short : (others.map integer).length ≤ 2 ^ 53 := by
    rw [List.length_map]
    omega
  refine exists_parse_ofCoefficients isAlpha (fun zero => ?_) (fun z hz => ?_) short
  · rw [value c List.mem_cons_self, zero] at nonzero
    exact absurd nonzero (by decide +kernel)
  · rw [← List.map_cons] at hz
    obtain ⟨d, hd, rfl⟩ := List.mem_map.mp hz
    exact small d hd

theorem exists_solved_divisor (tells : settings.TellsIntegers) (names : f.HasLetterNames)
    (h : (factor settings f).Yields layout F) (hs : F.split = some s) :
    ∃ p root g, f.polynomial = .ok p ∧ IsFoundRoot s.table.coefficients p.normalize.letter root ∧
      s.table.root = .round root ∧ s.table.root.isFinite = true ∧ Equation.ofText s.divisor = .ok g ∧
      ∀ axis height depth, axisHeight axis = .ok height → (solve settings axis depth g none).Returns fun t =>
        t.results = [s.table.root.reread.unsignedZero] := by
  obtain ⟨p, cs, root, division, hp, -, -, -, found, -, tabled, -, divisor⟩ := exists_split_steps h hs
  obtain ⟨l, letter, isAlpha, independent⟩ := exists_letter names.unknown h hs hp
  obtain ⟨same, number, -⟩ := Division.of_table tabled
  obtain ⟨nearest, finite⟩ := Binary64.eq_round_of_ofRatChecked number
  obtain ⟨g, read, solved⟩ := exists_solved_linearFactor isAlpha independent finite tells
    (one_le_maxDegree_of_split h hs)
  exact ⟨p, root, g, hp, same ▸ found, nearest, finite, by rw [divisor, letter, read],
    fun axis height depth hh => solved _ hh⟩

/-- What is read of the factors of a split. The divisor is solved for the root where the root is zero or no
smaller than its fourth place. -/
theorem factors_read_back (tells : settings.TellsIntegers) (names : f.HasLetterNames)
    (h : (factor settings f).Yields layout F) (hs : F.split = some s)
    (length : s.table.coefficients.length ≤ 2 ^ 53)
    (integral : ∀ c ∈ s.table.coefficients, c.isIntegral = true)
    (integers : AreSmallIntegers s.table.quotient) :
    (∃ m, Member.parse s.quotient = .ok m ∧ m.coefficients = .ok s.table.quotient) ∧
      ∃ p root g, f.polynomial = .ok p ∧ IsFoundRoot s.table.coefficients p.normalize.letter root ∧
        s.table.root = .round root ∧ Equation.ofText s.divisor = .ok g ∧
        ∀ axis height depth, axisHeight axis = .ok height →
          (solve settings axis depth g none).Returns fun t =>
            t.results = [s.table.root.reread.unsignedZero] ∧
            (root = 0 ∨ 1 / 10 ^ 4 ≤ |root| → t.results = [s.table.root]) := by
  refine ⟨exists_parse_quotient names h hs length integral integers, ?_⟩
  obtain ⟨p, root, g, hp, found, nearest, finite, read, solved⟩ := exists_solved_divisor tells names h hs
  refine ⟨p, root, g, hp, found, nearest, read, fun axis height depth hh => ?_⟩
  refine (solved axis height depth hh).imp fun t results => ⟨results, fun size => ?_⟩
  rw [nearest] at finite results ⊢
  rw [results, Binary64.unsignedZero_reread_round finite size]

section Integers

variable {P : ℤ[X]} {l : Char} {root : ℚ}

theorem IsFoundRoot.aeval_eq_zero {p : Member} {limit : ℤ} (hl : IsReadable l) (hf : f.IsFunctionOf P l limit)
    (degree : 0 < P.natDegree) (hp : f.polynomial = .ok p)
    (found : IsFoundRoot (dense P) p.normalize.letter root) : aeval root P = 0 := by
  obtain ⟨p', hp', integer, rfl, -⟩ := hf
  obtain rfl := Except.ok.inj (hp.symm.trans hp')
  have normal : p.normalize.toPolynomial = p.toPolynomial := Member.toPolynomial_normalize integer.terms
  have letter : p.normalize.letter = String.singleton l :=
    integer.normalize.letter_eq hl.independent (normal ▸ degree)
  obtain ⟨_, _, candidates, -, -, -, searched⟩ := found
  rw [letter, findRoot_dense hl integer.isRepresentable.small integer.isRepresentable.exponents,
    Except.ok.injEq] at searched
  simpa using List.find?_some searched

/-- An integer polynomial with a rational root is split. Its quotient has integer coefficients, which are
small where the coefficients of the polynomial are small together. -/
theorem exists_integer_split (hl : IsReadable l) (hf : f.IsFunctionOf P l settings.maxDegree)
    (degree : 0 < P.natDegree) (divisors : ∀ k, |P.coeff k| ≤ settings.maxDivisor)
    (total : totalSize (exactDense P) ≤ 2 ^ 53) (hr : ∃ x : ℚ, aeval x P = 0) :
    ∃ F s, (factor settings f).Yields layout F ∧ F.split = some s ∧ s.table.coefficients = dense P ∧
      AreSmallIntegers s.table.quotient := by
  obtain ⟨p, hp, integer, rfl, limit⟩ := hf
  obtain ⟨F, yields, right⟩ :=
    (factor_returns hl hp integer degree limit (divisors _) (divisors 0)).exists_yields layout
  obtain ⟨s, hs⟩ := Option.isSome_iff_exists.mp (right.isSplit_iff.mpr hr)
  obtain ⟨cands, root, -, found, division⟩ := right.split s hs
  obtain ⟨products, sums, divided, -, integers, -, table⟩ := division.exact
  refine ⟨F, s, yields, hs, by rw [table], ?_⟩
  obtain ⟨first, others, shape⟩ : ∃ c rest, exactDense p.toPolynomial = c :: rest :=
    List.exists_cons_of_length_pos (by simp [exactDense])
  have zero : denseValue (first :: others) root = 0 := by
    rw [← shape, denseValue_exactDense]
    simpa using List.find?_some found
  have exact : (dense p.toPolynomial).mapM Decimal.exact = .ok (first :: others) :=
    (mapM_exact_denseTo integer.hasSmallCoefficients _).trans (congrArg _ shape)
  rw [syntheticDivision_eq exact, divideSynthetically, Except.ok.injEq, Division.mk.injEq] at divided
  intro c hc
  rw [table, RuffiniTable.quotient, ← List.map_dropLast] at hc
  obtain ⟨w, hw, rfl⟩ := List.mem_map.mp hc
  obtain ⟨z, rfl⟩ := integers w hw
  refine ⟨z, ?_, rfl⟩
  have size := abs_sumsAfter_le zero z (divided.2 ▸ List.mem_of_mem_dropLast hw)
  rw [← shape] at size
  exact_mod_cast size.trans total

theorem exists_integer_split_ofText (settings : Settings) (z : ℤ) (zs : List ℤ) (hl : IsReadable l)
    (nonzero : z ≠ 0) (degree : zs ≠ []) (total : ((z :: zs).map abs).sum ≤ 2 ^ 53)
    (divisors : ((z :: zs).map abs).sum ≤ settings.maxDivisor) (length : zs.length ≤ 2 ^ 53)
    (within : (zs.length : ℤ) ≤ settings.maxDegree) (hr : ∃ x : ℚ, aeval x (polynomialOf (z :: zs)) = 0) :
    ∃ f F s,
      Equation.ofText (Member.ofCoefficients ((z :: zs).map .ofInt) (String.singleton l)).text = .ok f ∧
      (factor settings f).Yields layout F ∧ F.split = some s ∧ s.table.coefficients = (z :: zs).map .ofInt ∧
      AreSmallIntegers s.table.quotient ∧
      ∀ p root, f.polynomial = .ok p → IsFoundRoot s.table.coefficients p.normalize.letter root →
        aeval root (polynomialOf (z :: zs)) = 0 := by
  have small : HasSmallCoefficients (polynomialOf (z :: zs)) := fun k =>
    (abs_coeff_polynomialOf_le _ k).trans total
  have natDegree := natDegree_polynomialOf zs nonzero
  have positive : 0 < (polynomialOf (z :: zs)).natDegree := natDegree ▸ List.length_pos_iff.mpr degree
  obtain ⟨f, read, function⟩ := exists_ofText_textOf hl (polynomialOf_ne_zero nonzero) small
    (natDegree.trans_le length) (natDegree ▸ within)
  have size : totalSize (exactDense (polynomialOf (z :: zs))) ≤ 2 ^ 53 := by
    rw [totalSize_polynomialOf nonzero]
    exact_mod_cast total
  obtain ⟨F, s, yields, hs, coefficients, integers⟩ := exists_integer_split hl function positive
    (fun k => (abs_coeff_polynomialOf_le _ k).trans divisors) size hr
  rw [Member.textOf, Member.canonicalOf, dense_polynomialOf nonzero] at read
  refine ⟨f, F, s, read, yields, hs, coefficients.trans (dense_polynomialOf nonzero), integers, ?_⟩
  intro p root hp found
  rw [coefficients] at found
  exact found.aeval_eq_zero hl function positive hp

/-- Both factors of `x^2-4` are read back. -/
theorem factors_read_back_difference : ∃ f F s m g, Equation.ofText "x^2-4" = .ok f ∧
    (factor .defaults f).Yields .insertion F ∧ F.split = some s ∧ Member.parse s.quotient = .ok m ∧
    m.coefficients = .ok s.table.quotient ∧ Equation.ofText s.divisor = .ok g ∧
    (solve .defaults "y=0" 0 g none).Returns fun t => t.results = [s.table.root] := by
  have value : ∀ x : ℚ, aeval x (polynomialOf [1, 0, -4]) = x ^ 2 - 4 := by
    intro x
    simp [polynomialOf, sub_eq_add_neg, map_ofNat]
  have text : (Member.ofCoefficients ([1, 0, -4].map .ofInt) (String.singleton 'x')).text = "x^2-4" := by
    decide +kernel
  obtain ⟨f, F, s, read, yields, hs, coefficients, integers, zero⟩ :=
    exists_integer_split_ofText .defaults 1 [0, -4] isReadable_x (by decide) (by decide) (by decide)
      (by decide) (by decide) (by decide) ⟨2, by rw [value]; norm_num⟩
  have length : s.table.coefficients.length ≤ 2 ^ 53 := by
    rw [coefficients]
    decide
  have integral : ∀ c ∈ s.table.coefficients, c.isIntegral = true := by
    rw [coefficients]
    decide +kernel
  obtain ⟨⟨m, parsed, quotient⟩, p, root, g, hp, found, -, divisor, solved⟩ :=
    factors_read_back Settings.tellsIntegers_defaults (Equation.hasLetterNames_ofText read) yields hs length
      integral integers
  have square := zero p root hp found
  rw [value] at square
  have size : 1 / 10 ^ 4 ≤ |root| := by
    have two : |root| = |2| := (sq_eq_sq_iff_abs_eq_abs root 2).mp (by linarith)
    rw [two]
    norm_num
  exact ⟨f, F, s, m, g, text ▸ read, yields, hs, parsed, quotient, divisor,
    (solved "y=0" .zero 0 axisHeight_zero).imp fun t results => results.2 (.inr size)⟩

/-- The divisor that belongs to the root 1/30000 is solved for another double. -/
theorem factor_of_tiny_root : ∃ f F s g, Equation.ofText "30000x^3-x^2+30000x-1" = .ok f ∧
    (factor .defaults f).Yields .insertion F ∧ F.split = some s ∧
    s.table.coefficients = [30000, -1, 30000, -1].map .ofInt ∧ AreSmallIntegers s.table.quotient ∧
    s.table.root = .round (1 / 30000) ∧ Equation.ofText s.divisor = .ok g ∧
    (solve .defaults "y=0" 0 g none).Returns fun t => t.results ≠ [s.table.root] := by
  have value : ∀ x : ℚ, aeval x (polynomialOf [30000, -1, 30000, -1]) = (30000 * x - 1) * (x ^ 2 + 1) := by
    intro x
    simp [polynomialOf]
    ring
  have text : (Member.ofCoefficients ([30000, -1, 30000, -1].map .ofInt) (String.singleton 'x')).text =
      "30000x^3-x^2+30000x-1" := by decide +kernel
  obtain ⟨f, F, s, read, yields, hs, coefficients, integers, zero⟩ :=
    exists_integer_split_ofText .defaults 30000 [-1, 30000, -1] isReadable_x (by decide) (by decide)
      (by decide) (by decide) (by decide) (by decide) ⟨1 / 30000, by rw [value]; norm_num⟩
  obtain ⟨p, root, g, hp, found, nearest, -, divisor, solved⟩ :=
    exists_solved_divisor Settings.tellsIntegers_defaults (Equation.hasLetterNames_ofText read) yields hs
  have product := zero p root hp found
  rw [value, mul_eq_zero] at product
  have reciprocal : root = 1 / 30000 := by
    rcases product with linear | square
    · linarith
    · nlinarith [sq_nonneg root]
  have other : (Binary64.round (1 / 30000)).reread.unsignedZero ≠ .round (1 / 30000) := by decide +kernel
  rw [reciprocal] at nearest
  refine ⟨f, F, s, g, text ▸ read, yields, hs, coefficients, integers, nearest, divisor,
    (solved "y=0" .zero 0 axisHeight_zero).imp fun t results same => ?_⟩
  rw [results, nearest, List.singleton_inj] at same
  exact other same

end Integers

end FunctionStudy
