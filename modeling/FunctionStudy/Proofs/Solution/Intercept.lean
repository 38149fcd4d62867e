import FunctionStudy.Proofs.Member.Collected
import FunctionStudy.Proofs.Member.Powers
import FunctionStudy.Proofs.Member.RealValue
import FunctionStudy.Proofs.Points
import FunctionStudy.Proofs.Work

/-! The intersection with the vertical axis. The value at 0 is the sum of the constants, but what is
taken is one of them, the first that is written without a letter. -/

namespace FunctionStudy

namespace Member

variable {p : Member}

/-- The constants but for the first one without a letter. -/
def otherConstants (p : Member) : List Term := (p.terms.filter (·.isConstant)).eraseP (·.literal.isNone)

theorem coefficientTotal_constants (p : Member) : coefficientTotal (p.terms.filter (·.isConstant)) =
    p.constantTerm.toRat + coefficientTotal p.otherConstants := by
  obtain ⟨ts⟩ := p
  unfold otherConstants constantTerm
  dsimp only
  induction ts with
  | nil => exact (add_zero _).symm
  | cons t rest ih =>
    by_cases plain : t.literal.isNone = true
    · have constant : t.isConstant = true := by
        rw [Term.isConstant, Option.isNone_iff_eq_none.mp plain]
        rfl
      rw [List.filter_cons_of_pos constant, List.find?_cons_of_pos (by exact plain),
        List.eraseP_cons_of_pos (by exact plain), coefficientTotal_cons]
      rfl
    · rw [List.find?_cons_of_neg (by exact plain)]
      by_cases constant : t.isConstant = true
      · rw [List.filter_cons_of_pos constant, List.eraseP_cons_of_neg (by exact plain),
          coefficientTotal_cons, coefficientTotal_cons, ih]
        ring
      · rw [List.filter_cons_of_neg constant, ih]

theorem otherConstants_eq_nil (few : (p.terms.filter (·.isConstant)).length ≤ 1)
    (plain : ∀ t ∈ p.terms, t.isConstant = true → t.literal = none) : p.otherConstants = [] := by
  unfold otherConstants
  cases single : p.terms.filter (·.isConstant) with
  | nil => rfl
  | cons t rest =>
    rw [single, List.length_cons] at few
    obtain rfl := List.eq_nil_of_length_eq_zero (Nat.le_zero.mp (Nat.le_of_succ_le_succ few))
    obtain ⟨ht, constant⟩ := List.mem_filter.mp (single ▸ List.mem_cons_self : t ∈ p.terms.filter (·.isConstant))
    exact List.eraseP_cons_of_pos (Option.isNone_iff_eq_none.mpr (plain t ht constant))

theorem otherConstants_collected (p : Member) : p.simplify.normalize.otherConstants = [] := by
  obtain ⟨few, plain⟩ := p.simplify_constants
  have sorted : p.simplify.normalize.terms.Perm p.simplify.terms := List.mergeSort_perm _ _
  refine otherConstants_eq_nil ?_ fun t ht => plain t (sorted.mem_iff.mp ht)
  rwa [(sorted.filter _).length_eq]

theorem constantTerm_isFinite (finite : ∀ t ∈ p.terms, t.coefficient.isFinite = true) :
    p.constantTerm.isFinite = true := by
  unfold constantTerm
  cases found : p.terms.find? (·.literal.isNone) with
  | none => rfl
  | some t => exact finite t (List.mem_of_find?_eq_some found)

end Member

section Runs

variable {f : Equation} {p : Member}

theorem intersectAxis_vertical (hp : f.polynomial = .ok p) (settings : Settings) (steps : List Step)
    (r : Registry) (layout : Layout) : ∃ s q r' after,
      (intersectAxis settings f "y").runFrom ⟨steps, some r⟩ layout = (.ok s, ⟨after, some r'⟩) ∧
      s.results = [p.constantTerm.unsignedZero] ∧ s.points = [q] ∧
      r.add .zero p.constantTerm.unsignedZero none none = (q, r') := by
  unfold intersectAxis
  rw [if_pos rfl, hp]
  exact ⟨_, _, _, _, rfl, rfl, rfl, rfl⟩

theorem Registry.exists_registers_add {r r' : Registry} {x y : Binary64} {q : Point}
    (hx : x.isNaN = false) (hy : y.isNaN = false) (added : r.add x y none none = (q, r')) :
    q.isAt x y = true ∧ ∃ new, r.Registers [q] r' new := by
  obtain ⟨new, registers⟩ := r.registers_add x y none none
  have coordinates := r.add_coordinates x y none none
  rw [added] at registers coordinates
  refine ⟨?_, new, registers⟩
  rcases coordinates with there | ⟨ownX, ownY⟩
  · exact there
  · dsimp only at ownX ownY
    rw [Point.isAt_iff, ownX, ownY]
    exact ⟨Binary64.unsignedZero_same hx, Binary64.unsignedZero_same hy⟩

theorem Equation.otherConstants_polynomial (hp : f.polynomial = .ok p) (implicit : f.isExplicit = false)
    (independent : f.hasDependent = false) : p.otherConstants = [] := by
  rw [polynomial, implicit, independent] at hp
  obtain rfl := Except.ok.inj hp
  exact Member.otherConstants_collected _

/-- Where the polynomial is defined, the search for the vertical intersection succeeds with a single number and
registers the point of this height on the axis. The value of the polynomial at 0 is this number and the
constants that are passed over: letters to the power 0, and what is behind the first constant. So the point
lies on the graph exactly where these add up to 0, and always where the polynomial is left minus right. -/
theorem intersectAxis_value (hp : f.polynomial = .ok p)
    (coefficients : ∀ t ∈ p.terms, t.coefficient.isFinite = true)
    (exponents : ∀ t ∈ p.terms, t.exponent.isFinite = true) (settings : Settings) (steps : List Step)
    (r : Registry) (layout : Layout) : ∃ s c q r' after new,
      (intersectAxis settings f "y").runFrom ⟨steps, some r⟩ layout = (.ok s, ⟨after, some r'⟩) ∧
      s.results = [c] ∧ s.points = [q] ∧ q.isAt .zero c = true ∧ r.Registers [q] r' new ∧
      p.realValue 0 = coefficientTotal (p.terms.filter (·.isConstant)) ∧
      p.realValue 0 = c.toRat +
        coefficientTotal ((p.terms.filter (·.isConstant)).eraseP (·.literal.isNone)) ∧
      ((c.toRat : ℝ) = p.realValue 0 ↔
        coefficientTotal ((p.terms.filter (·.isConstant)).eraseP (·.literal.isNone)) = 0) ∧
      (f.isExplicit = false → f.hasDependent = false → (c.toRat : ℝ) = p.realValue 0) := by
  have value := Binary64.toRat?_unsignedZero
    (Binary64.toRat?_of_finite (Member.constantTerm_isFinite coefficients))
  obtain ⟨s, q, r', after, run, results, points, added⟩ := intersectAxis_vertical hp settings steps r layout
  obtain ⟨there, new, registers⟩ :=
    Registry.exists_registers_add (by rfl) (Binary64.isNaN_of_toRat? value) added
  have constants := Member.realValue_zero exponents
  have split : p.realValue 0 =
      p.constantTerm.unsignedZero.toRat + coefficientTotal p.otherConstants := by
    rw [constants, Member.coefficientTotal_constants, Binary64.toRat_eq value, Rat.cast_add]
  have agrees : (p.constantTerm.unsignedZero.toRat : ℝ) = p.realValue 0 ↔
      coefficientTotal p.otherConstants = 0 := by
    rw [split, left_eq_add, Rat.cast_eq_zero]
  refine ⟨s, _, q, r', after, new, run, results, points, there, registers, constants, split, agrees, ?_⟩
  intro implicit independent
  rw [agrees, Equation.otherConstants_polynomial hp implicit independent]
  rfl

/-- The letters to the power 0 cancel, and the axis is met at -3. -/
theorem intersectAxis_value_parabola : ∃ f p s c q r' after,
    Equation.parse "y=x^2-3+2x^0-2x^0" = .ok f ∧ f.polynomial = .ok p ∧
    (intersectAxis .defaults f "y").runFrom ⟨[], some .empty⟩ = (.ok s, ⟨after, some r'⟩) ∧
    s.results = [c] ∧ s.points = [q] ∧ q ∈ r'.points ∧ q.isAt .zero c = true ∧
    (c.toRat : ℝ) = p.realValue 0 ∧ p.realValue 0 = -3 := by
  let power (a : ℤ) (k : ℕ) : Term := ⟨.ofInt a, some { letter := "x", exponent := .ofInt k }⟩
  let p : Member := ⟨[power 1 2, .constant (.ofInt (-3)), power 2 0, power (-2) 0]⟩
  let f : Equation := ⟨⟨[⟨.ofInt 1, some (.ofLetter "y")⟩]⟩, p⟩
  have read : Equation.parse "y=x^2-3+2x^0-2x^0" = .ok f := by decide +kernel
  have polynomial : f.polynomial = .ok p := by decide +kernel
  obtain ⟨s, c, q, r', after, new, run, results, points, there, registers, constants, -, agrees, -⟩ :=
    intersectAxis_value polynomial (by decide +kernel) (by decide +kernel) .defaults [] .empty .insertion
  have cancel : coefficientTotal ((p.terms.filter (·.isConstant)).eraseP (·.literal.isNone)) = 0 := by
    decide +kernel
  have sum : coefficientTotal (p.terms.filter (·.isConstant)) = -3 := by decide +kernel
  rw [sum] at constants
  exact ⟨f, p, s, c, q, r', after, read, polynomial, run, results, points,
    registers.registered q (points ▸ List.mem_singleton_self q), there, agrees.mpr cancel, by simpa using constants⟩

/-- Of the constants of `x+1+2` only 1 is taken, but the value at 0 is 3. -/
theorem intersectAxis_first_constant : ∃ f p s q r' after, Equation.parse "y=x+1+2" = .ok f ∧ f.polynomial = .ok p ∧
    (intersectAxis .defaults f "y").runFrom ⟨[], some .empty⟩ = (.ok s, ⟨after, some r'⟩) ∧
    s.results = [.ofInt 1] ∧ s.points = [q] ∧ q.isAt .zero (.ofInt 1) = true ∧ p.realValue 0 = 3 := by
  let p : Member := ⟨[⟨.ofInt 1, some (.ofLetter "x")⟩, .constant (.ofInt 1), .constant (.ofInt 2)]⟩
  let f : Equation := ⟨⟨[⟨.ofInt 1, some (.ofLetter "y")⟩]⟩, p⟩
  have read : Equation.parse "y=x+1+2" = .ok f := by decide +kernel
  have polynomial : f.polynomial = .ok p := by decide +kernel
  have taken : p.constantTerm.unsignedZero = .ofInt 1 := by decide +kernel
  have sum : coefficientTotal (p.terms.filter (·.isConstant)) = 3 := by decide +kernel
  have value := Member.realValue_zero (p := p) (by decide +kernel)
  rw [sum] at value
  obtain ⟨s, q, r', after, run, results, points, added⟩ :=
    intersectAxis_vertical polynomial .defaults [] .empty .insertion
  rw [taken] at results added
  have there := (Registry.exists_registers_add (by rfl) (by decide +kernel) added).1
  exact ⟨f, p, s, q, r', after, read, polynomial, run, results, points, there, by simpa using value⟩

end Runs

end FunctionStudy
