import FunctionStudy.Proofs.Grammar
import FunctionStudy.Proofs.Work.Failure
import FunctionStudy.Study

/-! Regular failures. Text outside the grammar, functions outside the domain and texts without a
value are the user's fault. Beside them fail divisions by zero, conversions without a result, and
texts that read as quotations. -/

namespace FunctionStudy

variable {α β : Type}

/-- Whatever fails does so regularly. -/
abbrev FailsRegularly (r : Except Error α) : Prop := Meets Error.IsRegular (fun _ => True) r

abbrev FailsForUser (r : Except Error α) : Prop := Meets Error.IsUserInput (fun _ => True) r

namespace FailsRegularly

variable {r : Except Error α} {f : α → Except Error β}

theorem bind (h : FailsRegularly r) (hf : ∀ a, r = .ok a → FailsRegularly (f a)) :
    FailsRegularly (r >>= f) :=
  Meets.bind h.eq_ok fun a ha => hf a ha.1

theorem mapM {xs : List α} (h : ∀ a ∈ xs, FailsRegularly (f a)) : FailsRegularly (xs.mapM f) :=
  (Meets.mapM h).imp fun _ _ => trivial

theorem map {g : α → β} (h : FailsRegularly r) : FailsRegularly (r.map g) := by
  cases r with
  | ok a => trivial
  | error e => exact h

end FailsRegularly

abbrev Work.FailsRegularly (w : Work α) : Prop := w.Meets Error.IsRegular fun _ => True

theorem FailsForUser.regular {r : Except Error α} (h : FailsForUser r) : FailsRegularly r :=
  h.weaken fun _ user => user.isRegular

theorem FailsByGrammar.failsForUser {r : Except Error α} (h : FailsByGrammar r) : FailsForUser r := by
  cases r with
  | ok a => trivial
  | error e =>
    obtain ⟨p, rfl⟩ := h e rfl
    rfl

section Numbers

theorem failsRegularly_conversion (e : ConversionError) :
    FailsRegularly (.error (.conversion e) : Except Error α) := by
  cases e with
  | quotedText kind => exact .inr (.inr trivial)
  | _ => exact .inr (.inl trivial)

theorem Binary64.div_failsRegularly (x y : Binary64) : FailsRegularly (x.div y) := by
  rw [div]
  split
  · trivial
  · exact .inr (.inl trivial)

theorem Binary64.toInt_failsRegularly (x : Binary64) : FailsRegularly x.toInt := by
  cases x <;> first | trivial | exact failsRegularly_conversion _

theorem Binary64.ofRatChecked_failsRegularly (v : ℚ) : FailsRegularly (ofRatChecked v) := by
  rw [ofRatChecked]
  split_ifs
  · trivial
  · exact failsRegularly_conversion _

theorem Binary64.ofIntChecked_failsRegularly (n : ℤ) : FailsRegularly (ofIntChecked n) := by
  rw [ofIntChecked]
  split
  · trivial
  · exact failsRegularly_conversion _

theorem Decimal.exact_failsRegularly (x : Binary64) : FailsRegularly (exact x) := by
  rw [exact]
  split
  · trivial
  · exact failsRegularly_conversion _

namespace Number

theorem toRat_failsRegularly (n : Number) : FailsRegularly n.toRat := by
  cases n with
  | exact v => trivial
  | double x => exact Decimal.exact_failsRegularly x

theorem toBinary64_failsRegularly (n : Number) : FailsRegularly n.toBinary64 := by
  cases n with
  | exact v =>
    rw [toBinary64]
    split_ifs
    · exact Binary64.ofIntChecked_failsRegularly _
    · exact Binary64.ofRatChecked_failsRegularly _
  | double x => trivial

theorem truncated_failsRegularly (n : Number) : FailsRegularly n.truncated := by
  cases n with
  | exact v => trivial
  | double x => exact x.toInt_failsRegularly

theorem whole?_failsRegularly (n : Number) : FailsRegularly n.whole? :=
  n.toBinary64_failsRegularly.bind fun _ _ => n.truncated_failsRegularly.bind fun _ _ => trivial

end Number

end Numbers

section Texts

theorem Term.parseCoefficient_failsRegularly (chunk : String) (text : List Char) :
    FailsRegularly (Term.parseCoefficient chunk text) := by
  unfold Term.parseCoefficient
  dsimp only
  split_ifs
  · trivial
  · trivial
  · exact failsRegularly_conversion _
  · split
    · trivial
    · exact .inl rfl

theorem Term.parse_failsRegularly (chunk : String) : FailsRegularly (Term.parse chunk) := by
  unfold Term.parse
  dsimp only
  split_ifs
  · exact .inl rfl
  refine (Literal.parse_failsByGrammar _).failsForUser.regular.bind fun m _ =>
    (Term.parseCoefficient_failsRegularly _ _).bind fun c _ => ?_
  split_ifs
  · exact .inl rfl
  · trivial

theorem Member.parse_failsRegularly (text : String) : FailsRegularly (Member.parse text) :=
  (FailsRegularly.mapM fun chunk _ => Term.parse_failsRegularly chunk).map

theorem Equation.ofText_failsForUser (text : String) : FailsForUser (Equation.ofText text) := by
  unfold Equation.ofText
  split_ifs
  · exact (Equation.parse_failsByGrammar _).failsForUser
  · exact (Equation.parse_failsByGrammar _).failsForUser

end Texts

section Equations

variable (f : Equation) (m : Member)

/-- The coefficient of the dependent variable is no zero divisor once its zero is refused. -/
theorem Equation.toExplicit_failsForUser : FailsForUser f.toExplicit := by
  unfold Equation.toExplicit
  split_ifs
  · trivial
  · dsimp only
    split
    · rfl
    · split_ifs with cancelled one one
      · rfl
      · rfl
      · trivial
      · rw [Bool.not_eq_true] at cancelled
        obtain ⟨q, quotient⟩ := Binary64.exists_div (.ofInt 1) cancelled
        rw [quotient]
        trivial

theorem Equation.polynomial_failsForUser : FailsForUser f.polynomial := by
  unfold Equation.polynomial
  split_ifs
  · trivial
  · have solved := f.toExplicit_failsForUser
    cases shape : f.toExplicit with
    | error e =>
      rw [shape] at solved
      exact solved
    | ok g => trivial
  · trivial

theorem Equation.polynomial_allowed {ordinary : Prop} :
    Meets (Error.IsAllowed ordinary) (fun p => f.polynomial = .ok p) f.polynomial :=
  (f.polynomial_failsForUser.weaken fun _ user => user.isAllowed).eq_ok.imp fun _ => And.left

theorem Equation.derive_failsForUser (order : ℤ) : FailsForUser (f.derive order) := by
  unfold Equation.derive
  split_ifs
  · rfl
  · exact f.polynomial_failsForUser.bind fun _ _ => trivial

theorem Member.naturalExponents_failsRegularly : FailsRegularly m.naturalExponents := by
  refine .mapM fun t _ => ?_
  dsimp only
  split
  · exact .inl rfl
  refine t.exponent.toInt_failsRegularly.bind fun n _ => ?_
  split
  · exact .inl rfl
  · trivial

theorem Member.coefficientsTo_failsRegularly (degree : ℤ) : FailsRegularly (m.coefficientsTo degree) := by
  refine m.naturalExponents_failsRegularly.bind fun indexed _ => ?_
  split
  · exact .inl rfl
  · trivial

theorem Member.coefficients_failsRegularly : FailsRegularly m.coefficients :=
  m.naturalExponents_failsRegularly.bind fun _ _ =>
    m.degree.toInt_failsRegularly.bind fun _ _ => m.coefficientsTo_failsRegularly _

theorem Equation.integrateTerm_failsRegularly (letter : String) (t : Term) :
    FailsRegularly (integrateTerm letter t) := by
  unfold integrateTerm
  dsimp only
  split_ifs
  · exact .inl rfl
  · exact (Binary64.div_failsRegularly _ _).bind fun _ _ => trivial

theorem Equation.primitive_failsRegularly : FailsRegularly f.primitive := by
  refine f.polynomial_failsForUser.regular.bind fun p _ => ?_
  refine FailsRegularly.bind (.mapM fun t _ => ?_) fun _ _ => trivial
  exact (integrateTerm_failsRegularly _ t).bind fun _ _ => trivial

theorem parityOf_failsRegularly : FailsRegularly (parityOf m) := by
  have whole : ∀ ts, FailsRegularly (allExponentsWhole ts) := by
    intro ts
    induction ts with
    | nil => trivial
    | cons t rest ih =>
      refine t.exponent.toInt_failsRegularly.bind fun _ _ => ?_
      split_ifs
      · exact ih
      · trivial
  exact (whole m.terms).bind fun _ _ => trivial

end Equations

section Values

open Formula (Value Collected)

theorem compile_failsRegularly (text letter : String) : FailsRegularly (compile text letter) := by
  unfold compile
  split
  · split
    · exact failsRegularly_conversion _
    · exact .inl rfl
  · split
    · trivial
    · split
      · trivial
      · exact .inl rfl

theorem Formula.Value.toBinary64_failsRegularly (v : Value) : FailsRegularly v.toBinary64 := by
  cases v <;> first | trivial | exact failsRegularly_conversion _

theorem evaluate_failsRegularly (text letter : String) (x : Number) :
    FailsRegularly (evaluate text x letter) :=
  (compile_failsRegularly text letter).bind fun _ _ =>
    x.toRat_failsRegularly.bind fun _ _ => Formula.Value.toBinary64_failsRegularly _

theorem Equation.evaluate_failsRegularly (f : Equation) (x : Number) : FailsRegularly (f.evaluate x) :=
  f.polynomial_failsForUser.regular.bind fun _ _ => FunctionStudy.evaluate_failsRegularly _ _ _

end Values

section Dividing

theorem divisors_failsRegularly (n : Number) (includeNegative : Bool) :
    FailsRegularly (divisors n includeNegative) := by
  unfold divisors
  dsimp only
  split
  · trivial
  refine n.whole?_failsRegularly.bind fun whole _ => ?_
  cases whole <;> trivial

theorem candidateRoots_failsRegularly (constant leading : Number) :
    FailsRegularly (candidateRoots constant leading) :=
  (divisors_failsRegularly constant true).bind fun _ _ =>
    (divisors_failsRegularly leading false).bind fun _ _ =>
      constant.toRat_failsRegularly.bind fun _ _ => leading.toRat_failsRegularly.bind fun _ _ => trivial

theorem findRoot_failsRegularly (text letter : String) (candidates : List ℚ) :
    FailsRegularly (findRoot text letter candidates) := by
  unfold findRoot
  split_ifs
  · trivial
  · exact (compile_failsRegularly text letter).bind fun _ _ => trivial

/-- There is something to divide. -/
theorem syntheticDivision_failsRegularly {cs : List Number} (some : cs ≠ []) (root : Number) :
    FailsRegularly (syntheticDivision cs root) := by
  refine root.toRat_failsRegularly.bind fun r _ => ?_
  refine (FailsRegularly.mapM fun c _ => c.toRat_failsRegularly).bind fun vs exact => ?_
  split
  · have length := (forall₂_of_mapM exact).length_eq
    exact absurd (List.eq_nil_of_length_eq_zero length) some
  · trivial

theorem Division.table_failsRegularly (d : Division) (cs : List Binary64) (root : ℚ) :
    FailsRegularly (d.table cs root) :=
  (Binary64.ofRatChecked_failsRegularly root).bind fun _ _ =>
    (FailsRegularly.mapM fun _ _ => Binary64.ofRatChecked_failsRegularly _).bind fun _ _ =>
      (FailsRegularly.mapM fun _ _ => Binary64.ofRatChecked_failsRegularly _).bind fun _ _ => trivial

theorem Settings.checkDegree_failsForUser (settings : Settings) (degree : Binary64) (text : String) :
    FailsForUser (settings.checkDegree degree text) := by
  rw [checkDegree]
  split_ifs
  · rfl
  · trivial

theorem factor_failsRegularly (settings : Settings) (f : Equation) :
    Work.FailsRegularly (factor settings f) := by
  have unfactorable : ∀ text reason, Work.FailsRegularly (do
      Work.record (.unfactorablePolynomial text reason)
      return (⟨text, none⟩ : Factorization)) :=
    fun _ _ => Work.meets_record_bind (Work.meets_pure trivial)
  unfold factor
  refine Work.meets_ofExcept_bind f.polynomial_failsForUser.regular fun p _ => ?_
  refine Work.meets_ofExcept_bind (settings.checkDegree_failsForUser _ _).regular fun _ _ => ?_
  refine Work.meets_ofExcept_bind (Member.coefficients_failsRegularly _) fun cs _ => ?_
  dsimp only
  split
  · rename_i first _ _
    split_ifs
    · exact unfactorable _ _
    refine Work.meets_ofExcept_bind (candidateRoots_failsRegularly _ _) fun cands _ => ?_
    refine Work.meets_ofExcept_bind (.mapM fun _ _ => Binary64.ofRatChecked_failsRegularly _) fun _ _ => ?_
    refine Work.meets_record_bind ?_
    refine Work.meets_ofExcept_bind (findRoot_failsRegularly _ _ _) fun found _ => ?_
    cases found with
    | none => exact unfactorable _ _
    | some root =>
      have some : (dropLeadingZeros cs).map Number.double ≠ [] := by
        intro none
        rw [List.map_eq_nil_iff.mp none] at first
        cases first
      refine Work.meets_record_bind ?_
      refine Work.meets_ofExcept_bind (syntheticDivision_failsRegularly some _) fun d _ => ?_
      refine Work.meets_ofExcept_bind (d.table_failsRegularly _ _) fun _ _ => ?_
      exact Work.meets_record_bind (Work.meets_record_bind (Work.meets_pure trivial))
  · exact unfactorable _ _

end Dividing

end FunctionStudy
