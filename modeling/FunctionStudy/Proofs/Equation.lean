import FunctionStudy.Equation
import FunctionStudy.Proofs.Member.NormalForm
import FunctionStudy.Proofs.Member.Parsing

/-! Equations of integer polynomials. One in a letter other than that of the dependent variable
stands for left minus right, and the canonical text of a polynomial is read as such. -/

namespace FunctionStudy

open Polynomial

variable {P : ℤ[X]} {l : Char}

section Independent

theorem isDependentLetter_singleton (hl : l ≠ 'y') :
    isDependentLetter (String.singleton l) = false := by
  unfold isDependentLetter Literal.dropFinalNewline
  by_cases newline : l = '\n'
  · simp [newline]
  · simp [newline, hl]

theorem Term.IsIntegerIn.isDependent_eq_false {t : Term} (h : t.IsIntegerIn l) (hl : l ≠ 'y') :
    t.isDependent = false := by
  unfold isDependent
  cases hm : t.literal with
  | none => rfl
  | some m =>
    obtain ⟨letter, -, -⟩ := h.literal m hm
    simp [letter, isDependentLetter_singleton hl]

namespace Equation

variable {f : Equation}

theorem isExplicit_eq_false (left : ∀ t ∈ f.left.terms, t.isDependent = false) :
    f.isExplicit = false := by
  unfold isExplicit
  split
  · next t single => simp [left t (by simp [single])]
  · rfl

theorem hasDependent_eq_false (left : ∀ t ∈ f.left.terms, t.isDependent = false)
    (right : ∀ t ∈ f.right.terms, t.isDependent = false) : f.hasDependent = false := by
  rw [hasDependent, Bool.or_eq_false_iff, List.any_eq_false, List.any_eq_false]
  exact ⟨fun t ht => by simp [left t ht], fun t ht => by simp [right t ht]⟩

theorem polynomial_eq_canonicalOf (hl : l ≠ 'y') (left : ∀ t ∈ f.left.terms, t.IsIntegerIn l)
    (right : ∀ t ∈ f.right.terms, t.IsIntegerIn l) {p : Member}
    (difference : f.left.terms ++ f.right.negated.terms = p.terms) (h : p.IsIntegerIn l) :
    f.polynomial = .ok (Member.canonicalOf p.toPolynomial l) := by
  have leftSide := fun t ht => (left t ht).isDependent_eq_false hl
  have rightSide := fun t ht => (right t ht).isDependent_eq_false hl
  rw [polynomial, isExplicit_eq_false leftSide, hasDependent_eq_false leftSide rightSide,
    difference, ← Member.simplify_normalize h]
  rfl

end Equation

end Independent

section Zeros

variable {p : Member} {t : Term}

theorem Member.likeCoefficients_append (p : Member) (t : Term) (k : ℕ) :
    (p.append t).likeCoefficients k =
      p.likeCoefficients k ++ if t.natExponent = k then [t.intCoefficient] else [] := by
  rw [likeCoefficients, append, List.filter_append, List.map_append]
  by_cases same : t.natExponent = k <;> simp [likeCoefficients, same]

theorem Member.IsIntegerIn.append_zero (h : p.IsIntegerIn l) (ht : t.IsIntegerIn l)
    (zero : t.intCoefficient = 0) :
    (p.append t).IsIntegerIn l ∧ (p.append t).toPolynomial = p.toPolynomial := by
  refine ⟨⟨fun u hu => ?_, fun k s hs => ?_⟩, ?_⟩
  · rcases List.mem_append.mp hu with hu | hu
    · exact h.terms u hu
    · rwa [List.mem_singleton.mp hu]
  · rw [likeCoefficients_append, zero] at hs
    split_ifs at hs
    · rcases List.prefix_concat_iff.mp hs with rfl | hs
      · rw [List.sum_append, List.sum_singleton, add_zero]
        exact h.sums k _ List.prefix_rfl
      · exact h.sums k s hs
    · rw [List.append_nil] at hs
      exact h.sums k s hs
  · ext k
    rw [coeff_toPolynomial, coeff_toPolynomial, likeCoefficients_append, List.sum_append, zero]
    split_ifs <;> simp

end Zeros

namespace Equation

/-- An explicit function is its right member, whatever that is. -/
theorem polynomial_explicit_of_isDependent {label : String} (h : isDependentLetter label = true)
    (right : Member) : (explicit label right).polynomial = .ok right := by
  have isExplicit : (explicit label right).isExplicit = true := by
    have one : (Binary64.ofInt 1).same (.ofInt 1) = true := by decide +kernel
    simp only [Equation.isExplicit, explicit, Term.isDependent, Literal.label, Literal.ofLetter, h, one,
      Bool.and_self]
  rw [polynomial, if_pos isExplicit]
  rfl

theorem polynomial_explicit (right : Member) : (explicit "y" right).polynomial = .ok right :=
  polynomial_explicit_of_isDependent (by decide) right

theorem polynomial_oneSided (hl : l ≠ 'y') (h : IsRepresentable P) :
    polynomial ⟨Member.canonicalOf P l, ⟨[]⟩⟩ = .ok (Member.canonicalOf P l) := by
  have integer := Member.isIntegerIn_canonicalOf (l := l) h
  rw [polynomial_eq_canonicalOf (p := Member.canonicalOf P l) hl integer.terms (by simp)
      (List.append_nil _) integer, Member.toPolynomial_canonicalOf h]

theorem polynomial_eqZero (hl : l ≠ 'y') (h : IsRepresentable P) :
    polynomial ⟨Member.canonicalOf P l, ⟨[.constant .zero]⟩⟩ = .ok (Member.canonicalOf P l) := by
  have integer := Member.isIntegerIn_canonicalOf (l := l) h
  have zero : ∀ x : Binary64, x.toRat? = some 0 → (Term.constant x).IsIntegerIn l := fun x hx =>
    ⟨⟨0, by simpa [Term.constant] using hx⟩, fun m hm => nomatch hm⟩
  have negated : Binary64.zero.neg.toRat? = some 0 := by
    simpa using Binary64.toRat?_neg Binary64.toRat?_zero
  have coefficient : (Term.constant Binary64.zero.neg).intCoefficient = 0 := by
    simp [Term.intCoefficient, Term.constant, Binary64.toRat_eq negated]
  have right : ∀ t ∈ [Term.constant .zero], t.IsIntegerIn l := by
    intro t ht
    rw [List.mem_singleton.mp ht]
    exact zero _ Binary64.toRat?_zero
  obtain ⟨sum, same⟩ := integer.append_zero (zero _ negated) coefficient
  rw [polynomial_eq_canonicalOf (p := (Member.canonicalOf P l).append (.constant Binary64.zero.neg)) hl
    integer.terms right rfl sum, same, Member.toPolynomial_canonicalOf h]

end Equation

section Text

variable {c : Char} {cs : List Char} {ts : List SignedText}

theorem code_sumChars (hl : l.isAlpha = true) (letters : ∀ s ∈ ts, s.body.HasLetter l) :
    ∀ c ∈ sumChars ts, 43 ≤ c.toNat ∧ c.toNat ≤ 122 ∧ c ≠ '=' := by
  have sign : ∀ b, 43 ≤ (SignedText.sign b).toNat ∧ (SignedText.sign b).toNat ≤ 122 ∧
      SignedText.sign b ≠ '=' := by decide
  have term : ∀ s ∈ ts, ∀ c ∈ s.chars, 43 ≤ c.toNat ∧ c.toNat ≤ 122 ∧ c ≠ '=' := by
    intro s hs c hc
    rcases List.mem_cons.mp hc with rfl | hc
    · exact sign _
    · obtain ⟨low, high, equals⟩ := (TermText.isTermChar hl (letters s hs) c hc).code
      exact ⟨by omega, high, fun h => equals (by rw [h]; rfl)⟩
  intro c hc
  cases ts with
  | nil =>
    rw [List.mem_singleton.mp hc]
    decide
  | cons s rest =>
    rcases List.mem_append.mp hc with hc | hc
    · apply term s (by simp) c
      unfold SignedText.firstChars at hc
      split_ifs at hc with negative
      · rwa [SignedText.chars, negative]
      · exact List.mem_cons_of_mem _ hc
    · obtain ⟨t, ht, hc⟩ := List.mem_flatMap.mp hc
      exact term t (by simp [ht]) c hc

theorem splitSides_eqZero {text : String} (ht : text.toList = cs ++ ['=', '0']) (some : cs ≠ [])
    (h : ∀ c ∈ cs, 43 ≤ c.toNat ∧ c.toNat ≤ 122 ∧ c ≠ '=') :
    splitSides text = .ok (String.ofList cs, "0") := by
  have written : text.toList.filter (fun c => !Text.isBlank c) = cs ++ ['=', '0'] := by
    rw [ht, List.filter_eq_self]
    intro c hc
    rcases List.mem_append.mp hc with hc | hc
    · simp [not_blank_of_code (h c hc).1 (h c hc).2.1]
    · have zero : c = '=' ∨ c = '0' := by simpa using hc
      rcases zero with rfl | rfl <;>
        rw [not_blank_of_code (by decide) (by decide), Bool.not_false]
  obtain ⟨left, right⟩ := Text.span_append (p := (· != '=')) cs ['=', '0']
    (fun c hc => by simpa using (h c hc).2.2) (by simp)
  simp only [splitSides, written, left, right]
  simp [some]

theorem code_textOf (hl : l.isAlpha = true) (h : IsRepresentable P) :
    ∀ c ∈ (Member.textOf P l).toList, 43 ≤ c.toNat ∧ c.toNat ≤ 122 ∧ c ≠ '=' := by
  rw [toList_textOf h]
  refine code_sumChars hl fun s hs => ?_
  obtain ⟨k, -, rfl⟩ := List.mem_map.mp hs
  exact Term.textOf_hasLetter _ _ _ _

theorem toList_textOf_ne_nil (h : IsRepresentable P) (nonzero : P ≠ 0) :
    (Member.textOf P l).toList ≠ [] := by
  obtain ⟨k, ks, hks⟩ := List.exists_cons_of_ne_nil (supportTo_ne_nil nonzero)
  rw [toList_textOf h, hks]
  cases hn : (signedTextOf P l k).negative <;>
    simp [sumChars, SignedText.firstChars, hn, TermText.chars_ne_nil]

theorem isRepresentable_of_le (small : HasSmallCoefficients P) (degree : P.natDegree ≤ 2 ^ 53) :
    IsRepresentable P :=
  ⟨small, fun _ hk => isDouble_of_le ((le_natDegree_of_ne_zero hk).trans degree)⟩

/-- The equation that sets a canonical text to zero is read back. -/
theorem Equation.parse_textOf (hl : l.isAlpha = true) (nonzero : P ≠ 0)
    (small : HasSmallCoefficients P) (degree : P.natDegree ≤ 2 ^ 53) :
    Equation.parse (Member.textOf P l ++ "=0") =
      .ok ⟨Member.canonicalOf P l, ⟨[.constant .zero]⟩⟩ := by
  have representable := isRepresentable_of_le small degree
  have zero : Member.parse "0" = .ok ⟨[.constant .zero]⟩ := by decide +kernel
  have written : (Member.textOf P l ++ "=0").toList = (Member.textOf P l).toList ++ ['=', '0'] := by
    rw [String.toList_append]
    rfl
  rw [Equation.parse, splitSides_eqZero written
    (toList_textOf_ne_nil representable nonzero) (code_textOf hl representable), String.ofList_toList]
  simp only [bind, Except.bind, Member.parse_textOf hl nonzero small degree, zero]
  rfl

theorem Equation.ofText_textOf (hl : l.isAlpha = true) (nonzero : P ≠ 0)
    (small : HasSmallCoefficients P) (degree : P.natDegree ≤ 2 ^ 53) :
    Equation.ofText (Member.textOf P l) =
      .ok ⟨Member.canonicalOf P l, ⟨[.constant .zero]⟩⟩ := by
  have codes := code_textOf hl (isRepresentable_of_le small degree)
  have bare : (Member.textOf P l).toList.contains '=' = false := by
    simpa using fun h => (codes '=' h).2.2 rfl
  rw [Equation.ofText, bare, if_neg Bool.false_ne_true, Equation.parse_textOf hl nonzero small degree]

end Text

section LinearFactor

variable {r : ℤ}

theorem isRepresentable_linear (small : |r| ≤ 2 ^ 53) : IsRepresentable (X - C r) := by
  refine ⟨fun k => ?_, fun k hk => isDouble_of_le ?_⟩
  · rw [coeff_sub, coeff_X, coeff_C]
    split_ifs <;> simp_all
  · have := le_natDegree_of_ne_zero hk
    rw [natDegree_X_sub_C] at this
    omega

theorem toList_linearFactor (small : |r| ≤ 2 ^ 53) (l : Char) :
    (linearFactor (.ofInt r) (String.singleton l)).toList =
      l :: if r = 0 then [] else SignedText.sign (decide (-r < 0)) :: Nat.toDigits 10 r.natAbs := by
  have value := Binary64.toRat?_ofInt small
  have opposite : (Binary64.ofInt r).neg.toRat? = some ((-r : ℤ) : ℚ) := by
    simpa using Binary64.toRat?_neg value
  have zero : (Binary64.ofInt r).isZero = decide (r = 0) := by
    rw [Bool.eq_iff_iff, isZero_ofInt small, decide_eq_true_iff]
  have positive : (Binary64.ofInt r).isPositive = decide (0 < r) := by
    rw [Bool.eq_iff_iff, Binary64.isPositive_iff value, decide_eq_true_iff, Int.cast_pos]
  rw [linearFactor, zero, positive]
  rcases lt_trichotomy r 0 with negative | rfl | above
  · have digits := Decimal.toList_plainText_intCast opposite
    simp [negative.ne, negative.not_gt, digits, Numeral.signedChars, SignedText.sign]
  · simp
  · have digits := Decimal.toList_plainText_intCast value
    simp [above, above.ne', digits, Numeral.signedChars, SignedText.sign, above.le]

theorem toList_textOf_linear (h : IsRepresentable P) (degree : P.natDegree = 1)
    (one : P.coeff 1 = 1) (l : Char) :
    (Member.textOf P l).toList = l :: if P.coeff 0 = 0 then [] else
      SignedText.sign (decide (P.coeff 0 < 0)) :: Nat.toDigits 10 (P.coeff 0).natAbs := by
  have support : supportTo P 1 = 1 :: if P.coeff 0 = 0 then [] else [0] := by
    by_cases zero : P.coeff 0 = 0 <;> simp [supportTo, List.range_succ, one, zero]
  have first : (signedTextOf P l 1).firstChars = [l] := by
    simp [signedTextOf, SignedText.firstChars, one, Term.textOf, TermText.chars,
      TermText.numberChars, TermText.exponentChars]
  have last : (signedTextOf P l 0).chars =
      SignedText.sign (decide (P.coeff 0 < 0)) :: Nat.toDigits 10 (P.coeff 0).natAbs := by
    simp [signedTextOf, SignedText.chars, Term.textOf, TermText.chars]
  rw [toList_textOf h, degree, support]
  split_ifs with zero
  · rw [List.map_singleton, sumChars, first, List.flatMap_nil]
    rfl
  · rw [List.map_cons, List.map_singleton, sumChars, first, List.flatMap_singleton, last]
    rfl

theorem linearFactor_eq_textOf (small : |r| ≤ 2 ^ 53) (l : Char) :
    linearFactor (.ofInt r) (String.singleton l) = Member.textOf (X - C r) l := by
  apply String.toList_injective
  have one : (X - C r).coeff 1 = 1 := by rw [coeff_sub, coeff_X_one, coeff_C_succ, sub_zero]
  have constant : (X - C r).coeff 0 = -r := by rw [coeff_sub, coeff_X_zero, coeff_C_zero, zero_sub]
  rw [toList_linearFactor small,
    toList_textOf_linear (isRepresentable_linear small) (natDegree_X_sub_C r) one, constant,
    Int.natAbs_neg]
  simp only [neg_eq_zero]

end LinearFactor

end FunctionStudy
