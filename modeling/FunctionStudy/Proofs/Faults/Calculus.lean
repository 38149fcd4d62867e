import FunctionStudy.Proofs.Faults.Signs
import FunctionStudy.Study.Shape

/-! Failures of derivatives and primitives. A derivative multiplies coefficients by their exponents,
so a function with one term for each exponent has ordinary derivatives, in a wider range for each
order. -/

namespace FunctionStudy

variable {settings : Settings} {r s k : ℕ} {l : Char} {ordinary : Prop}

section Derivatives

variable {t u : Term} {p : Member}

theorem Binary64.isOrdinary_natCast {x : Binary64} (hx : x.toRat? = some (k : ℚ)) (small : k ≤ 2 ^ 53) :
    x.IsOrdinary 53 := by
  refine ⟨k, hx, ?_⟩
  rcases Nat.eq_zero_or_pos k with rfl | positive
  · exact .inl Nat.cast_zero
  · have below : (1 : ℚ) / 2 ^ 53 ≤ 1 := by norm_num
    have least : (1 : ℚ) ≤ k := by exact_mod_cast positive
    have greatest : (k : ℚ) ≤ 2 ^ 53 := by exact_mod_cast small
    rw [← abs_of_nonneg (Nat.cast_nonneg k : (0 : ℚ) ≤ k)] at least greatest
    exact .inr ⟨below.trans least, greatest⟩

section Powers

variable {x : Binary64} (c : Binary64)

theorem Term.isPowerOf_power (hx : x.toRat? = some (k : ℚ)) :
    (Term.mk c (some { letter := .singleton l, exponent := x })).IsPowerOf l := by
  intro m hm
  obtain rfl := Option.some.inj hm
  exact ⟨rfl, rfl, k, hx⟩

theorem Term.natExponent_power {letter : String} (hx : x.toRat? = some (k : ℚ)) :
    (Term.mk c (some { letter, exponent := x })).natExponent = k := natExponent_eq hx

end Powers

theorem Term.IsPowerOf.of_derivative? (h : t.IsPowerOf l) (hu : t.derivative? = some u)
    (small : t.natExponent < 2 ^ 53) :
    u.IsPowerOf l ∧ u.natExponent + 1 = t.natExponent ∧
      u.coefficient = t.coefficient.mul t.exponent := by
  cases literal : t.literal with
  | none => simp [derivative?, literal] at hu
  | some m =>
    obtain ⟨name, -, -⟩ := h m literal
    have own : t.exponent = m.exponent := by rw [exponent, literal]; rfl
    have value := h.toRat?_exponent
    rw [own] at value ⊢
    simp only [derivative?, literal] at hu
    split_ifs at hu with vanishes positive <;> obtain rfl := Option.some.inj hu
    all_goals
      have nonzero : t.natExponent ≠ 0 := fun zero => vanishes (by
        rw [(Binary64.isZero_iff value).mpr (by exact_mod_cast zero), Bool.true_or])
      have lowered : (m.exponent.sub (.ofInt 1)).toRat? = some ((t.natExponent - 1 : ℕ) : ℚ) := by
        have whole := Binary64.toRat?_sub_intCast (n := 1) (by exact_mod_cast value)
          (Binary64.toRat?_ofInt (by norm_num)) (by rw [abs_le]; omega)
        rwa [← Nat.cast_one, ← Nat.cast_sub (Nat.one_le_iff_ne_zero.mpr nonzero)] at whole
    · refine ⟨name ▸ isPowerOf_power _ lowered, ?_, rfl⟩
      rw [natExponent_power _ lowered]
      omega
    · refine ⟨isPowerOf_constant l _, ?_, rfl⟩
      rw [Binary64.isPositive_iff lowered, Nat.cast_pos] at positive
      rw [natExponent_eq (k := 0) (by rw [Nat.cast_zero]; rfl)]
      omega

theorem Member.IsOrdinaryIn.derivative (h : p.IsOrdinaryIn l r) (small : r ≤ 900) :
    p.derivative.IsOrdinaryIn l (r + 54) where
  isIn u hu := by
    obtain ⟨t, ht, derived⟩ := List.mem_filterMap.mp hu
    exact ((h.isIn t ht).of_derivative? derived (h.exponents t ht)).1
  apart := by
    refine List.pairwise_filterMap.mpr (h.apart.imp_of_mem fun ht hu apart v hv w hw same => ?_)
    have first := ((h.isIn _ ht).of_derivative? hv (h.exponents _ ht)).2.1
    have second := ((h.isIn _ hu).of_derivative? hw (h.exponents _ hu)).2.1
    omega
  exponents u hu := by
    obtain ⟨t, ht, derived⟩ := List.mem_filterMap.mp hu
    have lowered := ((h.isIn t ht).of_derivative? derived (h.exponents t ht)).2.1
    have small := h.exponents t ht
    omega
  coefficients u hu := by
    obtain ⟨t, ht, derived⟩ := List.mem_filterMap.mp hu
    rw [((h.isIn t ht).of_derivative? derived (h.exponents t ht)).2.2]
    exact (h.coefficients t ht).mul (Binary64.isOrdinary_natCast (h.isIn t ht).toRat?_exponent
      (h.exponents t ht).le) (by omega)

theorem Member.IsOrdinaryIn.derivatives (h : p.IsOrdinaryIn l r) (n : ℕ) (small : r + 54 * n ≤ 900) :
    (Nat.repeat Member.derivative n p).IsOrdinaryIn l (r + 54 * n) := by
  induction n with
  | zero => exact h
  | succ n ih => exact (ih (by omega)).derivative (by omega)

end Derivatives

section Labels

variable {f : Equation} {label : String}

theorem isDependentLetter_append_primes (noBreak : '\n' ∉ label.toList) (h : isDependentLetter label = true)
    (n : ℕ) : isDependentLetter (label ++ String.ofList (List.replicate n '\'')) = true := by
  unfold isDependentLetter at h ⊢
  rw [dropFinalNewline_eq noBreak] at h
  rw [String.toList_append, String.toList_ofList, dropFinalNewline_eq (by simp [noBreak])]
  split at h
  · rename_i primes chars
    rw [chars, List.cons_append]
    simpa using h
  · cases h

/-- The label of a function has no line break. -/
def Equation.HasPlainLabel (f : Equation) : Prop := '\n' ∉ f.label.toList

theorem Equation.isDependentLetter_label (f : Equation) : isDependentLetter f.label = true := by
  unfold label
  split_ifs with explicit
  · unfold isExplicit at explicit
    split at explicit
    · rename_i t terms
      rw [Bool.and_eq_true] at explicit
      have dependent := explicit.1
      unfold Term.isDependent at dependent
      split at dependent
      · cases dependent
      · rename_i l literal
        rw [Bool.and_eq_true] at dependent
        simpa [terms, literal] using dependent.1
    · cases explicit
  · decide

theorem LiteralSpelling.newline_notMem_letter (l : LiteralSpelling) : '\n' ∉ l.literal.letter.toList := by
  rw [literal, String.toList_ofList]
  intro h
  rcases List.mem_cons.mp h with first | mark
  · exact absurd (first ▸ l.isAlpha) (by decide)
  · have marks := l.isMark _ (List.mem_of_mem_filter mark)
    simp at marks

theorem SideSpelling.newline_notMem_letter (s : SideSpelling) {m : Literal} (hm : m ∈ s.member.literals) :
    '\n' ∉ m.letter.toList := by
  obtain ⟨t, ht, literal⟩ := Member.mem_literals.mp hm
  obtain ⟨spelling, -, rfl⟩ := List.mem_map.mp ht
  cases body : spelling.body with
  | number n => simp [TermSpelling.term, body, BodySpelling.literal] at literal
  | power n l =>
    obtain rfl : l.literal = m := by simpa [TermSpelling.term, body, BodySpelling.literal] using literal
    exact l.newline_notMem_letter

theorem Equation.hasPlainLabel_ofText {text : String} (h : Equation.ofText text = .ok f) : f.HasPlainLabel := by
  have spelled : ∀ text, Equation.parse text = .ok f → f.HasPlainLabel := by
    intro text parsed
    obtain ⟨s, hs⟩ := exists_spelling parsed
    obtain rfl := Except.ok.inj ((parse_chars hs.symm).symm.trans parsed)
    unfold HasPlainLabel label
    split_ifs
    · cases literal : s.equation.left.terms.head?.bind (·.literal) with
      | none => decide
      | some m =>
        obtain ⟨t, first, own⟩ := Option.bind_eq_some_iff.mp literal
        exact s.left.newline_notMem_letter (Member.mem_literals.mpr ⟨t, List.mem_of_head? first, own⟩)
    · decide
  unfold ofText at h
  split_ifs at h
  · exact spelled _ h
  · exact spelled _ h

/-- The polynomial, if there is one, and its derivatives up to an order have ordinary sums. -/
def Equation.IsOrdinaryUpTo (n r : ℕ) (f : Equation) : Prop :=
  ∀ p, f.polynomial = .ok p → ∃ l, IsReadable l ∧
    ∀ m ≤ n, (Nat.repeat Member.derivative m p).HasOrdinarySums l r

theorem Equation.IsOrdinaryUpTo.isOrdinary {n : ℕ} (h : f.IsOrdinaryUpTo n r) : f.IsOrdinary r := by
  intro p polynomial
  obtain ⟨l, hl, moderate⟩ := h p polynomial
  exact ⟨l, hl, moderate 0 n.zero_le⟩

theorem Equation.isOrdinaryUpTo_of_isOrdinaryIn {n : ℕ} (small : r + 54 * n ≤ 900)
    (h : ∀ p, f.polynomial = .ok p → ∃ l, IsReadable l ∧ p.IsOrdinaryIn l r) :
    f.IsOrdinaryUpTo n (r + 54 * n) := by
  intro p polynomial
  obtain ⟨l, hl, moderate⟩ := h p polynomial
  refine ⟨l, hl, fun m le => ?_⟩
  exact (moderate.derivatives m (by omega)).hasOrdinarySums.mono (by omega)

theorem Equation.derive_allowed {m n : ℕ} (hf : ordinary → f.IsOrdinaryUpTo n r) (label : f.HasPlainLabel)
    (le : m ≤ n) :
    Meets (Error.IsAllowed ordinary) (fun g => ordinary → g.IsOrdinary r) (f.derive m) := by
  refine .allowed (fun known => ?_) (f.derive_failsForUser m).regular
  unfold derive
  split_ifs
  · exact .error rfl
  · refine f.polynomial_failsForUser.eq_ok.bind fun p ⟨polynomial, _⟩ => ?_
    obtain ⟨l, hl, moderate⟩ := hf known p polynomial
    intro q hq
    rw [polynomial_explicit_of_isDependent (isDependentLetter_append_primes label
      f.isDependentLetter_label _)] at hq
    obtain rfl := Except.ok.inj hq
    exact ⟨l, hl, moderate m le⟩

end Labels

section Values

variable {f : Equation} {p : Member} {t : Term} {x : Binary64}

/-- The text has a value at every finite point. -/
def Member.IsEvaluable (p : Member) : Prop :=
  ∃ l, IsReadable l ∧ p.IsIn l ∧ ∀ t ∈ p.terms, t.coefficient.isFinite = true

theorem Member.HasOrdinarySums.isEvaluable (h : p.HasOrdinarySums l r) (hl : IsReadable l) : p.IsEvaluable :=
  ⟨l, hl, h.isIn, fun t ht => (h.coefficients t ht).isFinite⟩

theorem Member.IsEvaluable.evaluate_eq (h : p.IsEvaluable) {v : ℚ} (hx : x.toRat? = some v) :
    evaluate p.text (.double x) p.letter = .ok (.round (p.writtenValue (FunctionStudy.writtenValue v))) := by
  obtain ⟨l₀, hl₀, isIn₀, coefficients⟩ := h
  obtain ⟨l, hl, letter, isIn⟩ := isIn₀.exists_letter hl₀
  obtain ⟨c, compiled, value⟩ := isIn.exists_compile hl coefficients
  have point : (Number.double x).toRat = .ok (FunctionStudy.writtenValue v) := exact_eq_writtenValue hx
  simp only [evaluate, letter, compiled, point, bind, Except.bind, value, Formula.Value.toBinary64]

theorem Member.IsEvaluable.exists_evaluate (h : p.IsEvaluable) (finite : x.isFinite = true) :
    ∃ y, evaluate p.text (.double x) p.letter = .ok y :=
  ⟨_, h.evaluate_eq (Binary64.toRat?_of_finite finite)⟩

theorem Equation.exists_evaluate (h : f.polynomial = .ok p) (evaluable : p.IsEvaluable)
    (finite : x.isFinite = true) : ∃ y, f.evaluate (.double x) = .ok y := by
  rw [evaluate, h]
  exact evaluable.exists_evaluate finite

theorem Equation.evaluate_allowed (hf : ordinary → f.IsOrdinary r) (finite : ordinary → x.isFinite = true) :
    Meets (Error.IsAllowed ordinary) (fun _ => True) (f.evaluate (.double x)) := by
  refine (Meets.allowed (Q := fun _ => True) (fun known => ?_) (f.evaluate_failsRegularly _)).imp
    fun _ _ => trivial
  refine f.polynomial_failsForUser.eq_ok.bind fun p ⟨polynomial, _⟩ => ?_
  obtain ⟨l, hl, moderate⟩ := hf known p polynomial
  obtain ⟨y, value⟩ := (moderate.isEvaluable hl).exists_evaluate (finite known)
  exact .of_eq_ok value trivial

end Values

section Primitives

variable {f : Equation} {t : Term}

/-- What the program integrates a term to: the next higher power, with the quotient for its coefficient. -/
structure Term.IsRaised (l : Char) (t u : Term) : Prop where
  power : u.IsPowerOf l
  finite : u.coefficient.isFinite = true
  exponent : u.writtenExponent = t.natExponent + 1
  exact : OnGrid (t.coefficient.toRat / (t.natExponent + 1 : ℕ)) →
    u.coefficient.toRat = t.coefficient.toRat / (t.natExponent + 1 : ℕ)

theorem Term.IsPowerOf.exists_raised (h : t.IsPowerOf l) (small : t.natExponent < 2 ^ 53)
    (finite : t.coefficient.isFinite = true) :
    ∃ u, Equation.integrateTerm (.singleton l) t = .ok u ∧ t.IsRaised l u := by
  have raised : (t.exponent.add (.ofInt 1)).toRat? = some ((t.natExponent + 1 : ℕ) : ℚ) := by
    have whole := Binary64.toRat?_add_intCast (n := 1) (by exact_mod_cast h.toRat?_exponent)
      (Binary64.toRat?_ofInt (by norm_num)) (by rw [abs_le]; omega)
    exact_mod_cast whole
  have nonzero : (t.exponent.add (.ofInt 1)).isZero = false := by
    rw [← Bool.not_eq_true, Binary64.isZero_iff raised]
    exact_mod_cast Nat.succ_ne_zero t.natExponent
  have coefficient := Binary64.toRat?_of_finite finite
  obtain ⟨q, quotient, bounded⟩ := Binary64.exists_div_isFinite_of_one_le coefficient raised
    (by exact_mod_cast Nat.succ_pos t.natExponent)
  have base : (t.literal.map (·.letter)).getD (String.singleton l) = String.singleton l := by
    cases literal : t.literal with
    | none => rfl
    | some m => exact (h m literal).1
  refine ⟨⟨q, some { letter := .singleton l, exponent := t.exponent.add (.ofInt 1) }⟩, ?_,
    isPowerOf_power q raised, bounded, ?_, fun grid => ?_⟩
  · simp only [Equation.integrateTerm, nonzero, base, quotient, bind, Except.bind, pure, Except.pure,
      Bool.false_eq_true, if_false]
  · rw [writtenExponent, natExponent_power q raised, if_neg (by simp)]
  · obtain ⟨r, divided, value⟩ := Binary64.toRat?_div? coefficient raised
      (by exact_mod_cast Nat.succ_ne_zero t.natExponent) grid
    rw [Binary64.div, divided] at quotient
    obtain rfl := Except.ok.inj quotient
    exact Binary64.toRat_eq value

theorem Equation.exists_primitive_raised {p : Member} (hp : f.polynomial = .ok p)
    (letter : p.letter = .singleton l) (isIn : p.IsIn l) (small : ∀ t ∈ p.terms, t.natExponent < 2 ^ 53)
    (finite : ∀ t ∈ p.terms, t.coefficient.isFinite = true) :
    ∃ (F : Primitive) (us : List Term), f.primitive = .ok F ∧ F.function = .explicit "y" ⟨us⟩ ∧
      List.Forall₂ (Term.IsRaised l) (p.terms.filter fun t => !t.coefficient.isZero) us := by
  obtain ⟨pairs, traversed, raised⟩ : ∃ pairs : List (Term × Term),
      ((p.terms.filter fun t => !t.coefficient.isZero).mapM fun t => do
        return (t, ← integrateTerm (.singleton l) t)) = Except.ok (ε := Error) pairs ∧
      List.Forall₂ (fun t pair => t.IsRaised l pair.2) (p.terms.filter fun t => !t.coefficient.isZero) pairs := by
    refine exists_mapM_eq_ok fun t ht => ?_
    have member := List.mem_of_mem_filter ht
    obtain ⟨u, integrated, own⟩ := (isIn t member).exists_raised (small t member) (finite t member)
    exact ⟨(t, u), by rw [integrated]; rfl, own⟩
  have run : ∃ F, f.primitive = .ok F ∧ F.function = .explicit "y" ⟨pairs.map (·.2)⟩ := by
    rw [primitive, hp]
    simp only [bind, Except.bind] at traversed ⊢
    rw [letter, traversed]
    exact ⟨_, rfl, rfl⟩
  obtain ⟨F, own, function⟩ := run
  exact ⟨F, pairs.map (·.2), own, function, List.forall₂_map_right_iff.mpr raised⟩

theorem Member.isEvaluable_of_raised (hl : IsReadable l) {ts us : List Term}
    (raised : List.Forall₂ (Term.IsRaised l) ts us) : Member.IsEvaluable ⟨us⟩ := by
  obtain ⟨pairs, -, rfl, related⟩ := exists_pairs raised
  exact ⟨l, hl, List.forall_mem_map.mpr fun z hz => (related z hz).power,
    List.forall_mem_map.mpr fun z hz => (related z hz).finite⟩

theorem Equation.primitive_meets (hf : f.IsOrdinary r) :
    Meets Error.IsUserInput (fun g => ∃ p, g.function.polynomial = .ok p ∧ p.IsEvaluable) f.primitive := by
  have read := f.polynomial_failsForUser
  cases hp : f.polynomial with
  | error e =>
    rw [hp] at read
    rw [primitive, hp]
    exact read
  | ok p =>
    obtain ⟨l₀, hl₀, moderate₀⟩ := hf p hp
    obtain ⟨l, hl, letter, moderate⟩ := moderate₀.exists_letter hl₀
    obtain ⟨F, us, own, function, raised⟩ := exists_primitive_raised hp letter moderate.isIn moderate.exponents
      fun t ht => (moderate.coefficients t ht).isFinite
    exact .of_eq_ok own ⟨⟨us⟩, by rw [function, polynomial_explicit], Member.isEvaluable_of_raised hl raised⟩

end Primitives

end FunctionStudy
