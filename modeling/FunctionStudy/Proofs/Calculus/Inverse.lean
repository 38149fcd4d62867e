import FunctionStudy.Proofs.Evaluation
import FunctionStudy.Proofs.Faults.Calculus

/-! Derivatives and primitives undo each other term by term: multiplying by the exponent and
dividing by it are both exact. A line break at the end of a label stays in front of the primes of a
derivative, which then name nothing. -/

namespace FunctionStudy

theorem Nat.repeat_add {α : Type} (f : α → α) (m n : ℕ) (a : α) :
    Nat.repeat f n (Nat.repeat f m a) = Nat.repeat f (m + n) a := by
  induction n with
  | zero => rfl
  | succ n ih => exact congrArg f ih

theorem forall₂_filterMap {α β : Type} (f : α → Option β) (xs : List α) :
    List.Forall₂ (fun x y => f x = some y) (xs.filter fun x => (f x).isSome) (xs.filterMap f) := by
  induction xs with
  | nil => exact .nil
  | cons x xs ih =>
    cases hx : f x with
    | none => rwa [List.filter_cons_of_neg (by simp [hx]), List.filterMap_cons_none hx]
    | some y =>
      rw [List.filter_cons_of_pos (by simp [hx]), List.filterMap_cons_some hx]
      exact .cons hx ih

section Terms

variable {t u : Term}

/-- A term that changes with the variable. -/
def Term.varies (t : Term) : Bool := !t.coefficient.isZero && t.exponent.isPositive

/-- The product of coefficient and exponent is exact. -/
def Term.HasSmallProduct (t : Term) : Prop := |t.intCoefficient * t.natExponent| < 2 ^ 53

theorem Term.varies_iff (h : t.IsIntegerIn 'x') : t.varies = true ↔ t.intCoefficient ≠ 0 ∧ t.natExponent ≠ 0 := by
  rw [varies, Bool.and_eq_true, Bool.not_eq_true', ← Bool.not_eq_true, Binary64.isZero_iff h.toRat?_coefficient,
    Binary64.isPositive_iff h.toRat?_exponent, Int.cast_eq_zero, Nat.cast_pos, Nat.pos_iff_ne_zero]

theorem Term.IsIntegerIn.toRat?_mul_exponent (h : t.IsIntegerIn 'x') (small : t.HasSmallProduct) :
    (t.coefficient.mul t.exponent).toRat? = some ((t.intCoefficient * t.natExponent : ℤ) : ℚ) := by
  have exponent : t.exponent.toRat? = some ((t.natExponent : ℤ) : ℚ) := by exact_mod_cast h.toRat?_exponent
  exact Binary64.toRat?_mul_intCast h.toRat?_coefficient exponent (le_of_lt small)

theorem Term.natExponent_lt (h : t.IsIntegerIn 'x') (small : t.HasSmallProduct) (varies : t.varies = true) :
    t.natExponent < 2 ^ 53 := by
  obtain ⟨coefficient, -⟩ := (varies_iff h).mp varies
  have least : 1 ≤ |t.intCoefficient| := Int.one_le_abs coefficient
  unfold HasSmallProduct at small
  rw [abs_mul, Nat.abs_cast] at small
  have bound : (t.natExponent : ℤ) ≤ |t.intCoefficient| * t.natExponent :=
    le_mul_of_one_le_left (Int.natCast_nonneg _) least
  have := bound.trans_lt small
  exact_mod_cast this

theorem Term.isSome_derivative? (h : t.IsIntegerIn 'x') (small : t.HasSmallProduct) :
    t.derivative?.isSome = t.varies := by
  rw [Bool.eq_iff_iff, varies_iff h]
  cases literal : t.literal with
  | none => simp [derivative?, literal, natExponent_eq_zero_of_none literal]
  | some m =>
    have own : t.exponent = m.exponent := by rw [exponent, literal]; rfl
    have product := h.toRat?_mul_exponent small
    have value := h.toRat?_exponent
    rw [own] at product value
    have zero : (m.exponent.isZero || (t.coefficient.mul m.exponent).isZero) = true ↔
        t.natExponent = 0 ∨ t.intCoefficient * t.natExponent = 0 := by
      rw [Bool.or_eq_true, Binary64.isZero_iff value, Binary64.isZero_iff product, Int.cast_eq_zero, Nat.cast_eq_zero]
    simp only [derivative?, literal]
    split_ifs with vanishes <;> rw [zero] at vanishes <;> simp at vanishes ⊢ <;> tauto

theorem Term.IsIntegerIn.div_exponent (h : t.IsIntegerIn 'x') (varies : t.varies = true) {y : Binary64}
    (product : y.toRat? = some ((t.intCoefficient * t.natExponent : ℤ) : ℚ)) :
    y.div t.exponent = .ok t.coefficient := by
  obtain ⟨nonzero, positive⟩ := (varies_iff h).mp varies
  have divisor : (t.natExponent : ℚ) ≠ 0 := Nat.cast_ne_zero.mpr positive
  have quotient : ((t.intCoefficient * t.natExponent : ℤ) : ℚ) / t.natExponent = t.intCoefficient := by
    rw [Int.cast_mul, Int.cast_natCast, mul_div_cancel_right₀ _ divisor]
  obtain ⟨q, hq, value⟩ := Binary64.toRat?_div? product h.toRat?_exponent divisor
    (quotient ▸ Binary64.onGrid_of_toRat? h.toRat?_coefficient)
  rw [quotient] at value
  rw [Binary64.div, hq, Binary64.eq_of_toRat? value h.toRat?_coefficient (Int.cast_ne_zero.mpr nonzero)]

theorem Term.IsIntegerIn.eq_power (h : t.IsIntegerIn 'x') (positive : t.natExponent ≠ 0) :
    t = ⟨t.coefficient, some { letter := "x", exponent := t.exponent }⟩ := by
  obtain ⟨c, literal⟩ := t
  cases literal with
  | none => exact absurd (natExponent_eq_zero_of_none rfl) positive
  | some m =>
    obtain ⟨letter, label, -⟩ := h.literal m rfl
    obtain ⟨name, e, isLabel⟩ := m
    obtain rfl : name = String.singleton 'x' := letter
    obtain rfl : isLabel = false := label
    rfl

/-- The primitive of what a term becomes is the term. -/
theorem Term.integrateTerm_derivative? (h : t.IsIntegerIn 'x') (small : t.HasSmallProduct)
    (derived : t.derivative? = some u) : Equation.integrateTerm "x" u = .ok t := by
  have varies : t.varies = true := by rw [← isSome_derivative? h small, derived, Option.isSome_some]
  obtain ⟨-, positive⟩ := (varies_iff h).mp varies
  have bound := natExponent_lt h small varies
  obtain ⟨power, lowered, coefficient⟩ := h.isPowerOf.of_derivative? derived bound
  have raised : u.exponent.add (.ofInt 1) = t.exponent := by
    have value := Binary64.toRat?_add_intCast (n := 1) (by exact_mod_cast power.toRat?_exponent)
      (Binary64.toRat?_ofInt (by norm_num)) (by rw [abs_le]; omega)
    refine Binary64.eq_of_toRat? value ?_ ?_
    · rw [h.toRat?_exponent, ← lowered]
      norm_cast
    · norm_cast
  have divided : u.coefficient.div t.exponent = .ok t.coefficient :=
    h.div_exponent varies (coefficient ▸ h.toRat?_mul_exponent small)
  have apart : t.exponent.isZero = false := by
    rw [← Bool.not_eq_true, Binary64.isZero_iff h.toRat?_exponent]
    exact_mod_cast positive
  have base : (u.literal.map (·.letter)).getD "x" = "x" := by
    cases literal : u.literal with
    | none => rfl
    | some m => exact (power m literal).1
  simp only [Equation.integrateTerm, raised, apart, base, divided, bind, Except.bind, pure, Except.pure,
    Bool.false_eq_true, if_false]
  exact congrArg Except.ok (h.eq_power positive).symm

end Terms

section Members

variable {ts : List Term}

theorem Member.forall₂_derivative (integers : ∀ t ∈ ts, t.IsIntegerIn 'x') (small : ∀ t ∈ ts, t.HasSmallProduct) :
    List.Forall₂ (fun t u => t.derivative? = some u) (ts.filter (·.varies)) (Member.derivative ⟨ts⟩).terms := by
  have kept : ts.filter (·.varies) = ts.filter fun t => t.derivative?.isSome :=
    List.filter_congr fun t ht => (Term.isSome_derivative? (integers t ht) (small t ht)).symm
  rw [kept]
  exact forall₂_filterMap _ ts

theorem Term.isZero_coefficient_of_derivative? {t u : Term} (h : t.derivative? = some u) :
    u.coefficient.isZero = false := by
  unfold Term.derivative? at h
  split at h
  · cases h
  · dsimp only at h
    split_ifs at h with vanishes <;>
      obtain rfl := Option.some.inj h <;>
      exact (Bool.or_eq_false_iff.mp (Bool.not_eq_true _ ▸ vanishes)).2

theorem Member.letter_derivative (integers : ∀ t ∈ ts, t.IsIntegerIn 'x') (small : ∀ t ∈ ts, t.HasSmallProduct) :
    (Member.derivative ⟨ts⟩).letter = "x" := by
  have powers : (Member.derivative ⟨ts⟩).IsIn 'x' := fun u hu => by
    obtain ⟨t, ht, derived⟩ := List.mem_filterMap.mp hu
    have varies : t.varies = true := by rw [← Term.isSome_derivative? (integers t ht) (small t ht), derived]; rfl
    exact ((integers t ht).isPowerOf.of_derivative? derived
      (Term.natExponent_lt (integers t ht) (small t ht) varies)).1
  rcases powers.letter_cases (by decide) with own | ⟨default, -⟩
  · exact own
  · exact default

end Members

namespace Equation

section Primitives

variable {f : Equation} {p : Member} {us : List Term}

theorem primitive_eq_ok (hp : f.polynomial = .ok p)
    (integrated : List.Forall₂ (fun t u => integrateTerm p.letter t = .ok u)
      (p.terms.filter fun t => !t.coefficient.isZero) us) :
    ∃ F, f.primitive = .ok F ∧ F.function = .explicit "y" ⟨us⟩ := by
  obtain ⟨pairs, firsts, seconds, steps⟩ := exists_pairs integrated
  have traversed : ((p.terms.filter fun t => !t.coefficient.isZero).mapM fun t => do
      return (t, ← integrateTerm p.letter t)) = Except.ok (ε := Error) pairs := by
    rw [← firsts, List.mapM_map, mapM_eq_ok (g := id) fun z hz => ?_, List.map_id]
    rw [Function.comp_apply, steps z hz]
    rfl
  rw [primitive, hp]
  simp only [bind, Except.bind] at traversed ⊢
  rw [traversed]
  exact ⟨_, rfl, congrArg (explicit "y" ⟨·⟩) seconds⟩

theorem primitive_of_derivative (hp : f.polynomial = .ok p.derivative) (integers : ∀ t ∈ p.terms, t.IsIntegerIn 'x')
    (small : ∀ t ∈ p.terms, t.HasSmallProduct) :
    ∃ F, f.primitive = .ok F ∧ F.function = .explicit "y" ⟨p.terms.filter (·.varies)⟩ := by
  refine primitive_eq_ok hp ?_
  have all : p.derivative.terms.filter (fun t => !t.coefficient.isZero) = p.derivative.terms := by
    refine List.filter_eq_self.mpr fun u hu => ?_
    obtain ⟨t, -, derived⟩ := List.mem_filterMap.mp hu
    rw [Term.isZero_coefficient_of_derivative? derived, Bool.not_false]
  rw [all, Member.letter_derivative integers small]
  obtain ⟨pairs, firsts, seconds, steps⟩ := exists_pairs (Member.forall₂_derivative integers small)
  rw [← firsts, ← seconds, List.forall₂_map_left_iff, List.forall₂_map_right_iff, List.forall₂_same]
  intro z hz
  have member : z.1 ∈ p.terms.filter (·.varies) := firsts ▸ List.mem_map_of_mem hz
  have stands := List.mem_of_mem_filter member
  exact Term.integrateTerm_derivative? (integers _ stands) (small _ stands) (steps z hz)

end Primitives

section Orders

variable {f g : Equation} {p : Member} {label : String} {m n : ℤ}

/-- What a derivative adds to the label. -/
def primes (k : ℕ) : String := String.ofList (List.replicate k '\'')

theorem primes_append (j k : ℕ) : primes j ++ primes k = primes (j + k) := by
  rw [primes, primes, primes, ← String.ofList_append, List.replicate_append_replicate]

theorem lineBreak_notMem_primes (k : ℕ) : '\n' ∉ (primes k).toList := by
  rw [primes, String.toList_ofList]
  exact fun mark => absurd (List.eq_of_mem_replicate mark) (by decide)

theorem derive_eq_ok (hp : f.polynomial = .ok p) (order : 1 ≤ n) :
    f.derive n = .ok (.explicit (f.label ++ primes n.toNat) (Nat.repeat Member.derivative n.toNat p)) := by
  rw [derive, if_neg (not_lt.mpr order), hp]
  rfl

theorem one_le_of_derive (h : f.derive n = .ok g) : 1 ≤ n := by
  by_contra below
  rw [derive, if_pos (not_le.mp below)] at h
  cases h

/-- What has a derivative is a polynomial, and so has all derivatives. -/
theorem exists_polynomial_of_derive (h : f.derive n = .ok g) : ∃ p, f.polynomial = .ok p := by
  unfold derive at h
  split at h
  · cases h
  · cases hp : f.polynomial with
    | error e =>
      rw [hp] at h
      cases h
    | ok p => exact ⟨p, rfl⟩

theorem isExplicit_explicit (label : String) (right : Member) :
    (explicit label right).isExplicit = isDependentLetter label := by
  have one : (Binary64.ofInt 1).same (.ofInt 1) = true := by decide +kernel
  simp only [isExplicit, explicit, Term.isDependent, Literal.label, Literal.ofLetter, one, Bool.and_true]

theorem label_explicit (right : Member) :
    (explicit label right).label = if isDependentLetter label = true then label else "y" := by
  rw [Equation.label, isExplicit_explicit]
  rfl

theorem lineBreak_notMem_dropLast (h : isDependentLetter label = true) : '\n' ∉ label.toList.dropLast := by
  have letters : '\n' ∉ Literal.dropFinalNewline label.toList := by
    unfold isDependentLetter at h
    split at h
    · next primes chars =>
      rw [chars, List.mem_cons, not_or]
      exact ⟨by decide, fun mark => absurd (List.all_eq_true.mp h _ mark) (by decide)⟩
    · cases h
  unfold Literal.dropFinalNewline at letters
  split_ifs at letters
  · exact letters
  · exact fun inside => letters (List.mem_of_mem_dropLast inside)

theorem isDependentLetter_append_primes_iff (h : isDependentLetter label = true) {k : ℕ} (some : k ≠ 0) :
    isDependentLetter (label ++ primes k) = true ↔ '\n' ∉ label.toList := by
  refine ⟨fun primed lineBreak => lineBreak_notMem_dropLast primed ?_, fun plain =>
    isDependentLetter_append_primes plain h k⟩
  rw [String.toList_append, primes, String.toList_ofList, List.dropLast_append_of_ne_nil (by simpa using some)]
  exact List.mem_append_left _ lineBreak

theorem HasPlainLabel.derive_derive (plain : f.HasPlainLabel) (hp : f.polynomial = .ok p) (first : 1 ≤ m)
    (second : 1 ≤ n) : ∃ g, f.derive m = .ok g ∧ g.derive n = f.derive (m + n) := by
  refine ⟨_, derive_eq_ok hp first, ?_⟩
  have dependent : isDependentLetter (f.label ++ primes m.toNat) = true :=
    isDependentLetter_append_primes plain f.isDependentLetter_label _
  have orders : (m + n).toNat = m.toNat + n.toNat := Int.toNat_add (by omega) (by omega)
  rw [derive_eq_ok (polynomial_explicit_of_isDependent dependent _) second, label_explicit, if_pos dependent,
    String.append_assoc, primes_append, Nat.repeat_add, ← orders, derive_eq_ok hp (by omega)]

/-- A derivative whose label has a line break before its primes is no explicit function, and the next derivative
has another label. -/
theorem hasPlainLabel_of_derive_derive {g h : Equation} (first : f.derive m = .ok g) (second : g.derive n = .ok h)
    (together : f.derive (m + n) = .ok h) : f.HasPlainLabel := by
  have orders := one_le_of_derive first
  obtain ⟨p, hp⟩ := exists_polynomial_of_derive first
  obtain ⟨q, hq⟩ := exists_polynomial_of_derive second
  obtain rfl := Except.ok.inj ((derive_eq_ok hp orders).symm.trans first)
  by_contra lineBreak
  have other : ¬ isDependentLetter (f.label ++ primes m.toNat) = true := fun dependent =>
    lineBreak ((isDependentLetter_append_primes_iff f.isDependentLetter_label (by omega)).mp dependent)
  have next := derive_eq_ok hq (one_le_of_derive second)
  rw [label_explicit, if_neg other] at next
  have same := Except.ok.inj ((derive_eq_ok hp (one_le_of_derive together)).symm.trans
    (together.trans (second.symm.trans next)))
  have labels : f.label ++ primes (m + n).toNat = "y" ++ primes n.toNat := by
    simpa [explicit, Literal.label, Literal.ofLetter] using congrArg Equation.left same
  have inside : '\n' ∈ (f.label ++ primes (m + n).toNat).toList := by
    rw [String.toList_append]
    exact List.mem_append_left _ (not_not.mp lineBreak)
  rw [labels, String.toList_append] at inside
  rcases List.mem_append.mp inside with letter | mark
  · exact absurd letter (by decide)
  · exact lineBreak_notMem_primes _ mark

end Orders

/-- The derivative of an integer polynomial in `x` has a primitive, which is what varies of the polynomial,
unchanged. Two derivatives of a function in a row are the one of both orders, with its label, exactly if the
label of the function has no line break. -/
theorem derive_inverse (f : Equation) :
    (f.isExplicit = true → f.HasPlainLabel → (∀ t ∈ f.right.terms, t.IsIntegerIn 'x') →
      (∀ t ∈ f.right.terms, |t.intCoefficient * t.natExponent| < 2 ^ 53) →
      ∃ g F, f.derive 1 = .ok g ∧ g.primitive = .ok F ∧ F.function = .explicit "y"
        ⟨f.right.terms.filter fun t => !t.coefficient.isZero && t.exponent.isPositive⟩) ∧
    ∀ k g, f.derive k = .ok g → ∀ m n : ℤ, 1 ≤ m → 1 ≤ n →
      ∃ g, f.derive m = .ok g ∧
        ((∃ h, g.derive n = .ok h ∧ f.derive (m + n) = .ok h) ↔ f.HasPlainLabel) := by
  refine ⟨fun explicit plain integers small => ?_, fun k g derived m n first second => ?_⟩
  · have hp : f.polynomial = .ok f.right := by rw [polynomial, if_pos explicit]
    have dependent : isDependentLetter (f.label ++ primes 1) = true :=
      isDependentLetter_append_primes plain f.isDependentLetter_label 1
    obtain ⟨F, integrated, function⟩ :=
      primitive_of_derivative (polynomial_explicit_of_isDependent dependent f.right.derivative) integers small
    exact ⟨_, F, derive_eq_ok hp le_rfl, integrated, function⟩
  · obtain ⟨p, hp⟩ := exists_polynomial_of_derive derived
    have total := derive_eq_ok hp (n := m + n) (by omega)
    refine ⟨_, derive_eq_ok hp first, ?_, fun plain => ?_⟩
    · rintro ⟨h, second, together⟩
      exact hasPlainLabel_of_derive_derive (derive_eq_ok hp first) second together
    · obtain ⟨g, own, composed⟩ := plain.derive_derive hp first second
      obtain rfl := Except.ok.inj ((derive_eq_ok hp first).symm.trans own)
      exact ⟨_, composed.trans total, total⟩

/-- `y'=2x^3-5+0x^2-x+7x^0` loses what does not vary, and its derivatives of orders 1 and 2 are those of order 3. -/
theorem derive_inverse_cubic : ∃ f g F h, parse "y'=2x^3-5+0x^2-x+7x^0" = .ok f ∧ f.derive 1 = .ok g ∧
    g.primitive = .ok F ∧ F.function.text = "y=2x^3-x" ∧ g.derive 2 = .ok h ∧ f.derive 3 = .ok h ∧
    h.text = "y''''=12" := by
  let power (a : ℤ) (k : ℕ) : Term := ⟨.ofInt a, some { letter := .singleton 'x', exponent := .ofInt k }⟩
  let f : Equation := ⟨⟨[⟨.ofInt 1, some (.ofLetter "y'")⟩]⟩,
    ⟨[power 2 3, .constant (.ofInt (-5)), power 0 2, power (-1) 1, power 7 0]⟩⟩
  have read : parse "y'=2x^3-5+0x^2-x+7x^0" = .ok f := by decide +kernel
  have plain : f.HasPlainLabel := by
    unfold HasPlainLabel
    decide +kernel
  have powers : ∀ (a : ℤ) (k : ℕ), |a| ≤ 7 → k ≤ 3 → (power a k).IsIntegerIn 'x' :=
    fun a k ha hk => isIntegerIn_written (ha.trans (by norm_num)) (hk.trans (by norm_num))
  have constant : (Term.constant (.ofInt (-5))).IsIntegerIn 'x' :=
    ⟨⟨-5, Binary64.toRat?_ofInt (by norm_num)⟩, Term.isPowerOf_constant _ _⟩
  have integers : ∀ t ∈ f.right.terms, t.IsIntegerIn 'x' := by
    simp only [f, List.forall_mem_cons, List.not_mem_nil, false_imp_iff, implies_true, and_true]
    exact ⟨powers 2 3 (by norm_num) le_rfl, constant, powers 0 2 (by norm_num) (by norm_num),
      powers (-1) 1 (by norm_num) (by norm_num), powers 7 0 (by norm_num) (by norm_num)⟩
  obtain ⟨g, F, derived, integrated, function⟩ :=
    (derive_inverse f).1 (by decide +kernel) plain integers (by decide +kernel)
  obtain ⟨g', derived', composed⟩ := (derive_inverse f).2 1 g derived 1 2 le_rfl (by decide)
  obtain rfl := Except.ok.inj (derived.symm.trans derived')
  obtain ⟨h, second, together⟩ := composed.mpr plain
  have third : (f.derive 3).map Equation.text = .ok "y''''=12" := by decide +kernel
  have orders : f.derive 3 = .ok h := together
  rw [orders] at third
  refine ⟨f, g, F, h, read, derived, integrated, ?_, second, orders, Except.ok.inj third⟩
  rw [function]
  decide +kernel

/-- Under the label `y` with a line break behind it, the derivative of `x^3` is `3x^2`. It has no label any more,
and so its derivative is that of `-3x^2+y`, while the second derivative of `x^3` is `6x`. -/
theorem derive_lineBreak : ∃ f g h : Equation, Member.parse "y\n" = .ok f.left ∧ Member.parse "x^3" = .ok f.right ∧
    f.isExplicit = true ∧ f.derive 1 = .ok g ∧ g.derive 1 = .ok h ∧ h.text = "y'=-6x+1" ∧
    (f.derive 2).map Equation.text = .ok "y\n''=6x" := by
  let power (a k : ℤ) : Term := ⟨.ofInt a, some { letter := "x", exponent := .ofInt k }⟩
  let mark : Term := ⟨.ofInt 1, some (.label "y\n'")⟩
  let f : Equation := ⟨⟨[⟨.ofInt 1, some (.ofLetter "y\n")⟩]⟩, ⟨[power 1 3]⟩⟩
  let g : Equation := ⟨⟨[mark]⟩, ⟨[power 3 2]⟩⟩
  have derived : f.derive 1 = .ok g := by decide +kernel
  have collected : Member.simplify ⟨g.left.terms ++ g.right.negated.terms⟩ = ⟨[mark, power (-3) 2]⟩ := by
    decide +kernel
  have below : mark.exponent.lt (power (-3) 2).exponent = true := by decide +kernel
  have sorted : Member.normalize ⟨[mark, power (-3) 2]⟩ = ⟨[power (-3) 2, mark]⟩ := by
    simp [Member.normalize, List.mergeSort, List.MergeSort.Internal.splitInTwo, below]
  have hg : g.polynomial = .ok ⟨[power (-3) 2, mark]⟩ := by
    rw [polynomial, if_neg (by decide +kernel), if_neg (by decide +kernel), collected, sorted]
  have second := derive_eq_ok hg (n := 1) le_rfl
  exact ⟨f, g, _, by decide +kernel, by decide +kernel, by decide +kernel, derived, second, by decide +kernel,
    by decide +kernel⟩

end Equation

end FunctionStudy
