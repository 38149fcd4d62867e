import FunctionStudy.Proofs.Grammar.Powers
import FunctionStudy.Proofs.Solution.RootCount

/-! Multiples of a quadratic equation have the same roots, but not always the same number of them in
the answer: the discriminant is multiplied by a square and compared with a tolerance that stays. -/

namespace FunctionStudy

section Reading

variable {l : Char} {k : ℕ} {v : ℚ} {x : Binary64}

namespace Binary64

theorem zero_add_eq (x : Binary64) : zero.add x = x.unsignedZero := by
  cases hx : x.toRat? with
  | some a =>
    refine zero_add_of_finite ?_
    rw [isFinite, hx, Option.isSome_some]
  | none => cases x <;> first | rfl | cases hx

end Binary64

namespace TermSpelling

/-- The number that is written as coefficient, not rounded. -/
def exactCoefficient (t : TermSpelling) : ℚ :=
  match t.body with
  | .number n => (n.decimal (t.sign.getD false)).toRat
  | .power none _ => if t.sign.getD false then -1 else 1
  | .power (some n) _ => (n.decimal (t.sign.getD false)).toRat

/-- The number that is written as exponent, not rounded. -/
def exactExponent (t : TermSpelling) : ℚ :=
  match t.body with
  | .number _ => 0
  | .power _ l => (l.exponent.map fun e => (e.decimal false).toRat).getD 1

theorem unsignedZero_coefficient (t : TermSpelling) :
    t.term.coefficient.unsignedZero = (Binary64.round t.exactCoefficient).unsignedZero := by
  obtain ⟨sign, body⟩ := t
  cases body with
  | number n => exact Decimal.unsignedZero_toBinary64 _
  | power n l =>
    cases n with
    | some n => exact Decimal.unsignedZero_toBinary64 _
    | none =>
      change (Binary64.round ((if sign.getD false then -1 else 1 : ℤ) : ℚ)).unsignedZero =
        (Binary64.round (if sign.getD false then -1 else 1)).unsignedZero
      split_ifs <;> norm_num

theorem toRat?_exponent (t : TermSpelling) (h : OnGrid t.exactExponent) :
    t.term.exponent.toRat? = some t.exactExponent := by
  obtain ⟨sign, body⟩ := t
  cases body with
  | number n => rfl
  | power n l =>
    obtain ⟨letter, isAlpha, marks, isMark, exponent⟩ := l
    cases exponent with
    | none => exact_mod_cast Binary64.toRat?_ofInt (n := 1) (by norm_num)
    | some e =>
      change OnGrid (e.decimal false).toRat at h
      have read := congrArg Binary64.toRat? (Decimal.unsignedZero_toBinary64 (e.decimal false))
      rw [Binary64.toRat?_unsignedZero_eq, Binary64.toRat?_unsignedZero_eq, Binary64.toRat?_round h] at read
      exact read

end TermSpelling

namespace SideSpelling

/-- The exact coefficient of an exponent. -/
def exactAt (s : SideSpelling) (k : ℚ) : ℚ :=
  ((s.terms.filter fun t => t.exactExponent = k).map TermSpelling.exactCoefficient).sum

/-- Terms of degree at most 2 in the letter, at most one for each exponent, in any order. -/
structure IsQuadraticIn (l : Char) (s : SideSpelling) : Prop where
  letter : ∀ t ∈ s.terms, ∀ m ∈ t.body.literal, m.letter = String.singleton l
  exponent : ∀ t ∈ s.terms, ∃ k : ℕ, k ≤ 2 ∧ t.exactExponent = k
  once : (s.terms.map TermSpelling.exactExponent).Nodup

variable {s : SideSpelling}

theorem IsQuadraticIn.isIn (h : s.IsQuadraticIn l) :
    s.member.IsIn l ∧ s.member.writtenDegree ≤ 2 ∧
      ∀ t ∈ s.terms, (t.term.natExponent : ℚ) = t.exactExponent := by
  have value : ∀ t ∈ s.terms, ∃ k : ℕ, k ≤ 2 ∧ t.exactExponent = k ∧ t.term.exponent.toRat? = some (k : ℚ) := by
    intro t ht
    obtain ⟨k, small, exponent⟩ := h.exponent t ht
    refine ⟨k, small, exponent, ?_⟩
    rw [← exponent]
    refine t.toRat?_exponent ?_
    rw [exponent]
    exact_mod_cast onGrid_intCast (n := k) (by rw [abs_of_nonneg (by omega)]; omega)
  have natural : ∀ t ∈ s.terms, t.term.natExponent ≤ 2 ∧ (t.term.natExponent : ℚ) = t.exactExponent := by
    intro t ht
    obtain ⟨k, small, exponent, read⟩ := value t ht
    have same : t.term.natExponent = k := Term.natExponent_eq read
    rw [same, exponent]
    exact ⟨small, rfl⟩
  refine ⟨fun u hu m hm => ?_, ?_, fun t ht => (natural t ht).2⟩
  · obtain ⟨t, ht, rfl⟩ := List.mem_map.mp hu
    have literal : m ∈ t.body.literal := hm
    refine ⟨h.letter t ht m literal, ?_, ?_⟩
    · obtain ⟨sign, body⟩ := t
      cases body with
      | number n => cases literal
      | power n l =>
        obtain rfl := Option.mem_some.mp literal
        rfl
    · obtain ⟨k, -, -, read⟩ := value t ht
      rw [Term.exponent, Option.mem_def.mp hm] at read
      exact ⟨k, read⟩
  · rw [Member.writtenDegree_le_iff]
    intro u hu
    obtain ⟨t, ht, rfl⟩ := List.mem_map.mp hu
    exact (natural t ht).1

theorem IsQuadraticIn.filter_terms (h : s.IsQuadraticIn l) (k : ℕ) :
    (s.member.terms.filter fun t => t.natExponent = k) =
        (s.terms.filter fun t => t.exactExponent = (k : ℚ)).map TermSpelling.term ∧
      (s.terms.filter fun t => t.exactExponent = (k : ℚ)).length ≤ 1 := by
  obtain ⟨-, -, exponents⟩ := h.isIn
  have same : s.terms.filter ((fun t : Term => decide (t.natExponent = k)) ∘ TermSpelling.term) =
      s.terms.filter fun t => decide (t.exactExponent = (k : ℚ)) :=
    List.filter_congr fun t ht => by simp [← exponents t ht]
  constructor
  · change (s.terms.map TermSpelling.term).filter _ = _
    rw [List.filter_map, same]
  · have counted := List.nodup_iff_count_le_one.mp h.once k
    rw [List.count_eq_countP, List.countP_map, List.countP_eq_length_filter] at counted
    refine le_trans (le_of_eq (congrArg List.length (List.filter_congr fun t _ => ?_))) counted
    rw [Function.comp_apply, beq_eq_decide]

/-- A coefficient is read as the nearest double; a missing one is zero. -/
theorem IsQuadraticIn.likeSum_member (h : s.IsQuadraticIn l) (k : ℕ) :
    s.member.likeSum k = (Binary64.round (s.exactAt k)).unsignedZero := by
  obtain ⟨same, single⟩ := h.filter_terms k
  rw [Member.likeSum, same, exactAt, List.map_map]
  cases like : s.terms.filter fun t => decide (t.exactExponent = (k : ℚ)) with
  | nil => decide +kernel
  | cons t rest =>
    rw [like, List.length_cons] at single
    obtain rfl : rest = [] := List.length_eq_zero_iff.mp (by omega)
    rw [List.map_singleton, List.map_singleton, List.sum_singleton, ← t.unsignedZero_coefficient]
    exact Binary64.zero_add_eq _

end SideSpelling

end Reading

section Texts

variable {text scaled : String} {a b c k : ℚ}

/-- The text says `a * l ^ 2 + b * l + c = 0` in a letter `l`, with decimals that are exactly these
numbers. What is not written is 0. -/
def WritesQuadratic (text : String) (a b c : ℚ) : Prop :=
  ∃ (l : Char) (s : SideSpelling), l ≠ 'y' ∧ s.IsQuadraticIn l ∧
    (Text.stripBlanks text).toList = s.chars ++ ['=', '0'] ∧
    s.exactAt 2 = a ∧ s.exactAt 1 = b ∧ s.exactAt 0 = c

/-- A coefficient as it is read. -/
def readCoefficient (v : ℚ) : Binary64 := (Binary64.round v).unsignedZero

/-- The discriminant that is computed from the coefficients that are read. -/
def readDiscriminant (a b c : ℚ) : Binary64 :=
  discriminant (readCoefficient a) (readCoefficient b) (readCoefficient c)

/-- Reads a text and solves the equation on the horizontal axis, with the settings that nobody
changed. -/
def solveText (text : String) : Work EquationSolution :=
  Work.ofExcept (Equation.ofText text) >>= fun f => solve .defaults "y=0" 0 f none

theorem Settings.isZero_readCoefficient {settings : Settings} (tells : settings.TellsIntegers)
    (h : settings.isZero (.round a) = false) : settings.isZero (readCoefficient a) = false := by
  rw [readCoefficient, Binary64.unsignedZero_eq_self]
  · exact h
  · intro zero
    have nonzero := tells.isZero_of_isZero h
    rw [zero] at nonzero
    cases nonzero

theorem Equation.ofText_eqZero {s : SideSpelling} (chars : (Text.stripBlanks text).toList = s.chars ++ ['=', '0']) :
    Equation.ofText text = .ok ⟨s.member, ⟨[.constant .zero]⟩⟩ := by
  have equals : text.toList.contains '=' = true := by
    have kept : '=' ∈ (Text.stripBlanks text).toList := by simp [chars]
    rw [Text.toList_stripBlanks] at kept
    simpa using List.mem_of_mem_filter kept
  rw [Equation.ofText, equals, if_pos rfl]
  refine (Equation.parse_chars (s := ⟨s, .zero⟩) chars).trans ?_
  rw [EquationSpelling.equation, SideSpelling.member_zero]

theorem solveText_hasRootCount (written : WritesQuadratic text a b c)
    (leading : Settings.defaults.isZero (.round a) = false) :
    (solveText text).Returns fun s => s.HasRootCount (rootCount .defaults (readDiscriminant a b c)) := by
  obtain ⟨l, s, hl, quadratic, chars, rfl, rfl, rfl⟩ := written
  have tells := Settings.tellsIntegers_defaults
  obtain ⟨inLetter, degree, -⟩ := quadratic.isIn
  have two : s.member.likeSum 2 = readCoefficient (s.exactAt 2) := quadratic.likeSum_member 2
  have one : s.member.likeSum 1 = readCoefficient (s.exactAt 1) := mod_cast quadratic.likeSum_member 1
  have zero : s.member.likeSum 0 = readCoefficient (s.exactAt 0) := mod_cast quadratic.likeSum_member 0
  refine Work.Returns.ofExcept_bind (Equation.ofText_eqZero chars) ?_
  have solved := solve_hasRootCount tells (by decide) hl inLetter degree
    (by rw [two]; exact Settings.isZero_readCoefficient tells leading) 0
  rw [two, one, zero] at solved
  exact solved

end Texts

section Scaling

variable {text scaled : String} {a b c k : ℚ}

theorem exists_readCoefficient (h : IsModerate 400 a) :
    ∃ u, (readCoefficient a).toRat? = some u ∧ IsWithin 1 u a := by
  rw [readCoefficient, Binary64.toRat?_unsignedZero_eq]
  exact Binary64.exists_round_isWithin (h.mono (by decide))

theorem exists_readDiscriminant (ha : IsModerate 400 a) (hb : IsModerate 400 b) (hc : IsModerate 400 c) :
    ∃ d, (readDiscriminant a b c).toRat? = some d ∧
      |d - (b ^ 2 - 4 * a * c)| ≤ discriminantError a b c := by
  obtain ⟨u, hu, nearA⟩ := exists_readCoefficient ha
  obtain ⟨v, hv, nearB⟩ := exists_readCoefficient hb
  obtain ⟨w, hw, nearC⟩ := exists_readCoefficient hc
  exact exists_discriminant hu hv hw nearA nearB nearC ha hb hc

theorem discriminantError_scaled (a b c k : ℚ) :
    discriminantError (k * a) (k * b) (k * c) = k ^ 2 * discriminantError a b c := by
  have product : k * a * (k * c) = k ^ 2 * (a * c) := by ring
  rw [discriminantError, discriminantError, product, abs_mul, abs_of_nonneg (sq_nonneg k)]
  ring

/-- The discriminant stays on its side of the tolerance when the equation is multiplied by `k`, by more
than the error that its computation may have. -/
def StaysApart (tolerance a b c k : ℚ) : Prop :=
  let size := |b ^ 2 - 4 * a * c|
  let error := discriminantError a b c
  (size + error ≤ tolerance ∧ k ^ 2 * (size + error) ≤ tolerance) ∨
    (tolerance + error < size ∧ tolerance + k ^ 2 * error < k ^ 2 * size)

theorem rootCount_scaled {settings : Settings} {t : ℚ} (tolerance : settings.zeroTolerance.toRat? = some t)
    (nonneg : 0 ≤ t) (moderate : ∀ v ∈ [a, b, c, k * a, k * b, k * c], IsModerate 400 v)
    (apart : StaysApart t a b c k) :
    rootCount settings (readDiscriminant a b c) =
      rootCount settings (readDiscriminant (k * a) (k * b) (k * c)) := by
  simp only [List.forall_mem_cons] at moderate
  obtain ⟨ha, hb, hc, hka, hkb, hkc, -⟩ := moderate
  obtain ⟨d, hd, near⟩ := exists_readDiscriminant ha hb hc
  obtain ⟨d', hd', near'⟩ := exists_readDiscriminant hka hkb hkc
  have scale : (k * b) ^ 2 - 4 * (k * a) * (k * c) = k ^ 2 * (b ^ 2 - 4 * a * c) := by ring
  have size : |k ^ 2 * (b ^ 2 - 4 * a * c)| = k ^ 2 * |b ^ 2 - 4 * a * c| := by
    rw [abs_mul, abs_of_nonneg (sq_nonneg k)]
  rw [scale, discriminantError_scaled] at near'
  rcases apart with ⟨small, small'⟩ | ⟨large, large'⟩
  · rw [rootCount_of_abs_add_le tolerance hd near small,
      rootCount_of_abs_add_le tolerance hd' near' (by rw [size, ← mul_add]; exact small')]
  · have square : 0 < k ^ 2 := by
      rcases (sq_nonneg k).eq_or_lt with zero | positive
      · rw [← zero, zero_mul, zero_mul, add_zero] at large'
        exact absurd large' nonneg.not_gt
      · exact positive
    have sign : k ^ 2 * (b ^ 2 - 4 * a * c) < 0 ↔ b ^ 2 - 4 * a * c < 0 :=
      ⟨fun negative => (pos_iff_neg_of_mul_neg negative).mp square, mul_neg_of_pos_of_neg square⟩
    rw [rootCount_of_add_lt tolerance nonneg hd near large,
      rootCount_of_add_lt tolerance nonneg hd' near' (by rw [size]; exact large')]
    simp only [sign]

/-- Two texts for an equation of degree 2 and for its multiple by `k` are both read and solved. The
answers have the same status and the same number of roots exactly if both computed discriminants allow
the same number of roots under the tolerance, and this they do wherever the exact discriminant stays
on one side of the tolerance by more than the rounding error. -/
theorem scaled_quadratic_same_count (written : WritesQuadratic text a b c)
    (multiple : WritesQuadratic scaled (k * a) (k * b) (k * c))
    (leading : Settings.defaults.isZero (.round a) = false)
    (scaledLeading : Settings.defaults.isZero (.round (k * a)) = false) (start start' : Notebook)
    (layout layout' : Layout) :
    ∃ s after s' after', (solveText text).runFrom start layout = (.ok s, after) ∧
      (solveText scaled).runFrom start' layout' = (.ok s', after') ∧
      (s.status = s'.status ∧ s.results.length = s'.results.length ↔
        rootCount .defaults (readDiscriminant a b c) =
          rootCount .defaults (readDiscriminant (k * a) (k * b) (k * c))) ∧
      ((∀ v ∈ [a, b, c, k * a, k * b, k * c], IsModerate 400 v) →
        StaysApart Settings.defaults.zeroTolerance.toRat a b c k →
        s.status = s'.status ∧ s.results.length = s'.results.length) := by
  obtain ⟨s, after, run, count⟩ := solveText_hasRootCount written leading start layout
  obtain ⟨s', after', run', count'⟩ := solveText_hasRootCount multiple scaledLeading start' layout'
  obtain ⟨t, tolerance, nonneg, -⟩ := Settings.tellsIntegers_defaults
  refine ⟨s, after, s', after', run, run', count.eq_iff count', fun moderate apart => ?_⟩
  rw [Binary64.toRat_eq tolerance] at apart
  exact (count.eq_iff count').mpr (rootCount_scaled tolerance nonneg moderate apart)

end Scaling

section Squares

def SideSpelling.squareDifference (factor : Option NumberSpelling) (subtrahend : NumberSpelling) :
    SideSpelling where
  first := ⟨none, .power factor ⟨'x', by decide, [], by simp, some (Numeral.ofNat 2).spelling⟩⟩
  rest := [⟨some true, .number subtrahend⟩]
  signed := by simp

theorem SideSpelling.isQuadraticIn_squareDifference (factor : Option NumberSpelling)
    (subtrahend : NumberSpelling) : (squareDifference factor subtrahend).IsQuadraticIn 'x' where
  letter t ht m hm := by
    rcases List.mem_pair.mp ht with rfl | rfl
    · obtain rfl := Option.mem_some.mp hm
      rfl
    · cases hm
  exponent t ht := by
    rcases List.mem_pair.mp ht with rfl | rfl
    · have two : ((Numeral.ofNat 2).spelling.decimal false).toRat = (2 : ℕ) := by decide +kernel
      exact ⟨2, le_rfl, two⟩
    · exact ⟨0, by decide, rfl⟩
  once := by
    change [((Numeral.ofNat 2).spelling.decimal false).toRat, 0].Nodup
    decide +kernel

def tenMillionth : NumberSpelling :=
  .fixed (Numeral.spelling ⟨['0'], ['0', '0', '0', '0', '0', '0', '1'], by simp,
    List.all_eq_true.mp (by decide), List.all_eq_true.mp (by decide)⟩)

theorem writesQuadratic_square : WritesQuadratic "x^2-1=0" 1 0 (-1) :=
  ⟨'x', .squareDifference none (.fixed (Numeral.ofNat 1).spelling), by decide,
    SideSpelling.isQuadraticIn_squareDifference _ _, by decide +kernel, by decide +kernel, by decide +kernel,
    by decide +kernel⟩

/-- The double of `x^2-1=0` is solved alike. -/
theorem scaled_quadratic_same_count_twice :
    WritesQuadratic "2x^2-2=0" (2 * 1) (2 * 0) (2 * -1) ∧
      ∃ s after s' after', (solveText "x^2-1=0").runFrom .empty = (.ok s, after) ∧
        (solveText "2x^2-2=0").runFrom .empty = (.ok s', after') ∧
        s.status = s'.status ∧ s.results.length = s'.results.length := by
  have multiple : WritesQuadratic "2x^2-2=0" (2 * 1) (2 * 0) (2 * -1) :=
    ⟨'x', .squareDifference (some (.fixed (Numeral.ofNat 2).spelling)) (.fixed (Numeral.ofNat 2).spelling),
      by decide, SideSpelling.isQuadraticIn_squareDifference _ _, by decide +kernel, by decide +kernel,
      by decide +kernel, by decide +kernel⟩
  have moderate : ∀ v ∈ [1, 0, -1, 2 * 1, 2 * 0, 2 * -1], IsModerate 400 v := by
    have small : ∀ v ∈ [1, 0, -1, 2 * 1, 2 * 0, 2 * -1], IsModerate 1 v := by
      unfold IsModerate
      decide +kernel
    exact fun v hv => (small v hv).mono (by decide)
  have apart : StaysApart Settings.defaults.zeroTolerance.toRat 1 0 (-1) 2 := by
    unfold StaysApart discriminantError
    decide +kernel
  obtain ⟨s, after, s', after', run, run', -, same⟩ := scaled_quadratic_same_count writesQuadratic_square
    multiple (by decide +kernel) (by decide +kernel) .empty .empty .insertion .insertion
  exact ⟨multiple, s, after, s', after', run, run', same moderate apart⟩

/-- A ten-millionth of `x^2-1=0` has lost one of its two roots. -/
theorem scaled_quadratic_loses_root :
    WritesQuadratic "x^2-1=0" 1 0 (-1) ∧
      WritesQuadratic "0.0000001x^2-0.0000001=0" (1 / 10 ^ 7 * 1) (1 / 10 ^ 7 * 0) (1 / 10 ^ 7 * -1) ∧
      Settings.defaults.zeroTolerance.toRat < |1| ∧
      Settings.defaults.zeroTolerance.toRat < |1 / 10 ^ 7 * 1| ∧
      ∃ s after s' after', (solveText "x^2-1=0").runFrom .empty = (.ok s, after) ∧
        (solveText "0.0000001x^2-0.0000001=0").runFrom .empty = (.ok s', after') ∧
        s.results.length = 2 ∧ s'.results.length = 1 := by
  have multiple : WritesQuadratic "0.0000001x^2-0.0000001=0" (1 / 10 ^ 7 * 1) (1 / 10 ^ 7 * 0)
      (1 / 10 ^ 7 * -1) :=
    ⟨'x', .squareDifference (some tenMillionth) tenMillionth, by decide,
      SideSpelling.isQuadraticIn_squareDifference _ _, by decide +kernel, by decide +kernel,
      by decide +kernel, by decide +kernel⟩
  obtain ⟨s, after, run, two⟩ := solveText_hasRootCount writesQuadratic_square (by decide +kernel) .empty .insertion
  obtain ⟨s', after', run', one⟩ := solveText_hasRootCount multiple (by decide +kernel) .empty .insertion
  refine ⟨writesQuadratic_square, multiple, by decide +kernel, by decide +kernel, s, after, s', after', run,
    run', two.1.trans ?_, one.1.trans ?_⟩
  · decide +kernel
  · decide +kernel

end Squares

end FunctionStudy
