import FunctionStudy.Evaluation
import FunctionStudy.Proofs.Member.Printing
import FunctionStudy.Proofs.Ruffini.Division

/-! The zero test and the division see the same polynomial unless a numeral takes the letter behind
it for a part of itself: `2e+5` is read as a number, `3j` as an imaginary one. -/

namespace FunctionStudy

/-- The zero test on the printed coefficients answers at `x` whether dividing by `x` leaves
nothing. -/
def ZeroTestAgrees (l : Char) (cs : List Binary64) (x : ℚ) : Prop :=
  ∃ answer division remainder,
    isZero (Member.ofCoefficients cs (String.singleton l)).text (.exact x) (String.singleton l) =
      .ok answer ∧
    syntheticDivision (cs.map .double) (.exact x) = .ok division ∧
    division.sums.getLast? = some remainder ∧
    (answer = true ↔ remainder = 0)

/-- Whether every written numeral ends before the letter behind it: none stands before `j`, and
the linear one stands before `e` only if no constant follows. -/
def isLegible (l : Char) : List Binary64 → Bool
  | c :: d :: rest =>
    (c.isZero || c.abs.same (.ofInt 1) ||
      (l != 'j' && l != 'J' && (l != 'e' && l != 'E' || !rest.isEmpty || d.isZero))) &&
      isLegible l (d :: rest)
  | _ => true

theorem isLegible_of_letter {l : Char} (h : l ∉ numeralLetters) (cs : List Binary64) :
    isLegible l cs = true := by
  simp only [numeralLetters, List.mem_cons, List.not_mem_nil, or_false, not_or] at h
  obtain ⟨lower, upper, small, large⟩ := h
  induction cs with
  | nil => rfl
  | cons c cs ih =>
    cases cs with
    | nil => rfl
    | cons d rest => simp [isLegible, lower, upper, small, large, ih]

/-- A letter that is an exponent mark only before digits ends a numeral elsewhere. -/
theorem Numeral.endsBefore_of_no_digits {l : Char} (hl : l.isAlpha = true) {after : List Char}
    (h : (Decimal.splitSign after).2.takeWhile Char.isDigit = []) : EndsBefore (l :: after) := by
  have point : l ≠ '.' := by rintro rfl; exact absurd hl (by decide)
  exact ⟨by simp [isDigit_of_isAlpha hl, point], by simp [Formula.scale, h]⟩

/-- The letter of the linear term ends a numeral if it is no exponent mark or no constant follows,
and that of a higher power does anyway. -/
theorem Prints.endsBefore {l : Char} (hl : l.isAlpha = true) {d : Binary64} {rest : List Binary64}
    {ts : List SignedText} (h : Prints l (d :: rest) ts)
    (mark : ((l ≠ 'e' ∧ l ≠ 'E') ∨ rest.isEmpty = false) ∨ d.isZero = true) :
    Numeral.EndsBefore (l :: (TermText.exponentChars (d :: rest).length ++
      ts.flatMap SignedText.chars)) := by
  by_cases linear : (d :: rest).length = 1
  · obtain rfl : rest = [] := by simpa using linear
    rcases mark with (plain | longer) | vanishes
    · have point : l ≠ '.' := by rintro rfl; exact absurd hl (by decide)
      exact Numeral.endsBefore_cons (isDigit_of_isAlpha hl) point plain
    · cases longer
    · apply Numeral.endsBefore_of_no_digits hl
      obtain rfl : ts = [] := by
        cases h with
        | zero _ empty => cases empty; rfl
        | term value nonzero => exact absurd ((Binary64.isZero_iff value).mp vanishes) nonzero
      rfl
  · apply Numeral.endsBefore_of_no_digits hl
    rw [TermText.exponentChars, if_neg linear]
    rfl

theorem Prints.areSeparated {l : Char} (hl : l.isAlpha = true) {cs : List Binary64}
    {ts : List SignedText} (h : Prints l cs ts) (legible : isLegible l cs = true) :
    AreSeparated ts := by
  induction h with
  | nil => trivial
  | @zero c rest ts hz _ ih =>
    cases rest with
    | nil => exact ih rfl
    | cons d rest =>
      rw [isLegible, Bool.and_eq_true] at legible
      exact ih legible.2
  | @term c rest ts v n hv nonzero hn hk others ih =>
    cases rest with
    | nil => exact ⟨trivial, ih rfl⟩
    | cons d rest =>
      rw [isLegible, Bool.and_eq_true] at legible
      obtain ⟨first, more⟩ := legible
      refine ⟨?_, ih more⟩
      have positive : (d :: rest).length ≠ 0 := by simp
      simp only [Term.textOf, if_neg positive]
      by_cases unit : |v| = 1
      · simp [unit, TermText.IsSeparated]
      have notZero : c.isZero = false := by
        rw [← Bool.not_eq_true, Binary64.isZero_iff hv]; exact nonzero
      have notUnit : c.abs.same (.ofInt 1) = false := by
        rw [← Bool.not_eq_true, Binary64.same_iff (Binary64.toRat?_abs hv)
          (Binary64.toRat?_ofInt (n := 1) (by norm_num))]
        simpa using unit
      simp only [notZero, notUnit, Bool.false_or, Bool.and_eq_true, Bool.or_eq_true, bne_iff_ne,
        Bool.not_eq_true'] at first
      obtain ⟨⟨small, large⟩, mark⟩ := first
      simpa [unit, TermText.IsSeparated] using ⟨others.endsBefore hl mark, small, large⟩

theorem isZero_of_value {text letter : String} {c : Formula.Collected} {x v : ℚ}
    (hc : compile text letter = .ok c) (hv : c.valueAt x = .rational v) :
    isZero text (.exact x) letter = .ok (decide (v = 0)) := by
  have value : (c.valueAt x).isZero = decide (v = 0) := by rw [hv]; rfl
  rw [isZero, hc, ← value]
  rfl

theorem zeroTestAgrees_of_isLegible {l : Char} (hl : l.isAlpha = true) {cs : List Binary64}
    (nonempty : cs ≠ []) (finite : ∀ c ∈ cs, c.isFinite = true) (exponents : HasDoubleExponents cs)
    (legible : isLegible l cs = true) (x : ℚ) : ZeroTestAgrees l cs x := by
  obtain ⟨ts, printed⟩ := Prints.exists_of_finite (l := l) finite exponents
  obtain ⟨ws, c, exact, length, compiled, value⟩ :=
    printed.compile_text hl (printed.areSeparated hl legible)
  cases ws with
  | nil => exact absurd (List.length_eq_zero_iff.mp length.symm) nonempty
  | cons first others =>
    exact ⟨_, _, _, isZero_of_value compiled (value x), syntheticDivision_eq exact x,
      getLast?_sumsAfter x first others, decide_eq_true_iff⟩

section Illegible

variable {l : Char}

theorem prints_pair {a b : ℤ} (ha : |a| ≤ 2 ^ 53) (hb : |b| ≤ 2 ^ 53) (unit : ¬ |(a : ℚ)| = 1)
    (a0 : a ≠ 0) (b0 : b ≠ 0) :
    Prints l [.ofInt a, .ofInt b]
      [⟨decide (a < 0), .power (some (.ofNat a.natAbs)) l 1⟩,
        ⟨decide (b < 0), .constant (.ofNat b.natAbs)⟩] := by
  have va := Binary64.toRat?_ofInt ha
  have vb := Binary64.toRat?_ofInt hb
  have sa : decide ((a : ℚ) < 0) = decide (a < 0) := by simp
  have sb : decide ((b : ℚ) < 0) = decide (b < 0) := by simp
  have na := Decimal.toList_plainText_intCast va
  have nb := Decimal.toList_plainText_intCast vb
  rw [← sa] at na
  rw [← sb] at nb
  have last := Prints.term (l := l) vb (by exact_mod_cast b0) nb (isDouble_of_le (by simp)) .nil
  have both := Prints.term va (by exact_mod_cast a0) na (isDouble_of_le (by simp)) last
  simpa [Term.textOf, unit, sa, sb] using both

theorem not_zeroTestAgrees {cs : List Binary64} {first : ℚ} {others : List ℚ} {x : ℚ}
    {c : Formula.Collected}
    (compiled : compile (Member.ofCoefficients cs (String.singleton l)).text (String.singleton l) =
      .ok c)
    (nonzero : (c.valueAt x).isZero = false)
    (exact : cs.mapM Decimal.exact = .ok (first :: others))
    (root : denseValue (first :: others) x = 0) : ¬ ZeroTestAgrees l cs x := by
  rintro ⟨answer, division, remainder, test, divided, last, agree⟩
  have answered : isZero (Member.ofCoefficients cs (String.singleton l)).text (.exact x)
      (String.singleton l) = .ok false := by
    rw [isZero, compiled, ← nonzero]
    rfl
  rw [answered] at test
  rw [syntheticDivision_eq exact] at divided
  cases test
  cases divided
  rw [divideSynthetically, getLast?_sumsAfter, root] at last
  exact absurd (agree.mpr (Option.some.inj last).symm) (by decide)

theorem exact_pair {a b : ℤ} (ha : |a| ≤ 2 ^ 53) (hb : |b| ≤ 2 ^ 53) :
    [Binary64.ofInt a, .ofInt b].mapM Decimal.exact = .ok [(a : ℚ), (b : ℚ)] := by
  simp only [List.mapM_cons, List.mapM_nil, Decimal.exact_intCast (Binary64.toRat?_ofInt ha),
    Decimal.exact_intCast (Binary64.toRat?_ofInt hb)]
  rfl

theorem text_pair {a b : ℤ} {ts : List SignedText} (h : Prints l [.ofInt a, .ofInt b] ts) :
    (Member.ofCoefficients [.ofInt a, .ofInt b] (String.singleton l)).text =
      String.ofList (sumChars ts) := by
  rw [← h.toList_text, String.ofList_toList]

theorem parse?_of_scan {u : String} {cs : List Char} (ts : List Formula.Token) {f : Formula}
    (scanned : Formula.scan u cs.length cs = some ts)
    (read : Formula.readSum (Formula.readGroup ts.length) ts.length ts = some (f, [])) :
    Formula.parse? u (String.ofList cs) = some f := by
  have tokens : Formula.tokens? u (String.ofList cs) = some ts := by
    rw [Formula.tokens?, String.toList_ofList, String.length_ofList, scanned]
  simp [Formula.parse?, tokens, read]

/-- `2e+5` is one number. -/
theorem not_zeroTestAgrees_exponent (h : l = 'e' ∨ l = 'E') :
    ¬ ZeroTestAgrees l [.ofInt 2, .ofInt 5] (-5 / 2) := by
  have printed := prints_pair (l := l) (a := 2) (b := 5) (by norm_num) (by norm_num) (by norm_num)
    (by norm_num) (by norm_num)
  have text : Formula.parse? (String.singleton l)
      (Member.ofCoefficients [.ofInt 2, .ofInt 5] (String.singleton l)).text =
        some (.number 200000) := by
    rw [text_pair printed]
    rcases h with rfl | rfl
    · exact parse?_of_scan [.number 200000] (by decide +kernel) rfl
    · exact parse?_of_scan [.number 200000] (by decide +kernel) rfl
  obtain ⟨c, compiled, value⟩ := Formula.compile_of_means text (Formula.means_number 200000)
  apply not_zeroTestAgrees compiled (by rw [value]; rfl) (exact_pair (by norm_num) (by norm_num))
  norm_num [denseValue]

/-- `2j-4` is an imaginary number less 4. -/
theorem not_zeroTestAgrees_imaginary (h : l = 'j' ∨ l = 'J') :
    ¬ ZeroTestAgrees l [.ofInt 2, .ofInt (-4)] 2 := by
  have printed := prints_pair (l := l) (a := 2) (b := -4) (by norm_num) (by norm_num) (by norm_num)
    (by norm_num) (by norm_num)
  let read : Formula := .sum (.product (.number 2) (.symbol .imaginaryUnit)) (.negate (.number 4))
  have text : Formula.parse? (String.singleton l)
      (Member.ofCoefficients [.ofInt 2, .ofInt (-4)] (String.singleton l)).text = some read := by
    rw [text_pair printed]
    rcases h with rfl | rfl
    · exact parse?_of_scan [.number 2, .symbol .imaginaryUnit, .minus, .number 4]
        (by decide +kernel) rfl
    · exact parse?_of_scan [.number 2, .symbol .imaginaryUnit, .minus, .number 4]
        (by decide +kernel) rfl
  let collected : Formula.Polynomial := [(.ofSymbol .imaginaryUnit, 2), (.one, -4)]
  have collect : read.collect = .polynomial collected := by decide +kernel
  have letters : Formula.Collected.letters (.polynomial collected) = [] := rfl
  have compiled : compile (Member.ofCoefficients [.ofInt 2, .ofInt (-4)] (String.singleton l)).text
      (String.singleton l) = .ok (.polynomial collected) := by
    simp [compile, text, collect, letters, sortedLetters]
  apply not_zeroTestAgrees compiled (by decide +kernel) (exact_pair (by norm_num) (by norm_num))
  norm_num [denseValue]

end Illegible

/-- The zero test agrees with the division for all coefficients exactly when the letter is none of
`e`, `E`, `j` and `J`; for these it still agrees where the text is legible. -/
theorem zeroTestAgrees_iff_letter {l : Char} (hl : l.isAlpha = true) :
    ((∀ cs : List Binary64, cs ≠ [] → (∀ c ∈ cs, c.isFinite = true) → HasDoubleExponents cs →
        ∀ x, ZeroTestAgrees l cs x) ↔ l ∉ numeralLetters) ∧
      ∀ cs : List Binary64, cs ≠ [] → (∀ c ∈ cs, c.isFinite = true) → HasDoubleExponents cs →
        isLegible l cs = true → ∀ x, ZeroTestAgrees l cs x := by
  refine ⟨⟨fun agrees listed => ?_, fun plain cs nonempty finite exponents x => ?_⟩, ?_⟩
  · have pair : ∀ a b : ℤ, |a| ≤ 2 ^ 53 → |b| ≤ 2 ^ 53 → ∀ x, ZeroTestAgrees l [.ofInt a, .ofInt b] x := by
      intro a b ha hb
      apply agrees _ (by simp)
      · intro c hc
        simp only [List.mem_cons, List.not_mem_nil, or_false] at hc
        rcases hc with rfl | rfl
        · rw [Binary64.isFinite, Binary64.toRat?_ofInt ha, Option.isSome_some]
        · rw [Binary64.isFinite, Binary64.toRat?_ofInt hb, Option.isSome_some]
      · exact hasDoubleExponents_of_length_le (by simp)
    simp only [numeralLetters, List.mem_cons, List.not_mem_nil, or_false] at listed
    rcases listed with mark | mark | unit | unit
    · exact not_zeroTestAgrees_exponent (.inl mark) (pair 2 5 (by norm_num) (by norm_num) _)
    · exact not_zeroTestAgrees_exponent (.inr mark) (pair 2 5 (by norm_num) (by norm_num) _)
    · exact not_zeroTestAgrees_imaginary (.inl unit) (pair 2 (-4) (by norm_num) (by norm_num) _)
    · exact not_zeroTestAgrees_imaginary (.inr unit) (pair 2 (-4) (by norm_num) (by norm_num) _)
  · exact zeroTestAgrees_of_isLegible hl nonempty finite exponents (isLegible_of_letter plain cs) x
  · intro cs nonempty finite exponents legible x
    exact zeroTestAgrees_of_isLegible hl nonempty finite exponents legible x

theorem zeroTestAgrees_linear_x : 'x'.isAlpha = true ∧ 'x' ∉ numeralLetters ∧
    ZeroTestAgrees 'x' [.ofInt 2, .ofInt 5] (-5 / 2) :=
  ⟨by decide, by decide, (zeroTestAgrees_iff_letter (by decide)).1.mpr (by decide) _ (by simp)
    (by decide +kernel) (hasDoubleExponents_of_length_le (by simp)) _⟩

theorem not_zeroTestAgrees_linear_e : ¬ ZeroTestAgrees 'e' [.ofInt 2, .ofInt 5] (-5 / 2) :=
  not_zeroTestAgrees_exponent (.inl rfl)

end FunctionStudy
