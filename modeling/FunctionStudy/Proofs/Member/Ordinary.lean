import FunctionStudy.Proofs.Decimal.Ordinary
import FunctionStudy.Proofs.Grammar.Powers
import FunctionStudy.Proofs.Member.OneLetter
import FunctionStudy.Proofs.Ruffini.Factoring

/-! Members of ordinary size. Collecting like terms keeps such a member, reading its text again
changes little, and the text has a rational value at every point. -/

namespace FunctionStudy

open Term (literalOf)

variable {l : Char} {r s k : ℕ}

namespace Member

/-- Powers of the letter below `2^53`, no two of them alike. -/
structure IsApartIn (l : Char) (p : Member) : Prop where
  isIn : p.IsIn l
  apart : p.terms.Pairwise fun t u => t.natExponent ≠ u.natExponent
  exponents : ∀ t ∈ p.terms, t.natExponent < 2 ^ 53

/-- The coefficients are of ordinary size. -/
structure IsOrdinaryIn (l : Char) (r : ℕ) (p : Member) : Prop extends IsApartIn l p where
  coefficients : ∀ t ∈ p.terms, t.coefficient.IsOrdinary r

/-- The literal parts are as they are written for their exponents: none for the exponent 0. -/
structure IsCanonicalIn (l : Char) (r : ℕ) (p : Member) : Prop extends IsOrdinaryIn l r p where
  literals : ∀ t ∈ p.terms, t.literal = literalOf l t.natExponent

/-- The highest power, if there is one at all, has a coefficient that is not zero. -/
def IsLed (p : Member) : Prop := 0 < p.writtenDegree → (p.likeSum p.writtenDegree).isZero = false

variable {p : Member} {t : Term}

section Sums

theorem IsOrdinaryIn.mono (h : p.IsOrdinaryIn l r) (le : r ≤ s) : p.IsOrdinaryIn l s :=
  { h with coefficients := fun t ht => (h.coefficients t ht).mono le }

theorem IsCanonicalIn.mono (h : p.IsCanonicalIn l r) (le : r ≤ s) : p.IsCanonicalIn l s :=
  { h.toIsOrdinaryIn.mono le with literals := h.literals }

theorem filter_natExponent_of_apart
    (apart : p.terms.Pairwise fun t u => t.natExponent ≠ u.natExponent) (ht : t ∈ p.terms) :
    p.terms.filter (fun u => u.natExponent = t.natExponent) = [t] := by
  have like := apart.filter fun u => decide (u.natExponent = t.natExponent)
  have own : t ∈ p.terms.filter fun u => u.natExponent = t.natExponent := by simp [ht]
  have same : ∀ u ∈ p.terms.filter fun u => u.natExponent = t.natExponent,
      u.natExponent = t.natExponent := fun u hu => by simpa using (List.mem_filter.mp hu).2
  generalize p.terms.filter (fun u => u.natExponent = t.natExponent) = us at *
  match us with
  | [u] => rw [List.mem_singleton.mp own]
  | u :: w :: _ =>
    refine absurd ?_ (List.rel_of_pairwise_cons like List.mem_cons_self)
    rw [same u (by simp), same w (by simp)]

theorem IsOrdinaryIn.likeSum_eq (h : p.IsOrdinaryIn l r) (ht : t ∈ p.terms) :
    p.likeSum t.natExponent = t.coefficient.unsignedZero := by
  rw [likeSum, filter_natExponent_of_apart h.apart ht]
  exact Binary64.zero_add_of_finite (h.coefficients t ht).isFinite

theorem likeSum_eq_zero (none : ∀ t ∈ p.terms, t.natExponent ≠ k) : p.likeSum k = .zero := by
  have empty : p.terms.filter (fun t => t.natExponent = k) = [] := by
    simpa [List.filter_eq_nil_iff] using none
  rw [likeSum, empty]
  rfl

theorem IsOrdinaryIn.likeSum_isOrdinary (h : p.IsOrdinaryIn l r) (k : ℕ) :
    (p.likeSum k).IsOrdinary r := by
  by_cases written : ∃ t ∈ p.terms, t.natExponent = k
  · obtain ⟨t, ht, rfl⟩ := written
    have value := Binary64.toRat?_of_finite (h.coefficients t ht).isFinite
    rw [h.likeSum_eq ht]
    exact (h.coefficients t ht).of_toRat? ((Binary64.toRat?_unsignedZero value).trans value.symm)
  · rw [likeSum_eq_zero fun t ht same => written ⟨t, ht, same⟩]
    exact Binary64.isOrdinary_zero r

/-- Powers of the letter below `2^53`, with sums of like terms of ordinary size. -/
structure HasOrdinarySums (l : Char) (r : ℕ) (p : Member) : Prop where
  isIn : p.IsIn l
  exponents : ∀ t ∈ p.terms, t.natExponent < 2 ^ 53
  coefficients : ∀ t ∈ p.terms, t.coefficient.IsBounded r
  sums : ∀ k, (p.likeSum k).IsOrdinary r

theorem IsOrdinaryIn.hasOrdinarySums (h : p.IsOrdinaryIn l r) : p.HasOrdinarySums l r where
  isIn := h.isIn
  exponents := h.exponents
  coefficients t ht := (h.coefficients t ht).isBounded
  sums := h.likeSum_isOrdinary

theorem HasOrdinarySums.mono (h : p.HasOrdinarySums l r) (le : r ≤ s) : p.HasOrdinarySums l s :=
  { h with coefficients := fun t ht => (h.coefficients t ht).mono le, sums := fun k => (h.sums k).mono le }

theorem exists_natExponent_eq (positive : 0 < p.writtenDegree) :
    ∃ t ∈ p.terms, t.natExponent = p.writtenDegree := by
  by_contra none
  have below : p.writtenDegree ≤ p.writtenDegree - 1 := by
    rw [writtenDegree_le_iff]
    intro t ht
    have le := natExponent_le_writtenDegree ht
    have ne : t.natExponent ≠ p.writtenDegree := fun same => none ⟨t, ht, same⟩
    omega
  omega

end Sums

section Collecting

theorem IsApartIn.normalize (h : p.IsApartIn l) : p.normalize.IsApartIn l where
  isIn := h.isIn.normalize
  apart := (List.mergeSort_perm p.terms _).symm.pairwise_iff Ne.symm |>.mp h.apart
  exponents t ht := h.exponents t (List.mem_mergeSort.mp ht)

theorem IsOrdinaryIn.normalize (h : p.IsOrdinaryIn l r) : p.normalize.IsOrdinaryIn l r where
  toIsApartIn := h.toIsApartIn.normalize
  coefficients t ht := h.coefficients t (List.mem_mergeSort.mp ht)

theorem IsCanonicalIn.normalize (h : p.IsCanonicalIn l r) : p.normalize.IsCanonicalIn l r :=
  { h.toIsOrdinaryIn.normalize with literals := fun t ht => h.literals t (List.mem_mergeSort.mp ht) }

theorem IsIn.isLed_normalize (h : p.IsIn l) (led : p.IsLed) : p.normalize.IsLed := by
  rw [IsLed, writtenDegree_normalize, h.likeSum_normalize]
  exact led

theorem HasOrdinarySums.normalize (h : p.HasOrdinarySums l r) : p.normalize.HasOrdinarySums l r where
  isIn := h.isIn.normalize
  exponents t ht := h.exponents t (List.mem_mergeSort.mp ht)
  coefficients t ht := h.coefficients t (List.mem_mergeSort.mp ht)
  sums k := h.isIn.likeSum_normalize k ▸ h.sums k

theorem IsIn.simplify_isCanonicalIn (h : p.IsIn l) (exponents : ∀ t ∈ p.terms, t.natExponent < 2 ^ 53)
    (sums : ∀ k, (p.likeSum k).IsOrdinary r) : p.simplify.IsCanonicalIn l r ∧ p.simplify.IsLed := by
  obtain ⟨ks, nodup, kept, double, terms⟩ := h.exists_simplify_terms
  have exponent : ∀ k ∈ ks, (Term.mk (p.likeSum k) (literalOf l k)).natExponent = k := fun k hk =>
    Term.natExponent_literalOf (double k hk) _
  have each : ∀ t ∈ p.simplify.terms, ∃ k ∈ ks, t = ⟨p.likeSum k, literalOf l k⟩ := by
    intro t ht
    rw [terms, List.mem_map] at ht
    obtain ⟨k, hk, rfl⟩ := ht
    exact ⟨k, hk, rfl⟩
  refine ⟨⟨⟨⟨h.simplify, ?_, fun t ht => ?_⟩, fun t ht => ?_⟩, fun t ht => ?_⟩, fun positive => ?_⟩
  · rw [terms, List.pairwise_map]
    exact nodup.imp_of_mem fun hj hk ne => by rwa [exponent _ hj, exponent _ hk]
  · obtain ⟨u, hu, same⟩ := exists_natExponent_of_likeSum (h.mem_simplify ht)
    exact same ▸ exponents u hu
  · obtain ⟨k, -, rfl⟩ := each t ht
    exact sums k
  · obtain ⟨k, hk, rfl⟩ := each t ht
    rw [exponent k hk]
  · obtain ⟨t, ht, same⟩ := exists_natExponent_eq positive
    rw [h.likeSum_simplify, ← same]
    exact h.mem_simplify ht

theorem HasOrdinarySums.simplify_normalize (h : p.HasOrdinarySums l r) :
    p.simplify.normalize.IsCanonicalIn l r ∧ p.simplify.normalize.IsLed := by
  obtain ⟨canonical, led⟩ := h.isIn.simplify_isCanonicalIn h.exponents h.sums
  exact ⟨canonical.normalize, h.isIn.simplify.isLed_normalize led⟩

end Collecting

section Letters

theorem startsWith_singleton (hl : l ≠ 'y') : (String.singleton l).startsWith "y" = false := by
  rw [Bool.eq_false_iff]
  simpa [String.startsWith_string_iff] using fun same => hl same.symm

theorem IsIn.letter_cases (h : p.IsIn l) (hl : l ≠ 'y') :
    p.letter = String.singleton l ∨ p.letter = "x" ∧ ∀ t ∈ p.terms, t.literal = none := by
  cases parts : p.terms.filterMap (·.literal) with
  | nil =>
    refine .inr ⟨by rw [letter, parts]; rfl, fun t ht => ?_⟩
    exact List.filterMap_eq_nil_iff.mp parts t ht
  | cons m rest =>
    have first : m ∈ p.terms.filterMap (·.literal) := parts ▸ List.mem_cons_self
    obtain ⟨t, ht, hm⟩ := List.mem_filterMap.mp first
    have name := (h t ht m hm).1
    left
    rw [letter, parts, List.find?_cons_of_pos (by rw [name, startsWith_singleton hl]; rfl)]
    exact name

/-- A member without letter is one in the letter that stands for it. -/
theorem IsIn.exists_letter (h : p.IsIn l) (hl : IsReadable l) :
    ∃ m, IsReadable m ∧ p.letter = String.singleton m ∧ p.IsIn m := by
  rcases h.letter_cases hl.independent with own | ⟨default, constants⟩
  · exact ⟨l, hl, own, h⟩
  · refine ⟨_, isReadable_x, default, fun t ht m hm => ?_⟩
    rw [constants t ht] at hm
    cases hm

theorem HasOrdinarySums.exists_letter (h : p.HasOrdinarySums l r) (hl : IsReadable l) :
    ∃ m, IsReadable m ∧ p.letter = String.singleton m ∧ p.HasOrdinarySums m r := by
  obtain ⟨m, hm, letter, isIn⟩ := h.isIn.exists_letter hl
  exact ⟨m, hm, letter, { h with isIn }⟩

end Letters

end Member

section Values

variable {t : Term} {p : Member}

/-- The exponent in the text of a term. An exponent 0 is not written, and the letter alone is a first power. -/
def Term.writtenExponent (t : Term) : ℕ := if t.literal.isSome ∧ t.natExponent = 0 then 1 else t.natExponent

/-- The value of the text of a term. -/
def Term.writtenValue (x : ℚ) (t : Term) : ℚ :=
  FunctionStudy.writtenValue t.coefficient.toRat * x ^ t.writtenExponent

theorem Term.IsPowerOf.toList_format_literal {m : Literal} (h : t.IsPowerOf l) (hm : t.literal = some m) :
    m.format.toList = l :: TermText.exponentChars t.writtenExponent := by
  obtain ⟨name, -, -⟩ := h m hm
  by_cases zero : t.natExponent = 0
  · have value := h.toRat?_exponent
    rw [exponent, hm, Option.map_some, Option.getD_some, zero, Nat.cast_zero] at value
    rw [Literal.format, (Binary64.isZero_iff value).mpr rfl, Bool.true_or, if_pos rfl, name,
      String.toList_singleton, writtenExponent, if_pos ⟨Option.isSome_of_eq_some hm, zero⟩]
    rfl
  · have shape := Member.literal_eq h.isIntegerIn zero
    rw [natExponent_withZero] at shape
    obtain rfl : m = _ := Option.some.inj ((hm.symm.trans shape).trans (if_neg zero))
    rw [writtenExponent, if_neg fun unwritten => zero unwritten.2]
    exact Term.toList_format_literal h.isDouble zero

theorem Term.IsPowerOf.exists_signedText (h : t.IsPowerOf l) (finite : t.coefficient.isFinite = true) :
    ∃ s : SignedText, (t.format false).toList = s.chars ∧ s.body.HasLetter l ∧
      ∀ x, s.value x = t.writtenValue x := by
  have coefficient := Binary64.toRat?_of_finite finite
  obtain ⟨n, text⟩ := Decimal.exists_numeral coefficient
  have number := toList_signed text
  have written : FunctionStudy.writtenValue t.coefficient.toRat =
      if t.coefficient.toRat < 0 then -(n.decimal false).toRat else (n.decimal false).toRat := by
    have exact := (Decimal.exact_eq text).symm.trans (exact_eq_writtenValue coefficient)
    rw [← Except.ok.inj exact, Numeral.toRat_decimal]
    simp only [decide_eq_true_eq]
  have unit : ∀ z : ℤ, |z| ≤ 1 → t.coefficient.same (.ofInt z) = true →
      FunctionStudy.writtenValue t.coefficient.toRat = z := by
    intro z small same
    have value := (Binary64.same_iff coefficient (Binary64.toRat?_ofInt (small.trans (by norm_num)))).mp same
    rw [value, writtenValue_intCast]
  cases hm : t.literal with
  | none =>
    refine ⟨⟨decide (t.coefficient.toRat < 0), .constant n⟩, ?_, trivial, fun x => ?_⟩
    · simp only [format, hm, Bool.false_eq_true, if_false]
      exact number
    · have constant : t.writtenExponent = 0 := by
        rw [writtenExponent, hm, if_neg (by simp), natExponent, exponent, hm]
        rfl
      rw [SignedText.value, writtenValue, constant, pow_zero, mul_one, written]
      simp only [TermText.value, decide_eq_true_eq]
  | some m =>
    have literal := h.toList_format_literal hm
    by_cases one : t.coefficient.same (.ofInt 1) = true
    · refine ⟨⟨false, .power none l t.writtenExponent⟩, ?_, rfl, fun x => ?_⟩
      · simp only [format, hm, one, if_true, String.toList_append, literal]
        rfl
      · rw [writtenValue, unit 1 (by norm_num) one, Int.cast_one]
        rfl
    by_cases opposite : t.coefficient.same (.ofInt (-1)) = true
    · refine ⟨⟨true, .power none l t.writtenExponent⟩, ?_, rfl, fun x => ?_⟩
      · simp only [format, hm, one, opposite, Bool.false_eq_true, if_false, if_true, String.toList_append,
          literal]
        rfl
      · rw [writtenValue, unit (-1) (by norm_num) opposite, Int.cast_neg, Int.cast_one, neg_mul]
        rfl
    · refine ⟨⟨decide (t.coefficient.toRat < 0), .power (some n) l t.writtenExponent⟩, ?_, rfl, fun x => ?_⟩
      · simp only [format, hm, one, opposite, Bool.false_eq_true, if_false, String.toList_append, literal]
        rw [number]
        rfl
      · rw [SignedText.value, writtenValue, written]
        simp only [TermText.value, TermText.numberValue, decide_eq_true_eq]
        split_ifs
        · rw [neg_mul]
        · rfl

/-- The value of the text of a member. -/
def Member.writtenValue (x : ℚ) (p : Member) : ℚ := (p.terms.map (·.writtenValue x)).sum

theorem exists_signedTexts {ts : List Term} (h : ∀ t ∈ ts, t.IsPowerOf l)
    (finite : ∀ t ∈ ts, t.coefficient.isFinite = true) :
    ∃ ss : List SignedText, ts.map (fun t => (t.format false).toList) = ss.map SignedText.chars ∧
      (∀ s ∈ ss, s.body.HasLetter l) ∧ ∀ x, sumValue ss x = Member.writtenValue x ⟨ts⟩ := by
  induction ts with
  | nil => exact ⟨[], rfl, nofun, fun x => rfl⟩
  | cons t ts ih =>
    obtain ⟨s, text, letter, value⟩ := (h t (by simp)).exists_signedText (finite t (by simp))
    obtain ⟨ss, texts, letters, values⟩ :=
      ih (fun u hu => h u (by simp [hu])) fun u hu => finite u (by simp [hu])
    refine ⟨s :: ss, by rw [List.map_cons, List.map_cons, text, texts], fun u hu => ?_, fun x => ?_⟩
    · rcases List.mem_cons.mp hu with rfl | hu
      · exact letter
      · exact letters u hu
    · rw [sumValue, List.map_cons, List.sum_cons, value, Member.writtenValue, List.map_cons, List.sum_cons]
      exact congrArg _ (values x)

theorem Member.IsIn.exists_compile (h : p.IsIn l) (hl : IsReadable l)
    (finite : ∀ t ∈ p.terms, t.coefficient.isFinite = true) :
    ∃ c, compile p.text (String.singleton l) = .ok c ∧ ∀ x, c.valueAt x = .rational (p.writtenValue x) := by
  obtain ⟨ss, texts, letters, values⟩ := exists_signedTexts h finite
  obtain ⟨c, compiled, value⟩ := Formula.compile_sumChars hl.isAlpha letters
    (areSeparated_of_letter hl.isAlpha hl.plain letters)
  rw [← Member.toList_text texts, String.ofList_toList] at compiled
  exact ⟨c, compiled, fun x => by rw [value, values]⟩

end Values

section Reading

variable {t : Term} {p m : Member}

theorem Literal.reread_literalOf (hk : k < 2 ^ 53) : (literalOf l k).map Literal.reread = literalOf l k := by
  rw [literalOf]
  split_ifs with zero
  · rfl
  · have size : |(k : ℤ)| ≤ 2 ^ 53 := by
      rw [abs_of_nonneg (Int.natCast_nonneg k)]
      exact_mod_cast hk.le
    have same := Binary64.reread_intCast (Binary64.toRat?_ofInt size) (by exact_mod_cast zero) size
    rw [Option.map_some, Literal.reread, same]

namespace Member

/-- Literal parts as they are written: none for the exponent 0. -/
def HasPlainLiterals (l : Char) (p : Member) : Prop :=
  ∀ t ∈ p.terms, t.literal = literalOf l t.natExponent

theorem IsApartIn.reread (h : p.IsApartIn l) (plain : p.HasPlainLiterals l)
    (bounded : ∀ t ∈ p.terms, t.coefficient.IsBounded r) (low : 67 ≤ r) (high : r ≤ 900) :
    p.reread.IsCanonicalIn l (r + 2) ∧ ∀ t ∈ p.terms, t.reread.natExponent = t.natExponent := by
  have shape : ∀ t ∈ p.terms, t.reread = ⟨t.coefficient.reread, literalOf l t.natExponent⟩ := by
    intro t ht
    rw [Term.reread, plain t ht, Literal.reread_literalOf (h.exponents t ht)]
  have double : ∀ t ∈ p.terms, IsDouble t.natExponent := fun t ht => (h.isIn t ht).isDouble
  have exponent : ∀ t ∈ p.terms, t.reread.natExponent = t.natExponent := by
    intro t ht
    rw [shape t ht, Term.natExponent_literalOf (double t ht)]
  refine ⟨⟨⟨⟨fun t ht => ?_, ?_, fun t ht => ?_⟩, fun t ht => ?_⟩, fun t ht => ?_⟩, exponent⟩
  · obtain ⟨u, hu, rfl⟩ := List.mem_map.mp ht
    rw [shape u hu]
    exact Term.isPowerOf_literalOf (double u hu) _
  · rw [Member.reread, List.pairwise_map]
    exact h.apart.imp_of_mem fun ht hu ne => by rwa [exponent _ ht, exponent _ hu]
  · obtain ⟨u, hu, rfl⟩ := List.mem_map.mp ht
    rw [exponent u hu]
    exact h.exponents u hu
  · obtain ⟨u, hu, rfl⟩ := List.mem_map.mp ht
    exact (bounded u hu).isOrdinary_reread low high
  · obtain ⟨u, hu, rfl⟩ := List.mem_map.mp ht
    rw [exponent u hu, shape u hu]

theorem IsApartIn.isWritable (h : p.IsApartIn l) (plain : p.HasPlainLiterals l)
    (finite : ∀ t ∈ p.terms, t.coefficient.isFinite = true) (hl : l.isAlpha = true) (some : p.terms ≠ []) :
    p.IsWritable := by
  refine ⟨some, fun t ht => ⟨finite t ht, fun m hm => ?_⟩⟩
  have double := (h.isIn t ht).isDouble
  rw [plain t ht, literalOf] at hm
  split_ifs at hm with zero
  obtain rfl := Option.some.inj hm
  refine ⟨⟨l, [], by simp, hl, by simp⟩, ?_, ?_⟩
  · rw [Binary64.isFinite, double, Option.isSome_some]
  · rw [Binary64.isPositive_iff double]
    exact_mod_cast Nat.pos_of_ne_zero zero

theorem isWrittenAs_zero (none : p.terms = []) : IsWrittenAs ⟨[.constant .zero]⟩ p.text := by
  refine ⟨SideSpelling.zero, ?_, SideSpelling.member_zero⟩
  rw [text, format, none]
  decide +kernel

theorem isCanonicalIn_zero (l : Char) (r : ℕ) : IsCanonicalIn l r ⟨[.constant .zero]⟩ where
  isIn t ht := by
    rw [List.mem_singleton.mp ht]
    exact nofun
  apart := List.pairwise_singleton _ _
  exponents t ht := by
    rw [List.mem_singleton.mp ht]
    decide +kernel
  coefficients t ht := by
    rw [List.mem_singleton.mp ht]
    exact Binary64.isOrdinary_zero r
  literals t ht := by
    rw [List.mem_singleton.mp ht]
    rfl

/-- The member that the text is read as: without terms it is the constant 0. -/
def readAgain (p : Member) : Member := if p.terms = [] then ⟨[.constant .zero]⟩ else p.reread

theorem IsApartIn.readAgain (h : p.IsApartIn l) (plain : p.HasPlainLiterals l)
    (bounded : ∀ t ∈ p.terms, t.coefficient.IsBounded r) (hl : l.isAlpha = true) (low : 67 ≤ r)
    (high : r ≤ 900) : p.readAgain.IsWrittenAs p.text ∧ p.readAgain.IsCanonicalIn l (r + 2) := by
  rw [Member.readAgain]
  split_ifs with none
  · exact ⟨isWrittenAs_zero none, isCanonicalIn_zero l _⟩
  · have finite := fun t ht => (bounded t ht).isFinite
    exact ⟨(h.isWritable plain finite hl none).exists_spelling, (h.reread plain bounded low high).1⟩

theorem IsCanonicalIn.readAgain (h : p.IsCanonicalIn l r) (hl : l.isAlpha = true) (low : 67 ≤ r)
    (high : r ≤ 900) : p.readAgain.IsWrittenAs p.text ∧ p.readAgain.IsCanonicalIn l (r + 2) :=
  h.toIsApartIn.readAgain h.literals (fun t ht => (h.coefficients t ht).isBounded) hl low high

end Member

end Reading

section Dense

variable {cs : List Binary64}

namespace Member

/-- The terms of dense coefficients: descending powers with coefficients of the list, and the first
one is the first that is not zero. -/
theorem terms_ofCoefficients_spec (length : cs.length ≤ 2 ^ 53) :
    (∀ t ∈ (ofCoefficients cs (String.singleton l)).terms,
      ∃ k < cs.length, ∃ c ∈ cs, t = ⟨c, literalOf l k⟩ ∧ t.natExponent = k) ∧
    (ofCoefficients cs (String.singleton l)).terms.Pairwise (fun t u => u.natExponent < t.natExponent) ∧
    (ofCoefficients cs (String.singleton l)).terms.head?.map Term.coefficient =
      cs.find? fun c => !c.isZero := by
  induction cs with
  | nil => exact ⟨nofun, .nil, rfl⟩
  | cons c rest ih =>
    rw [List.length_cons] at length
    obtain ⟨terms, ordered, first⟩ := ih (by omega)
    have exponent : (Term.ofPower (.singleton l) c rest.length).natExponent = rest.length :=
      Term.natExponent_ofPower (isDouble_of_le (by omega)) c
    have others : ∀ t ∈ (ofCoefficients rest (String.singleton l)).terms,
        ∃ k < (c :: rest).length, ∃ d ∈ c :: rest, t = ⟨d, literalOf l k⟩ ∧ t.natExponent = k := by
      intro t ht
      obtain ⟨k, hk, d, hd, shape⟩ := terms t ht
      exact ⟨k, hk.trans (Nat.lt_succ_self _), d, List.mem_cons_of_mem c hd, shape⟩
    rw [ofCoefficients_cons]
    by_cases zero : c.isZero = true
    · rw [if_pos zero, List.nil_append, List.find?_cons_of_neg (by rw [zero]; decide)]
      exact ⟨others, ordered, first⟩
    · rw [if_neg zero, List.singleton_append, List.find?_cons_of_pos (by simpa using zero)]
      refine ⟨fun t ht => ?_, List.pairwise_cons.mpr ⟨fun t ht => ?_, ordered⟩, ?_⟩
      · rcases List.mem_cons.mp ht with rfl | ht
        · exact ⟨_, Nat.lt_succ_self _, c, List.mem_cons_self, Term.ofPower_eq l c _, exponent⟩
        · exact others t ht
      · obtain ⟨k, hk, d, -, -, same⟩ := terms t ht
        rw [exponent, same]
        exact hk
      · rw [List.head?_cons, Option.map_some, Term.ofPower_eq]

theorem isApartIn_ofCoefficients (length : cs.length ≤ 2 ^ 53) :
    (ofCoefficients cs (String.singleton l)).IsApartIn l ∧
      (ofCoefficients cs (String.singleton l)).HasPlainLiterals l := by
  obtain ⟨terms, ordered, -⟩ := terms_ofCoefficients_spec (l := l) length
  refine ⟨⟨fun t ht => ?_, ordered.imp fun below => below.ne', fun t ht => ?_⟩, fun t ht => ?_⟩
  · obtain ⟨k, hk, c, -, rfl, -⟩ := terms t ht
    exact Term.isPowerOf_literalOf (isDouble_of_le (by omega)) c
  · obtain ⟨k, hk, -, -, -, same⟩ := terms t ht
    omega
  · obtain ⟨k, hk, c, -, shape, same⟩ := terms t ht
    rw [same, shape]

/-- The text of bounded dense coefficients is read as an ordinary member. It is led if the first
coefficient that is not zero does not vanish by reading. -/
theorem readAgain_ofCoefficients (length : cs.length ≤ 2 ^ 53) (bounded : ∀ c ∈ cs, c.IsBounded r)
    (kept : ∀ c ∈ cs.find? fun c => !c.isZero, c.reread.isZero = false) (hl : l.isAlpha = true)
    (low : 67 ≤ r) (high : r ≤ 900) : ∃ m : Member,
      m.IsWrittenAs (ofCoefficients cs (String.singleton l)).text ∧ m.IsCanonicalIn l (r + 2) ∧ m.IsLed := by
  obtain ⟨terms, ordered, first⟩ := terms_ofCoefficients_spec (l := l) length
  obtain ⟨apart, plain⟩ := isApartIn_ofCoefficients (l := l) length
  have coefficients : ∀ t ∈ (ofCoefficients cs (String.singleton l)).terms, t.coefficient.IsBounded r := by
    intro t ht
    obtain ⟨k, -, c, hc, rfl, -⟩ := terms t ht
    exact bounded c hc
  obtain ⟨written, canonical⟩ := apart.readAgain plain coefficients hl low high
  refine ⟨_, written, canonical, fun positive => ?_⟩
  obtain ⟨again, exponents⟩ := apart.reread plain coefficients low high
  generalize ofCoefficients cs (String.singleton l) = m at *
  cases shape : m.terms with
  | nil =>
    rw [Member.readAgain, if_pos shape] at positive
    exact absurd positive (by decide +kernel)
  | cons t rest =>
    have same : m.readAgain = m.reread := by
      rw [Member.readAgain, if_neg (by simp [shape])]
    have top : t.reread ∈ m.reread.terms := by simp [Member.reread, shape]
    have degree : m.reread.writtenDegree = t.reread.natExponent := by
      refine le_antisymm (writtenDegree_le_iff.mpr fun u hu => ?_) (natExponent_le_writtenDegree top)
      obtain ⟨w, hw, rfl⟩ := List.mem_map.mp hu
      rw [exponents t (by simp [shape]), exponents w hw]
      rw [shape] at ordered hw
      rcases List.mem_cons.mp hw with rfl | hw
      · exact le_rfl
      · exact (List.rel_of_pairwise_cons ordered hw).le
    have value := Binary64.toRat?_of_finite (again.coefficients _ top).isFinite
    rw [shape, List.head?_cons, Option.map_some] at first
    rw [same, degree, again.likeSum_eq top, Binary64.isZero_unsignedZero (again.coefficients _ top).isFinite]
    exact kept _ first.symm

end Member

end Dense

end FunctionStudy
