import FunctionStudy.Proofs.Ruffini.Bounded
import FunctionStudy.Proofs.Solution.Atomicity
import FunctionStudy.Proofs.Solution.RootCount

/-! Failures of the solver. A root is a quotient by a leading coefficient that does not count as
zero. Each split adds eleven bits to the sizes, and there are few of them, so ordinary coefficients
have finite roots. -/

namespace FunctionStudy

open Binary64 (ofInt gridValue)

variable {settings : Settings} {r s : ℕ} {ordinary : Prop}

section Quotients

variable {a b c x y : Binary64} {u v w : ℚ}

theorem Binary64.IsOrdinary.exists_div (ha : a.IsOrdinary r) (nonzero : a.isZero = false)
    (hx : x.IsBounded s) (small : s + r ≤ 1000) : ∃ q, x.div a = .ok q ∧ q.isFinite = true := by
  obtain ⟨w, hw, moderate⟩ := ha
  obtain ⟨v, hv, size⟩ := hx
  have some : w ≠ 0 := by rwa [Ne, ← isZero_iff hw, Bool.not_eq_true]
  refine exists_div_isFinite hv hw some ?_
  obtain ⟨low, -⟩ := moderate.resolve_left some
  rw [abs_div, div_le_iff₀ (abs_pos.mpr some)]
  have scale : 1 ≤ 2 ^ r * |w| := by rwa [div_le_iff₀' (by positivity)] at low
  have grows : (2 : ℚ) ^ (s + r) ≤ 2 ^ (1000 : ℕ) := pow_le_pow_right₀ one_le_two small
  calc |v| ≤ 2 ^ s * 1 := by linarith
    _ ≤ 2 ^ s * (2 ^ r * |w|) := by gcongr
    _ = 2 ^ (s + r) * |w| := by rw [pow_add, mul_assoc]
    _ ≤ 2 ^ (1000 : ℕ) * |w| := by gcongr

theorem Binary64.IsBounded.neg (h : x.IsBounded r) : x.neg.IsBounded r := by
  obtain ⟨v, hv, size⟩ := h
  exact ⟨-v, toRat?_neg hv, by rwa [abs_neg]⟩

theorem Binary64.IsBounded.add (hx : x.IsBounded r) (hy : y.IsBounded r) (small : r + 1 ≤ 1000) :
    (x.add y).IsBounded (r + 2) := by
  obtain ⟨v, hv, sizeV⟩ := hx
  obtain ⟨w, hw, sizeW⟩ := hy
  have size : |v + w| ≤ 2 ^ (r + 1) := by
    rw [pow_succ]
    linarith [abs_add_le v w]
  obtain ⟨u, hu, near⟩ := exists_toRat?_add hv hw (size.trans (pow_le_pow_right₀ one_le_two small))
  refine ⟨u, hu, near.trans ?_⟩
  rw [pow_succ']
  gcongr

theorem Binary64.IsBounded.sub (hx : x.IsBounded r) (hy : y.IsBounded r) (small : r + 1 ≤ 1000) :
    (x.sub y).IsBounded (r + 2) := hx.add hy.neg small

theorem isBounded_discriminant (ha : a.IsOrdinary r) (hb : b.IsOrdinary r) (hc : c.IsOrdinary r)
    (small : r ≤ 390) : (discriminant a b c).IsBounded (2 * r + 4) := by
  obtain ⟨u, hu, moderateA⟩ := ha
  obtain ⟨v, hv, moderateB⟩ := hb
  obtain ⟨w, hw, moderateC⟩ := hc
  obtain ⟨d, hd, near⟩ := exists_discriminant hu hv hw ((isWithin_refl u).mono zero_le_one)
    ((isWithin_refl v).mono zero_le_one) ((isWithin_refl w).mono zero_le_one)
    (moderateA.mono (by omega)) (moderateB.mono (by omega)) (moderateC.mono (by omega))
  refine ⟨d, hd, ?_⟩
  have square : v ^ 2 ≤ 2 ^ (2 * r) := by
    rw [← sq_abs, mul_comm, pow_mul]
    exact pow_le_pow_left₀ (abs_nonneg v) moderateB.abs_le 2
  have product : |u * w| ≤ 2 ^ (2 * r) := by
    rw [abs_mul, two_mul, pow_add]
    exact mul_le_mul moderateA.abs_le moderateC.abs_le (abs_nonneg w) (by positivity)
  have exact : |v ^ 2 - 4 * u * w| ≤ v ^ 2 + 4 * |u * w| := by
    have split := abs_sub (v ^ 2) (4 * u * w)
    rwa [abs_of_nonneg (sq_nonneg v), abs_four_mul] at split
  have error : discriminantError u v w ≤ v ^ 2 + 4 * |u * w| := by
    rw [discriminantError]
    exact div_le_self (by positivity) (by norm_num)
  have near' := abs_sub_abs_le_abs_sub d (v ^ 2 - 4 * u * w)
  rw [pow_add]
  linarith [pow_pos (two_pos (α := ℚ)) (2 * r)]

/-- The root of a number that is positive halves its size, up to the last bits. -/
theorem Binary64.isBounded_sqrt {d : ℚ} (hd : x.toRat? = some d) (positive : 0 < d)
    (size : |d| ≤ 2 ^ (2 * r + 4)) (small : r ≤ 990) : x.sqrt.IsBounded (r + 4) := by
  have square : d ≤ ((2 ^ (r + 2) : ℕ) : ℚ) ^ 2 := by
    push_cast
    rw [← pow_mul]
    exact (le_abs_self d).trans (size.trans (pow_le_pow_right₀ one_le_two (by omega)))
  have inRange : ((2 ^ (r + 2) : ℕ) : ℚ) + 1 ≤ 2 ^ (1000 : ℕ) := by
    push_cast
    calc (2 : ℚ) ^ (r + 2) + 1 ≤ 2 ^ (r + 2) + 2 ^ (r + 2) := by
          gcongr
          exact one_le_pow₀ one_le_two
      _ = 2 ^ (r + 3) := by rw [pow_succ 2 (r + 2), mul_two]
      _ ≤ 2 ^ (1000 : ℕ) := pow_le_pow_right₀ one_le_two (by omega)
  obtain ⟨w, hw, root⟩ := exists_sqrt_le hd positive square inRange
  refine ⟨w, hw, root.trans ?_⟩
  push_cast
  rw [pow_add 2 r 4, pow_add 2 r 2]
  linarith [one_le_pow₀ (one_le_two (α := ℚ)) (n := r)]

theorem exists_div_twice_isFinite (ha : a.IsOrdinary r) (leading : a.isZero = false) (small : r ≤ 390)
    (hx : x.IsBounded (r + 6)) : ∃ q, x.div ((ofInt 2).mul a) = .ok q ∧ q.isFinite = true := by
  have two : (ofInt 2).IsOrdinary 1 := by
    refine ⟨_, Binary64.toRat?_ofInt (by norm_num), .inr ?_⟩
    norm_num
  exact (two.mul ha (by omega)).exists_div (Binary64.isZero_twice leading) hx (by omega)

theorem exists_quadraticRoots_isFinite (tells : settings.TellsIntegers) (ha : a.IsOrdinary r)
    (hb : b.IsOrdinary r) (hc : c.IsOrdinary r) (leading : a.isZero = false) (small : r ≤ 390) :
    ∃ roots, quadraticRoots settings a b (discriminant a b c) = .ok roots ∧
      ∀ xs ∈ roots, ∀ x ∈ xs, x.isFinite = true := by
  have opposite : b.neg.IsBounded r := hb.isBounded.neg
  obtain ⟨d, hd, size⟩ := isBounded_discriminant ha hb hc small
  cases zero : settings.isZero (discriminant a b c) with
  | true =>
    obtain ⟨q, quotient, finite⟩ := exists_div_twice_isFinite ha leading small (opposite.mono (by omega))
    refine ⟨_, quadraticRoots_of_isZero zero quotient, ?_⟩
    rintro xs hxs x hx
    obtain rfl := Option.mem_some.mp hxs
    obtain rfl := List.mem_singleton.mp hx
    exact Binary64.isFinite_unsignedZero finite
  | false =>
    cases negative : (discriminant a b c).lt .zero with
    | true => exact ⟨_, quadraticRoots_of_lt zero negative a b, by simp⟩
    | false =>
      have positive : 0 < d := by
        have apart : d ≠ 0 := by
          rw [Ne, ← Binary64.isZero_iff hd, Bool.not_eq_true]
          exact tells.isZero_of_isZero zero
        rw [← Bool.not_eq_true, Binary64.lt_iff hd Binary64.toRat?_zero, not_lt] at negative
        exact lt_of_le_of_ne negative apart.symm
      have bounded := Binary64.isBounded_sqrt hd positive size (by omega)
      have wide : b.neg.IsBounded (r + 4) := opposite.mono (by omega)
      obtain ⟨low, hlow, lowFinite⟩ :=
        exists_div_twice_isFinite ha leading small (wide.sub bounded (by omega))
      obtain ⟨high, hhigh, highFinite⟩ :=
        exists_div_twice_isFinite ha leading small (wide.add bounded (by omega))
      refine ⟨_, quadraticRoots_of_not_lt zero negative hlow hhigh, ?_⟩
      rintro xs hxs x hx
      obtain rfl := Option.mem_some.mp hxs
      rcases List.mem_pair.mp (Binary64.mem_sortAscending.mp hx) with rfl | rfl
      · exact Binary64.isFinite_unsignedZero lowFinite
      · exact Binary64.isFinite_unsignedZero highFinite

theorem linearRoot_allowed (ha : ordinary → a.IsOrdinary r) (leading : ordinary → a.isZero = false)
    (hb : ordinary → b.IsOrdinary r) (small : ordinary → r ≤ 390) :
    Meets (Error.IsAllowed ordinary) (fun q => ordinary → q.isFinite = true) (b.neg.div a) := by
  refine .allowed (fun known => ?_) (Binary64.div_failsRegularly _ _)
  obtain ⟨q, quotient, finite⟩ := (ha known).exists_div (leading known) (hb known).isBounded.neg
    (by have := small known; omega)
  exact .of_eq_ok quotient finite

end Quotients

section Degrees

variable {f : Equation} {p : Member} {claimed : Option Number} {higher : HigherSolver}
  {a b c height : Binary64} {d : ℕ}

def EquationSolution.HasFiniteResults (s : EquationSolution) : Prop := ∀ x ∈ s.results, x.isFinite = true

/-- The claimed degree, or else the written one, is a natural number that no exponent exceeds. -/
def Member.ClaimsWithin (p : Member) (claimed : Option Number) (d : ℕ) : Prop :=
  (claimed.getD (.double p.degree)).whole? = .ok (some (d : ℤ)) ∧ p.writtenDegree ≤ d

theorem claimsWithin_none {l : Char} (h : p.IsIn l) : p.ClaimsWithin none p.writtenDegree :=
  ⟨Number.whole?_double (by exact_mod_cast h.hasNaturalExponents.toRat?_degree), le_rfl⟩

theorem claimsWithin_two (degree : p.writtenDegree ≤ 2) : p.ClaimsWithin (some (.exact 2)) 2 :=
  ⟨show (Number.exact 2).whole? = .ok (some (2 : ℤ)) by decide +kernel, degree⟩

theorem solvingDegree_meets (h : p.ClaimsWithin claimed d) :
    Meets Error.IsUserInput (· = d) (solvingDegree settings p claimed) := by
  unfold solvingDegree
  dsimp only
  rw [h.1]
  split
  · rfl
  · rfl

theorem solvingDegree_failsRegularly (settings : Settings) (p : Member) (claimed : Option Number) :
    FailsRegularly (solvingDegree settings p claimed) := by
  unfold solvingDegree
  dsimp only
  split
  · exact .inl rfl
  refine (Number.whole?_failsRegularly _).bind fun whole _ => ?_
  split
  · trivial
  · exact (Number.toBinary64_failsRegularly _).bind fun _ _ => .inl rfl

theorem quadraticRoots_failsRegularly (settings : Settings) (a b delta : Binary64) :
    FailsRegularly (quadraticRoots settings a b delta) := by
  unfold quadraticRoots
  dsimp only
  split_ifs
  · exact (Binary64.div_failsRegularly _ _).bind fun _ _ => trivial
  · trivial
  · exact (Binary64.div_failsRegularly _ _).bind fun _ _ =>
      (Binary64.div_failsRegularly _ _).bind fun _ _ => trivial

theorem solveConstant_allowed (equation : String) :
    (solveConstant settings equation c).Meets (Error.IsAllowed ordinary) fun s =>
      ordinary → s.HasFiniteResults := by
  unfold solveConstant
  split_ifs
  · exact Work.meets_record_bind (Work.meets_pure fun _ => List.forall_mem_nil _)
  · exact Work.meets_record_bind (Work.meets_pure fun _ => List.forall_mem_nil _)

theorem solveLinear_allowed (tells : ordinary → settings.TellsIntegers) (ha : ordinary → a.IsOrdinary r)
    (hb : ordinary → b.IsOrdinary r) (small : ordinary → r ≤ 390) (equation : String) :
    (solveLinear settings equation height a b).Meets (Error.IsAllowed ordinary) fun s =>
      ordinary → s.HasFiniteResults := by
  unfold solveLinear
  by_cases zero : settings.isZero a = true
  · rw [if_pos zero]
    exact Work.meets_throw (.inl rfl)
  rw [if_neg zero]
  have root := linearRoot_allowed ha (fun known =>
    (tells known).isZero_of_isZero (Bool.not_eq_true _ ▸ zero)) hb small
  refine Work.meets_ofExcept_bind root fun q finite => Work.meets_record_bind ?_
  refine (Work.returns_rootPoints _ _).meets.bind fun points _ => Work.meets_pure fun known x hx => ?_
  obtain rfl := List.mem_singleton.mp hx
  exact Binary64.isFinite_unsignedZero (finite known)

theorem solveQuadratic_allowed (tells : ordinary → settings.TellsIntegers)
    (ha : ordinary → a.IsOrdinary r) (hb : ordinary → b.IsOrdinary r) (hc : ordinary → c.IsOrdinary r)
    (small : ordinary → r ≤ 390) (equation : String) :
    (solveQuadratic settings equation height a b c).Meets (Error.IsAllowed ordinary) fun s =>
      ordinary → s.HasFiniteResults := by
  unfold solveQuadratic
  by_cases zero : settings.isZero a = true
  · rw [if_pos zero]
    exact Work.meets_throw (.inl rfl)
  rw [if_neg zero]
  have solved : Meets (Error.IsAllowed ordinary)
      (fun roots => ordinary → ∀ xs ∈ roots, ∀ x ∈ xs, x.isFinite = true)
      (quadraticRoots settings a b (discriminant a b c)) := by
    refine .allowed (fun known => ?_) (quadraticRoots_failsRegularly _ _ _ _)
    have leading := (tells known).isZero_of_isZero (Bool.not_eq_true _ ▸ zero)
    obtain ⟨roots, computed, finite⟩ := exists_quadraticRoots_isFinite (tells known) (ha known) (hb known)
      (hc known) leading (small known)
    exact .of_eq_ok computed finite
  refine Work.meets_record_bind (Work.meets_ofExcept_bind solved fun roots finite => ?_)
  cases roots with
  | none => exact Work.meets_record_bind (Work.meets_pure fun _ => List.forall_mem_nil _)
  | some roots =>
    refine Work.meets_record_bind ((Work.returns_rootPoints _ _).meets.bind fun points _ => ?_)
    exact Work.meets_pure fun known => finite known roots rfl

/-- Solving fails as the solver of the higher degrees does, and else through a degree or a coefficient
alone. -/
theorem solveWith_allowed (tells : ordinary → settings.TellsIntegers) (hf : ordinary → f.IsOrdinary r)
    (small : ordinary → r ≤ 390)
    (claims : ordinary → ∀ p, f.polynomial = .ok p → ∃ d, p.simplify.normalize.ClaimsWithin claimed d)
    (high : ∀ n, (higher f n).Meets (Error.IsAllowed ordinary) fun s => ordinary → s.HasFiniteResults) :
    (solveWith higher settings "y=0" f claimed).Meets (Error.IsAllowed ordinary) fun s =>
      ordinary → s.HasFiniteResults := by
  unfold solveWith
  refine Work.meets_ofExcept_bind f.polynomial_allowed fun p hp => ?_
  have settled : ordinary → ∃ l, p.simplify.normalize.IsOrdinaryIn l r := fun known => by
    obtain ⟨l, -, simplified⟩ := hf known p hp
    exact ⟨l, simplified.simplify_normalize.1.toIsOrdinaryIn⟩
  generalize hq : p.simplify.normalize = q at *
  have degree : Meets (Error.IsAllowed ordinary) (fun d => ordinary → q.writtenDegree ≤ d)
      (solvingDegree settings q claimed) := by
    refine .allowed (fun known => ?_) (solvingDegree_failsRegularly _ _ _)
    obtain ⟨d, within⟩ := claims known p hp
    rw [hq] at within
    exact (solvingDegree_meets within).imp fun _ same => same ▸ within.2
  refine Work.meets_ofExcept_bind degree fun d within => ?_
  refine Work.Meets.ofExcept_bind axisHeight_zero (Work.meets_record_bind ?_)
  split_ifs
  · exact high d
  have dense : Meets (Error.IsAllowed ordinary) (fun cs => ordinary → ∀ c ∈ cs, c.IsOrdinary r)
      (q.coefficientsTo d) := by
    refine .allowed (fun known => ?_) (q.coefficientsTo_failsRegularly _)
    obtain ⟨l, collected⟩ := settled known
    refine .of_eq_ok (collected.isIn.coefficientsTo (within known)) fun c hc => ?_
    obtain ⟨k, -, rfl⟩ := List.mem_map.mp hc
    exact collected.likeSum_isOrdinary k
  refine Work.meets_ofExcept_bind dense.eq_ok fun cs ⟨collected, sizes⟩ => ?_
  have length : cs.length = d + 1 := by
    rw [Member.length_of_coefficientsTo collected]
    omega
  split
  · exact solveConstant_allowed _
  · exact solveLinear_allowed tells (fun known => sizes known _ (by simp)) (fun known => sizes known _ (by simp))
      small _
  · exact solveQuadratic_allowed tells (fun known => sizes known _ (by simp))
      (fun known => sizes known _ (by simp)) (fun known => sizes known _ (by simp)) small _
  · rename_i one two three
    obtain ⟨⟩ | ⟨c₀, ⟨⟩ | ⟨c₁, ⟨⟩ | ⟨c₂, ⟨⟩ | ⟨c₃, rest⟩⟩⟩⟩ := cs
    · simp at length
    · exact absurd rfl (one _)
    · exact absurd rfl (two _ _)
    · exact absurd rfl (three _ _ _)
    · simp only [List.length_cons] at length
      omega

end Degrees

section Equations

variable {l : Char} {m : Member} {f : Equation} {text : String}

theorem Member.IsOrdinaryIn.isOrdinary_eqZero (h : m.IsOrdinaryIn l r) (hl : IsReadable l) :
    Equation.IsOrdinary r ⟨m, ⟨[.constant .zero]⟩⟩ ∧ Equation.IsOrdinary r ⟨m, ⟨[]⟩⟩ := by
  have collected : ∀ q : Member, q.IsIn l → (∀ t ∈ q.terms, t.natExponent < 2 ^ 53) →
      (∀ k, q.likeSum k = m.likeSum k) → q.simplify.normalize.HasOrdinarySums l r :=
    fun q inLetter exponents sums => (inLetter.simplify_isCanonicalIn exponents fun k => by
      rw [sums]
      exact h.likeSum_isOrdinary k).1.normalize.hasOrdinarySums
  constructor
  · rintro p hp
    obtain rfl := Except.ok.inj ((Equation.polynomial_eqZero_of_isIn hl.independent h.isIn).symm.trans hp)
    obtain ⟨inLetter, sums⟩ := h.isIn.append_negZero
    refine ⟨l, hl, collected _ inLetter (fun t ht => ?_) sums⟩
    rcases Member.mem_append_negZero ht with own | zero
    · exact h.exponents t own
    · exact zero ▸ Nat.two_pow_pos 53
  · rintro p hp
    have same := Equation.polynomial_of_isIn (f := ⟨m, ⟨[]⟩⟩) hl.independent h.isIn (List.forall_mem_nil _)
    obtain rfl := Except.ok.inj (same.symm.trans hp)
    refine ⟨l, hl, collected _ ?_ ?_ fun k => ?_⟩
    · simpa [Member.negated] using h.isIn
    · simpa [Member.negated] using h.exponents
    · simp [Member.negated]

theorem IsSettledText.exists_ofText (h : IsSettledText r text) :
    ∃ g, Equation.ofText text = .ok g ∧ g.IsOrdinary r := by
  obtain ⟨m, written, l, hl, canonical, -⟩ := h
  exact ⟨_, written.ofText, (canonical.toIsOrdinaryIn.isOrdinary_eqZero hl).1⟩

theorem Equation.IsOrdinary.claimsWithin (h : f.IsOrdinary r) :
    ∀ p, f.polynomial = .ok p → ∃ d, p.simplify.normalize.ClaimsWithin none d := by
  intro p hp
  obtain ⟨l, -, moderate⟩ := h p hp
  exact ⟨_, claimsWithin_none moderate.simplify_normalize.1.isIn⟩

end Equations

section Recursion

variable {f : Equation}

/-- The limits within which sizes stay bounded on the way down the splits. -/
structure Settings.AreModest (settings : Settings) : Prop where
  tells : settings.TellsIntegers
  degree : settings.maxDegree ≤ 100
  depth : settings.maxDepth ≤ 8

/-- The recursion, by the number of splits that are left: there is room for the growth of as many. -/
theorem solveHigher_allowed (modest : ordinary → settings.AreModest) (remaining : ℕ) (low : 67 ≤ r)
    (room : ordinary → r + 11 * remaining ≤ 390) (hf : ordinary → f.IsOrdinary r) (n : ℤ) :
    (solveHigher settings "y=0" remaining f n).Meets (Error.IsAllowed ordinary) fun s =>
      ordinary → s.HasFiniteResults := by
  induction remaining generalizing f n r with
  | zero =>
    unfold solveHigher
    refine Work.meets_ofExcept_bind f.polynomial_allowed fun p _ => ?_
    exact Work.meets_record_bind (Work.meets_pure fun _ => List.forall_mem_nil _)
  | succ remaining ih =>
    have split := Work.Meets.allowed
      (fun known => factor_meets (hf known) (modest known).degree low (by have := room known; omega))
      (factor_failsRegularly settings f)
    unfold solveHigher
    refine Work.meets_ofExcept_bind f.polynomial_allowed fun p _ => split.bind fun F settled => ?_
    dsimp only
    split_ifs
    · exact Work.meets_pure fun _ => List.forall_mem_nil _
    have texts : ∀ text ∈ F.factors, ordinary → IsSettledText (r + 11) text := by
      intro text member known
      rw [Factorization.factors] at member
      split at member
      · rename_i s parts
        rcases List.mem_pair.mp member with rfl | rfl
        · exact (settled known s parts).1
        · exact (settled known s parts).2
      · cases member
    refine Work.Meets.bind (P := fun found => ordinary → ∀ x ∈ found.results, x.isFinite = true)
      (Work.meets_foldlM (fun found finite text member => ?_) fun _ => List.forall_mem_nil _) fun found finite => ?_
    · have read : Meets (Error.IsAllowed ordinary) (fun g => ordinary → g.IsOrdinary (r + 11))
          (Equation.ofText text) := by
        refine .allowed (fun known => ?_) (Equation.ofText_failsForUser text).regular
        obtain ⟨g, reads, moderate⟩ := (texts text member known).exists_ofText
        exact .of_eq_ok reads moderate
      refine Work.meets_ofExcept_bind read fun g moderate => ?_
      refine (solveWith_allowed (fun known => (modest known).tells) moderate
        (fun known => by have := room known; omega) (fun known => (moderate known).claimsWithin) fun n =>
          ih (by omega) (fun known => by have := room known; omega) moderate n).bind fun s results => ?_
      refine Work.meets_pure fun known x hx => ?_
      exact (List.mem_append.mp hx).elim (finite known x) (results known x)
    · refine Work.meets_ascending_bind fun layout => Work.meets_record_bind ?_
      exact Work.meets_pure fun known x hx => finite known x (Layout.mem_of_mem_ascending hx)

theorem Settings.AreModest.remainingDepth_le (h : settings.AreModest) : remainingDepth settings 0 ≤ 8 := by
  have deep := h.depth
  rw [remainingDepth]
  omega

theorem solve_allowed (modest : ordinary → settings.AreModest) (hf : ordinary → f.IsOrdinary r)
    (low : 67 ≤ r) (high : ordinary → r ≤ 300) {claimed : Option Number}
    (claims : ordinary → ∀ p, f.polynomial = .ok p → ∃ d, p.simplify.normalize.ClaimsWithin claimed d) :
    (solve settings "y=0" 0 f claimed).Meets (Error.IsAllowed ordinary) fun s =>
      ordinary → s.HasFiniteResults :=
  solveWith_allowed (fun known => (modest known).tells) hf (fun known => (high known).trans (by decide))
    claims fun n => solveHigher_allowed modest _ low (fun known => by
      have deep := (modest known).remainingDepth_le
      have wide := high known
      omega) hf n

theorem intersectAxis_allowed (modest : ordinary → settings.AreModest) (hf : ordinary → f.IsOrdinary r)
    (low : 67 ≤ r) (high : ordinary → r ≤ 300) {axis : String} (known : axis = "x" ∨ axis = "y") :
    (intersectAxis settings f axis).Meets (Error.IsAllowed ordinary) fun _ => True := by
  unfold intersectAxis
  rcases known with rfl | rfl
  · rw [if_neg (by decide), if_pos rfl]
    exact (solve_allowed modest hf low high fun known => (hf known).claimsWithin).imp fun _ _ => trivial
  · rw [if_pos rfl]
    refine Work.meets_ofExcept_bind f.polynomial_allowed fun p _ => ?_
    exact (Work.returns_point _ _).meets.bind fun _ _ => Work.meets_record_bind (Work.meets_pure trivial)

end Recursion

end FunctionStudy
