import FunctionStudy.Proofs.Binary64.Exact

/-! Rounding to the nearest. What is nearer to a value of the grid than about half a unit in its
53rd place is rounded to it. -/

namespace FunctionStudy

variable {u v w : ℚ}

theorem abs_nearestEven_sub_le_intCast (v : ℚ) (n : ℤ) : |(nearestEven v : ℚ) - v| ≤ |(n : ℚ) - v| := by
  by_cases same : n = nearestEven v
  · rw [same]
  · have apart : (1 : ℚ) ≤ |(n : ℚ) - nearestEven v| := by
      exact_mod_cast Int.one_le_abs (sub_ne_zero.mpr same)
    have split := abs_sub_le (n : ℚ) v (nearestEven v)
    rw [abs_sub_comm v] at split
    linarith [abs_nearestEven_sub_le v]

theorem nearestEven_neg (v : ℚ) : nearestEven (-v) = -nearestEven v := by
  by_cases whole : v = v.floor
  · rw [whole, ← Int.cast_neg, nearestEven_intCast, nearestEven_intCast]
  · have lower : (v.floor : ℚ) < v := lt_of_le_of_ne (Rat.floor_le v) (Ne.symm whole)
    have upper : v < v.floor + 1 := by exact_mod_cast Rat.lt_floor_add_one v
    have mirrored : (-v).floor = -v.floor - 1 := by
      have least : -v.floor - 1 ≤ (-v).floor := Rat.le_floor_iff.mpr (by push_cast; linarith)
      have most : ((-v).floor : ℚ) < -v.floor := (Rat.floor_le _).trans_lt (by linarith)
      have below : (-v).floor < -v.floor := by exact_mod_cast most
      omega
    rw [nearestEven, nearestEven, mirrored]
    push_cast
    split_ifs <;> first | omega | (exfalso; linarith)

/-- Values of the grid, whatever their size: at most `2^53` steps of a binary place. -/
def HasSteps (u : ℚ) : Prop :=
  ∃ (m : ℤ) (k : ℕ), |(m : ℚ)| ≤ 2 ^ 53 ∧ u * 2 ^ (1074 : ℕ) = m * 2 ^ k

theorem abs_intCast_le {m : ℤ} {n : ℕ} (h : m.natAbs ≤ n) : |(m : ℚ)| ≤ n := by
  rw [← Int.cast_abs, Int.abs_eq_natAbs]
  exact_mod_cast h

theorem OnGrid.hasSteps (h : OnGrid u) : HasSteps u := by
  obtain ⟨m, k, hm, hu, -⟩ := h
  exact ⟨m, k, (abs_intCast_le hm).trans (by norm_num), by rw [hu]; field_simp⟩

namespace Binary64

theorem hasSteps_gridValue (v : ℚ) : HasSteps (gridValue v) :=
  ⟨significand v, excessBits v, (abs_intCast_le (natAbs_significand_le v)).trans (by norm_num), by
    rw [gridValue]; field_simp⟩

/-- The place of the last bit that rounding keeps of a value. -/
def lastPlace (v : ℚ) : ℚ := 2 ^ excessBits v / 2 ^ (1074 : ℕ)

theorem lastPlace_pos (v : ℚ) : 0 < lastPlace v := div_pos (two_pow_pos _) (two_pow_pos _)

theorem gridValue_eq (v : ℚ) : gridValue v = nearestEven (v / lastPlace v) * lastPlace v := by
  have quotient : v / lastPlace v = v * 2 ^ (1074 : ℕ) / 2 ^ excessBits v := by
    rw [lastPlace, div_div_eq_mul_div]
  rw [gridValue, significand, quotient, lastPlace, mul_div_assoc]

theorem abs_gridValue_sub_le_multiple (v : ℚ) (n : ℤ) :
    |gridValue v - v| ≤ |n * lastPlace v - v| := by
  have place := lastPlace_pos v
  have scaled : ∀ m : ℤ, |m * lastPlace v - v| = |(m : ℚ) - v / lastPlace v| * lastPlace v := by
    intro m
    rw [← abs_of_pos place, ← abs_mul, abs_of_pos place, sub_mul, div_mul_cancel₀ _ place.ne']
  rw [gridValue_eq, scaled, scaled]
  exact mul_le_mul_of_nonneg_right (abs_nearestEven_sub_le_intCast _ n) place.le

theorem le_of_excessBits (h : 0 < excessBits v) : 2 ^ 52 * lastPlace v ≤ |v| := by
  have bits : 52 + excessBits v = (v.abs * 2 ^ (1074 : ℕ)).floor.natAbs.log2 := by
    unfold excessBits at h ⊢
    omega
  have nonneg : 0 ≤ (v.abs * 2 ^ (1074 : ℕ)).floor :=
    Rat.le_floor_iff.mpr (by rw [ratAbs_eq_abs]; positivity)
  have nonzero : (v.abs * 2 ^ (1074 : ℕ)).floor.natAbs ≠ 0 := by
    intro zero
    rw [zero] at bits
    simp at bits
  have least := Nat.log2_self_le nonzero
  rw [← bits] at least
  have floor : (2 : ℚ) ^ (52 + excessBits v) ≤ (v.abs * 2 ^ (1074 : ℕ)).floor := by
    have : ((2 ^ (52 + excessBits v) : ℕ) : ℤ) ≤ (v.abs * 2 ^ (1074 : ℕ)).floor := by omega
    exact_mod_cast this
  have size := floor.trans (Rat.floor_le _)
  rw [ratAbs_eq_abs, ← div_le_iff₀ (two_pow_pos _), pow_add, mul_div_assoc] at size
  exact size

/-- The least value with 53 bits at the last place lies between the value and a smaller one. -/
theorem abs_gridValue_sub_le_of_small (bits : 0 < excessBits v) (size : |u| ≤ 2 ^ 52 * lastPlace v) :
    |gridValue v - v| ≤ |u - v| := by
  have more := le_of_excessBits bits
  obtain ⟨lower, upper⟩ := abs_le.mp size
  rcases le_total 0 v with positive | negative
  · have near := abs_gridValue_sub_le_multiple v (2 ^ 52)
    rw [Int.cast_pow, Int.cast_ofNat] at near
    rw [abs_of_nonneg positive] at more
    generalize 2 ^ 52 * lastPlace v = b at *
    rw [abs_of_nonpos (sub_nonpos.mpr more)] at near
    exact near.trans ((neg_le_neg (sub_le_sub_right upper v)).trans (neg_le_abs _))
  · have near := abs_gridValue_sub_le_multiple v (-2 ^ 52)
    rw [Int.cast_neg, Int.cast_pow, Int.cast_ofNat, neg_mul] at near
    rw [abs_of_nonpos negative] at more
    generalize 2 ^ 52 * lastPlace v = b at *
    rw [abs_of_nonneg (sub_nonneg.mpr (le_neg_of_le_neg more))] at near
    exact near.trans ((sub_le_sub_right lower v).trans (le_abs_self _))

/-- No value of the grid is nearer. -/
theorem abs_gridValue_sub_le (hu : HasSteps u) (v : ℚ) : |gridValue v - v| ≤ |u - v| := by
  obtain ⟨m, k, hm, steps⟩ := hu
  have value : u = m * 2 ^ k / 2 ^ (1074 : ℕ) := by rw [← steps]; field_simp
  rcases Nat.lt_or_ge k (excessBits v) with below | above
  · refine abs_gridValue_sub_le_of_small (Nat.zero_lt_of_lt below) ?_
    have finer : (2 : ℚ) * 2 ^ k ≤ 2 ^ excessBits v := by
      rw [← pow_succ']
      exact pow_le_pow_right₀ one_le_two below
    rw [value, abs_div, abs_mul, abs_of_pos (two_pow_pos k), abs_of_pos (two_pow_pos _), lastPlace,
      ← mul_div_assoc]
    refine div_le_div_of_nonneg_right ?_ (two_pow_pos _).le
    calc |(m : ℚ)| * 2 ^ k ≤ 2 ^ 53 * 2 ^ k := by gcongr
      _ = 2 ^ 52 * (2 * 2 ^ k) := by ring
      _ ≤ 2 ^ 52 * 2 ^ excessBits v := by gcongr
  · obtain ⟨j, hj⟩ := Nat.exists_eq_add_of_le above
    have whole : u = ((m * 2 ^ j : ℤ) : ℚ) * lastPlace v := by
      rw [value, lastPlace, hj, pow_add, ← mul_div_assoc]
      push_cast
      congr 1
      ring
    rw [whole]
    exact abs_gridValue_sub_le_multiple v _

section Gaps

/-- The value with the finer steps is a whole number of them away. -/
theorem abs_le_of_finer {m n : ℤ} {j k : ℕ} (hm : |(m : ℚ)| ≤ 2 ^ 53)
    (hu : u * 2 ^ (1074 : ℕ) = m * 2 ^ j) (hv : v * 2 ^ (1074 : ℕ) = n * 2 ^ k) (finer : j ≤ k)
    (h : u ≠ v) : |u| ≤ 2 ^ 53 * |u - v| := by
  obtain ⟨i, rfl⟩ := Nat.exists_eq_add_of_le finer
  have scale : (0 : ℚ) < 2 ^ (1074 : ℕ) := two_pow_pos 1074
  have apart : (u - v) * 2 ^ (1074 : ℕ) = ((m - n * 2 ^ i : ℤ) : ℚ) * 2 ^ j := by
    rw [sub_mul, hu, hv, pow_add]
    push_cast
    ring
  have nonzero : m - n * 2 ^ i ≠ 0 := by
    intro zero
    rw [zero, Int.cast_zero, zero_mul, mul_eq_zero, sub_eq_zero] at apart
    exact apart.elim h scale.ne'
  have one : (1 : ℚ) ≤ |((m - n * 2 ^ i : ℤ) : ℚ)| := by exact_mod_cast Int.one_le_abs nonzero
  refine le_of_mul_le_mul_right ?_ scale
  calc |u| * 2 ^ (1074 : ℕ) = |(m : ℚ)| * 2 ^ j := by
        rw [← abs_of_pos scale, ← abs_mul, hu, abs_mul, abs_of_pos (two_pow_pos j)]
    _ ≤ 2 ^ 53 * (1 * 2 ^ j) := by rw [one_mul]; gcongr
    _ ≤ 2 ^ 53 * (|((m - n * 2 ^ i : ℤ) : ℚ)| * 2 ^ j) := by gcongr
    _ = 2 ^ 53 * |u - v| * 2 ^ (1074 : ℕ) := by
        rw [mul_assoc, ← abs_of_pos scale, ← abs_mul, apart, abs_mul, abs_of_pos (two_pow_pos j)]

/-- Different values of the grid are apart. -/
theorem abs_le_of_ne (hu : HasSteps u) (hv : HasSteps v) (h : u ≠ v) : |v| ≤ (2 ^ 53 + 1) * |u - v| := by
  obtain ⟨m, j, hm, stepsU⟩ := hu
  obtain ⟨n, k, hn, stepsV⟩ := hv
  rcases le_total j k with finer | finer
  · have first := abs_le_of_finer hm stepsU stepsV finer h
    have size := abs_sub_abs_le_abs_sub v u
    rw [abs_sub_comm v u] at size
    linarith
  · have second := abs_le_of_finer hn stepsV stepsU finer h.symm
    rw [abs_sub_comm v u] at second
    linarith [abs_nonneg (u - v)]

end Gaps

theorem gridValue_of_hasSteps (h : HasSteps v) : gridValue v = v := by
  have near := abs_gridValue_sub_le h v
  rw [sub_self, abs_zero] at near
  exact sub_eq_zero.mp (abs_nonpos_iff.mp near)

theorem gridValue_neg (v : ℚ) : gridValue (-v) = -gridValue v := by
  have bits : excessBits (-v) = excessBits v := by rw [excessBits, excessBits, Rat.abs_neg]
  rw [gridValue_eq, gridValue_eq, lastPlace, bits, ← lastPlace, neg_div, nearestEven_neg]
  push_cast
  ring

theorem gridValue_nonneg (h : 0 ≤ v) : 0 ≤ gridValue v := by
  have kept : (0 : ℤ) ≤ nearestEven (v / lastPlace v) :=
    le_nearestEven (by exact_mod_cast div_nonneg h (lastPlace_pos v).le)
  rw [gridValue_eq]
  exact mul_nonneg (by exact_mod_cast kept) (lastPlace_pos v).le

theorem gridValue_mono : Monotone gridValue := by
  intro v w le
  by_contra above
  have strict : v < w := lt_of_le_of_ne le fun same => above (by rw [same])
  have first := abs_gridValue_sub_le (hasSteps_gridValue w) v
  have second := abs_gridValue_sub_le (hasSteps_gridValue v) w
  rw [not_le] at above
  cases abs_cases (gridValue v - v) <;> cases abs_cases (gridValue w - v) <;>
    cases abs_cases (gridValue w - w) <;> cases abs_cases (gridValue v - w) <;> linarith

theorem gridValue_abs (v : ℚ) : gridValue |v| = |gridValue v| := by
  rcases le_total 0 v with nonneg | nonpos
  · rw [abs_of_nonneg nonneg, abs_of_nonneg (gridValue_nonneg nonneg)]
  · have opposite := gridValue_nonneg (neg_nonneg.mpr nonpos)
    rw [gridValue_neg] at opposite
    rw [abs_of_nonpos nonpos, abs_of_nonpos (neg_nonneg.mp opposite), gridValue_neg]

theorem gridValue_of_round (hv : OnGrid v) (h : round w = .finite v hv) : gridValue w = v := by
  unfold round at h
  split_ifs at h
  exact Binary64.finite.inj h

theorem toRat?_round_of_lt (small : |gridValue w| < 2 ^ (1024 : ℕ)) :
    (round w).toRat? = some (gridValue w) := by
  rw [← ratAbs_eq_abs] at small
  unfold round
  split_ifs with zero
  · rw [zero.1]
    rfl
  · rfl

theorem toRat?_round_of_isFinite (h : (round v).isFinite = true) : (round v).toRat? = some (gridValue v) := by
  unfold round at h ⊢
  split_ifs at h ⊢ with zero small
  · rw [zero.1]
    rfl
  · rfl
  · cases h

theorem abs_gridValue_lt (h : |v| ≤ 2 ^ (1000 : ℕ)) : |gridValue v| < 2 ^ (1024 : ℕ) := by
  refine (abs_gridValue_le v).trans_lt ?_
  calc 2 * |v| ≤ 2 * 2 ^ (1000 : ℕ) := by gcongr
    _ = 2 ^ (1001 : ℕ) := (pow_succ' 2 1000).symm
    _ < 2 ^ (1024 : ℕ) := pow_lt_pow_right₀ one_lt_two (by decide)

theorem toRat?_round_of_abs_le (h : |v| ≤ 2 ^ (1000 : ℕ)) : (round v).toRat? = some (gridValue v) :=
  toRat?_round_of_lt (abs_gridValue_lt h)

section Quotients

variable {x y : Binary64} (hx : x.toRat? = some v) (hy : y.toRat? = some w)

include hx hy

theorem exists_div_isFinite_of_lt (nonzero : w ≠ 0) (small : |gridValue (v / w)| < 2 ^ (1024 : ℕ)) :
    ∃ q, x.div y = .ok q ∧ q.isFinite = true := by
  have quotient : ∃ q, x.div? y = some q ∧ q.isFinite = true := by
    simp only [div?, hx, hy, if_neg nonzero]
    split_ifs
    · exact ⟨_, rfl, by rw [isFinite, toRat?_signedZero, Option.isSome_some]⟩
    · exact ⟨_, rfl, by rw [isFinite, toRat?_round_of_lt small, Option.isSome_some]⟩
  obtain ⟨q, hq, finite⟩ := quotient
  exact ⟨q, by rw [div, hq], finite⟩

theorem exists_div_isFinite (nonzero : w ≠ 0) (small : |v / w| ≤ 2 ^ (1000 : ℕ)) :
    ∃ q, x.div y = .ok q ∧ q.isFinite = true :=
  exists_div_isFinite_of_lt hx hy nonzero (abs_gridValue_lt small)

theorem exists_div_isFinite_of_one_le (h : 1 ≤ w) : ∃ q, x.div y = .ok q ∧ q.isFinite = true := by
  have range : |v| < 2 ^ (1024 : ℕ) := by
    obtain ⟨_, _, _, _, range⟩ := onGrid_of_toRat? hx
    rwa [← ratAbs_eq_abs]
  have below : |v / w| ≤ |v| := by
    rw [abs_div, abs_of_pos (zero_lt_one.trans_le h)]
    exact div_le_self (abs_nonneg v) h
  refine exists_div_isFinite_of_lt hx hy (zero_lt_one.trans_le h).ne' ?_
  calc |gridValue (v / w)| = gridValue |v / w| := (gridValue_abs _).symm
    _ ≤ gridValue |v| := gridValue_mono below
    _ = |v| := by rw [gridValue_abs, gridValue_of_onGrid (onGrid_of_toRat? hx)]
    _ < 2 ^ (1024 : ℕ) := range

end Quotients

theorem round_eq_of_gridValue (hv : OnGrid v) (value : gridValue w = v) (sign : v = 0 → 0 ≤ w) :
    round w = .finite v hv := by
  have small : v.abs < 2 ^ (1024 : ℕ) := by obtain ⟨_, _, _, _, h⟩ := hv; exact h
  have unsigned : ¬ (v = 0 ∧ w < 0) := fun ⟨zero, negative⟩ => (sign zero).not_gt negative
  simp only [round, value, unsigned, small, if_false, dif_pos]

/-- What is near to a value of the grid is rounded to it. -/
theorem round_eq_of_near (hv : OnGrid v) (near : (2 ^ 54 + 2) * |w - v| < |v|) :
    round w = .finite v hv := by
  have nonzero : v ≠ 0 := by
    rintro rfl
    rw [abs_zero] at near
    linarith [abs_nonneg (w - 0)]
  refine round_eq_of_gridValue hv ?_ fun zero => absurd zero nonzero
  by_contra other
  have nearest := abs_gridValue_sub_le hv.hasSteps w
  have apart := abs_le_of_ne (hasSteps_gridValue w) hv.hasSteps other
  have split := abs_sub_le (gridValue w) w v
  rw [abs_sub_comm v w] at nearest
  linarith

end Binary64
end FunctionStudy
