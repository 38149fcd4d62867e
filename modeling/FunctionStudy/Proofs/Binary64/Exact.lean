import FunctionStudy.Error
import FunctionStudy.Proofs.Binary64.Grid

/-! Exact arithmetic on doubles. An operation whose exact result lies on the grid is exact. Integers
up to `2^53` are on the grid, so sums, products and quotients that stay among them are those of the
integers. -/

namespace FunctionStudy

theorem onGrid_intCast {n : ℤ} (h : |n| ≤ 2 ^ 53) : OnGrid n := by
  refine ⟨n, 1074, by have := Int.abs_eq_natAbs n; omega, by field_simp, ?_⟩
  have size : |(n : ℚ)| ≤ 2 ^ 53 := by exact_mod_cast h
  rw [ratAbs_eq_abs]
  exact lt_of_le_of_lt size (pow_lt_pow_right₀ one_lt_two (by decide))

namespace Binary64

variable {x y : Binary64} {a b : ℚ}

theorem toRat?_round (h : OnGrid a) : (round a).toRat? = some a := by
  rw [round_of_onGrid h]; rfl

theorem ofInt_eq_finite {n : ℤ} (h : |n| ≤ 2 ^ 53) : ofInt n = .finite n (onGrid_intCast h) :=
  round_of_onGrid (onGrid_intCast h)

theorem toRat?_ofInt {n : ℤ} (h : |n| ≤ 2 ^ 53) : (ofInt n).toRat? = some (n : ℚ) :=
  toRat?_round (onGrid_intCast h)

theorem ofInt_zero : ofInt 0 = zero := by
  simpa [zero] using ofInt_eq_finite (n := 0) (by norm_num)

@[simp] theorem toRat?_zero : zero.toRat? = some 0 := rfl

theorem toRat_eq (hx : x.toRat? = some a) : x.toRat = a := by simp [toRat, hx]

theorem eq_finite (hx : x.toRat? = some a) (ha : a ≠ 0) : ∃ h, x = .finite a h := by
  cases x with
  | nan => cases hx
  | inf s => cases hx
  | negZero => exact absurd (Option.some.inj hx).symm ha
  | finite v h => cases hx; exact ⟨h, rfl⟩

theorem eq_of_toRat? (hx : x.toRat? = some a) (hy : y.toRat? = some a) (ha : a ≠ 0) : x = y := by
  obtain ⟨_, rfl⟩ := eq_finite hx ha
  obtain ⟨_, rfl⟩ := eq_finite hy ha
  rfl

theorem onGrid_of_toRat? (hx : x.toRat? = some a) : OnGrid a := by
  cases x with
  | nan => cases hx
  | inf s => cases hx
  | negZero => cases hx; exact onGrid_zero
  | finite v h => cases hx; exact h

theorem isZero_iff (hx : x.toRat? = some a) : x.isZero = true ↔ a = 0 := by
  simp [isZero, hx]

theorem isNegative_of_neg (hx : x.toRat? = some a) (ha : a < 0) : x.isNegative = true := by
  obtain ⟨_, rfl⟩ := eq_finite hx ha.ne
  simpa [isNegative] using ha

theorem isNegative_of_pos (hx : x.toRat? = some a) (ha : 0 < a) : x.isNegative = false := by
  obtain ⟨_, rfl⟩ := eq_finite hx ha.ne'
  simpa [isNegative] using ha.le

theorem lt_iff (hx : x.toRat? = some a) (hy : y.toRat? = some b) : x.lt y = true ↔ a < b := by
  cases x <;> cases y <;> cases hx <;> cases hy <;>
    simp only [lt, toRat, toRat?, Option.getD_some] <;>
    exact ⟨fun h => of_decide_eq_true h, fun h => decide_eq_true h⟩

theorem same_iff (hx : x.toRat? = some a) (hy : y.toRat? = some b) : x.same y = true ↔ a = b := by
  cases x <;> cases y <;> cases hx <;> cases hy <;>
    simp only [same, toRat, toRat?, Option.getD_some] <;>
    exact ⟨fun h => of_decide_eq_true h, fun h => decide_eq_true h⟩

theorem toRat?_of_same (hy : y.toRat? = some b) (h : x.same y = true) : x.toRat? = some b := by
  have finite : ∃ a, x.toRat? = some a := by
    cases x with
    | nan => cases h
    | inf s => cases y <;> simp_all [same, toRat?]
    | negZero => exact ⟨0, rfl⟩
    | finite v _ => exact ⟨v, rfl⟩
  obtain ⟨a, ha⟩ := finite
  rw [ha, (same_iff ha hy).mp h]

theorem le_iff (hx : x.toRat? = some a) (hy : y.toRat? = some b) : x.le y = true ↔ a ≤ b := by
  rw [le, Bool.or_eq_true, lt_iff hx hy, same_iff hx hy, le_iff_lt_or_eq]

theorem isPositive_iff (hx : x.toRat? = some a) : x.isPositive = true ↔ 0 < a :=
  lt_iff toRat?_zero hx

theorem toRat?_max (hx : x.toRat? = some a) (hy : y.toRat? = some b) :
    (x.max y).toRat? = some (a ⊔ b) := by
  unfold Binary64.max
  split_ifs with h
  · rw [hy, max_eq_right ((lt_iff hx hy).mp h).le]
  · rw [hx, max_eq_left (not_lt.mp (mt (lt_iff hx hy).mpr h))]

theorem toRat?_neg (hx : x.toRat? = some a) : x.neg.toRat? = some (-a) := by
  cases x with
  | nan => cases hx
  | inf s => cases hx
  | negZero => cases hx; simp [neg]
  | finite v h =>
    cases hx
    by_cases hv : a = 0
    · simp [neg, hv, toRat?]
    · simp [neg, hv, toRat?]

theorem toRat?_abs (hx : x.toRat? = some a) : x.abs.toRat? = some |a| := by
  rcases lt_trichotomy a 0 with neg | rfl | pos
  · rw [abs, isNegative_of_neg hx neg, if_pos rfl, toRat?_neg hx, abs_of_neg neg]
  · unfold abs
    split_ifs
    · simpa using toRat?_neg hx
    · simpa using hx
  · rw [abs, isNegative_of_pos hx pos, if_neg Bool.false_ne_true, hx, abs_of_pos pos]

/-- A sum is rounded once; only two negative zeros give a negative zero. -/
theorem add_eq_round (hx : x.toRat? = some a) (hy : y.toRat? = some b)
    (h : x ≠ .negZero ∨ y ≠ .negZero) : x.add y = round (a + b) := by
  cases x <;> cases y <;> cases hx <;> cases hy <;> simp_all [add, toRat, toRat?]

theorem toRat?_add (hx : x.toRat? = some a) (hy : y.toRat? = some b) (h : OnGrid (a + b)) :
    (x.add y).toRat? = some (a + b) := by
  by_cases hz : x = .negZero ∧ y = .negZero
  · obtain ⟨rfl, rfl⟩ := hz
    cases hx; cases hy
    simp [add, toRat?]
  · rw [add_eq_round hx hy (by tauto), toRat?_round h]

theorem toRat?_sub (hx : x.toRat? = some a) (hy : y.toRat? = some b) (h : OnGrid (a - b)) :
    (x.sub y).toRat? = some (a - b) := by
  rw [sub_eq_add_neg] at h ⊢
  exact toRat?_add hx (toRat?_neg hy) h

theorem onGrid_of_abs {v : ℚ} (h : OnGrid |v|) : OnGrid v := by
  rcases abs_choice v with same | opposite
  · rwa [same] at h
  · have value := toRat?_neg (toRat?_round h)
    rw [opposite, neg_neg] at value
    exact onGrid_of_toRat? value

/-- A sum is exact if it is so at every step. -/
theorem toRat?_sum {xs : List Binary64} {vs : List ℚ} (values : List.Forall₂ (fun x v => x.toRat? = some v) xs vs)
    (sums : ∀ s, s <+: vs → OnGrid s.sum) : (sum xs).toRat? = some vs.sum := by
  suffices ∀ start v, start.toRat? = some v → (∀ s, s <+: vs → OnGrid (v + s.sum)) →
      (xs.foldl add start).toRat? = some (v + vs.sum) by
    rw [sum, this zero 0 toRat?_zero (by simpa only [zero_add] using sums), zero_add]
  clear sums
  induction values with
  | nil => exact fun start v hv _ => by simpa using hv
  | @cons x w xs vs first _ ih =>
    intro start v hv sums
    have step : (start.add x).toRat? = some (v + w) :=
      toRat?_add hv first (by simpa using sums [w] ((List.prefix_append [w] vs)))
    rw [List.foldl_cons, ih _ _ step, List.sum_cons, add_assoc]
    intro s hs
    have longer := sums (w :: s) ((List.prefix_cons_inj w).mpr hs)
    rwa [List.sum_cons, ← add_assoc] at longer

theorem toRat?_signedZero (s : Bool) : (signedZero s).toRat? = some 0 := by
  cases s <;> rfl

theorem toRat?_mul (hx : x.toRat? = some a) (hy : y.toRat? = some b) (h : OnGrid (a * b)) :
    (x.mul y).toRat? = some (a * b) := by
  simp only [mul, hx, hy]
  split_ifs with hz
  · rw [toRat?_signedZero, hz]
  · exact toRat?_round h

theorem toRat?_div? (hx : x.toRat? = some a) (hy : y.toRat? = some b) (hb : b ≠ 0)
    (h : OnGrid (a / b)) : ∃ q, x.div? y = some q ∧ q.toRat? = some (a / b) := by
  simp only [div?, hx, hy, hb, if_false]
  split_ifs with hz
  · exact ⟨_, rfl, by rw [toRat?_signedZero, hz, zero_div]⟩
  · exact ⟨_, rfl, toRat?_round h⟩

/-- Adding the positive zero leaves the value and no negative zero. -/
theorem unsignedZero_eq (hx : x.toRat? = some a) : x.unsignedZero = round a := by
  rw [unsignedZero, add_eq_round hx toRat?_zero (.inr (by simp [zero])), add_zero]

theorem add_ofInt {m n : ℤ} (hm : |m| ≤ 2 ^ 53) (hy : y.toRat? = some (n : ℚ)) :
    (ofInt m).add y = ofInt (m + n) := by
  rw [add_eq_round (toRat?_ofInt hm) hy (.inl (by simp [ofInt_eq_finite hm])), ofInt,
    Int.cast_add]

section Conversions

theorem toInt_intCast {z : ℤ} (hx : x.toRat? = some (z : ℚ)) : x.toInt = .ok z := by
  cases x with
  | nan => cases hx
  | inf s => cases hx
  | negZero =>
    obtain rfl : z = 0 := by exact_mod_cast (Option.some.inj hx).symm
    rfl
  | finite v h =>
    cases hx
    simp [toInt]

theorem isIntegral_intCast {z : ℤ} (hx : x.toRat? = some (z : ℚ)) : x.isIntegral = true := by
  cases x with
  | nan => cases hx
  | inf s => cases hx
  | negZero => rfl
  | finite v h =>
    cases hx
    simp [isIntegral]

theorem ofRatChecked_eq (h : |a| ≤ 2 ^ (1000 : ℕ)) : ofRatChecked a = .ok (round a) := by
  have far : |a| < 2 ^ (1023 : ℕ) := h.trans_lt (pow_lt_pow_right₀ one_lt_two (by decide))
  rw [ofRatChecked, if_pos (isFinite_round far)]

theorem exists_div (x : Binary64) (h : y.isZero = false) : ∃ q, x.div y = .ok q := by
  rw [isZero, decide_eq_false_iff_not] at h
  cases hx : x.toRat? <;> cases hy : y.toRat? <;> rw [div, div?, hx, hy] <;> dsimp only
  · exact ⟨_, rfl⟩
  · rw [if_neg fun zero => h (by rw [hy, zero])]
    exact ⟨_, rfl⟩
  · exact ⟨_, rfl⟩
  · rw [if_neg fun zero => h (by rw [hy, zero])]
    split_ifs <;> exact ⟨_, rfl⟩

theorem exists_intCast (integral : x.isIntegral = true) : ∃ z : ℤ, x.toRat? = some (z : ℚ) := by
  cases x with
  | nan => cases integral
  | inf s => cases integral
  | negZero => exact ⟨0, by rw [Int.cast_zero]; rfl⟩
  | finite v h =>
    have whole : v.den = 1 := by simpa [isIntegral] using integral
    exact ⟨v.num, congrArg some (Rat.coe_int_num_of_den_eq_one whole).symm⟩

theorem exists_natCast (nonneg : ¬ x.lt .zero = true) (integral : x.isIntegral = true) :
    ∃ n : ℕ, x.toRat? = some (n : ℚ) := by
  obtain ⟨z, hz⟩ := exists_intCast integral
  rw [lt_iff hz toRat?_zero, not_lt, Int.cast_nonneg_iff] at nonneg
  exact ⟨z.toNat, by rw [hz, ← Int.cast_natCast, Int.toNat_of_nonneg nonneg]⟩

end Conversions

end Binary64

theorem mapM_eq_ok {α β ε : Type} {f : α → Except ε β} {g : α → β} {xs : List α}
    (h : ∀ x ∈ xs, f x = .ok (g x)) : xs.mapM f = .ok (xs.map g) := by
  induction xs with
  | nil => rfl
  | cons x xs ih =>
    rw [List.mapM_cons, h x (by simp), ih fun y hy => h y (by simp [hy])]
    rfl

theorem Binary64.mapM_ofRatChecked {xs : List ℚ} (h : ∀ v ∈ xs, |v| ≤ 2 ^ (1000 : ℕ)) :
    xs.mapM ofRatChecked = .ok (xs.map round) :=
  mapM_eq_ok fun v hv => ofRatChecked_eq (h v hv)

theorem exists_mapM_eq_ok {α β ε : Type} {f : α → Except ε β} {R : α → β → Prop} {xs : List α}
    (h : ∀ x ∈ xs, ∃ y, f x = .ok y ∧ R x y) : ∃ ys, xs.mapM f = .ok ys ∧ List.Forall₂ R xs ys := by
  induction xs with
  | nil => exact ⟨[], rfl, .nil⟩
  | cons x xs ih =>
    obtain ⟨y, first, related⟩ := h x List.mem_cons_self
    obtain ⟨ys, rest, others⟩ := ih fun z hz => h z (List.mem_cons_of_mem x hz)
    exact ⟨y :: ys, by rw [List.mapM_cons, first, rest]; rfl, .cons related others⟩

theorem forall₂_of_mapM {α β ε : Type} {f : α → Except ε β} {xs : List α} {ys : List β}
    (h : xs.mapM f = .ok ys) : List.Forall₂ (fun x y => f x = .ok y) xs ys := by
  induction xs generalizing ys with
  | nil =>
    cases h
    exact .nil
  | cons x xs ih =>
    rw [List.mapM_cons] at h
    cases first : f x with
    | error e =>
      rw [first] at h
      cases h
    | ok y =>
      cases rest : xs.mapM f with
      | error e =>
        rw [first, rest] at h
        cases h
      | ok zs =>
        rw [first, rest] at h
        cases h
        exact .cons first (ih rest)

theorem exists_eq_ok_of_mapM {α β ε : Type} {f : α → Except ε β} {xs : List α} {ys : List β} {x : α}
    (h : xs.mapM f = .ok ys) (hx : x ∈ xs) : ∃ y, f x = .ok y := by
  have each := forall₂_of_mapM h
  clear h
  induction each with
  | nil => cases hx
  | cons first _ ih =>
    rcases List.mem_cons.mp hx with rfl | hx
    · exact ⟨_, first⟩
    · exact ih hx

/-- Related lists as one list of related pairs. -/
theorem exists_pairs {α β : Type} {R : α → β → Prop} {xs : List α} {ys : List β} (h : List.Forall₂ R xs ys) :
    ∃ zs : List (α × β), zs.map Prod.fst = xs ∧ zs.map Prod.snd = ys ∧ ∀ z ∈ zs, R z.1 z.2 := by
  have length := h.length_eq
  exact ⟨xs.zip ys, List.map_fst_zip length.le, List.map_snd_zip length.ge, fun _ hz => List.forall₂_zip h hz⟩

end FunctionStudy
