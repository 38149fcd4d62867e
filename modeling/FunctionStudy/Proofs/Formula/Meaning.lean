import Mathlib.Algebra.BigOperators.Group.List.Basic
import Mathlib.Algebra.Order.Field.Rat
import Mathlib.Data.Rat.Floor
import Mathlib.Tactic.Linarith
import Mathlib.Tactic.LinearCombination
import Mathlib.Tactic.Ring
import FunctionStudy.Evaluation

/-! Meaning of formulas in the unknown. A formula without other letters, with natural powers,
denotes a polynomial function. Collecting keeps the function, and the exact value at a rational is
the value of the function. -/

namespace FunctionStudy.Formula

/-- The unknown to a natural power. -/
def Monomial.ofPower (k : ℕ) : Monomial := ⟨k, 0, 0, []⟩

@[simp] theorem Monomial.ofPower_zero : ofPower 0 = one := rfl

theorem Monomial.ofPower_mul (j k : ℕ) : (ofPower j).mul (ofPower k) = ofPower (j + k) := by
  simp [ofPower, mul]

theorem Monomial.ofPower_injective {j k : ℕ} (h : ofPower j = ofPower k) : j = k := by
  simpa [ofPower] using h

namespace Polynomial

/-- Only powers of the unknown. -/
def IsPlain (p : Polynomial) : Prop := ∀ t ∈ p, ∃ k : ℕ, t.1 = .ofPower k

def eval (x : ℚ) (p : Polynomial) : ℚ := (p.map fun t => t.2 * x ^ t.1.unknown.num.toNat).sum

@[simp] theorem eval_nil (x : ℚ) : eval x [] = 0 := rfl

@[simp] theorem eval_cons_power (x c : ℚ) (k : ℕ) (p : Polynomial) :
    eval x ((.ofPower k, c) :: p) = c * x ^ k + eval x p := by
  simp [eval, Monomial.ofPower]

theorem isPlain_nil : IsPlain [] := by intro t ht; cases ht

theorem isPlain_cons {k : ℕ} {c : ℚ} {p : Polynomial} (hp : p.IsPlain) :
    IsPlain ((.ofPower k, c) :: p) := by
  intro t ht
  rcases List.mem_cons.mp ht with rfl | ht
  · exact ⟨k, rfl⟩
  · exact hp t ht

theorem IsPlain.head {t : Monomial × ℚ} {p : Polynomial} (h : IsPlain (t :: p)) :
    ∃ k : ℕ, t.1 = .ofPower k := h t List.mem_cons_self

theorem IsPlain.tail {t : Monomial × ℚ} {p : Polynomial} (h : IsPlain (t :: p)) : p.IsPlain :=
  fun u hu => h u (List.mem_cons_of_mem t hu)

variable {p q : Polynomial}

theorem addTerm_plain (k : ℕ) (c : ℚ) (hp : p.IsPlain) :
    (addTerm (.ofPower k) c p).IsPlain ∧
      ∀ x, eval x (addTerm (.ofPower k) c p) = c * x ^ k + eval x p := by
  induction p with
  | nil =>
    by_cases hc : c = 0
    · simp [addTerm, hc, isPlain_nil]
    · simp only [addTerm, hc, if_false]
      exact ⟨isPlain_cons isPlain_nil, fun x => eval_cons_power x c k []⟩
  | cons t p ih =>
    obtain ⟨m, d⟩ := t
    obtain ⟨j, hj : m = .ofPower j⟩ := hp.head
    subst hj
    obtain ⟨plain, value⟩ := ih hp.tail
    by_cases same : k = j
    · subst same
      by_cases cancels : c + d = 0
      · simp only [addTerm, if_true, cancels]
        refine ⟨hp.tail, fun x => ?_⟩
        rw [eval_cons_power]
        linear_combination (-(x ^ k)) * cancels
      · simp only [addTerm, if_true, cancels, if_false]
        refine ⟨isPlain_cons hp.tail, fun x => ?_⟩
        rw [eval_cons_power, eval_cons_power]
        ring
    · have other : Monomial.ofPower k ≠ .ofPower j := fun h => same (Monomial.ofPower_injective h)
      simp only [addTerm, other, if_false]
      refine ⟨isPlain_cons plain, fun x => ?_⟩
      rw [eval_cons_power, eval_cons_power, value]
      ring

theorem add_plain (hp : p.IsPlain) (hq : q.IsPlain) :
    (p.add q).IsPlain ∧ ∀ x, eval x (p.add q) = eval x p + eval x q := by
  unfold add
  induction q generalizing p with
  | nil => exact ⟨hp, fun x => by simp⟩
  | cons t q ih =>
    obtain ⟨m, c⟩ := t
    obtain ⟨k, hk : m = .ofPower k⟩ := hq.head
    subst hk
    obtain ⟨plain, value⟩ := addTerm_plain k c hp
    obtain ⟨plainSum, valueSum⟩ := ih plain hq.tail
    refine ⟨plainSum, fun x => ?_⟩
    rw [List.foldl_cons, valueSum, value, eval_cons_power]
    ring

theorem neg_plain (hp : p.IsPlain) : p.neg.IsPlain ∧ ∀ x, eval x p.neg = -eval x p := by
  induction p with
  | nil => exact ⟨isPlain_nil, fun x => by simp [neg]⟩
  | cons t p ih =>
    obtain ⟨m, c⟩ := t
    obtain ⟨k, hk : m = .ofPower k⟩ := hp.head
    subst hk
    obtain ⟨plain, value⟩ := ih hp.tail
    refine ⟨isPlain_cons plain, fun x => ?_⟩
    have step : neg ((.ofPower k, c) :: p) = (.ofPower k, -c) :: neg p := rfl
    rw [step, eval_cons_power, eval_cons_power, value]
    ring

theorem mulTerm_plain (k : ℕ) (c : ℚ) (hq : q.IsPlain) {sum : Polynomial} (hs : sum.IsPlain) :
    (q.foldl (fun sum (n, d) => addTerm ((Monomial.ofPower k).mul n) (c * d) sum) sum).IsPlain ∧
      ∀ x, eval x (q.foldl (fun sum (n, d) =>
        addTerm ((Monomial.ofPower k).mul n) (c * d) sum) sum) =
          eval x sum + c * x ^ k * eval x q := by
  induction q generalizing sum with
  | nil => exact ⟨hs, fun x => by simp⟩
  | cons t q ih =>
    obtain ⟨m, d⟩ := t
    obtain ⟨j, hj : m = .ofPower j⟩ := hq.head
    subst hj
    simp only [List.foldl_cons, Monomial.ofPower_mul]
    obtain ⟨plain, value⟩ := addTerm_plain (k + j) (c * d) hs
    obtain ⟨plainSum, valueSum⟩ := ih hq.tail plain
    refine ⟨plainSum, fun x => ?_⟩
    rw [valueSum, value, eval_cons_power, pow_add]
    ring

theorem mul_plain (hp : p.IsPlain) (hq : q.IsPlain) :
    (p.mul q).IsPlain ∧ ∀ x, eval x (p.mul q) = eval x p * eval x q := by
  suffices ∀ sum : Polynomial, sum.IsPlain →
      (p.foldl (fun sum (m, c) => q.foldl (fun sum (n, d) =>
        addTerm (m.mul n) (c * d) sum) sum) sum).IsPlain ∧
      ∀ x, eval x (p.foldl (fun sum (m, c) => q.foldl (fun sum (n, d) =>
        addTerm (m.mul n) (c * d) sum) sum) sum) = eval x sum + eval x p * eval x q by
    simpa [mul] using this [] isPlain_nil
  induction p with
  | nil => intro sum hs; exact ⟨hs, fun x => by simp⟩
  | cons t p ih =>
    intro sum hs
    obtain ⟨m, c⟩ := t
    obtain ⟨k, hk : m = .ofPower k⟩ := hp.head
    subst hk
    obtain ⟨plain, value⟩ := mulTerm_plain k c hq hs
    obtain ⟨plainSum, valueSum⟩ := ih hp.tail _ plain
    refine ⟨plainSum, fun x => ?_⟩
    rw [List.foldl_cons, valueSum, value, eval_cons_power]
    ring

theorem constant_plain (c : ℚ) : (constant c).IsPlain ∧ ∀ x, eval x (constant c) = c := by
  obtain ⟨plain, value⟩ := addTerm_plain 0 c isPlain_nil
  exact ⟨plain, fun x => by simpa [constant] using value x⟩

theorem letters_of_isPlain (hp : p.IsPlain) : p.letters = [] := by
  refine List.flatMap_eq_nil_iff.mpr fun t ht => ?_
  obtain ⟨k, hk⟩ := hp t ht
  simp [hk, Monomial.ofPower]

/-- The sums of surds that a rational leaves. -/
def rationalSum (s : ℚ) : List (Surd × ℚ) := if s = 0 then [] else [(.one, s)]

theorem addFactor_rationalSum (c s : ℚ) :
    addFactor .one c (rationalSum s) = rationalSum (c + s) := by
  unfold rationalSum
  split_ifs with hs hsum hsum <;> simp_all [addFactor]

theorem evaluateMonomial_power (point : Point) (k : ℕ) (c : ℚ) :
    point.evaluateMonomial (.ofPower k) c = .finite .one (c * point.value ^ k) := by
  have floor : Rat.floor 0 = 0 := rfl
  have nonneg : ¬ (k : ℚ) < 0 := not_lt.mpr (Nat.cast_nonneg k)
  simp [Point.evaluateMonomial, Monomial.ofPower, nonneg, Factor.ofPhase, fractional, floor,
    Surd.one]

/-- Adding the terms one after the other, by any step that adds a power rightly. -/
theorem foldl_powers {x : ℚ}
    {step : ℕ × List (Surd × ℚ) → Monomial × ℚ → ℕ × List (Surd × ℚ)}
    (h : ∀ s k c, step (0, rationalSum s) (.ofPower k, c) = (0, rationalSum (c * x ^ k + s)))
    (hp : p.IsPlain) (s : ℚ) :
    p.foldl step (0, rationalSum s) = (0, rationalSum (s + eval x p)) := by
  induction p generalizing s with
  | nil => simp
  | cons t p ih =>
    obtain ⟨m, c⟩ := t
    obtain ⟨k, hk : m = .ofPower k⟩ := hp.head
    subst hk
    rw [List.foldl_cons, h, ih hp.tail, eval_cons_power]
    congr 2
    ring

theorem valueAt_of_isPlain (hp : p.IsPlain) (x : ℚ) : p.valueAt x = .rational (eval x p) := by
  have noBase : p.needsBase = false := by
    refine List.any_eq_false.mpr fun t ht => ?_
    obtain ⟨k, hk⟩ := hp t ht
    simp [hk, Monomial.ofPower]
  have start : ((0, []) : ℕ × List (Surd × ℚ)) = (0, rationalSum 0) := by simp [rationalSum]
  simp only [valueAt, noBase, Bool.false_and, Bool.false_eq_true, if_false, start]
  rw [foldl_powers (x := x) (fun s k c => by
    simp only [evaluateMonomial_power, addFactor_rationalSum]) hp 0, zero_add]
  unfold rationalSum
  split_ifs with zero
  · simp [Value.ofSurds, zero]
  · simp [Value.ofSurds]

end Polynomial

/-- A formula that collects to a polynomial in the unknown with the given function. -/
def Means (f : Formula) (g : ℚ → ℚ) : Prop :=
  ∃ p : Polynomial, f.collect = .polynomial p ∧ p.IsPlain ∧ ∀ x, p.eval x = g x

theorem means_number (v : ℚ) : Means (.number v) fun _ => v := by
  obtain ⟨plain, value⟩ := Polynomial.constant_plain v
  exact ⟨_, rfl, plain, value⟩

theorem means_unknown : Means (.symbol .unknown) fun x => x :=
  ⟨[(.ofPower 1, 1)], rfl, Polynomial.isPlain_cons Polynomial.isPlain_nil, fun x => by simp⟩

theorem means_unknown_power (k : ℕ) :
    Means (.power (.symbol .unknown) (.number k)) fun x => x ^ k := by
  refine ⟨[(.ofPower k, 1)], ?_, Polynomial.isPlain_cons Polynomial.isPlain_nil, fun x => by simp⟩
  by_cases hk : k = 0
  · subst hk; rfl
  have nonzero : (k : ℚ) ≠ 0 := Nat.cast_ne_zero.mpr hk
  have exponent : Polynomial.constant (k : ℚ) = [(.one, (k : ℚ))] := by
    simp [Polynomial.constant, Polynomial.addTerm, hk]
  have number : Polynomial.constant? [(.one, (k : ℚ))] = some (k : ℚ) := by
    simp [Polynomial.constant?]
  have power : Collected.power [(.ofSymbol .unknown, 1)] [(.one, (k : ℚ))] =
      .polynomial [((Monomial.ofSymbol .unknown).pow k, 1)] := by
    simp only [Collected.power, number, if_neg nonzero]
    rfl
  have raised : (Monomial.ofSymbol .unknown).pow k = .ofPower k := by
    simp [Monomial.pow, Monomial.ofSymbol, Monomial.one, Monomial.ofPower]
  simp only [collect, Collected.combine, exponent, power, raised]

variable {f g : Formula} {u v : ℚ → ℚ}

theorem Means.negate (h : Means f u) : Means (.negate f) fun x => -u x := by
  obtain ⟨p, hc, plain, value⟩ := h
  obtain ⟨plain', value'⟩ := Polynomial.neg_plain plain
  exact ⟨p.neg, by simp [collect, hc], plain', fun x => by rw [value', value]⟩

theorem Means.sum (hf : Means f u) (hg : Means g v) : Means (.sum f g) fun x => u x + v x := by
  obtain ⟨p, hp, plain, value⟩ := hf
  obtain ⟨q, hq, plain', value'⟩ := hg
  obtain ⟨plainSum, valueSum⟩ := Polynomial.add_plain plain plain'
  exact ⟨p.add q, by simp [collect, hp, hq, Collected.combine], plainSum,
    fun x => by rw [valueSum, value, value']⟩

theorem Means.product (hf : Means f u) (hg : Means g v) :
    Means (.product f g) fun x => u x * v x := by
  obtain ⟨p, hp, plain, value⟩ := hf
  obtain ⟨q, hq, plain', value'⟩ := hg
  obtain ⟨plainProduct, valueProduct⟩ := Polynomial.mul_plain plain plain'
  cases p with
  | nil =>
    refine ⟨[], by simp [collect, hp, hq, Collected.product], Polynomial.isPlain_nil, fun x => ?_⟩
    simp [← value x]
  | cons s p =>
    cases q with
    | nil =>
      refine ⟨[], by simp [collect, hp, hq, Collected.product], Polynomial.isPlain_nil, fun x => ?_⟩
      simp [← value' x]
    | cons t q =>
      exact ⟨_, by simp [collect, hp, hq, Collected.product, Collected.combine], plainProduct,
        fun x => by rw [valueProduct, value, value']⟩

theorem Means.congr (h : Means f u) (e : ∀ x, u x = v x) : Means f v := by
  obtain ⟨p, hc, plain, value⟩ := h
  exact ⟨p, hc, plain, fun x => (value x).trans (e x)⟩

/-- The text of a formula in the unknown compiles, and its value at a rational is exact. -/
theorem compile_of_means {text letter : String} (hp : parse? letter text = some f)
    (h : Means f u) :
    ∃ c, compile text letter = .ok c ∧ ∀ x, c.valueAt x = .rational (u x) := by
  obtain ⟨p, hc, plain, value⟩ := h
  refine ⟨.polynomial p, ?_, fun x => ?_⟩
  · have noLetters : Collected.letters (.polynomial p) = [] :=
      Polynomial.letters_of_isPlain plain
    simp [compile, hp, hc, noLetters, sortedLetters]
  · rw [Collected.valueAt, Polynomial.valueAt_of_isPlain plain, value]

end FunctionStudy.Formula
