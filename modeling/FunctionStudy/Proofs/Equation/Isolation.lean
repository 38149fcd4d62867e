import Mathlib.Algebra.BigOperators.Group.List.Basic
import Mathlib.Algebra.BigOperators.Ring.List
import Mathlib.Algebra.Order.Field.Rat
import Mathlib.Data.Rat.Cast.CharZero
import Mathlib.Tactic.FieldSimp
import Mathlib.Tactic.LinearCombination
import FunctionStudy.Equation
import FunctionStudy.Proofs.Binary64.Exact

/-! Solving an equation for the dependent variable. The steps of `toExplicit` can be taken on
coefficients of any kind: on doubles they are those of the program, and on rationals nothing is
rounded. -/

namespace FunctionStudy

section Steps

/-- What solving for a variable does with coefficients. -/
structure Arithmetic (α : Type) where
  neg : α → α
  sum : List α → α
  isZero : α → Bool
  isOne : α → Bool
  /-- Multiplication by `1 / k`. -/
  divide : (k c : α) → α

namespace Arithmetic

def double : Arithmetic Binary64 where
  neg := Binary64.neg
  sum := Binary64.sum
  isZero := Binary64.isZero
  isOne k := k.same (.ofInt 1)
  divide k c := c.mul (((Binary64.ofInt 1).div? k).getD .nan)

def rational : Arithmetic ℚ where
  neg c := -c
  sum := List.sum
  isZero c := c = 0
  isOne c := c = 1
  divide k c := c * (1 / k)

theorem rational_neg (c : ℚ) : rational.neg c = c * -1 := (mul_neg_one c).symm

theorem rational_divide (k c : ℚ) : rational.divide k c = c * (1 / k) := rfl

end Arithmetic

def Literal.isDependent (l : Literal) : Bool :=
  isDependentLetter l.letter && l.exponent.same (.ofInt 1)

/-- A term with a coefficient of any kind. -/
structure Summand (α : Type) where
  coefficient : α
  literal : Option Literal
deriving DecidableEq

namespace Summand

variable {α β : Type}

def map (f : α → β) (t : Summand α) : Summand β := ⟨f t.coefficient, t.literal⟩

def isDependent (t : Summand α) : Bool := t.literal.any Literal.isDependent

def exponent (t : Summand α) : Binary64 := (t.literal.map (·.exponent)).getD .zero

def sort (ts : List (Summand α)) : List (Summand α) :=
  ts.mergeSort fun t u => !(t.exponent.lt u.exponent)

@[simp] theorem isDependent_map (f : α → β) (t : Summand α) : (t.map f).isDependent = t.isDependent := rfl

end Summand

/-- An equation with coefficients of any kind. -/
structure Sides (α : Type) where
  left : List (Summand α)
  right : List (Summand α)

namespace Sides

variable {α : Type} (A : Arithmetic α) (f : Sides α)

def map {β : Type} (φ : α → β) (f : Sides α) : Sides β := ⟨f.left.map (·.map φ), f.right.map (·.map φ)⟩

def isExplicit : Bool :=
  match f.left with
  | [t] => t.isDependent && A.isOne t.coefficient
  | _ => false

theorem exists_of_isExplicit {A} {f : Sides α} (h : f.isExplicit A = true) :
    ∃ t, f.left = [t] ∧ t.isDependent = true ∧ A.isOne t.coefficient = true := by
  unfold isExplicit at h
  split at h
  · next t single => exact ⟨t, single, Bool.and_eq_true_iff.mp h⟩
  · cases h

/-- Where the left member has the variable. -/
def dependent : List (Summand α) := f.left.filter (·.isDependent)

def factor : α := A.sum (f.dependent.map (·.coefficient))

/-- What changes side and sign. -/
def moved : List (Summand α) := (f.left.filter fun t => !t.isDependent).map (·.map A.neg)

def dropZeros (ts : List (Summand α)) : List (Summand α) :=
  if ts.length ≤ 1 then ts
  else
    match ts.filter fun t => !(t.literal.isNone && A.isZero t.coefficient) with
    | [] => ts.take 1
    | kept => kept

/-- The right member once the variable is alone on the left. -/
def isolate : Option (List (Summand α)) :=
  if f.isExplicit A then some f.right
  else if f.dependent.isEmpty || A.isZero (f.factor A) then none
  else
    let terms := dropZeros A (f.right ++ f.moved A)
    some (Summand.sort
      (if A.isOne (f.factor A) then terms else terms.map (·.map (A.divide (f.factor A)))))

section Variable

variable {A f} {t : Summand α} {ts right : List (Summand α)}

theorem mem_of_mem_dropZeros (ht : t ∈ dropZeros A ts) : t ∈ ts := by
  unfold dropZeros at ht
  split_ifs at ht
  · exact ht
  · split at ht
    · exact List.mem_of_mem_take ht
    · exact List.mem_of_mem_filter ht

theorem mem_dropZeros (ht : t ∈ ts) (dependent : t.isDependent = true) : t ∈ dropZeros A ts := by
  have kept : t ∈ ts.filter fun t => !(t.literal.isNone && A.isZero t.coefficient) := by
    obtain ⟨l, hl, -⟩ := (Option.any_eq_true _ _).mp dependent
    exact List.mem_filter.mpr ⟨ht, by simp [hl]⟩
  unfold dropZeros
  split_ifs
  · exact ht
  · split
    · next empty =>
      rw [empty] at kept
      cases kept
    · exact kept

/-- Isolating the variable only changes coefficients: of the right member and of what changes side. -/
theorem exists_source (h : f.isolate A = some right) (ht : t ∈ right) :
    ∃ u, (u ∈ f.right ∨ u ∈ f.left ∧ u.isDependent = false) ∧ u.literal = t.literal := by
  have source : ∀ u ∈ dropZeros A (f.right ++ f.moved A),
      ∃ v, (v ∈ f.right ∨ v ∈ f.left ∧ v.isDependent = false) ∧ v.literal = u.literal := by
    intro u hu
    rcases List.mem_append.mp (mem_of_mem_dropZeros hu) with hu | hu
    · exact ⟨u, .inl hu, rfl⟩
    · obtain ⟨v, hv, rfl⟩ := List.mem_map.mp hu
      obtain ⟨left, independent⟩ := List.mem_filter.mp hv
      exact ⟨v, .inr ⟨left, by simpa using independent⟩, rfl⟩
  unfold isolate at h
  split_ifs at h
  all_goals obtain rfl := Option.some.inj h
  · exact ⟨t, .inl ht, rfl⟩
  · exact source t (List.mem_mergeSort.mp ht)
  · obtain ⟨u, hu, rfl⟩ := List.mem_map.mp (List.mem_mergeSort.mp ht)
    exact source u hu

/-- The variable stays where it stands in the right member, and comes there from nowhere else. -/
theorem exists_isDependent_isolate (h : f.isolate A = some right) :
    (∃ t ∈ right, t.isDependent = true) ↔ ∃ t ∈ f.right, t.isDependent = true := by
  constructor
  · rintro ⟨t, ht, dependent⟩
    obtain ⟨u, hu, literal⟩ := exists_source h ht
    have same : u.isDependent = true := by rwa [Summand.isDependent, literal]
    rcases hu with hu | ⟨-, independent⟩
    · exact ⟨u, hu, same⟩
    · rw [independent] at same
      cases same
  · rintro ⟨t, ht, dependent⟩
    have kept : t ∈ dropZeros A (f.right ++ f.moved A) := mem_dropZeros (List.mem_append_left _ ht) dependent
    unfold isolate at h
    split_ifs at h
    all_goals obtain rfl := Option.some.inj h
    · exact ⟨t, ht, dependent⟩
    · exact ⟨t, List.mem_mergeSort.mpr kept, dependent⟩
    · exact ⟨_, List.mem_mergeSort.mpr (List.mem_map_of_mem kept), dependent⟩

end Variable

end Sides

end Steps

section Doubles

def Term.summand (t : Term) : Summand Binary64 := ⟨t.coefficient, t.literal⟩

def Equation.sides (f : Equation) : Sides Binary64 :=
  ⟨f.left.terms.map Term.summand, f.right.terms.map Term.summand⟩

theorem Term.isDependent_summand (t : Term) : t.summand.isDependent = t.isDependent := by
  obtain ⟨c, literal⟩ := t
  cases literal <;> rfl

theorem summand_sort (ts : List Term) :
    (Member.normalize ⟨ts⟩).terms.map Term.summand = Summand.sort (ts.map Term.summand) :=
  List.map_mergeSort fun _ _ _ _ => rfl

theorem filter_summand {p : Summand Binary64 → Bool} {q : Term → Bool} (same : ∀ t, p t.summand = q t)
    (ts : List Term) : (ts.map Term.summand).filter p = (ts.filter q).map Term.summand := by
  rw [List.filter_map]
  exact congrArg (List.map _) (List.filter_congr fun t _ => same t)

namespace Equation

variable {f g : Equation}

theorem isExplicit_sides (f : Equation) : f.sides.isExplicit .double = f.isExplicit := by
  obtain ⟨⟨left⟩, right⟩ := f
  match left with
  | [] => rfl
  | [t] => exact congrArg (· && _) t.isDependent_summand
  | _ :: _ :: _ => rfl

theorem dropZeros_summand (ts : List Term) :
    Sides.dropZeros .double (ts.map Term.summand) = (dropZeroConstants ts).map Term.summand := by
  have kept : (ts.map Term.summand).filter
      (fun t => !(t.literal.isNone && Arithmetic.double.isZero t.coefficient)) =
      (ts.filter fun t => !(t.literal.isNone && t.coefficient.isZero)).map Term.summand :=
    filter_summand (fun _ => rfl) ts
  rw [Sides.dropZeros, dropZeroConstants, List.length_map, kept]
  split_ifs
  · rfl
  · cases ts.filter fun t => !(t.literal.isNone && t.coefficient.isZero) with
    | nil => exact List.map_take.symm
    | cons t rest => rfl

theorem dependent_sides (f : Equation) :
    f.sides.dependent = (f.left.terms.filter (·.isDependent)).map Term.summand :=
  filter_summand Term.isDependent_summand _

theorem factor_sides (f : Equation) : f.sides.factor .double =
    Binary64.sum ((f.left.terms.filter (·.isDependent)).map (·.coefficient)) := by
  rw [Sides.factor, dependent_sides, List.map_map]
  rfl

theorem moved_sides (f : Equation) : f.sides.moved .double =
    ((f.left.terms.filter fun t => !t.isDependent).map Term.negated).map Term.summand := by
  have others : f.sides.left.filter (fun t => !t.isDependent) =
      (f.left.terms.filter fun t => !t.isDependent).map Term.summand :=
    filter_summand (fun t => congrArg not t.isDependent_summand) _
  rw [Sides.moved, others, List.map_map, List.map_map]
  rfl

theorem div_eq_ok {k : Binary64} (nonzero : k.isZero = false) (x : Binary64) :
    x.div k = .ok ((x.div? k).getD .nan) := by
  obtain ⟨q, hq⟩ := Binary64.exists_div x nonzero
  rw [hq]
  unfold Binary64.div at hq
  split at hq
  · next h => rw [h]; exact congrArg _ (Except.ok.inj hq).symm
  · cases hq

theorem isExplicit_label {label : String} (h : isDependentLetter label = true) (right : Member) :
    (normalize (explicit label right)).isExplicit = true := by
  have one : (Binary64.ofInt 1).same (.ofInt 1) = true := by decide +kernel
  have single : (normalize (explicit label right)).left.terms =
      [⟨.ofInt 1, some (.label label)⟩] := List.mergeSort_singleton _
  rw [isExplicit, single]
  simp [Term.isDependent, Literal.label, Literal.ofLetter, h, one]

theorem toExplicit_eq_self (h : f.isExplicit = true) : f.toExplicit = .ok f := by
  rw [toExplicit, if_pos h]
  rfl

theorem toExplicit_no_variable (implicit : f.isExplicit = false)
    (none : f.left.terms.filter (·.isDependent) = []) :
    f.toExplicit = .error (.domain (.noDependentTerm f.text)) := by
  rw [toExplicit, implicit, none]
  rfl

theorem toExplicit_variable {label : Literal} {k : Binary64} (implicit : f.isExplicit = false)
    (first : (f.left.terms.filter (·.isDependent)).head?.bind (·.literal) = some label)
    (sum : Binary64.sum ((f.left.terms.filter (·.isDependent)).map (·.coefficient)) = k) :
    f.toExplicit =
      if k.isZero then .error (.domain (.dependentTermsCancel f.text))
      else .ok (normalize (explicit label.letter
        ⟨let terms := dropZeroConstants (f.right.terms ++
            (f.left.terms.filter fun t => !t.isDependent).map Term.negated)
          if k.same (.ofInt 1) then terms
          else terms.map (·.scaled (((Binary64.ofInt 1).div? k).getD .nan))⟩)) := by
  rw [toExplicit, implicit]
  dsimp only
  rw [first, sum]
  cases zero : k.isZero with
  | true => rfl
  | false =>
    cases one : k.same (.ofInt 1) with
    | true => rfl
    | false =>
      dsimp only
      rw [div_eq_ok zero]
      rfl

/-- The program takes the steps on doubles. It refuses an equation exactly when they lead nowhere. -/
theorem isolate_sides (f : Equation) : match f.toExplicit with
    | .ok g => g.isExplicit = true ∧ f.sides.isolate .double = some (g.right.terms.map Term.summand)
    | .error _ => f.sides.isolate .double = none := by
  cases implicit : f.isExplicit with
  | true =>
    rw [toExplicit_eq_self implicit, Sides.isolate, isExplicit_sides, if_pos implicit]
    exact ⟨implicit, rfl⟩
  | false =>
    rw [Sides.isolate, isExplicit_sides, implicit, if_neg Bool.false_ne_true, factor_sides,
      dependent_sides, moved_sides, Equation.sides, ← List.map_append, dropZeros_summand]
    cases found : f.left.terms.filter (·.isDependent) with
    | nil =>
      rw [toExplicit_no_variable implicit found]
      rfl
    | cons t rest =>
      have dependent : t.isDependent = true :=
        (List.mem_filter.mp (found ▸ List.mem_cons_self : t ∈ f.left.terms.filter (·.isDependent))).2
      rw [← t.isDependent_summand] at dependent
      obtain ⟨label, hl, labels⟩ := (Option.any_eq_true _ _).mp dependent
      have isLabel : isDependentLetter label.letter = true := (Bool.and_eq_true_iff.mp labels).1
      rw [toExplicit_variable implicit (by rw [found]; exact hl) (by rw [found])]
      cases zero : Binary64.isZero (.sum ((t :: rest).map (·.coefficient))) with
      | true => exact if_pos zero
      | false =>
        refine ⟨isExplicit_label isLabel _, ?_⟩
        generalize Binary64.sum ((t :: rest).map (·.coefficient)) = k at zero ⊢
        have goesOn : ¬ (k.isZero = true) := by rw [zero]; decide
        refine (if_neg goesOn).trans (congrArg some (.trans ?_ (summand_sort _).symm))
        dsimp only
        refine congrArg Summand.sort ((?_ : _ = ite (k.same (.ofInt 1) = true) _ _).trans
          (apply_ite (List.map Term.summand) _ _ _).symm)
        rw [List.map_map, List.map_map]
        rfl

end Equation

end Doubles

section Points

open Summand (sort)

variable {K : Type} [Field K] (letters : Literal → K) (y : K)

/-- The value of a literal part where the dependent variable is `y`, which it only is to the first power. -/
def Literal.value (l : Literal) : K := if l.letter = "y" then y else letters l

namespace Summand

def value (t : Summand ℚ) : K := t.coefficient * (t.literal.map (·.value letters y)).getD 1

/-- The value of a member. -/
def total (ts : List (Summand ℚ)) : K := (ts.map (·.value letters y)).sum

/-- The dependent variable is written `y` and has no other power. -/
def IsPlain {α : Type} (t : Summand α) : Prop :=
  ∀ l ∈ t.literal, isDependentLetter l.letter = true → l.letter = "y" ∧ l.exponent.same (.ofInt 1) = true

instance {α : Type} (t : Summand α) : Decidable t.IsPlain :=
  inferInstanceAs (Decidable (∀ l ∈ t.literal, _ → _))

variable {letters y} {t : Summand ℚ} {ts us : List (Summand ℚ)}

theorem IsPlain.value_of_isDependent (h : t.IsPlain) (dependent : t.isDependent = true) :
    t.value letters y = t.coefficient * y := by
  obtain ⟨l, hl, isLabel⟩ := (Option.any_eq_true _ _).mp dependent
  have name := (h l hl (Bool.and_eq_true_iff.mp isLabel).1).1
  rw [value, hl, Option.map_some, Option.getD_some, Literal.value, if_pos name]

theorem IsPlain.value_of_not_isDependent (h : t.IsPlain) (independent : t.isDependent = false) (z : K) :
    t.value letters y = t.value letters z := by
  cases hl : t.literal with
  | none => rw [value, value, hl]; rfl
  | some l =>
    have other : l.letter ≠ "y" := by
      intro name
      have isLabel : isDependentLetter l.letter = true := by rw [name]; decide
      have exponent := (h l hl isLabel).2
      simp [isDependent, hl, Literal.isDependent, isLabel, exponent] at independent
    rw [value, value, hl, Option.map_some, Option.map_some, Literal.value, Literal.value, if_neg other,
      if_neg other]

theorem total_append (ts us : List (Summand ℚ)) :
    total letters y (ts ++ us) = total letters y ts + total letters y us := by
  rw [total, List.map_append, List.sum_append]
  rfl

theorem total_perm (h : ts.Perm us) : total letters y ts = total letters y us := (h.map _).sum_eq

theorem total_sort (ts : List (Summand ℚ)) : total letters y (sort ts) = total letters y ts :=
  total_perm (List.mergeSort_perm _ _)

theorem total_split (ts : List (Summand ℚ)) : total letters y ts =
    total letters y (ts.filter (·.isDependent)) + total letters y (ts.filter fun t => !t.isDependent) := by
  rw [← total_append]
  exact total_perm (List.filter_append_perm _ ts).symm

variable [CharZero K]

theorem total_of_isDependent (plain : ∀ t ∈ ts, t.IsPlain) (dependent : ∀ t ∈ ts, t.isDependent = true) :
    total letters y ts = ((ts.map (·.coefficient)).sum : ℚ) * y := by
  have values : ts.map (·.value letters y) = ts.map fun t => (t.coefficient : K) * y :=
    List.map_congr_left fun t ht => (plain t ht).value_of_isDependent (dependent t ht)
  have sum := map_list_sum (Rat.castHom K) (ts.map (·.coefficient))
  rw [Rat.coe_castHom, List.map_map] at sum
  rw [total, values, List.sum_map_mul_right, sum]
  rfl

theorem total_map {f : ℚ → ℚ} {c : ℚ} (h : ∀ v, f v = v * c) (ts : List (Summand ℚ)) :
    total letters y (ts.map (·.map f)) = total letters y ts * c := by
  have values : ∀ t : Summand ℚ, (t.map f).value letters y = t.value letters y * c := by
    intro t
    rw [value, value, map, h, Rat.cast_mul]
    ring
  rw [total, total, List.map_map, ← List.sum_map_mul_right]
  exact congrArg List.sum (List.map_congr_left fun t _ => values t)

end Summand

namespace Sides

open Summand

variable {letters y} {f : Sides ℚ} {right : List (Summand ℚ)}

theorem total_dropZeros (ts : List (Summand ℚ)) :
    total letters y (dropZeros .rational ts) = total letters y ts := by
  have zeros : ∀ us : List (Summand ℚ),
      (∀ t ∈ us, (t.literal.isNone && Arithmetic.rational.isZero t.coefficient) = true) →
      total letters y us = 0 := by
    intro us h
    refine List.sum_eq_zero fun v hv => ?_
    obtain ⟨t, ht, rfl⟩ := List.mem_map.mp hv
    have none : t.coefficient = 0 := of_decide_eq_true (Bool.and_eq_true_iff.mp (h t ht)).2
    rw [value, none, Rat.cast_zero, zero_mul]
  have kept : total letters y (ts.filter fun t =>
      !(t.literal.isNone && Arithmetic.rational.isZero t.coefficient)) = total letters y ts := by
    rw [← total_perm (List.filter_append_perm
        (fun t : Summand ℚ => t.literal.isNone && Arithmetic.rational.isZero t.coefficient) ts),
      total_append, zeros _ fun t ht => (List.mem_filter.mp ht).2, zero_add]
  unfold dropZeros
  split_ifs
  · rfl
  · split
    · next empty =>
      rw [empty] at kept
      rw [← kept]
      refine zeros _ fun t ht => ?_
      have gone := List.filter_eq_nil_iff.mp empty t (List.mem_of_mem_take ht)
      simpa using gone
    · exact kept

theorem total_of_independent {ts : List (Summand ℚ)} (plain : ∀ t ∈ ts, t.IsPlain)
    (independent : ∀ t ∈ ts, t.isDependent = false) (z : K) : total letters y ts = total letters z ts := by
  rw [total, total, List.map_congr_left fun t ht => (plain t ht).value_of_not_isDependent (independent t ht) z]

/-- The equation holds where the left and the right member have one value. -/
def HoldsAt (letters : Literal → K) (y : K) (f : Sides ℚ) : Prop :=
  total letters y f.left = total letters y f.right

/-- The variable is nowhere but in terms `y` of either member. -/
def IsPlain {α : Type} (f : Sides α) : Prop := ∀ t ∈ f.left ++ f.right, t.IsPlain

instance {α : Type} (f : Sides α) : Decidable f.IsPlain :=
  inferInstanceAs (Decidable (∀ t ∈ f.left ++ f.right, t.IsPlain))

variable [CharZero K]

theorem total_left (letters : Literal → K) (y : K) (plain : f.IsPlain) :
    total letters y f.left = ((f.factor .rational : ℚ) : K) * y - total letters y (f.moved .rational) := by
  have dependent : total letters y f.dependent = ((f.factor .rational : ℚ) : K) * y :=
    total_of_isDependent (fun t ht => plain t (List.mem_append_left _ (List.mem_of_mem_filter ht)))
      fun t ht => (List.mem_filter.mp ht).2
  have moved : total letters y (f.moved .rational) =
      -total letters y (f.left.filter fun t => !t.isDependent) := by
    rw [Sides.moved, total_map (c := -1) Arithmetic.rational_neg]
    push_cast
    ring
  rw [total_split, moved, sub_neg_eq_add, ← dependent]
  rfl

/-- The equation holds exactly where the variable has the value of the new right member. -/
theorem holdsAt_iff (plain : f.IsPlain) (h : f.isolate .rational = some right) :
    f.HoldsAt letters y ↔ y = total letters y right := by
  have left := total_left letters y plain
  unfold isolate at h
  split_ifs at h with explicit stuck one
  · obtain rfl := Option.some.inj h
    obtain ⟨t, single, dependent, one⟩ := exists_of_isExplicit explicit
    have unit : t.coefficient = 1 := of_decide_eq_true one
    have alone : total letters y f.left = y := by
      rw [single, total, List.map_singleton, List.sum_singleton,
        IsPlain.value_of_isDependent (plain t (by simp [single])) dependent, unit, Rat.cast_one, one_mul]
    rw [HoldsAt, alone]
  all_goals
    obtain rfl := Option.some.inj h
    rw [HoldsAt, left, total_sort]
  · have unit : f.factor .rational = 1 := of_decide_eq_true one
    rw [total_dropZeros, total_append, unit, Rat.cast_one, one_mul, sub_eq_iff_eq_add]
  · have nonzero : ((f.factor .rational : ℚ) : K) ≠ 0 := by
      rw [Rat.cast_ne_zero]
      intro zero
      exact stuck (Bool.or_eq_true_iff.mpr (.inr (decide_eq_true zero)))
    rw [total_map (c := 1 / f.factor .rational) (Arithmetic.rational_divide _), total_dropZeros, total_append,
      Rat.cast_div, Rat.cast_one, mul_one_div, eq_div_iff nonzero, sub_eq_iff_eq_add, mul_comm]

end Sides

end Points

section Values

open Summand (total)

/-- The equation with the exact values of its coefficients. -/
def Equation.exact (f : Equation) : Sides ℚ := f.sides.map Binary64.toRat

theorem Arithmetic.isOne_toRat (c : Binary64) : rational.isOne c.toRat = double.isOne c := by
  have one : (Binary64.ofInt 1).toRat? = some 1 := Binary64.toRat?_ofInt (n := 1) (by norm_num)
  cases hc : c.toRat? with
  | some v =>
    rw [Binary64.toRat_eq hc]
    exact Bool.eq_iff_iff.mpr (decide_eq_true_iff.trans (Binary64.same_iff hc one).symm)
  | none =>
    cases c with
    | nan => decide +kernel
    | inf negative => cases negative <;> decide +kernel
    | negZero => cases hc
    | finite => cases hc

namespace Equation

variable {f g : Equation}

theorem isExplicit_exact (f : Equation) : f.exact.isExplicit .rational = f.sides.isExplicit .double := by
  unfold exact Sides.map Sides.isExplicit
  match f.sides.left with
  | [] => rfl
  | [t] => exact congrArg (t.isDependent && ·) (Arithmetic.isOne_toRat t.coefficient)
  | _ :: _ :: _ => rfl

theorem dependent_exact (f : Equation) : f.exact.dependent = f.sides.dependent.map (·.map Binary64.toRat) :=
  List.filter_map

theorem exists_isolate_exact (h : f.toExplicit = .ok g)
    (exactly : (f.sides.factor .double).toRat? = some (f.exact.factor .rational)) :
    ∃ right, f.exact.isolate .rational = some right := by
  have zero : Arithmetic.rational.isZero (f.exact.factor .rational) =
      Arithmetic.double.isZero (f.sides.factor .double) :=
    Bool.eq_iff_iff.mpr (decide_eq_true_iff.trans (Binary64.isZero_iff exactly).symm)
  have steps := f.isolate_sides
  rw [h] at steps
  have goesOn := steps.2
  unfold Sides.isolate at goesOn ⊢
  rw [isExplicit_exact, dependent_exact, List.isEmpty_map, zero]
  split_ifs at goesOn ⊢
  all_goals exact ⟨_, rfl⟩

theorem exists_isDependent_toExplicit (h : f.toExplicit = .ok g) :
    (∃ t ∈ g.right.terms, t.isDependent = true) ↔ ∃ t ∈ f.right.terms, t.isDependent = true := by
  have steps := f.isolate_sides
  rw [h] at steps
  have stays := Sides.exists_isDependent_isolate steps.2
  simpa only [sides, List.mem_map, exists_exists_and_eq_and, Term.isDependent_summand] using stays

theorem isPlain_exact (plain : f.sides.IsPlain) : f.exact.IsPlain := by
  intro t ht
  rw [exact, Sides.map, ← List.map_append] at ht
  obtain ⟨u, hu, rfl⟩ := List.mem_map.mp ht
  exact plain u hu

theorem total_isolate_exact {right : List (Summand ℚ)} (plain : f.sides.IsPlain)
    (h : f.exact.isolate .rational = some right) (independent : ∀ t ∈ f.right.terms, t.isDependent = false)
    {K : Type} [Field K] (letters : Literal → K) (y z : K) :
    total letters y right = total letters z right := by
  refine Sides.total_of_independent (fun t ht => ?_) (fun t ht => ?_) z
  · obtain ⟨u, hu, literal⟩ := Sides.exists_source h ht
    have known : u.IsPlain := isPlain_exact plain u (List.mem_append.mpr (hu.symm.imp_left And.left))
    rwa [Summand.IsPlain, literal] at known
  · rw [← Bool.not_eq_true]
    intro dependent
    obtain ⟨u, hu, same⟩ := (Sides.exists_isDependent_isolate h).mp ⟨t, ht, dependent⟩
    obtain ⟨w, hw, rfl⟩ := List.mem_map.mp hu
    obtain ⟨v, hv, rfl⟩ := List.mem_map.mp hw
    have none := independent v hv
    rw [← v.isDependent_summand] at none
    exact Bool.false_ne_true (none.symm.trans same)

theorem exists_eq_ok {α : Type} {x : Except Error α} (h : x.isOk = true) : ∃ a, x = .ok a := by
  cases x with
  | ok a => exact ⟨a, rfl⟩
  | error e => cases h

/-- Solving for the variable gives an explicit function. Its right member has the variable exactly where the
right member of the equation had it, for it is only collected from the left one. Where nothing is rounded,
the equation holds exactly where the variable has the value of the new right member. That value is a function
of the other letters where the variable did not stand in the right member. -/
theorem toExplicit_isolates (plain : f.sides.IsPlain) (h : f.toExplicit = .ok g) :
    g.isExplicit = true ∧
    ((∃ t ∈ g.right.terms, t.isDependent = true) ↔ ∃ t ∈ f.right.terms, t.isDependent = true) ∧
    ((f.sides.factor .double).toRat? = some (f.exact.factor .rational) →
      ∃ right, f.exact.isolate .rational = some right) ∧
    ∀ right, f.exact.isolate .rational = some right →
      ∀ (K : Type) [Field K] [CharZero K] (letters : Literal → K) (y : K),
        (f.exact.HoldsAt letters y ↔ y = total letters y right) ∧
        ((∀ t ∈ f.right.terms, t.isDependent = false) →
          ∀ z, total letters y right = total letters z right) := by
  have steps := f.isolate_sides
  rw [h] at steps
  refine ⟨steps.1, exists_isDependent_toExplicit h, exists_isolate_exact h, ?_⟩
  intro right exactly K _ _ letters y
  exact ⟨Sides.holdsAt_iff (isPlain_exact plain) exactly,
    fun independent z => total_isolate_exact plain exactly independent letters y z⟩

/-- `3y-y-4x=2` is `y=2x+1`. -/
theorem toExplicit_isolates_line : ∃ f g, parse "3y-y-4x=2" = .ok f ∧ f.toExplicit = .ok g ∧
    g.isExplicit = true ∧ (¬ ∃ t ∈ g.right.terms, t.isDependent = true) ∧
    ∀ x y : ℚ, f.exact.HoldsAt (fun _ => x) y ↔ y = 2 * x + 1 := by
  let f : Equation := ⟨⟨[⟨.ofInt 3, some (.ofLetter "y")⟩, ⟨.ofInt (-1), some (.ofLetter "y")⟩,
    ⟨.ofInt (-4), some (.ofLetter "x")⟩]⟩, ⟨[.constant (.ofInt 2)]⟩⟩
  have read : parse "3y-y-4x=2" = .ok f := by decide +kernel
  have plain : f.sides.IsPlain := by decide +kernel
  have independent : ¬ ∃ t ∈ f.right.terms, t.isDependent = true := by decide +kernel
  obtain ⟨g, explicit⟩ := exists_eq_ok (by decide +kernel : f.toExplicit.isOk = true)
  obtain ⟨isExplicit, stays, -, holds⟩ := toExplicit_isolates plain explicit
  have right : f.exact.isolate .rational =
      some (Summand.sort [⟨1, none⟩, ⟨2, some (.ofLetter "x")⟩]) := by
    unfold Sides.isolate
    rw [if_neg (by decide +kernel), if_neg (by decide +kernel)]
    exact congrArg (some ∘ Summand.sort) (by decide +kernel)
  refine ⟨f, g, read, explicit, isExplicit, fun kept => independent (stays.mp kept), fun x y => ?_⟩
  have value : total (fun _ => x) y (Summand.sort [⟨1, none⟩, ⟨2, some (.ofLetter "x")⟩]) = 2 * x + 1 := by
    rw [Summand.total_sort]
    simp [total, Summand.value, Literal.value, Literal.ofLetter]
    ring
  rw [(holds _ right ℚ (fun _ => x) y).1, value]

/-- In `2y=y+x` the variable also stands on the right, and stays there. -/
theorem toExplicit_keeps_variable : ∃ f g, parse "2y=y+x" = .ok f ∧ f.sides.IsPlain ∧
    f.toExplicit = .ok g ∧ ∃ t ∈ g.right.terms, t.isDependent = true := by
  let f : Equation := ⟨⟨[⟨.ofInt 2, some (.ofLetter "y")⟩]⟩,
    ⟨[⟨.ofInt 1, some (.ofLetter "y")⟩, ⟨.ofInt 1, some (.ofLetter "x")⟩]⟩⟩
  have read : parse "2y=y+x" = .ok f := by decide +kernel
  have plain : f.sides.IsPlain := by decide +kernel
  obtain ⟨g, explicit⟩ := exists_eq_ok (by decide +kernel : f.toExplicit.isOk = true)
  exact ⟨f, g, read, plain, explicit, (exists_isDependent_toExplicit explicit).mpr (by decide +kernel)⟩

end Equation

end Values

end FunctionStudy
