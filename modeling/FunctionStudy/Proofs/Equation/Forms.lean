import FunctionStudy.Proofs.Equation.Isolation
import FunctionStudy.Proofs.Member.Sorted

/-! Implicit and explicit form. The sign of each term changes twice, the terms of one exponent stay
in their order, and of the constants only those that are zero go. -/

namespace FunctionStudy

theorem Binary64.neg_involutive : Function.Involutive Binary64.neg := fun x => by
  cases x with
  | nan => rfl
  | inf negative => exact congrArg inf (Bool.not_not negative)
  | negZero => rfl
  | finite v grid =>
    by_cases zero : v = 0
    · subst zero
      rw [neg, if_pos rfl]
      rfl
    · rw [neg, if_neg zero, neg, if_neg (neg_ne_zero.mpr zero)]
      congr 1
      exact neg_neg v

theorem Term.negated_involutive : Function.Involutive Term.negated := fun t =>
  congrArg (Term.mk · t.literal) (Binary64.neg_involutive t.coefficient)

theorem Term.isDependent_negated (t : Term) : t.negated.isDependent = t.isDependent := rfl

section ZeroConstants

variable {ts us : List Term}

def Term.isZeroConstant (t : Term) : Bool := t.literal.isNone && t.coefficient.isZero

/-- A sum without its zero constants, or 0 where it has no other terms. -/
def withoutZeroConstants (ts : List Term) : List Term :=
  if ts.all (·.isZeroConstant) then [.constant .zero] else ts.filter fun t => !t.isZeroConstant

/-- A zero in front of other terms is the one that is left where they are all zero. -/
theorem dropZeroConstants_cons_zero (some : ts ≠ []) :
    Equation.dropZeroConstants (.constant .zero :: ts) = withoutZeroConstants ts := by
  have several : ¬ (Term.constant .zero :: ts).length ≤ 1 := by
    have := List.length_pos_iff.mpr some
    rw [List.length_cons]
    omega
  have kept : (Term.constant .zero :: ts).filter (fun t => !(t.literal.isNone && t.coefficient.isZero)) =
      ts.filter fun t => !t.isZeroConstant := List.filter_cons_of_neg (by decide +kernel)
  rw [Equation.dropZeroConstants, if_neg several, kept, withoutZeroConstants]
  split
  · next none =>
    refine (if_pos (List.all_eq_true.mpr fun t ht => ?_)).symm
    simpa using List.filter_eq_nil_iff.mp none t ht
  · next others =>
    refine (if_neg fun all => others ?_).symm
    exact List.filter_eq_nil_iff.mpr fun t ht => by simp [List.all_eq_true.mp all t ht]

theorem perm_withoutZeroConstants (h : us.Perm ts) : (withoutZeroConstants us).Perm (withoutZeroConstants ts) := by
  rw [withoutZeroConstants, withoutZeroConstants, h.all_eq]
  split_ifs
  · exact .refl _
  · exact h.filter _

theorem HasOrder.withoutZeroConstants (h : HasOrder ts) : HasOrder (withoutZeroConstants ts) := by
  unfold FunctionStudy.withoutZeroConstants
  split_ifs
  · intro t ht
    rw [List.mem_singleton.mp ht]
    rfl
  · exact fun t ht => h t (List.mem_of_mem_filter ht)

theorem IsStableSort.withoutZeroConstants (h : IsStableSort ts us) :
    IsStableSort (withoutZeroConstants ts) (withoutZeroConstants us) := by
  rw [FunctionStudy.withoutZeroConstants, FunctionStudy.withoutZeroConstants, h.perm.all_eq]
  split_ifs
  · exact ⟨.refl _, List.pairwise_singleton _ _, fun _ => rfl⟩
  · exact h.filter _

end ZeroConstants

namespace Equation

variable {f : Equation} {t : Term}

theorem exists_left_of_isExplicit (h : f.isExplicit = true) :
    ∃ t, f.left.terms = [t] ∧ t.isDependent = true ∧ t.coefficient = .ofInt 1 := by
  unfold isExplicit at h
  split at h
  · next t single =>
    obtain ⟨dependent, one⟩ := Bool.and_eq_true_iff.mp h
    have sign : t.coefficient ≠ .negZero := by
      rintro zero
      rw [zero] at one
      exact absurd one (by decide +kernel)
    exact ⟨t, single, dependent, Binary64.eq_of_same sign (by decide +kernel) one⟩
  · cases h

theorem label_of_left {l : Literal} (h : f.isExplicit = true) (left : f.left.terms = [t]) (hl : t.literal = some l) :
    f.label = l.letter := by
  rw [label, if_pos h, left]
  show (some t |>.bind (·.literal)).elim "y" (·.letter) = l.letter
  rw [Option.bind_some, hl]
  rfl

theorem isImplicit_of_length (h : f.left.terms.length ≠ 1) : f.isImplicit = true := by
  rw [isImplicit, Bool.not_eq_true', ← Bool.not_eq_true]
  intro explicit
  obtain ⟨t, single, -, -⟩ := exists_left_of_isExplicit explicit
  exact h (congrArg List.length single)

theorem exists_literal_of_isDependent (h : t.isDependent = true) :
    ∃ l, t.literal = some l ∧ l.exponent.same (.ofInt 1) = true := by
  unfold Term.isDependent at h
  split at h
  · cases h
  · next l hl => exact ⟨l, hl, (Bool.and_eq_true_iff.mp h).2⟩

theorem isNaN_exponent_of_isDependent (h : t.isDependent = true) : t.exponent.isNaN = false := by
  obtain ⟨l, hl, one⟩ := exists_literal_of_isDependent h
  rw [Term.exponent, hl, Option.map_some, Option.getD_some]
  cases number : l.exponent with
  | nan =>
    rw [number] at one
    cases one
  | _ => rfl

theorem map_negated_filter {ts : List Term} (dependent : t.isDependent = true)
    (independent : ∀ t ∈ ts, t.isDependent = false) :
    ((t :: ts.map Term.negated).filter fun t => !t.isDependent).map Term.negated = ts := by
  have all : (ts.map Term.negated).filter (fun t => !t.isDependent) = ts.map Term.negated := by
    refine List.filter_eq_self.mpr fun u hu => ?_
    obtain ⟨v, hv, rfl⟩ := List.mem_map.mp hu
    rw [Term.isDependent_negated, independent v hv, Bool.not_false]
  rw [List.filter_cons_of_neg (by simp [dependent]), all, List.map_map, Term.negated_involutive.comp_self, List.map_id]

section Implicit

variable (explicit : f.isExplicit = true) (left : f.left.terms = [t])

include explicit left

theorem toImplicit_eq :
    f.toImplicit = ⟨Member.normalize ⟨t :: f.right.terms.map Term.negated⟩, ⟨[.constant .zero]⟩⟩ := by
  rw [toImplicit, if_pos explicit, normalize, left]
  exact congrArg (Equation.mk _) (congrArg Member.mk (List.mergeSort_singleton _))

theorem perm_toImplicit : f.toImplicit.left.terms.Perm (t :: f.right.terms.map Term.negated) := by
  rw [toImplicit_eq explicit left]
  exact List.mergeSort_perm _ _

theorem isImplicit_toImplicit (nonempty : f.right.terms ≠ []) : f.toImplicit.isImplicit = true := by
  refine isImplicit_of_length ?_
  have some := List.length_pos_iff.mpr nonempty
  rw [(perm_toImplicit explicit left).length_eq, List.length_cons, List.length_map]
  omega

variable (dependent : t.isDependent = true) (independent : ∀ t ∈ f.right.terms, t.isDependent = false)

include dependent independent

theorem filter_isDependent_toImplicit : f.toImplicit.left.terms.filter (·.isDependent) = [t] := by
  have others : (f.right.terms.map Term.negated).filter (·.isDependent) = [] := by
    rw [List.filter_map]
    exact congrArg _ (List.filter_eq_nil_iff.mpr fun u hu => by simp [Term.isDependent_negated, independent u hu])
  have same := (perm_toImplicit explicit left).filter (·.isDependent)
  rwa [List.filter_cons_of_pos dependent, others, List.perm_singleton] at same

theorem perm_moved_toImplicit :
    ((f.toImplicit.left.terms.filter fun t => !t.isDependent).map Term.negated).Perm f.right.terms := by
  have same := ((perm_toImplicit explicit left).filter fun t => !t.isDependent).map Term.negated
  rwa [map_negated_filter dependent independent] at same

theorem isStableSort_moved_toImplicit (order : HasOrder f.right.terms) :
    IsStableSort f.right.terms ((f.toImplicit.left.terms.filter fun t => !t.isDependent).map Term.negated) := by
  have all : HasOrder (t :: f.right.terms.map Term.negated) := fun u hu => by
    rcases List.mem_cons.mp hu with rfl | hu
    · exact isNaN_exponent_of_isDependent dependent
    · obtain ⟨v, hv, rfl⟩ := List.mem_map.mp hu
      exact order v hv
  have sorted := ((isStableSort_normalize all).filter fun t => !t.isDependent).map (f := Term.negated) fun _ => rfl
  rw [map_negated_filter dependent independent] at sorted
  rwa [toImplicit_eq explicit left]

/-- Solving the implicit form needs no division. -/
theorem toExplicit_toImplicit {l : Literal} (hl : t.literal = some l) (one : t.coefficient = .ofInt 1)
    (nonempty : f.right.terms ≠ []) :
    f.toImplicit.toExplicit = .ok (normalize (Equation.explicit l.letter ⟨withoutZeroConstants
      ((f.toImplicit.left.terms.filter fun t => !t.isDependent).map Term.negated)⟩)) := by
  have implicit : f.toImplicit.isExplicit = false := by
    simpa [isImplicit] using isImplicit_toImplicit explicit left nonempty
  have single := filter_isDependent_toImplicit explicit left dependent independent
  have moved : (f.toImplicit.left.terms.filter fun t => !t.isDependent).map Term.negated ≠ [] := fun none => by
    have same := perm_moved_toImplicit explicit left dependent independent
    rw [none] at same
    exact nonempty same.nil_eq.symm
  have sum : Binary64.sum (([t] : List Term).map (·.coefficient)) = .ofInt 1 := by
    rw [List.map_singleton, one]
    decide +kernel
  have right : f.toImplicit.right.terms = [.constant .zero] := by rw [toImplicit_eq explicit left]
  rw [toExplicit_variable (k := .ofInt 1) implicit (by rw [single]; exact hl) (by rw [single, sum]),
    if_neg (by decide +kernel), right]
  dsimp only
  rw [if_pos (by decide +kernel), List.singleton_append, dropZeroConstants_cons_zero moved]

end Implicit

/-- An explicit function comes back from its implicit form under its label. Its terms come back in descending
order, those of one exponent as they were, and without zero constants. Only exponents that are not numbers have
no descending order; with them the terms come back as well. -/
theorem toImplicit_inverse (explicit : f.isExplicit = true) (nonempty : f.right.terms ≠ [])
    (independent : ∀ t ∈ f.right.terms, t.isDependent = false) :
    f.toImplicit.isImplicit = true ∧ f.toImplicit.right = ⟨[.constant .zero]⟩ ∧
    ∃ g, f.toImplicit.toExplicit = .ok g ∧ g.left = ⟨[⟨.ofInt 1, some (.label f.label)⟩]⟩ ∧
      g.right.terms.Perm (withoutZeroConstants f.right.terms) ∧
      (HasOrder f.right.terms →
        IsStableSort (withoutZeroConstants f.right.terms) g.right.terms ∧
        g.right = Member.normalize ⟨withoutZeroConstants f.right.terms⟩) := by
  obtain ⟨t, left, dependent, one⟩ := exists_left_of_isExplicit explicit
  obtain ⟨l, hl, -⟩ := exists_literal_of_isDependent dependent
  refine ⟨isImplicit_toImplicit explicit left nonempty, congrArg Equation.right (toImplicit_eq explicit left), _,
    toExplicit_toImplicit explicit left dependent independent hl one nonempty, ?_, ?_, fun order => ?_⟩
  · rw [label_of_left explicit left hl]
    exact congrArg Member.mk (List.mergeSort_singleton _)
  · exact (List.mergeSort_perm _ _).trans
      (perm_withoutZeroConstants (perm_moved_toImplicit explicit left dependent independent))
  · have moved := (isStableSort_moved_toImplicit explicit left dependent independent order).withoutZeroConstants
    have sorted := moved.trans (isStableSort_normalize (order.withoutZeroConstants.perm moved.perm))
    exact ⟨sorted, sorted.eq_normalize order.withoutZeroConstants⟩

/-- `y'=0+x^2+5-x^3+4x^2-0` comes back as `y'=-x^3+x^2+4x^2+5`. -/
theorem toImplicit_inverse_zeros : ∃ f g, parse "y'=0+x^2+5-x^3+4x^2-0" = .ok f ∧
    f.toImplicit.isImplicit = true ∧ f.toImplicit.toExplicit = .ok g ∧
    g.left = ⟨[⟨.ofInt 1, some (.label "y'")⟩]⟩ ∧
    g.right.terms = [⟨.ofInt (-1), some { letter := "x", exponent := .ofInt 3 }⟩,
      ⟨.ofInt 1, some { letter := "x", exponent := .ofInt 2 }⟩,
      ⟨.ofInt 4, some { letter := "x", exponent := .ofInt 2 }⟩, .constant (.ofInt 5)] := by
  let power (c n : Int) : Term := ⟨.ofInt c, some { letter := "x", exponent := .ofInt n }⟩
  let f : Equation := ⟨⟨[⟨.ofInt 1, some (.ofLetter "y'")⟩]⟩, ⟨[.constant .zero, power 1 2, .constant (.ofInt 5),
    power (-1) 3, power 4 2, .constant .negZero]⟩⟩
  have read : parse "y'=0+x^2+5-x^3+4x^2-0" = .ok f := by decide +kernel
  obtain ⟨implicit, -, g, solved, left, -, sorted⟩ :=
    toImplicit_inverse (f := f) (by decide +kernel) (by decide) (by decide +kernel)
  have order : HasOrder f.right.terms := by
    unfold HasOrder
    decide +kernel
  have kept : withoutZeroConstants f.right.terms =
      [power 1 2, .constant (.ofInt 5), power (-1) 3, power 4 2] := by decide +kernel
  refine ⟨f, g, read, implicit, solved, left.trans (by decide +kernel), ?_⟩
  have lt20 : (Binary64.ofInt 2).lt .zero = false := by decide +kernel
  have lt02 : Binary64.zero.lt (.ofInt 2) = true := by decide +kernel
  have lt22 : (Binary64.ofInt 2).lt (.ofInt 2) = false := by decide +kernel
  have lt23 : (Binary64.ofInt 2).lt (.ofInt 3) = true := by decide +kernel
  have lt32 : (Binary64.ofInt 3).lt (.ofInt 2) = false := by decide +kernel
  rw [(sorted order).2, kept]
  simp [Member.normalize, List.mergeSort, List.MergeSort.Internal.splitInTwo, Term.exponent, Term.constant, power,
    lt20, lt02, lt22, lt23, lt32]

end Equation

end FunctionStudy
