import FunctionStudy.Proofs.Member.NormalForm

/-! Collected terms. Collecting like terms leaves one term for each key, whatever the letters and
exponents are. Constants have one key between them, so of these a single one is left, and it is
written without a letter. -/

namespace FunctionStudy

theorem Literal.isEmpty_key (l : Literal) : l.key.isEmpty = l.exponent.isZero := by
  unfold key
  cases zero : l.exponent.isZero with
  | true => rfl
  | false => simp

namespace Member

variable {p : Member} {gs : List (String × Option Literal)}

/-- Distinct keys, each with a literal part of that key; the key of the constants has none. -/
structure IsGrouping (gs : List (String × Option Literal)) : Prop where
  distinct : (gs.map Prod.fst).Nodup
  literals : ∀ g ∈ gs, g.2.elim (g.1 = "") fun l => g.1 = l.key ∧ l.exponent.isZero = false

theorem literal_of_key (t : Term) : Option.elim (if t.key.isEmpty then none else t.literal) (t.key = "")
    fun l => t.key = l.key ∧ l.exponent.isZero = false := by
  obtain ⟨c, literal⟩ := t
  cases literal with
  | none => rfl
  | some l =>
    have key : Term.key ⟨c, some l⟩ = l.key := rfl
    rw [key, l.isEmpty_key]
    cases zero : l.exponent.isZero with
    | true => exact String.isEmpty_iff.mp (l.isEmpty_key.trans zero)
    | false => exact ⟨rfl, zero⟩

theorem IsGrouping.groupWith (h : IsGrouping gs) (t : Term) : IsGrouping (groupWith gs t) := by
  unfold Member.groupWith
  by_cases known : gs.any (·.1 == t.key) = true
  · rwa [if_pos known]
  · rw [if_neg known]
    have new : t.key ∉ gs.map Prod.fst := by
      intro old
      obtain ⟨g, hg, same⟩ := List.mem_map.mp old
      exact known (List.any_eq_true.mpr ⟨g, hg, beq_iff_eq.mpr same⟩)
    refine ⟨?_, List.forall_mem_append.mpr ⟨h.literals, List.forall_mem_singleton.mpr (literal_of_key t)⟩⟩
    rw [List.map_append, List.map_singleton, ← List.concat_eq_append]
    exact h.distinct.concat new

theorem IsGrouping.foldl (h : IsGrouping gs) (ts : List Term) : IsGrouping (ts.foldl Member.groupWith gs) := by
  induction ts generalizing gs with
  | nil => exact h
  | cons t rest ih => exact ih (h.groupWith t)

theorem isGrouping_nil : IsGrouping [] := ⟨List.nodup_nil, List.forall_mem_nil _⟩

theorem isGrouping_groups (p : Member) : IsGrouping p.groups := isGrouping_nil.foldl p.terms

theorem IsGrouping.of_isConstant (h : IsGrouping gs) {g : String × Option Literal} (hg : g ∈ gs) {c : Binary64}
    (constant : Term.isConstant ⟨c, g.2⟩ = true) : g = ("", none) := by
  obtain ⟨key, literal⟩ := g
  have known := h.literals _ hg
  cases literal with
  | none => exact congrArg (·, none) known
  | some l =>
    have zero : l.exponent.isZero = true := constant
    rw [known.2] at zero
    cases zero

/-- Of the constants a single term without a letter is left. -/
theorem simplify_constants (p : Member) :
    (p.simplify.terms.filter (·.isConstant)).length ≤ 1 ∧
    ∀ t ∈ p.simplify.terms, t.isConstant = true → t.literal = none := by
  have grouping := p.isGrouping_groups
  constructor
  · rw [← List.countP_eq_length_filter]
    calc p.simplify.terms.countP (·.isConstant)
        ≤ (p.groups.map fun g => Term.mk (p.coefficientSum g.1) g.2).countP (·.isConstant) :=
          List.filter_sublist.countP_le
      _ ≤ p.groups.countP (·.1 == "") := by
          rw [List.countP_map]
          refine List.countP_mono_left fun g hg constant => ?_
          rw [grouping.of_isConstant hg constant]
          rfl
      _ = (p.groups.map Prod.fst).count "" := by
          rw [List.count, List.countP_map]
          rfl
      _ ≤ 1 := List.nodup_iff_count_le_one.mp grouping.distinct ""
  · intro t ht constant
    obtain ⟨g, hg, rfl⟩ := List.mem_map.mp (List.mem_of_mem_filter ht)
    rw [grouping.of_isConstant hg constant]

end Member
end FunctionStudy
