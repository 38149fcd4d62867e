import FunctionStudy.Proofs.Ruffini.Splitting
import FunctionStudy.Proofs.Work.Together

/-! Solutions up to the names of their points. On two registries that began as one solving goes the
same way. -/

namespace FunctionStudy

open Registry (Twins GrowTogether)

variable {settings : Settings} {axis equation : String} {f : Equation} {claimed : Option Number}
  {height a b c : Binary64} {r s r' s' : Registry} {higher : HigherSolver}

section Points

variable {ps qs ps' qs' : List Point}

theorem Registry.twins_mono (h : List.Forall₂ (Twins r s) ps qs) (grow : GrowTogether r s r' s') :
    List.Forall₂ (Twins r' s') ps qs :=
  h.imp fun _ _ twins => twins.mono grow

theorem any_same_eq {p q : Point} (old : List.Forall₂ (Twins r s) ps qs) (twins : Twins r s p q) :
    ps.any (·.same p) = qs.any (·.same q) := by
  induction old with
  | nil => rfl
  | cons first others ih => rw [List.any_cons, List.any_cons, first.same_eq twins, ih]

theorem joinPoints_twins (old : List.Forall₂ (Twins r s) ps qs) (new : List.Forall₂ (Twins r s) ps' qs') :
    List.Forall₂ (Twins r s) (joinPoints ps ps') (joinPoints qs qs') := by
  refine List.rel_append old (List.rel_filter (fun p q twins => ?_) new)
  dsimp only
  rw [any_same_eq old twins]

end Points

section Direct

open Work

/-- One solution, with its points as they are registered in two registries. -/
def EquationSolution.Twins (first second : EquationSolution) (r s : Registry) : Prop :=
  ∃ points, second = { first with points } ∧ List.Forall₂ (r.Twins s) first.points points

theorem EquationSolution.Twins.of_none {t : EquationSolution} (none : t.points = []) : t.Twins t r s := by
  refine ⟨t.points, rfl, ?_⟩
  rw [none]
  exact .nil

theorem rootPoints_together (roots : List Binary64) (height : Binary64) :
    Together r s (rootPoints roots height) (rootPoints roots height)
      fun ps qs r' s' => List.Forall₂ (Twins r' s') ps qs :=
  together_mapM (fun _ _ _ _ _ _ twins grow => twins.mono grow) fun x _ _ _ => together_point x height

theorem solveConstant_together :
    Together r s (solveConstant settings equation c) (solveConstant settings equation c)
      EquationSolution.Twins := by
  unfold solveConstant
  split_ifs
  · exact together_record_bind (together_pure (.of_none rfl))
  · exact together_record_bind (together_pure (.of_none rfl))

theorem solveLinear_together :
    Together r s (solveLinear settings equation height a b) (solveLinear settings equation height a b)
      EquationSolution.Twins := by
  unfold solveLinear
  split_ifs
  · exact together_throw _ _
  · refine together_ofExcept_bind fun q => together_record_bind ?_
    exact (rootPoints_together _ _).bind fun ps qs _ _ _ twins => together_pure ⟨qs, rfl, twins⟩

theorem solveQuadratic_together :
    Together r s (solveQuadratic settings equation height a b c)
      (solveQuadratic settings equation height a b c) EquationSolution.Twins := by
  unfold solveQuadratic
  split_ifs
  · exact together_throw _ _
  · refine together_record_bind (together_ofExcept_bind fun roots => ?_)
    cases roots with
    | none => exact together_record_bind (together_pure (.of_none rfl))
    | some xs =>
      refine together_record_bind ?_
      exact (rootPoints_together _ _).bind fun ps qs _ _ _ twins => together_pure ⟨qs, rfl, twins⟩

theorem solveWith_together
    (high : ∀ f n r s, Together r s (higher f n) (higher f n) EquationSolution.Twins) :
    Together r s (solveWith higher settings axis f claimed) (solveWith higher settings axis f claimed)
      EquationSolution.Twins := by
  unfold solveWith
  refine together_ofExcept_bind fun p => together_ofExcept_bind fun n => ?_
  refine together_ofExcept_bind fun height => together_record_bind ?_
  split_ifs
  · exact high f n r s
  · refine together_ofExcept_bind fun cs => ?_
    split
    · exact solveConstant_together
    · exact solveLinear_together
    · exact solveQuadratic_together
    · exact together_throw _ _

end Direct

section Recursion

open Work

def FactorRoots.Twins (first second : FactorRoots) (r s : Registry) : Prop :=
  ∃ points, second = { first with points } ∧ List.Forall₂ (r.Twins s) first.points points

theorem FactorRoots.Twins.add {found more : FactorRoots} {t u : EquationSolution} (h : found.Twins more r s)
    (grow : GrowTogether r s r' s') (factor : String) (solved : t.Twins u r' s') :
    (found.add factor t).Twins (more.add factor u) r' s' := by
  obtain ⟨qs, rfl, twins⟩ := h
  obtain ⟨qs', rfl, twins'⟩ := solved
  exact ⟨joinPoints qs qs', rfl, joinPoints_twins (Registry.twins_mono twins grow) twins'⟩

theorem solveHigher_together (n : ℕ) (f : Equation) (d : ℤ) (r s : Registry) :
    Together r s (solveHigher settings axis n f d) (solveHigher settings axis n f d)
      EquationSolution.Twins := by
  induction n generalizing f d r s with
  | zero =>
    unfold solveHigher
    exact together_ofExcept_bind fun p => together_record_bind (together_pure (.of_none rfl))
  | succ n ih =>
    unfold solveHigher
    refine together_ofExcept_bind fun p => (factor_onlyWrites settings f).together_bind fun F => ?_
    dsimp only
    split_ifs
    · exact together_pure (.of_none rfl)
    · refine Together.bind (P := FactorRoots.Twins) ?_ fun found more _ _ _ twins => ?_
      · refine together_foldlM (fun found more text _ r s twins => ?_) ⟨[], rfl, .nil⟩
        refine together_ofExcept_bind fun g => (solveWith_together ih).bind fun t u _ _ grow solved => ?_
        exact together_pure (twins.add grow text solved)
      · obtain ⟨qs, rfl, twins⟩ := twins
        exact (onlyWrites_ascending _ _).together_bind fun _ =>
          together_record_bind (together_pure ⟨qs, rfl, twins⟩)

/-- Solving goes the same way on registries that began as one. -/
theorem solve_together (settings : Settings) (axis : String) (depth : ℤ) (f : Equation)
    (claimed : Option Number) :
    Together r s (solve settings axis depth f claimed) (solve settings axis depth f claimed)
      EquationSolution.Twins :=
  solveWith_together (solveHigher_together _)

theorem intersectAxis_together (settings : Settings) (f : Equation) (axis : String) :
    Together r s (intersectAxis settings f axis) (intersectAxis settings f axis) EquationSolution.Twins := by
  unfold intersectAxis
  split_ifs
  · refine together_ofExcept_bind fun p => (together_point _ _).bind fun q q' _ _ _ twins => ?_
    exact together_record_bind (together_pure ⟨[q'], rfl, .cons twins .nil⟩)
  · exact solve_together settings _ _ f none
  · exact together_throw _ _

end Recursion

end FunctionStudy
