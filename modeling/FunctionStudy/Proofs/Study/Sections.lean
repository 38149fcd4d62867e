import FunctionStudy.Proofs.Data
import FunctionStudy.Proofs.Positivity
import FunctionStudy.Proofs.Solution.Twins
import FunctionStudy.Study

/-! What a section shows of the registry. Most operations only write steps; intersections and
monotonicity register points, of which only the names depend on what was registered before. -/

namespace FunctionStudy

open Registry (Twins)
open Work

variable {settings : Settings} {f : Equation} {points : List Binary64} {r s : Registry}

section Writing

theorem positivity_onlyWrites (settings : Settings) (f : Equation) : (positivity settings f).OnlyWrites := by
  unfold positivity
  refine (onlyWrites_ofExcept _).bind fun p => ?_
  dsimp only
  split_ifs
  · exact (onlyWrites_record _).bind fun _ => onlyWrites_pure _
  · refine (splitPieces_isOf onlyWrites_isKind settings _ _).bind fun pieces => ?_
    split
    · exact (onlyWrites_record _).bind fun _ => onlyWrites_pure _
    · refine OnlyWrites.bind (pieceInequalities_isOf onlyWrites_isKind settings _ _) fun is => ?_
      refine onlyWrites_read.bind fun layout => (onlyWrites_ofExcept _).bind fun rows => ?_
      exact (onlyWrites_record _).bind fun _ => onlyWrites_pure _

theorem parity_onlyWrites (f : Equation) : (parity f).OnlyWrites :=
  (onlyWrites_ofExcept _).bind fun _ => (onlyWrites_record _).bind fun _ => onlyWrites_pure _

theorem concavity_onlyWrites (settings : Settings) (f : Equation) : (concavity settings f).OnlyWrites :=
  (onlyWrites_ofExcept _).bind fun _ => (onlyWrites_record _).bind fun _ =>
    (positivity_onlyWrites settings _).bind fun _ => onlyWrites_pure _

theorem area_onlyWrites (settings : Settings) (f : Except Error Equation) (points : List Binary64) :
    (area settings f points).OnlyWrites := by
  refine (onlyWrites_ascending _ _).bind fun xs => ?_
  dsimp only
  split_ifs
  · exact onlyWrites_pure _
  · refine (onlyWrites_ofExcept _).bind fun _ => (onlyWrites_ofExcept _).bind fun _ => ?_
    refine (onlyWrites_ofExcept _).bind fun _ => (onlyWrites_ofExcept _).bind fun _ => ?_
    exact (onlyWrites_record _).bind fun _ => onlyWrites_pure _

end Writing

section Sections

variable {p q : Point} {ps qs : List Point}

theorem Registry.Twins.toData (h : r.Twins s p q) : p.toData.SameUpToNames q.toData := by
  have named (p : Point) : p.toData.SameUpToNames p.withoutName.toData := rfl
  exact (named p).trans (h.withoutName ▸ (named q).symm)

theorem Registry.twins_toData (h : List.Forall₂ (r.Twins s) ps qs) :
    (Data.list (ps.map Point.toData)).SameUpToNames (.list (qs.map Point.toData)) :=
  .list (List.rel_map (fun _ _ twins => twins.toData) h)

theorem EquationSolution.Twins.toData {first second : EquationSolution} (h : first.Twins second r s) :
    first.toData.SameUpToNames second.toData := by
  obtain ⟨qs, rfl, twins⟩ := h
  have points := Registry.twins_toData twins
  refine .record ?_
  simp only [List.forall₂_cons, List.forall₂_nil_left_iff, Data.SameUpToNames.refl, points, and_self]

theorem extremum_together (f : Equation) (i : SignedInterval) :
    Together r s (extremum f i) (extremum f i) fun e e' r' s' => e.1 = e'.1 ∧ r'.Twins s' e.2 e'.2 := by
  unfold extremum
  refine together_ofExcept_bind fun y => (together_point _ _).bind fun p q _ _ _ twins => ?_
  exact together_record_bind (together_pure ⟨rfl, twins⟩)

theorem monotonicity_together (settings : Settings) (f : Equation) :
    Together r s (monotonicity settings f) (monotonicity settings f)
      fun m n _ _ => m.toData.SameUpToNames n.toData := by
  unfold monotonicity
  refine together_ofExcept_bind fun derivative => together_record_bind ?_
  refine (positivity_onlyWrites settings derivative).together_bind fun signs => ?_
  refine Together.bind (together_mapM ?_ fun i _ _ _ => extremum_together f i) fun es es' r' s' _ twins => ?_
  · exact fun _ _ _ _ _ _ ⟨kind, twins⟩ grow => ⟨kind, twins.mono grow⟩
  · have of_kind (kind : Bool → Bool) : List.Forall₂ (r'.Twins s') ((es.filter (kind ·.1)).map (·.2))
        ((es'.filter (kind ·.1)).map (·.2)) := by
      refine List.rel_map (fun _ _ h => h.2) (List.rel_filter (fun e e' h => ?_) twins)
      dsimp only
      rw [h.1]
    have maxima := Registry.twins_toData (of_kind fun maximum => maximum)
    have minima := Registry.twins_toData (of_kind not)
    refine together_pure (.record ?_)
    simp only [List.forall₂_cons, List.forall₂_nil_left_iff, Data.SameUpToNames.refl, maxima, minima, and_self]

theorem OnlyWrites.isSteady {w : Work Data} (hw : w.OnlyWrites) : w.IsSteady Data.SameUpToNames :=
  fun _ _ => hw.together.imp fun _ _ _ _ ⟨same, _, _⟩ => congrArg Data.withoutNames same

theorem section?_isSteady (settings : Settings) (f : Equation) (points : List Binary64) (op : Operation) :
    (section? settings f points op).IsSteady Data.SameUpToNames := by
  cases op with
  | intersections =>
    intro r s
    refine (intersectAxis_together settings f "x").bind fun x x' _ _ _ horizontal => ?_
    refine (intersectAxis_together settings f "y").bind fun y y' _ _ _ vertical => together_pure ?_
    exact .record (.cons ⟨rfl, horizontal.toData⟩ (.cons ⟨rfl, vertical.toData⟩ .nil))
  | monotonicity =>
    exact fun r s => (monotonicity_together settings f).bind fun m n _ _ _ same => together_pure same
  | slope => exact OnlyWrites.isSteady (onlyWrites_pure _)
  | parity => exact OnlyWrites.isSteady ((parity_onlyWrites f).bind fun _ => onlyWrites_pure _)
  | positivity => exact OnlyWrites.isSteady ((positivity_onlyWrites settings f).bind fun _ => onlyWrites_pure _)
  | concavity => exact OnlyWrites.isSteady ((concavity_onlyWrites settings f).bind fun _ => onlyWrites_pure _)
  | derivative => exact OnlyWrites.isSteady ((onlyWrites_ofExcept _).bind fun _ => onlyWrites_pure _)
  | primitive => exact OnlyWrites.isSteady ((onlyWrites_ofExcept _).bind fun _ => onlyWrites_pure _)
  | area => exact OnlyWrites.isSteady ((area_onlyWrites settings _ points).bind fun _ => onlyWrites_pure _)

end Sections

end FunctionStudy
