import FunctionStudy.Proofs.Data
import FunctionStudy.Proofs.Data.Places
import FunctionStudy.Proofs.Work.Failure
import FunctionStudy.Study

/-! What a report is written as. Sections and steps are made of texts, numbers, lists and mappings from
texts, so that a written report has no number but finite ones, neither as a value nor as a key. -/

namespace FunctionStudy

open Data (HasTextKeys)

section Results

@[simp]
theorem Point.hasTextKeys_toData (p : Point) : p.toData.HasTextKeys := by
  simp [toData, entries]

theorem Interval.hasTextKeys_boundData (x : Binary64) : (boundData x).HasTextKeys := by
  unfold boundData
  split_ifs
  · exact Data.hasTextKeys_float x
  · exact Data.hasTextKeys_null

theorem Interval.hasTextKeys_entries (i : Interval) : ∀ e ∈ i.entries, e.2.HasTextKeys := by
  simp [entries, hasTextKeys_boundData]

@[simp]
theorem Interval.hasTextKeys_toData (i : Interval) : i.toData.HasTextKeys :=
  Data.hasTextKeys_record.mpr i.hasTextKeys_entries

@[simp]
theorem SignedInterval.hasTextKeys_toData (i : SignedInterval) : i.toData.HasTextKeys :=
  Data.hasTextKeys_record.mpr
    (List.forall_mem_cons.mpr ⟨Data.hasTextKeys_int i.sign, i.interval.hasTextKeys_entries⟩)

@[simp]
theorem SignRow.hasTextKeys_toData (row : SignRow) : row.toData.HasTextKeys := by
  simp [toData]

@[simp]
theorem SignAnalysis.hasTextKeys_toData (signs : SignAnalysis) : signs.toData.HasTextKeys := by
  simp [toData]

@[simp]
theorem RuffiniTable.hasTextKeys_toData (table : RuffiniTable) : table.toData.HasTextKeys := by
  simp [toData]

theorem Factorization.hasTextKeys_entries (f : Factorization) : ∀ e ∈ f.entries, e.2.HasTextKeys := by
  simp [entries]

@[simp]
theorem EquationSolution.hasTextKeys_toData (solution : EquationSolution) : solution.toData.HasTextKeys := by
  simp [toData]

@[simp]
theorem Slope.hasTextKeys_toData (slope : Slope) : slope.toData.HasTextKeys := by
  simp [toData]

@[simp]
theorem ParityResult.hasTextKeys_toData (result : ParityResult) : result.toData.HasTextKeys := by
  simp [toData]

@[simp]
theorem MonotonicityResult.hasTextKeys_toData (result : MonotonicityResult) : result.toData.HasTextKeys := by
  simp [toData]

@[simp]
theorem ConcavityResult.hasTextKeys_toData (result : ConcavityResult) : result.toData.HasTextKeys := by
  simp [toData]

@[simp]
theorem AreaResult.hasTextKeys_toData (result : AreaResult) : result.toData.HasTextKeys := by
  simp [toData]

@[simp]
theorem Step.hasTextKeys_detail (step : Step) : step.detail.HasTextKeys := by
  cases step with
  | inputs request => cases request <;> simp [detail]
  | roots e results factored => cases factored <;> simp [detail, entry?]
  | impossible e reason => cases reason <;> simp [detail, entry?]
  | _ => simp [detail]

end Results

section Sections

open Work

variable {settings : Settings} {f : Equation} {points : List Binary64}

theorem section?_hasTextKeys (op : Operation) :
    (section? settings f points op).Meets (fun _ => True) HasTextKeys := by
  cases op with
  | intersections => exact meets_bind_last fun x => meets_bind_last fun y => meets_pure (by simp)
  | slope => exact meets_pure (by simp)
  | parity => exact meets_bind_last fun result => meets_pure result.hasTextKeys_toData
  | positivity => exact meets_bind_last fun signs => meets_pure signs.hasTextKeys_toData
  | monotonicity => exact meets_bind_last fun result => meets_pure result.hasTextKeys_toData
  | concavity => exact meets_bind_last fun result => meets_pure result.hasTextKeys_toData
  | derivative => exact meets_bind_last fun derived => meets_pure (by simp)
  | primitive => exact meets_bind_last fun p => meets_pure (by simp)
  | area => exact meets_bind_last fun result => meets_pure result.hasTextKeys_toData

theorem sections_hasTextKeys (ops : List Operation) :
    (sections settings f points ops).Meets (fun _ => True) fun done => ∀ e ∈ done, e.2.HasTextKeys := by
  refine meets_foldlM (fun done hdone op _ => ?_) (List.forall_mem_nil _)
  exact (section?_hasTextKeys op).bind fun d hd => meets_pure (Data.forall_mem_put hdone hd)

end Sections

section Reports

open Work

variable {settings : Settings} {registry : Registry} {text : String} {layout : Layout}

theorem Report.hasTextKeys_toData {r : Report} (h : ∀ e ∈ r.sections, e.2.HasTextKeys) :
    r.toData.HasTextKeys := by
  refine Data.hasTextKeys_finiteOnly.mpr (Data.hasTextKeys_record.mpr ?_)
  have trace : ∀ step ∈ r.steps, step.toRecord.toData.HasTextKeys := by
    intro step _
    simp [Step.toRecord, Record.toData]
  have sections : ∀ name d, (name, d) ∈ r.sections → d.HasTextKeys := fun name d found => h (name, d) found
  simpa [entries] using ⟨sections, trace⟩

theorem reportOn_hasTextKeys {work : Equation → Work (List (String × Data))} {check : Except Error Unit}
    (h : ∀ f, (work f).Meets (fun _ => True) fun done => ∀ e ∈ done, e.2.HasTextKeys) :
    (reportOn settings registry text work check layout).1.toData.HasTextKeys := by
  refine Report.hasTextKeys_toData ?_
  have outcome : Meets (fun _ => True) (fun done => ∀ e ∈ done, e.2.HasTextKeys)
      (reportOn settings registry text work check layout).1.outcome := meets_bind_last h _ layout
  unfold Report.sections
  split
  · rename_i done answer
    rw [answer] at outcome
    exact outcome
  · exact List.forall_mem_nil _

theorem reportSolution_hasTextKeys : (reportSolution settings registry text layout).1.toData.HasTextKeys :=
  reportOn_hasTextKeys fun _ => meets_record_bind (meets_bind_last fun _ => meets_pure (by simp))

theorem reportFactorization_hasTextKeys : (reportFactorization settings registry text layout).1.toData.HasTextKeys := by
  refine reportOn_hasTextKeys fun _ => meets_record_bind (meets_bind_last fun result => meets_pure ?_)
  refine List.forall_mem_singleton.mpr (Data.hasTextKeys_record.mpr ?_)
  refine List.forall_mem_append.mpr ⟨result.hasTextKeys_entries, fun e he => ?_⟩
  obtain ⟨split, -, rfl⟩ := Option.map_eq_some_iff.mp (Option.mem_toList.mp he)
  exact Data.hasTextKeys_text _

theorem reportStudy_hasTextKeys (operations : Option (List String)) (points : List Binary64) :
    (reportStudy settings registry text operations points layout).1.toData.HasTextKeys :=
  reportOn_hasTextKeys fun _ => meets_bind_last fun ops => meets_record_bind (sections_hasTextKeys ops)

end Reports

/-- Every value is written with null for the numbers that are not finite and otherwise as it is, its keys
included, and reports are so written. Those of studying, solving and factoring have no keys but texts, so that
no other number is anywhere in them. -/
theorem finiteOnly_clears_infinities :
    (∀ d : Data, d.IsWritten d.finiteOnly ∧ d.finiteOnly.finiteOnly = d.finiteOnly ∧
      (d.finiteOnly.HasTextKeys ↔ d.HasTextKeys)) ∧
    (∀ r : Report, (Data.record r.entries).IsWritten r.toData ∧ r.toData.finiteOnly = r.toData) ∧
    ∀ settings registry text operations points layout,
      ∀ report ∈ [(reportStudy settings registry text operations points layout).1,
        (reportSolution settings registry text layout).1, (reportFactorization settings registry text layout).1],
      report.toData.HasTextKeys := by
  refine ⟨fun d => ⟨d.isWritten_finiteOnly, d.finiteOnly_finiteOnly, Data.hasTextKeys_finiteOnly⟩,
    fun r => ⟨Data.isWritten_finiteOnly _, Data.finiteOnly_finiteOnly _⟩, ?_⟩
  intro settings registry text operations points layout
  simp only [List.mem_cons, List.not_mem_nil, or_false]
  rintro report (rfl | rfl | rfl)
  · exact reportStudy_hasTextKeys operations points
  · exact reportSolution_hasTextKeys
  · exact reportFactorization_hasTextKeys

end FunctionStudy
