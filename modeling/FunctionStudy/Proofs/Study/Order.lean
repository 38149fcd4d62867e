import FunctionStudy.Proofs.Study.Layouts

/-! The order of operations. Operations of a study share a registry, and no section shows more of it
than the names of points, so that two of them may change places. -/

namespace FunctionStudy

open Work

variable {settings : Settings} {f : Equation} {points : List Binary64} {r s : Registry} {layout layout' : Layout}

section Orders

variable {first second third : List (String × Data)} {name : String} {d e : Data} {ops ops' : List Operation}
  {names names' : List String}

/-- Under every name nothing, or one section up to the names of points. -/
def SameSections (first second : List (String × Data)) : Prop :=
  ∀ name, (first.lookup name).map Data.withoutNames = (second.lookup name).map Data.withoutNames

theorem SameSections.put (h : SameSections first second) (name : String) (same : d.SameUpToNames e) :
    SameSections (Data.put first name d) (Data.put second name e) := by
  intro other
  by_cases here : other = name
  · rw [here, Data.lookup_put_self, Data.lookup_put_self, Option.map_some, Option.map_some, same]
  · rw [Data.lookup_put_of_ne here, Data.lookup_put_of_ne here, h other]

theorem SameSections.put_comm {first : List (String × Data)} {name other : String} (different : name ≠ other) :
    SameSections (Data.put (Data.put first name d) other e) (Data.put (Data.put first other e) name d) := by
  intro key
  by_cases here : key = other
  · rw [here, Data.lookup_put_self, Data.lookup_put_of_ne different.symm, Data.lookup_put_self]
  · rw [Data.lookup_put_of_ne here]
    by_cases there : key = name
    · rw [there, Data.lookup_put_self, Data.lookup_put_self]
    · rw [Data.lookup_put_of_ne there, Data.lookup_put_of_ne there, Data.lookup_put_of_ne here]

theorem SameSections.trans (h : SameSections first second) (h' : SameSections second third) :
    SameSections first third :=
  fun name => (h name).trans (h' name)

theorem Operation.name_injective : Function.Injective Operation.name := by
  intro op op' same
  cases op <;> cases op' <;> first | rfl | exact absurd same (by decide)

/-- The sections of further operations, after those that are done. -/
def sectionsAfter (settings : Settings) (f : Equation) (points : List Binary64)
    (done : List (String × Data)) (ops : List Operation) : Work (List (String × Data)) :=
  ops.foldlM (fun done op => do return Data.put done op.name (← section? settings f points op)) done

theorem sectionsAfter_cons (done : List (String × Data)) (op : Operation) (ops : List Operation) :
    sectionsAfter settings f points done (op :: ops) = (do
      let d ← section? settings f points op
      sectionsAfter settings f points (Data.put done op.name d) ops) := by
  simp only [sectionsAfter, List.foldlM_cons, bind_assoc, pure_bind]

theorem sectionsAfter_together (same : SameSections first second) (ops : List Operation) :
    Together r s (sectionsAfter settings f points first ops) (sectionsAfter settings f points second ops)
      fun done done' _ _ => SameSections done done' := by
  induction ops generalizing first second r s with
  | nil => exact together_pure same
  | cons op ops ih =>
    rw [sectionsAfter_cons, sectionsAfter_cons]
    exact (section?_isSteady settings f points op r s).bind fun d e _ _ _ alike => ih (same.put op.name alike)

theorem isSome_lookup_sectionsAfter (found : (sectionsAfter settings f points first ops).Yields layout second)
    (name : String) :
    (second.lookup name).isSome = true ↔ (first.lookup name).isSome = true ∨ name ∈ ops.map Operation.name := by
  induction ops generalizing first with
  | nil =>
    rw [found.of_pure, List.map_nil]
    exact (or_iff_left List.not_mem_nil).symm
  | cons op ops ih =>
    rw [sectionsAfter_cons] at found
    obtain ⟨d, -, rest⟩ := found.of_bind
    rw [ih rest, List.map_cons, List.mem_cons]
    by_cases here : name = op.name
    · rw [here, Data.lookup_put_self]
      exact iff_of_true (.inl rfl) (.inr (.inl rfl))
    · rw [Data.lookup_put_of_ne here, or_iff_right here]

/-- The induction is on how the order is changed; two neighbours may be exchanged since neither shows in what
the other one answers. -/
theorem sectionsAfter_perm (order : ops.Perm ops') (same : SameSections first second) :
    Together r s (sectionsAfter settings f points first ops) (sectionsAfter settings f points second ops')
      fun done done' _ _ => SameSections done done' := by
  induction order generalizing first second r s with
  | nil => exact together_pure same
  | cons op _ ih =>
    rw [sectionsAfter_cons, sectionsAfter_cons]
    exact (section?_isSteady settings f points op r s).bind fun d e _ _ _ alike => ih (same.put op.name alike)
  | swap op op' rest =>
    by_cases equal : op' = op
    · rw [equal]
      exact sectionsAfter_together same _
    · simp only [sectionsAfter_cons]
      refine (section?_isSteady settings f points op').exchange (section?_isSteady settings f points op) ?_
      intro d d' e e' r' s' alike alike'
      refine sectionsAfter_together (SameSections.trans ?_ (SameSections.put_comm ?_)) rest
      · exact (same.put op'.name alike).put op.name alike'
      · exact fun h => equal (Operation.name_injective h)
  | trans _ _ ih ih' =>
    exact (ih same).trans (fun _ _ _ => SameSections.trans) (ih' fun _ => rfl)

theorem Operation.ofNames_perm (order : names.Perm names') (h : Operation.ofNames names = .ok ops) :
    ∃ ops', Operation.ofNames names' = .ok ops' ∧ ops.Perm ops' := by
  unfold Operation.ofNames at h ⊢
  have unknown := order.filter fun name => (Operation.ofName? name).isNone
  split at h
  · rename_i none
    cases h
    rw [none] at unknown
    rw [unknown.nil_eq.symm]
    exact ⟨_, rfl, order.filterMap _⟩
  · cases h

theorem Operation.map_name_of_ofNames (h : Operation.ofNames names = .ok ops) :
    ops.map Operation.name = names := by
  unfold Operation.ofNames at h
  split at h
  · rename_i none
    cases h
    have known : ∀ name ∈ names, (Operation.ofName? name).map Operation.name = some name := by
      intro name hname
      cases found : Operation.ofName? name with
      | none =>
        have unknown : name ∈ names.filter fun name => (Operation.ofName? name).isNone :=
          List.mem_filter.mpr ⟨hname, by rw [found, Option.isNone_none]⟩
        rw [none] at unknown
        cases unknown
      | some op =>
        unfold Operation.ofName? at found
        have named := List.find?_some found
        rw [Option.map_some, beq_iff_eq.mp named]
    rw [List.map_filterMap, List.filterMap_congr known, List.filterMap_some]
  · cases h

end Orders

section Reports

variable {registry : Registry} {text : String} {names names' : List String} {ops ops' : List Operation}
  {left right : Report × Registry}

/-- The reports of two studies that went the same way. -/
structure SameReports (left right : Report × Registry) : Prop where
  outcome : ∃ done done', left.1.outcome = .ok done ∧ right.1.outcome = .ok done' ∧ SameSections done done'
  coordinates : ∀ c, c ∈ left.2.coordinates ↔ c ∈ right.2.coordinates

theorem SameReports.ok (h : SameReports left right) : right.1.ok = true := by
  obtain ⟨done, done', -, succeeds, -⟩ := h.outcome
  rw [Report.ok, succeeds]

theorem SameReports.sections (h : SameReports left right) : SameSections left.1.sections right.1.sections := by
  obtain ⟨done, done', first, second, same⟩ := h.outcome
  rw [Report.sections, Report.sections, first, second]
  exact same

/-- What a study with known operations does. -/
def studyOf (settings : Settings) (text : String) (points : List Binary64) (ops : List Operation) :
    Work (List (String × Data)) := do
  let f ← Work.ofExcept (Equation.ofText text)
  Work.record (.inputs (.study f.text (ops.map Operation.name)))
  sections settings f points ops

theorem studyOf_perm (settings : Settings) (text : String) (points : List Binary64) (order : ops.Perm ops') :
    Together r s (studyOf settings text points ops) (studyOf settings text points ops')
      fun done done' _ _ => SameSections done done' :=
  together_ofExcept_bind fun _ => together_record_bind (sectionsAfter_perm order fun _ => rfl)

/-- The report shows how the run from its registry ended. -/
def Ends (registry : Registry) (run : Except Error (List (String × Data)) × Notebook)
    (report : Report × Registry) : Prop :=
  report.1.outcome = run.1 ∧ report.2 = run.2.registry.getD registry

theorem ends_reportStudy (known : Operation.ofNames names = .ok ops) :
    Ends registry ((studyOf settings text points ops).runFrom ⟨[], some registry⟩ layout)
      (reportStudy settings registry text (some names) points layout) := by
  unfold reportStudy
  dsimp only
  rw [known]
  exact ⟨rfl, rfl⟩

theorem exists_ofNames (ok : (reportStudy settings registry text (some names) points layout).1.ok = true) :
    ∃ ops, Operation.ofNames names = .ok ops := by
  cases known : Operation.ofNames names with
  | error e =>
    unfold reportStudy at ok
    dsimp only at ok
    rw [known] at ok
    cases ok
  | ok ops => exact ⟨ops, rfl⟩

theorem isSome_lookup_reportStudy
    (ok : (reportStudy settings registry text (some names) points layout).1.ok = true) (name : String) :
    ((reportStudy settings registry text (some names) points layout).1.sections.lookup name).isSome = true ↔
      name ∈ names := by
  obtain ⟨ops, known⟩ := exists_ofNames ok
  cases run : (studyOf settings text points ops).runFrom ⟨[], some registry⟩ layout with
  | mk result after =>
    have outcome : (reportStudy settings registry text (some names) points layout).1.outcome = result := by
      rw [(ends_reportStudy known).1, run]
    cases result with
    | error e =>
      rw [Report.ok, outcome] at ok
      cases ok
    | ok done =>
      have found : (studyOf settings text points ops).Yields layout done := ⟨_, after, run⟩
      obtain ⟨f, -, found⟩ := found.of_ofExcept_bind
      rw [Report.sections, outcome, ← Operation.map_name_of_ofNames known]
      exact (isSome_lookup_sectionsAfter found.of_record_bind name).trans (or_iff_right Bool.false_ne_true)

theorem SameReports.of_ends {run run' : Except Error (List (String × Data)) × Notebook}
    (first : Ends registry run left) (second : Ends registry run' right)
    (both : BothEnd (fun done done' r s =>
      registry.GrowTogether registry r s ∧ SameSections done done') run run')
    (ok : left.1.ok = true) : SameReports left right := by
  obtain ⟨outcome, final⟩ := first
  obtain ⟨outcome', final'⟩ := second
  cases both with
  | error d e m n =>
    rw [Report.ok, outcome] at ok
    cases ok
  | ok h =>
    obtain ⟨cs, found, found'⟩ := h.1.found
    refine ⟨⟨_, _, outcome, outcome', h.2⟩, fun c => ?_⟩
    rw [final, final', Option.getD_some, Option.getD_some, found, found']

theorem reportStudy_perm (order : names.Perm names')
    (ok : (reportStudy settings registry text (some names) points layout).1.ok = true) :
    SameReports (reportStudy settings registry text (some names) points layout)
      (reportStudy settings registry text (some names') points layout) := by
  obtain ⟨ops, known⟩ := exists_ofNames ok
  obtain ⟨ops', known', order'⟩ := Operation.ofNames_perm order known
  have both := studyOf_perm settings text points order' registry.alongside_self [] [] layout
  exact .of_ends (ends_reportStudy known) (ends_reportStudy known') both ok

end Reports

end FunctionStudy
