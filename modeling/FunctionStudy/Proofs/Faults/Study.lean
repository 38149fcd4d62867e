import FunctionStudy.Proofs.Faults.Calculus
import FunctionStudy.Study

/-! Whose fault a failed report is. Other failures than the user's are left to numbers and letters
out of the ordinary: a function is derived twice and split eight times at most, so that every size
is bounded by that of the coefficients. -/

namespace FunctionStudy

variable {settings : Settings} {f : Equation} {points : List Binary64} {ordinary : Prop} {r : ℕ} {l : Char}

section Operations

theorem Member.IsIn.exists_parityOf {p : Member} (h : p.IsIn l) : ∃ result, parityOf p = .ok result := by
  have whole : ∀ ts : List Term, (∀ t ∈ ts, t.IsPowerOf l) → ∃ b, allExponentsWhole ts = .ok b := by
    intro ts powers
    induction ts with
    | nil => exact ⟨true, rfl⟩
    | cons t rest ih =>
      obtain ⟨b, others⟩ := ih fun u hu => powers u (List.mem_cons_of_mem t hu)
      have integer := Binary64.exists_toInt (powers t List.mem_cons_self).toRat?_exponent
      simp only [allExponentsWhole, integer, bind, Except.bind]
      split_ifs
      · exact ⟨b, others⟩
      · exact ⟨false, rfl⟩
  obtain ⟨b, all⟩ := whole p.terms h
  exact ⟨_, by simp only [parityOf, all]; rfl⟩

theorem parity_allowed (hf : ordinary → f.IsOrdinary r) :
    (parity f).Meets (Error.IsAllowed ordinary) fun _ => True := by
  have result : Meets (Error.IsAllowed ordinary) (fun _ => ordinary → True) (f.polynomial >>= parityOf) := by
    refine .allowed (fun known => f.polynomial_failsForUser.eq_ok.bind fun p ⟨polynomial, _⟩ => ?_)
      (f.polynomial_failsForUser.regular.bind fun p _ => parityOf_failsRegularly p)
    obtain ⟨l, -, moderate⟩ := hf known p polynomial
    obtain ⟨result, known⟩ := moderate.isIn.exists_parityOf
    exact .of_eq_ok known trivial
  exact Work.meets_ofExcept_bind result fun _ _ => Work.meets_record_bind (Work.meets_pure trivial)

theorem extremum_allowed (hf : ordinary → f.IsOrdinary r) {i : SignedInterval}
    (finite : ordinary → i.interval.finish.isFinite = true) :
    (extremum f i).Meets (Error.IsAllowed ordinary) fun _ => True := by
  unfold extremum
  refine Work.meets_ofExcept_bind (Equation.evaluate_allowed hf finite) fun y _ => ?_
  exact (Work.returns_point _ _).meets.bind fun _ _ => Work.meets_record_bind (Work.meets_pure trivial)

theorem monotonicity_allowed (modest : ordinary → settings.AreModest)
    (hf : ordinary → f.IsOrdinaryUpTo 2 r) (label : f.HasPlainLabel) (low : 67 ≤ r) (high : r ≤ 210) :
    (monotonicity settings f).Meets (Error.IsAllowed ordinary) fun _ => True := by
  unfold monotonicity
  refine Work.meets_ofExcept_bind (Equation.derive_allowed (m := 1) hf label (by decide)) fun g moderate => ?_
  refine Work.meets_record_bind ?_
  refine (positivity_allowed modest moderate low fun _ => high).bind fun signs ends => ?_
  refine (Work.meets_mapM fun i hi => extremum_allowed (fun known => (hf known).isOrdinary)
    fun known => ends known i hi).bind fun _ _ => ?_
  exact Work.meets_pure trivial

theorem concavity_allowed (modest : ordinary → settings.AreModest)
    (hf : ordinary → f.IsOrdinaryUpTo 2 r) (label : f.HasPlainLabel) (low : 67 ≤ r) (high : r ≤ 210) :
    (concavity settings f).Meets (Error.IsAllowed ordinary) fun _ => True := by
  unfold concavity
  refine Work.meets_ofExcept_bind (Equation.derive_allowed (m := 2) hf label le_rfl) fun g moderate => ?_
  refine Work.meets_record_bind ?_
  exact (positivity_allowed modest moderate low fun _ => high).bind fun signs _ => Work.meets_pure trivial

theorem area_allowed (hf : ordinary → f.IsOrdinary r) (finite : ∀ x ∈ points, x.isFinite = true) :
    (area settings (.ok f) points).Meets (Error.IsAllowed ordinary) fun _ => True := by
  unfold area
  refine Work.meets_ascending_bind fun layout => ?_
  dsimp only
  split_ifs
  · exact Work.meets_pure trivial
  refine Work.meets_ofExcept_bind (P := (· = f)) rfl fun g same => ?_
  subst same
  refine Work.meets_ofExcept_bind ((settings.checkDegree_failsForUser _ _).weaken fun _ user =>
    user.isAllowed) fun _ _ => ?_
  refine Work.meets_ofExcept_bind (.allowed (fun known => Equation.primitive_meets (hf known))
    g.primitive_failsRegularly) fun primitive evaluable => ?_
  have each : Meets (Error.IsAllowed ordinary) (fun _ => True)
      ((layout.ascending .areaPoints (points.map (·.unsignedZero))).mapM fun x =>
        primitive.function.evaluate (.double x)) := by
    refine (Meets.mapM (R := fun _ => ordinary → True) fun x hx => ?_).imp fun _ _ => trivial
    obtain ⟨y, hy, rfl⟩ := List.mem_map.mp (Layout.mem_of_mem_ascending hx)
    refine .allowed (fun known => ?_) (Equation.evaluate_failsRegularly _ _)
    obtain ⟨p, polynomial, evaluable⟩ := evaluable known
    obtain ⟨z, value⟩ := Equation.exists_evaluate polynomial evaluable
      (Binary64.isFinite_unsignedZero (finite y hy))
    exact .of_eq_ok value trivial
  exact Work.meets_ofExcept_bind each fun _ _ => Work.meets_record_bind (Work.meets_pure trivial)

theorem section?_allowed (modest : ordinary → settings.AreModest) (hf : ordinary → f.IsOrdinaryUpTo 2 r)
    (label : f.HasPlainLabel) (low : 67 ≤ r) (high : r ≤ 210) (finite : ∀ x ∈ points, x.isFinite = true)
    (operation : Operation) :
    (section? settings f points operation).Meets (Error.IsAllowed ordinary) fun _ => True := by
  have own : ordinary → f.IsOrdinary r := fun known => (hf known).isOrdinary
  have answers : ∀ {α : Type} {w : Work α} (toData : α → Data),
      w.Meets (Error.IsAllowed ordinary) (fun _ => True) →
        (do return toData (← w)).Meets (Error.IsAllowed ordinary) fun _ => True :=
    fun _ hw => hw.bind fun _ _ => Work.meets_pure trivial
  cases operation with
  | intersections =>
    refine (intersectAxis_allowed modest own low (fun _ => by omega) (.inl rfl)).bind fun x _ => ?_
    exact answers _ (intersectAxis_allowed modest own low (fun _ => by omega) (.inr rfl))
  | slope => exact Work.meets_pure trivial
  | parity => exact answers _ (parity_allowed own)
  | positivity =>
    exact answers _ ((positivity_allowed modest own low fun _ => high).imp fun _ _ => trivial)
  | monotonicity => exact answers _ (monotonicity_allowed modest hf label low high)
  | concavity => exact answers _ (concavity_allowed modest hf label low high)
  | derivative =>
    exact answers _ (Work.meets_ofExcept ((f.derive_failsForUser 1).weaken fun _ user => user.isAllowed))
  | primitive =>
    exact answers _ (Work.meets_ofExcept ((Meets.allowed (fun known =>
      Equation.primitive_meets (own known)) f.primitive_failsRegularly).imp fun _ _ => trivial))
  | area => exact answers _ (area_allowed own finite)

theorem sections_allowed (modest : ordinary → settings.AreModest) (hf : ordinary → f.IsOrdinaryUpTo 2 r)
    (label : f.HasPlainLabel) (low : 67 ≤ r) (high : r ≤ 210) (finite : ∀ x ∈ points, x.isFinite = true)
    (operations : List Operation) :
    (sections settings f points operations).Meets (Error.IsAllowed ordinary) fun _ => True :=
  Work.meets_foldlM (R := fun _ => True) (fun _ _ operation _ =>
    (section?_allowed modest hf label low high finite operation).bind fun _ _ => Work.meets_pure trivial) trivial

end Operations

section Reports

variable {registry : Registry} {text : String} {layout : Layout}

theorem reportOn_allowed {work : Equation → Work (List (String × Data))} {check : Except Error Unit}
    (checked : FailsForUser check)
    (worked : ∀ f, Equation.ofText text = .ok f → (work f).Meets (Error.IsAllowed ordinary) fun _ => True) :
    ∀ e ∈ (reportOn settings registry text work check layout).1.error?, e.IsAllowed ordinary := by
  intro e he
  have read : Meets Error.IsUserInput (fun f => Equation.ofText text = .ok f)
      (check >>= fun _ => Equation.ofText text) :=
    checked.bind fun _ _ => (Equation.ofText_failsForUser text).eq_ok.imp fun _ known => known.1
  have outcome : Meets (Error.IsAllowed ordinary) (fun _ => True)
      (reportOn settings registry text work check layout).1.outcome :=
    Work.meets_ofExcept_bind (read.weaken fun _ user => user.isAllowed) worked _ layout
  unfold Report.error? at he
  split at he
  · cases he
  · rename_i failure reason
    obtain rfl := Option.mem_some.mp he
    rw [reason] at outcome
    exact outcome

/-- Limits no wider than by default, and a function in one letter with natural powers: in it and in its
first two derivatives the coefficients are at most `2^200` in size, and sums of like terms that are not
zero at least `2^-200`. -/
structure IsOrdinaryTask (settings : Settings) (text : String) : Prop where
  modest : settings.AreModest
  function : ∀ f, Equation.ofText text = .ok f → f.IsOrdinaryUpTo 2 200

/-- One term for each power, with coefficients between `2^-92` and `2^92` in size or zero. -/
theorem IsOrdinaryTask.of_isOrdinaryIn (modest : settings.AreModest)
    (h : ∀ f p, Equation.ofText text = .ok f → f.polynomial = .ok p → ∃ l, IsReadable l ∧ p.IsOrdinaryIn l 92) :
    IsOrdinaryTask settings text where
  modest := modest
  function f read := Equation.isOrdinaryUpTo_of_isOrdinaryIn (n := 2) (by decide) fun p => h f p read

theorem Operation.ofNames_failsForUser (names : List String) : FailsForUser (ofNames names) := by
  unfold ofNames
  split
  · trivial
  · rfl

theorem reportStudy_allowed (operations : Option (List String)) (finite : ∀ x ∈ points, x.isFinite = true) :
    ∀ e ∈ (reportStudy settings registry text operations points layout).1.error?,
      e.IsAllowed (IsOrdinaryTask settings text) := by
  have studied : ∀ {chosen : Except Error (List Operation)}, FailsForUser chosen →
      ∀ f, Equation.ofText text = .ok f → Work.Meets (do
        let ops ← Work.ofExcept chosen
        Work.record (.inputs (.study f.text (ops.map Operation.name)))
        sections settings f points ops) (Error.IsAllowed (IsOrdinaryTask settings text)) fun _ => True := by
    intro chosen refused f read
    refine Work.meets_ofExcept_bind (refused.weaken fun _ user => user.isAllowed) fun ops _ => ?_
    exact Work.meets_record_bind (sections_allowed (fun known => known.modest)
      (fun known => known.function f read) (Equation.hasPlainLabel_ofText read) (by decide) (by decide) finite
      ops)
  cases operations with
  | none =>
    have refused : FailsForUser (.ok (defaultOperations points)) := trivial
    exact reportOn_allowed trivial (studied refused)
  | some names =>
    have refused := Operation.ofNames_failsForUser names
    exact reportOn_allowed (refused.bind fun _ _ => trivial) (studied refused)

theorem reportSolution_allowed : ∀ e ∈ (reportSolution settings registry text layout).1.error?,
    e.IsAllowed (IsOrdinaryTask settings text) := by
  refine reportOn_allowed trivial fun f read => Work.meets_record_bind ?_
  exact (solve_allowed (fun known => known.modest) (fun known => (known.function f read).isOrdinary) (by decide)
    (fun _ => by decide) fun known => (known.function f read).isOrdinary.claimsWithin).bind
      fun _ _ => Work.meets_pure trivial

theorem reportFactorization_allowed : ∀ e ∈ (reportFactorization settings registry text layout).1.error?,
    e.IsAllowed (IsOrdinaryTask settings text) := by
  refine reportOn_allowed trivial fun f read => Work.meets_record_bind ?_
  exact (Work.Meets.allowed (fun known => factor_meets (known.function f read).isOrdinary
    known.modest.degree (by decide) (by decide)) (factor_failsRegularly settings f)).bind
      fun _ _ => Work.meets_pure trivial

/-- Studying, solving and factoring fail by the user's fault. The only other failures, a zero divisor, a
conversion without a result and a text that reads as a quotation, are left to functions that are not ordinary. -/
theorem reports_blame_user (settings : Settings) (registry : Registry) (text : String)
    (operations : Option (List String)) (finite : ∀ x ∈ points, x.isFinite = true) (layout : Layout) :
    ∀ report ∈ [(reportStudy settings registry text operations points layout).1,
        (reportSolution settings registry text layout).1, (reportFactorization settings registry text layout).1],
      ∀ e ∈ report.error?,
        e.IsUserInput ∨ (e.IsArithmetic ∨ e.IsQuotation) ∧ ¬ IsOrdinaryTask settings text := by
  simp only [List.mem_cons, List.not_mem_nil, or_false]
  rintro report (rfl | rfl | rfl)
  · exact reportStudy_allowed operations finite
  · exact reportSolution_allowed
  · exact reportFactorization_allowed

/-- An ordinary function, for which nothing but the user's faults is left. -/
theorem reports_blame_user_parabola : IsOrdinaryTask .defaults "y=x^2-4" ∧
    ∀ report ∈ [(reportStudy .defaults .empty "y=x^2-4" none [.ofInt 0, .ofInt 2]).1,
        (reportSolution .defaults .empty "y=x^2-4").1, (reportFactorization .defaults .empty "y=x^2-4").1],
      ∀ e ∈ report.error?, e.IsUserInput := by
  have read : Equation.ofText "y=x^2-4" = .ok ⟨⟨[⟨.ofInt 1, some (.ofLetter "y")⟩]⟩,
      ⟨[⟨.ofInt 1, some { letter := .singleton 'x', exponent := .ofInt 2 }⟩, .constant (.ofInt (-4))]⟩⟩ := by
    decide +kernel
  have value : ∀ z : ℤ, |z| ≤ 4 → (Binary64.ofInt z).toRat? = some (z : ℚ) :=
    fun z small => Binary64.toRat?_ofInt (small.trans (by norm_num))
  have task : IsOrdinaryTask .defaults "y=x^2-4" := by
    refine .of_isOrdinaryIn ⟨Settings.tellsIntegers_defaults, by decide, by decide⟩ fun f p hf hp => ?_
    obtain rfl := Except.ok.inj (read.symm.trans hf)
    rw [Equation.polynomial, if_pos (by decide +kernel)] at hp
    obtain rfl := Except.ok.inj hp
    refine ⟨_, isReadable_x, ⟨?_, by decide +kernel, by decide +kernel⟩, ?_⟩
    · exact List.forall_mem_cons.mpr ⟨Term.isPowerOf_power _ (value 2 (by norm_num)),
        List.forall_mem_singleton.mpr (Term.isPowerOf_constant _ _)⟩
    · exact List.forall_mem_cons.mpr ⟨⟨1, value 1 (by norm_num), Binary64.isModerate_one 92⟩,
        List.forall_mem_singleton.mpr ⟨-4, value (-4) (by norm_num), .inr (by norm_num)⟩⟩
  refine ⟨task, fun report hr e he => ?_⟩
  have finite : ∀ x ∈ [Binary64.ofInt 0, Binary64.ofInt 2], x.isFinite = true := by decide +kernel
  exact (reports_blame_user .defaults .empty "y=x^2-4" none finite .insertion report hr e he).resolve_right
    fun fault => fault.2 task

def twoLetters : Member := ⟨[⟨.ofInt 1, some (.ofLetter "x")⟩, ⟨.ofInt (-1), some (.ofLetter "t")⟩]⟩

theorem normalize_twoLetters : twoLetters.simplify.normalize = twoLetters := by
  have simple : twoLetters.simplify = twoLetters := by decide +kernel
  have sorted : twoLetters.terms.Pairwise fun t u => (!(t.exponent.lt u.exponent)) = true := by decide +kernel
  rw [simple, Member.normalize_eq_self sorted]

/-- Both letters count for the leading coefficient, which is zero. -/
theorem positivity_twoLetters (h : f.polynomial = .ok twoLetters) :
    (positivity .defaults f).Meets (· = .divisionByZero) fun _ => False := by
  have whole : (splitPieces .defaults (remainingDepth .defaults 0) twoLetters).Meets (· = .divisionByZero)
      (· = some [twoLetters]) := by
    unfold splitPieces
    refine Work.Meets.ofExcept_bind (by decide +kernel : _ = Except.ok ()) ?_
    rw [if_pos (by decide +kernel)]
    exact Work.meets_pure rfl
  have piece : pieceInequality .defaults twoLetters = .error .divisionByZero := by decide +kernel
  have failed : (pieceInequalities .defaults twoLetters.letter [twoLetters]).Meets (· = .divisionByZero)
      fun _ => False := by
    rw [pieceInequalities, List.mapM_cons, piece]
    exact .bind_of_fails (.bind_of_fails (Work.meets_ofExcept (.error rfl)))
  unfold positivity
  refine Work.Meets.ofExcept_bind h ?_
  rw [normalize_twoLetters]
  dsimp only
  rw [if_neg (by decide +kernel)]
  refine whole.bind fun pieces single => ?_
  subst single
  exact failed.bind_of_fails

/-- The coefficients of `x` and `t` cancel as those of one letter, and the study divides by their sum. -/
theorem study_blames_engine :
    ¬ ∀ e ∈ (reportStudy .defaults .empty "y=x-t" (some ["positivity"]) []).1.error?, e.IsUserInput := by
  have read : Equation.ofText "y=x-t" = .ok ⟨⟨[⟨.ofInt 1, some (.ofLetter "y")⟩]⟩, twoLetters⟩ := by
    decide +kernel
  have chosen : Operation.ofNames ["positivity"] = .ok [.positivity] := by decide +kernel
  have started : (Operation.ofNames ["positivity"] >>= fun _ => Equation.ofText "y=x-t") =
      .ok ⟨⟨[⟨.ofInt 1, some (.ofLetter "y")⟩]⟩, twoLetters⟩ := by
    rw [chosen]
    exact read
  have polynomial : Equation.polynomial ⟨⟨[⟨.ofInt 1, some (.ofLetter "y")⟩]⟩, twoLetters⟩ = .ok twoLetters := by
    decide +kernel
  have outcome : Meets (· = .divisionByZero) (fun _ => False)
      (reportStudy .defaults .empty "y=x-t" (some ["positivity"]) []).1.outcome := by
    refine Work.Meets.ofExcept_bind started ?_ ⟨[], some .empty⟩ .insertion
    refine Work.Meets.ofExcept_bind chosen (Work.meets_record_bind ?_)
    exact (positivity_twoLetters polynomial).bind_of_fails.bind_of_fails.bind_of_fails
  unfold Report.error?
  split
  · rename_i answer
    rw [answer] at outcome
    exact outcome.elim
  · rename_i e failure
    rw [failure] at outcome
    obtain rfl : e = .divisionByZero := outcome
    exact fun blamed => Bool.false_ne_true (blamed _ rfl)

end Reports

end FunctionStudy
