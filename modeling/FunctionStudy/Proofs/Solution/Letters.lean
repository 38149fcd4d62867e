import FunctionStudy.Proofs.Member.OneLetter
import FunctionStudy.Proofs.Solution.Atomicity
import FunctionStudy.Proofs.Work.Alike

/-! Equations in several letters. The solver looks at a letter only to write factors, so an equation
in several letters is solved, at every degree, as if all its letters were one. -/

namespace FunctionStudy

variable {settings : Settings} {axis : String} {f g : Equation} {p r : Member}

/-- The same solution, of an equation that may be written otherwise. -/
def EquationSolution.Agrees (s t : EquationSolution) : Prop := s = { t with equation := s.equation }

section Solvers

open Work

variable {height a b c : Binary64} {higher : HigherSolver}

theorem rootPoints_alike (roots : List Binary64) (height : Binary64) :
    Alike Eq (rootPoints roots height) (rootPoints roots height) :=
  alike_mapM fun x _ => alike_point x height

theorem solveConstant_alike (e d : String) :
    Alike EquationSolution.Agrees (solveConstant settings e c) (solveConstant settings d c) := by
  unfold solveConstant
  split_ifs
  · exact alike_record_bind (alike_pure rfl)
  · exact alike_record_bind (alike_pure rfl)

theorem solveLinear_alike (e d : String) :
    Alike EquationSolution.Agrees (solveLinear settings e height a b)
      (solveLinear settings d height a b) := by
  unfold solveLinear
  split_ifs
  · exact alike_throw _ _
  · refine alike_ofExcept_bind (.refl (fun _ => rfl) _) fun q _ _ _ same => ?_
    subst same
    refine alike_record_bind ((rootPoints_alike _ _).bind fun points _ same => ?_)
    subst same
    exact alike_pure rfl

theorem solveQuadratic_alike (e d : String) :
    Alike EquationSolution.Agrees (solveQuadratic settings e height a b c)
      (solveQuadratic settings d height a b c) := by
  unfold solveQuadratic
  split_ifs
  · exact alike_throw _ _
  · refine alike_record_bind (alike_ofExcept_bind (.refl (fun _ => rfl) _) fun roots _ _ _ same => ?_)
    subst same
    cases roots with
    | none => exact alike_record_bind (alike_pure rfl)
    | some xs =>
      refine alike_record_bind ((rootPoints_alike _ _).bind fun points _ same => ?_)
      subst same
      exact alike_pure rfl

/-- One call of the solver: polynomials with one degree and one list of coefficients are solved alike, given
that higher degrees are. -/
theorem solveWith_alike {P : Member → Member → Prop} {claimed claimed' : Option Number}
    (polynomial : EndAlike P f.polynomial g.polynomial)
    (degree : ∀ p r, P p r → EndAlike Eq (solvingDegree settings p.simplify.normalize claimed)
      (solvingDegree settings r.simplify.normalize claimed'))
    (low : ∀ p r n, P p r → solvingDegree settings p.simplify.normalize claimed = .ok n → n < 3 →
      EndAlike Eq (p.simplify.normalize.coefficientsTo n) (r.simplify.normalize.coefficientsTo n))
    (high : ∀ p r n, P p r → solvingDegree settings p.simplify.normalize claimed = .ok n → 3 ≤ n →
      Alike EquationSolution.Agrees (higher f n) (higher g n)) :
    Alike EquationSolution.Agrees (solveWith higher settings axis f claimed)
      (solveWith higher settings axis g claimed') := by
  unfold solveWith
  refine alike_ofExcept_bind polynomial fun p r _ _ related => ?_
  refine alike_ofExcept_bind (degree p r related) fun n _ known _ same => ?_
  subst same
  refine alike_ofExcept_bind (.refl (fun _ => rfl) _) fun height _ _ _ same => ?_
  subst same
  refine alike_record_bind ?_
  split_ifs with three
  · exact high p r n related known three
  · refine alike_ofExcept_bind (low p r n related known (not_le.mp three)) fun cs _ _ _ same => ?_
    subst same
    split
    · exact solveConstant_alike _ _
    · exact solveLinear_alike _ _
    · exact solveQuadratic_alike _ _
    · exact alike_throw _ _

structure FactorsAlike (p r : Member) : Prop where
  degree : p.normalize.degree = r.normalize.degree
  coefficients : EndAlike Eq p.normalize.coefficients r.normalize.coefficients
  letter : p.normalize.letter = r.normalize.letter

theorem FactorsAlike.refl (p : Member) : FactorsAlike p p := ⟨rfl, .refl (fun _ => rfl) _, rfl⟩

theorem factor_alike (polynomial : EndAlike FactorsAlike f.polynomial g.polynomial) :
    Alike (fun F G => F.split = G.split) (factor settings f) (factor settings g) := by
  have unsplit : ∀ (text text' reason : String), Alike (fun F G : Factorization => F.split = G.split)
      (record (.unfactorablePolynomial text reason) >>= fun _ => pure ⟨text, none⟩)
      (record (.unfactorablePolynomial text' reason) >>= fun _ => pure ⟨text', none⟩) :=
    fun _ _ _ => alike_record_bind (alike_pure rfl)
  unfold factor
  refine alike_ofExcept_bind polynomial fun p r _ _ related => ?_
  have checked : EndAlike Eq (settings.checkDegree p.normalize.degree p.normalize.text)
      (settings.checkDegree r.normalize.degree r.normalize.text) := by
    unfold Settings.checkDegree
    rw [related.degree]
    split_ifs
    · exact .error _ _
    · exact .ok rfl
  refine alike_ofExcept_bind checked fun _ _ _ _ _ => ?_
  refine alike_ofExcept_bind related.coefficients fun cs _ _ _ same => ?_
  subst same
  dsimp only
  rw [related.letter]
  split
  · split_ifs
    · exact unsplit _ _ _
    · refine alike_ofExcept_bind (.refl (fun _ => rfl) _) fun candidates _ _ _ same => ?_
      subst same
      refine alike_ofExcept_bind (.refl (fun _ => rfl) _) fun shown _ _ _ same => ?_
      subst same
      refine alike_record_bind (alike_ofExcept_bind (.refl (fun _ => rfl) _) fun found _ _ _ same => ?_)
      subst same
      cases found with
      | none => exact unsplit _ _ _
      | some root =>
        refine alike_record_bind (alike_ofExcept_bind (.refl (fun _ => rfl) _) fun division _ _ _ same => ?_)
        subst same
        refine alike_ofExcept_bind (.refl (fun _ => rfl) _) fun table _ _ _ same => ?_
        subst same
        exact alike_record_bind (alike_record_bind (alike_pure rfl))
  · exact unsplit _ _ _

theorem solveWith_alike_self (high : ∀ n : ℕ, Alike EquationSolution.Agrees (higher f n) (higher f n))
    (claimed : Option Number) :
    Alike EquationSolution.Agrees (solveWith higher settings axis f claimed)
      (solveWith higher settings axis f claimed) := by
  refine solveWith_alike (P := Eq) (.refl (fun _ => rfl) _) ?_ ?_ fun _ _ n _ _ _ => high n
  · rintro p _ rfl
    exact .refl (fun _ => rfl) _
  · rintro p _ n rfl - -
    exact .refl (fun _ => rfl) _

/-- The recursion, by the number of splits that are left. Equations that are factored alike have one list of
factors, and from there on everything is the same. -/
theorem solveHigher_alike (settings : Settings) (axis : String) (remaining : ℕ)
    (polynomial : EndAlike FactorsAlike f.polynomial g.polynomial) (n : ℤ) :
    Alike EquationSolution.Agrees (solveHigher settings axis remaining f n)
      (solveHigher settings axis remaining g n) := by
  induction remaining generalizing f g n with
  | zero =>
    unfold solveHigher
    exact alike_ofExcept_bind polynomial fun _ _ _ _ _ => alike_record_bind (alike_pure rfl)
  | succ remaining ih =>
    -- A factor is read from its text, so from here on one equation is solved on both sides.
    have factors : ∀ (found : FactorRoots) (text : String),
        Alike Eq (solveFactor (solveHigher settings axis remaining) settings axis found text)
          (solveFactor (solveHigher settings axis remaining) settings axis found text) := by
      intro found text
      refine alike_ofExcept_bind (.refl (fun _ => rfl) _) fun h _ _ _ same => ?_
      subst same
      refine (solveWith_alike_self (fun n => ih (.refl .refl _) n) none).bind fun s t agree => alike_pure ?_
      rw [EquationSolution.Agrees] at agree
      rw [agree]
      rfl
    unfold solveHigher
    refine alike_ofExcept_bind polynomial fun _ _ _ _ _ => (factor_alike polynomial).bind fun F G same => ?_
    have split : F.isSplit = G.isSplit := congrArg Option.isSome same
    have list : F.factors = G.factors := by rw [Factorization.factors, Factorization.factors, same]
    dsimp only
    rw [split, list]
    split_ifs
    · exact alike_pure rfl
    · refine (alike_foldlM (fun found text _ => factors found text) {}).bind fun found _ same => ?_
      subst same
      exact alike_ascending_bind fun _ => alike_record_bind (alike_pure rfl)

end Solvers

section Letters

def Literal.inLetter (l : String) (m : Literal) : Literal := { letter := l, exponent := m.exponent }

namespace Term

def inLetter (l : String) (t : Term) : Term := ⟨t.coefficient, t.literal.map (·.inLetter l)⟩

theorem exponent_inLetter (l : String) (t : Term) : (t.inLetter l).exponent = t.exponent := by
  unfold exponent inLetter
  rw [Option.map_map]
  rfl

theorem natExponent_inLetter (l : String) (t : Term) : (t.inLetter l).natExponent = t.natExponent := by
  rw [natExponent, exponent_inLetter, natExponent]

end Term

namespace Member

/-- The letter in place of all letters. -/
def inLetter (l : String) (m : Member) : Member := ⟨m.terms.map (·.inLetter l)⟩

variable {m : Member} (l : String)

theorem literals_inLetter : (m.inLetter l).literals = m.literals.map (·.inLetter l) := by
  rw [literals, inLetter, List.filterMap_map, literals, List.map_filterMap]
  rfl

theorem hasNaturalExponents_inLetter : (m.inLetter l).HasNaturalExponents ↔ m.HasNaturalExponents := by
  simp only [HasNaturalExponents, inLetter, List.forall_mem_map, Term.exponent_inLetter,
    Term.natExponent_inLetter]

theorem likeSum_inLetter (k : ℕ) : (m.inLetter l).likeSum k = m.likeSum k := by
  simp only [likeSum, inLetter, List.filter_map, List.map_map, Function.comp_def, Term.natExponent_inLetter]
  rfl

theorem writtenDegree_inLetter : (m.inLetter l).writtenDegree = m.writtenDegree := by
  simp only [writtenDegree, inLetter, List.map_map, Function.comp_def, Term.natExponent_inLetter]

theorem degree_inLetter : (m.inLetter l).degree = m.degree := by
  have literals : (m.inLetter l).terms.filterMap (·.literal) = m.literals.map (·.inLetter l) :=
    literals_inLetter l
  rw [degree, literals, degree, ← Member.literals]
  cases m.literals with
  | nil => rfl
  | cons a rest => exact List.foldl_map

theorem normalize_inLetter : (m.inLetter l).normalize = m.normalize.inLetter l := by
  refine congrArg Member.mk (List.map_mergeSort fun t _ u _ => ?_).symm
  rw [Term.exponent_inLetter, Term.exponent_inLetter]

theorem letter_inLetter : (m.inLetter m.letter).letter = m.letter := by
  have named : ∀ n : Member, n.letter =
      ((n.literals.find? fun a => !a.letter.startsWith "y").map (·.letter)).getD defaultLetter := fun _ => rfl
  have independent : m.letter.startsWith "y" = false := by
    rcases m.letter_cases with default | ⟨a, -, same, other⟩
    · rw [default]
      decide +kernel
    · rw [← same]
      exact other
  rw [named, literals_inLetter]
  cases literals : m.literals with
  | nil => rw [named, literals]; rfl
  | cons a rest =>
    rw [List.map_cons, List.find?_cons_of_pos (by simpa [Literal.inLetter] using independent)]
    rfl

theorem coefficients_inLetter : EndAlike Eq m.coefficients (m.inLetter l).coefficients := by
  by_cases natural : m.HasNaturalExponents
  · have natural' := (hasNaturalExponents_inLetter l).mpr natural
    refine .of_eq_ok (natural.coefficients.trans (natural.coefficientsTo le_rfl))
      (natural'.coefficients.trans (natural'.coefficientsTo le_rfl)) ?_
    rw [writtenDegree_inLetter]
    exact List.map_congr_left fun k _ => (likeSum_inLetter l k).symm
  · cases left : m.coefficients with
    | ok cs => exact absurd (.of_coefficients left) natural
    | error d =>
      cases right : (m.inLetter l).coefficients with
      | ok cs => exact absurd ((hasNaturalExponents_inLetter l).mp (.of_coefficients right)) natural
      | error e => exact .error d e

theorem factorsAlike_inLetter (p : Member) : FactorsAlike p (p.inLetter p.normalize.letter) where
  degree := by rw [normalize_inLetter, degree_inLetter]
  coefficients := by
    rw [normalize_inLetter]
    exact coefficients_inLetter _
  letter := by rw [normalize_inLetter, letter_inLetter]

theorem isIn_inLetter (natural : m.HasNaturalExponents) : (m.inLetter "x").IsIn 'x' := by
  intro t ht a ha
  obtain ⟨u, hu, rfl⟩ := List.mem_map.mp ht
  obtain ⟨b, hb, rfl⟩ := Option.map_eq_some_iff.mp (Option.mem_def.mp ha)
  have value := natural u hu
  rw [Term.exponent, hb] at value
  exact ⟨rfl, rfl, u.natExponent, value⟩

theorem writtenDegree_le_of_coefficientsTo {cs : List Binary64} {d : ℕ} (h : m.coefficientsTo d = .ok cs) :
    m.HasNaturalExponents ∧ m.writtenDegree ≤ d := by
  have natural := HasNaturalExponents.of_coefficientsTo h
  refine ⟨natural, writtenDegree_le_iff.mpr fun t ht => ?_⟩
  by_contra above
  rw [coefficientsTo, natural.naturalExponents] at h
  dsimp only [bind, Except.bind] at h
  cases found : (m.terms.map fun t => (t.natExponent, t)).find? fun e => decide ((d : ℤ) < e.1) with
  | some e =>
    rw [found] at h
    cases h
  | none =>
    have below := List.find?_eq_none.mp found _ (List.mem_map_of_mem ht)
    simp at below
    omega

/-- In one letter the like terms are collected once more, to the same coefficients. -/
theorem coefficientsTo_inLetter {d : ℕ} (natural : m.HasNaturalExponents) (hd : m.writtenDegree ≤ d) :
    (m.inLetter "x").simplify.normalize.coefficientsTo d = m.coefficientsTo d := by
  have isIn := isIn_inLetter natural
  have degree : (m.inLetter "x").simplify.normalize.writtenDegree ≤ d := by
    rw [writtenDegree_normalize]
    exact isIn.writtenDegree_simplify_le.trans ((writtenDegree_inLetter "x").trans_le hd)
  rw [isIn.simplify.normalize.coefficientsTo degree, natural.coefficientsTo hd]
  refine congrArg _ (List.map_congr_left fun k _ => ?_)
  rw [isIn.simplify.likeSum_normalize, isIn.likeSum_simplify, likeSum_inLetter]
  rfl

/-- The equation in one letter with the exponents and coefficients of a polynomial, to be solved at a degree:
from 3 on the polynomial as it is factored, below that as it is collected. -/
def oneLetter (p : Member) (degree : ℕ) : Equation :=
  .explicit "y" (if 3 ≤ degree then p.inLetter p.normalize.letter else p.simplify.normalize.inLetter "x")

end Member

theorem solve_oneLetter_alike {claimed : Option Number} {n : ℕ} (hp : f.polynomial = .ok p)
    (hn : solvingDegree settings p.simplify.normalize claimed = .ok n)
    (collected : n < 3 → ∃ cs, p.simplify.normalize.coefficientsTo n = .ok cs) (axis : String) (depth : ℤ) :
    Work.Alike EquationSolution.Agrees (solve settings axis depth f claimed)
      (solve settings axis depth (p.oneLetter n)
        (some (claimed.getD (.double p.simplify.normalize.degree)))) := by
  have polynomial : (p.oneLetter n).polynomial = .ok (p.oneLetter n).right := Equation.polynomial_explicit _
  refine solveWith_alike (P := fun q r => p = q ∧ (p.oneLetter n).right = r)
    (.of_eq_ok hp polynomial ⟨rfl, rfl⟩) ?_ ?_ ?_
  -- The degree is claimed for the one-letter equation, where the leading terms may cancel.
  · rintro _ _ ⟨rfl, rfl⟩
    unfold solvingDegree
    dsimp only [Option.getD_some]
    split_ifs
    · exact .error _ _
    · refine EndAlike.bind (.refl (fun _ => rfl) _) fun z _ same => ?_
      subst same
      split
      · exact .ok rfl
      · exact .refl (fun _ => rfl) _
  · rintro _ _ n' ⟨rfl, rfl⟩ known small
    obtain rfl := Except.ok.inj (hn.symm.trans known)
    obtain ⟨cs, hcs⟩ := collected small
    obtain ⟨natural, degree⟩ := Member.writtenDegree_le_of_coefficientsTo hcs
    rw [Member.oneLetter, if_neg (not_le.mpr small), Equation.explicit,
      Member.coefficientsTo_inLetter natural degree]
    exact .refl (fun _ => rfl) _
  · rintro _ _ n' ⟨rfl, rfl⟩ known large
    obtain rfl := Except.ok.inj (hn.symm.trans known)
    refine solveHigher_alike settings axis _ (.of_eq_ok hp polynomial ?_) n
    rw [Member.oneLetter, if_pos large]
    exact Member.factorsAlike_inLetter p

end Letters

section Roots

/-- The answer is `solved`, with these roots. -/
def Work.SolvesFor (w : Work EquationSolution) (start : Notebook) (layout : Layout) (roots : List Binary64) : Prop :=
  ∃ s after, w.runFrom start layout = (.ok s, after) ∧ s.status = .solved ∧ s.results = roots

theorem Work.Alike.solvesFor_iff {v w : Work EquationSolution} (h : Alike EquationSolution.Agrees v w)
    (start : Notebook) (layout : Layout) (roots : List Binary64) :
    v.SolvesFor start layout roots ↔ w.SolvesFor start layout roots := by
  obtain ⟨outcome, -⟩ := h start start layout rfl
  unfold SolvesFor
  cases left : v.runFrom start layout with
  | mk answer after =>
    cases right : w.runFrom start layout with
    | mk answer' after' =>
      rw [left, right] at outcome
      dsimp only at outcome
      cases outcome with
      | ok agree =>
        rw [EquationSolution.Agrees] at agree
        rw [agree]
        simp
      | error d e => simp

theorem exists_degree_of_solvesFor (hp : f.polynomial = .ok p) {depth : ℤ} {claimed : Option Number}
    {start : Notebook} {layout : Layout} {roots : List Binary64}
    (h : (solve settings axis depth f claimed).SolvesFor start layout roots) :
    ∃ n, solvingDegree settings p.simplify.normalize claimed = .ok n ∧
      (n < 3 → ∃ cs, p.simplify.normalize.coefficientsTo n = .ok cs) := by
  obtain ⟨s, after, run, -⟩ := h
  have yields : (solve settings axis depth f claimed).Yields layout s := ⟨start, after, run⟩
  unfold solve solveWith at yields
  obtain ⟨p', hp', yields⟩ := yields.of_ofExcept_bind
  obtain rfl := Except.ok.inj (hp.symm.trans hp')
  obtain ⟨n, hn, yields⟩ := yields.of_ofExcept_bind
  obtain ⟨height, -, yields⟩ := yields.of_ofExcept_bind
  have yields := yields.of_record_bind
  refine ⟨n, hn, fun small => ?_⟩
  rw [if_neg (not_le.mpr small)] at yields
  obtain ⟨cs, hcs, -⟩ := yields.of_ofExcept_bind
  exact ⟨cs, hcs⟩

/-- An equation is solved with roots exactly where its coefficients can be collected for the degree and the
equation with one letter in place of all is solved with these roots. That several letters are mixed is not
noticed, whichever of the linear, the quadratic and the factoring path is taken. -/
theorem solve_mixed_letters (hp : f.polynomial = .ok p) (settings : Settings) (axis : String) (depth : ℤ)
    (claimed : Option Number) (start : Notebook) (layout : Layout) (roots : List Binary64) :
    (solve settings axis depth f claimed).SolvesFor start layout roots ↔
      ∃ n, solvingDegree settings p.simplify.normalize claimed = .ok n ∧
        (n < 3 → ∃ cs, p.simplify.normalize.coefficientsTo n = .ok cs) ∧
        (solve settings axis depth (p.oneLetter n)
          (some (claimed.getD (.double p.simplify.normalize.degree)))).SolvesFor start layout roots := by
  constructor
  · intro h
    obtain ⟨n, hn, collected⟩ := exists_degree_of_solvesFor hp h
    have alike := solve_oneLetter_alike hp hn collected axis depth
    exact ⟨n, hn, collected, (alike.solvesFor_iff start layout roots).mp h⟩
  · rintro ⟨n, hn, collected, h⟩
    exact ((solve_oneLetter_alike hp hn collected axis depth).solvesFor_iff start layout roots).mpr h

/-- Two terms of nonzero exponent have different letters, and neither labels the dependent variable. -/
def Member.MixesLetters (m : Member) : Prop :=
  ∃ a ∈ m.literals, ∃ b ∈ m.literals, a.letter ≠ b.letter ∧
    (a.letter.startsWith "y" || b.letter.startsWith "y" || a.exponent.isZero || b.exponent.isZero) = false

theorem Equation.polynomial_of_sorted (implicit : f.isExplicit = false) (independent : f.hasDependent = false)
    (collected : Member.simplify ⟨f.left.terms ++ f.right.negated.terms⟩ = p) (sorted : p.normalize = p) :
    f.polynomial = .ok p := by
  rw [polynomial, implicit, independent, collected, sorted]
  rfl

/-- A sum of squares is not solved, since `2x^2+1` has no root. -/
theorem solve_mixed_letters_squares : ∃ f p, Equation.ofText "x^2+z^2+1=0" = .ok f ∧ f.polynomial = .ok p ∧
    p.simplify.MixesLetters ∧
    ∀ start layout roots, ¬ (solve .defaults "y=0" 0 f none).SolvesFor start layout roots := by
  let square (a : ℤ) (l : String) : Term := ⟨.ofInt a, some { letter := l, exponent := .ofInt 2 }⟩
  let p : Member := ⟨[square 1 "x", square 1 "z", .constant (.ofInt 1)]⟩
  let collected : Member := ⟨[square 2 "x", .constant (.ofInt 1)]⟩
  have read : Equation.ofText "x^2+z^2+1=0" = .ok ⟨p, ⟨[.constant .zero]⟩⟩ := by decide +kernel
  have simple : p.simplify = p := by decide +kernel
  have sorted : p.normalize = p := Member.normalize_eq_self (by decide +kernel)
  have polynomial : Equation.polynomial ⟨p, ⟨[.constant .zero]⟩⟩ = .ok p :=
    Equation.polynomial_of_sorted (by decide +kernel) (by decide +kernel) (by decide +kernel) sorted
  have mixed : p.simplify.MixesLetters := by
    unfold Member.MixesLetters
    decide +kernel
  have degree : solvingDegree .defaults p none = .ok 2 := by decide +kernel
  have one : p.oneLetter 2 = .explicit "y" (p.inLetter "x") := by
    rw [Member.oneLetter, simple, sorted]
    rfl
  have like : (p.inLetter "x").simplify.normalize = collected := by
    have once : (p.inLetter "x").simplify = collected := by decide +kernel
    rw [once, Member.normalize_eq_self (by decide +kernel)]
  have impossible : (solve .defaults "y=0" 0 (p.oneLetter 2) (some (.double p.degree))).Returns fun s =>
      s.status = .impossible := by
    rw [one]
    unfold solve solveWith
    refine Work.Returns.ofExcept_bind (Equation.polynomial_explicit _) ?_
    rw [like]
    refine Work.Returns.ofExcept_bind (by decide +kernel : _ = Except.ok 2) ?_
    refine Work.Returns.ofExcept_bind axisHeight_zero (Work.Returns.record_bind ?_)
    rw [if_neg (by decide)]
    refine Work.Returns.ofExcept_bind (by decide +kernel : _ = Except.ok [.ofInt 2, .zero, .ofInt 1]) ?_
    dsimp only
    unfold solveQuadratic
    rw [if_neg (by decide +kernel)]
    refine Work.Returns.record_bind (Work.Returns.ofExcept_bind (by decide +kernel : _ = Except.ok none) ?_)
    exact Work.Returns.record_bind (Work.Returns.pure rfl)
  refine ⟨_, p, read, polynomial, mixed, fun start layout roots solved => ?_⟩
  obtain ⟨n, hn, -, s, after, run, status, -⟩ :=
    (solve_mixed_letters polynomial .defaults "y=0" 0 none start layout roots).mp solved
  rw [simple, sorted] at hn run
  obtain rfl := Except.ok.inj (degree.symm.trans hn)
  obtain ⟨t, middle, run', status'⟩ := impossible start layout
  cases run.symm.trans run'
  rw [status] at status'
  cases status'

/-- `x+z=0` is solved with the root 0. -/
theorem solve_sum_of_letters : ∃ f p, Equation.ofText "x+z=0" = .ok f ∧ f.polynomial = .ok p ∧
    p.simplify.MixesLetters ∧ ∀ start layout, (solve .defaults "y=0" 0 f none).SolvesFor start layout [.zero] := by
  let p : Member := ⟨[⟨.ofInt 1, some (.ofLetter "x")⟩, ⟨.ofInt 1, some (.ofLetter "z")⟩]⟩
  have read : Equation.ofText "x+z=0" = .ok ⟨p, ⟨[.constant .zero]⟩⟩ := by decide +kernel
  have simple : p.simplify = p := by decide +kernel
  have sorted : p.normalize = p := Member.normalize_eq_self (by decide +kernel)
  have polynomial : Equation.polynomial ⟨p, ⟨[.constant .zero]⟩⟩ = .ok p :=
    Equation.polynomial_of_sorted (by decide +kernel) (by decide +kernel) (by decide +kernel) sorted
  have mixed : p.simplify.MixesLetters := by
    unfold Member.MixesLetters
    decide +kernel
  have solved : (solve .defaults "y=0" 0 ⟨p, ⟨[.constant .zero]⟩⟩ none).Returns fun s =>
      s.status = .solved ∧ s.results = [.zero] := by
    unfold solve solveWith
    refine Work.Returns.ofExcept_bind polynomial ?_
    rw [simple, sorted]
    refine Work.Returns.ofExcept_bind (by decide +kernel : _ = Except.ok 1) ?_
    refine Work.Returns.ofExcept_bind axisHeight_zero (Work.Returns.record_bind ?_)
    rw [if_neg (by decide)]
    refine Work.Returns.ofExcept_bind (by decide +kernel : _ = Except.ok [.ofInt 2, .zero]) ?_
    refine (solveLinear_returns (by decide +kernel) (by decide +kernel : _ = Except.ok .negZero)).imp ?_
    exact fun s answer => ⟨answer.2.2, answer.1.trans (by decide +kernel)⟩
  exact ⟨_, p, read, polynomial, mixed, solved⟩

end Roots

end FunctionStudy
