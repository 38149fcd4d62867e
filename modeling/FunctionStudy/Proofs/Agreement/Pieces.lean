import FunctionStudy.Proofs.Inequality
import FunctionStudy.Proofs.Ruffini.Splitting

/-! Numbers of the pieces. The solver and the sign analysis compute the same numbers for a piece of
degree 1 or 2, from the same dense coefficients: one bound for a linear piece, and up to two roots
for a quadratic one. -/

namespace FunctionStudy

variable {l : Char} {settings : Settings} {p : Powers} {f : Equation} {s : EquationSolution}
  {axis : String} {higher : HigherSolver} {claimed : Option Number} {layout : Layout}

/-- The equation sets the powers to zero; collecting its like terms drops zeros only. -/
def Equation.SetsToZero (p : Powers) (l : Char) (f : Equation) : Prop :=
  ∃ m, f.polynomial = .ok m ∧ m.normalize = p.collected.member l ∧
    m.simplify.normalize = p.collected.member l

/-- The bound that is computed for a linear piece. -/
def Powers.HasBound (p : Powers) (x : Binary64) : Prop :=
  ∃ a b q, p.dense = [a, b] ∧ b.neg.div a = .ok q ∧ x = q.unsignedZero

/-- The roots that are computed for a quadratic piece, if its discriminant lets it have any. -/
def Powers.HasRoots (settings : Settings) (p : Powers) (roots : Option (List Binary64)) : Prop :=
  ∃ a b c, p.dense = [a, b, c] ∧ quadraticRoots settings a b (discriminant a b c) = .ok roots

section Equations

theorem Powers.setsToZero (hf : f.polynomial = .ok (p.collected.member l)) : f.SetsToZero p l :=
  ⟨_, hf, p.collected.normalize_member, by rw [simplify_member, collected_collected, normalize_member]⟩

theorem Powers.setsToZero_eqZero (hl : l ≠ 'y') :
    Equation.SetsToZero p l ⟨p.member l, ⟨[.constant .zero]⟩⟩ :=
  setsToZero (p.polynomial_eqZero hl)

end Equations

namespace Powers

theorem length_dense (p : Powers) : p.dense.length = p.degree + 1 := by simp [dense]

theorem exists_pair (degree : p.degree = 1) : ∃ a b, p.dense = [a, b] :=
  List.length_eq_two.mp (by rw [length_dense, degree])

theorem exists_triple (degree : p.degree = 2) : ∃ a b c, p.dense = [a, b, c] :=
  List.length_eq_three.mp (by rw [length_dense, degree])

theorem HasBound.degree {x : Binary64} (h : p.HasBound x) : p.degree = 1 := by
  obtain ⟨a, b, -, dense, -⟩ := h
  simpa [dense] using p.length_dense.symm

theorem HasBound.ne_negZero {x : Binary64} (h : p.HasBound x) : x ≠ .negZero := by
  obtain ⟨a, b, q, -, -, rfl⟩ := h
  exact Binary64.unsignedZero_ne_negZero q

theorem HasRoots.degree {roots : Option (List Binary64)} (h : p.HasRoots settings roots) :
    p.degree = 2 := by
  obtain ⟨a, b, c, dense, -⟩ := h
  simpa [dense] using p.length_dense.symm

end Powers

section Solver

variable {n : ℕ} {equation : String} {height a b c : Binary64}

theorem eq_of_solvingDegree {m : Member} {k : ℕ}
    (whole : (claimed.getD (.double m.degree)).whole? = .ok (some (k : ℤ)))
    (h : solvingDegree settings m claimed = .ok n) : n = k := by
  unfold solvingDegree at h
  dsimp only at h
  rw [whole] at h
  split_ifs at h
  · cases h
  · exact (Except.ok.inj h).symm

def ClaimsDegree (p : Powers) (l : Char) (claimed : Option Number) : Prop :=
  (claimed.getD (.double (p.collected.member l).degree)).whole? = .ok (some (p.degree : ℤ))

theorem claimsDegree_none : ClaimsDegree p l none :=
  Number.whole?_double p.collected.toRat?_degree_member

theorem claimsDegree_two (degree : p.degree = 2) : ClaimsDegree p l (some (.exact 2)) := by
  have whole : (Number.exact 2).whole? = .ok (some 2) := by decide +kernel
  rw [ClaimsDegree, Option.getD_some, degree, whole]
  rfl

theorem exists_solver (hf : f.SetsToZero p l) (hd : ClaimsDegree p l claimed)
    (h : (solveWith higher settings axis f claimed).Yields layout s) :
    ∃ equation height, Work.Yields (if 3 ≤ p.degree then higher f p.degree else
      match p.dense with
      | [c] => solveConstant settings equation c
      | [a, b] => solveLinear settings equation height a b
      | [a, b, c] => solveQuadratic settings equation height a b c
      | _ => throw .indexOutOfRange) layout s := by
  obtain ⟨m, hm, -, collected⟩ := hf
  have dense : (p.collected.member l).coefficientsTo p.degree = .ok p.dense := by
    rw [← p.dense_collected]
    exact p.collected.coefficientsTo_member
  unfold solveWith at h
  obtain ⟨m', hm', h⟩ := h.of_ofExcept_bind
  obtain rfl := Except.ok.inj (hm.symm.trans hm')
  rw [collected] at h
  obtain ⟨n, hn, h⟩ := h.of_ofExcept_bind
  obtain rfl := eq_of_solvingDegree hd hn
  obtain ⟨height, -, h⟩ := h.of_ofExcept_bind
  have h := h.of_record_bind
  refine ⟨(p.collected.member l).text ++ "=0", height, ?_⟩
  split_ifs at h ⊢
  · exact h
  · obtain ⟨cs, hcs, h⟩ := h.of_ofExcept_bind
    obtain rfl := Except.ok.inj (dense.symm.trans hcs)
    exact h

theorem yields_higher (degree : 3 ≤ p.degree) (hf : f.SetsToZero p l) (hd : ClaimsDegree p l claimed)
    (h : (solveWith higher settings axis f claimed).Yields layout s) : (higher f p.degree).Yields layout s := by
  obtain ⟨equation, height, h⟩ := exists_solver hf hd h
  rwa [if_pos degree] at h

theorem solveLinear_yields (h : (solveLinear settings equation height a b).Yields layout s) :
    ∃ q, b.neg.div a = .ok q ∧ s.results = [q.unsignedZero] ∧ s.status ≠ .unfactorable := by
  unfold solveLinear at h
  split_ifs at h
  · exact (Work.Yields.of_throw h.of_bind.choose_spec.1).elim
  · obtain ⟨q, hq, h⟩ := h.of_ofExcept_bind
    obtain ⟨points, -, h⟩ := h.of_record_bind.of_bind
    rw [h.of_pure]
    exact ⟨q, hq, rfl, nofun⟩

theorem solveQuadratic_yields (h : (solveQuadratic settings equation height a b c).Yields layout s) :
    ∃ roots, quadraticRoots settings a b (discriminant a b c) = .ok roots ∧
      s.results = roots.getD [] ∧ s.status ≠ .unfactorable := by
  unfold solveQuadratic at h
  split_ifs at h
  · exact (Work.Yields.of_throw h.of_bind.choose_spec.1).elim
  · obtain ⟨roots, hr, h⟩ := h.of_record_bind.of_ofExcept_bind
    cases roots with
    | none =>
      rw [h.of_record_bind.of_pure]
      exact ⟨none, hr, rfl, nofun⟩
    | some xs =>
      obtain ⟨points, -, h⟩ := h.of_record_bind.of_bind
      rw [h.of_pure]
      exact ⟨some xs, hr, rfl, nofun⟩

theorem exists_bound (degree : p.degree = 1) (hf : f.SetsToZero p l)
    (h : (solveWith higher settings axis f none).Yields layout s) :
    ∃ x, p.HasBound x ∧ s.results = [x] ∧ s.status ≠ .unfactorable := by
  obtain ⟨equation, height, h⟩ := exists_solver hf claimsDegree_none h
  obtain ⟨a, b, dense⟩ := p.exists_pair degree
  rw [degree, dense, if_neg (by decide)] at h
  obtain ⟨q, hq, results, status⟩ := solveLinear_yields h
  exact ⟨_, ⟨a, b, q, dense, hq, rfl⟩, results, status⟩

theorem exists_roots (degree : p.degree = 2) (hf : f.SetsToZero p l) (hd : ClaimsDegree p l claimed)
    (h : (solveWith higher settings axis f claimed).Yields layout s) :
    ∃ roots, p.HasRoots settings roots ∧ s.results = roots.getD [] ∧ s.status ≠ .unfactorable := by
  obtain ⟨equation, height, h⟩ := exists_solver hf hd h
  obtain ⟨a, b, c, dense⟩ := p.exists_triple degree
  rw [degree, dense, if_neg (by decide)] at h
  obtain ⟨roots, hr, results, status⟩ := solveQuadratic_yields h
  exact ⟨roots, ⟨a, b, c, dense, hr⟩, results, status⟩

end Solver

section Roots

variable {a b delta : Binary64} {roots : Option (List Binary64)} {x : Binary64}

/-- The roots at which a quadratic changes its sign: both or none. -/
def crossings : List Binary64 → List Binary64
  | [low, high] => [low, high]
  | _ => []

theorem crossings_subset (xs : List Binary64) : crossings xs ⊆ xs := by
  unfold crossings
  split
  · exact List.Subset.refl _
  · exact List.nil_subset _

/-- One root comes of a discriminant that counts as zero; otherwise there are two or none. -/
theorem quadraticRoots_cases (h : quadraticRoots settings a b delta = .ok roots) :
    (∀ x ∈ roots.getD [], x ≠ .negZero) ∧ (crossings (roots.getD []) = roots.getD [] ∨
      ∃ x, roots = some [x] ∧ settings.isZero delta = true) := by
  unfold quadraticRoots at h
  dsimp only at h
  split_ifs at h with zero negative
  · cases quotient : b.neg.div ((Binary64.ofInt 2).mul a) with
    | error e =>
      rw [quotient] at h
      cases h
    | ok q =>
      rw [quotient] at h
      obtain rfl := Except.ok.inj h
      refine ⟨fun x hx => ?_, .inr ⟨_, rfl, zero⟩⟩
      rw [List.mem_singleton.mp hx]
      exact Binary64.unsignedZero_ne_negZero q
  · obtain rfl := Except.ok.inj h
    exact ⟨nofun, .inl rfl⟩
  · cases first : (b.neg.sub delta.sqrt).div ((Binary64.ofInt 2).mul a) with
    | error e =>
      rw [first] at h
      cases h
    | ok x =>
      cases second : (b.neg.add delta.sqrt).div ((Binary64.ofInt 2).mul a) with
      | error e =>
        rw [first, second] at h
        cases h
      | ok y =>
        rw [first, second] at h
        obtain rfl := Except.ok.inj h
        refine ⟨fun z hz => ?_, .inl ?_⟩
        · rcases List.mem_pair.mp (Binary64.mem_sortAscending.mp hz) with rfl | rfl
          · exact Binary64.unsignedZero_ne_negZero x
          · exact Binary64.unsignedZero_ne_negZero y
        · have two : (Binary64.sortAscending [x.unsignedZero, y.unsignedZero]).length = 2 :=
            List.length_mergeSort _
          obtain ⟨low, high, pair⟩ := List.length_eq_two.mp two
          change crossings (Binary64.sortAscending _) = Binary64.sortAscending _
          rw [pair]
          rfl

end Roots

section Inequalities

variable {i : Inequality} {x : Binary64} {roots : Option (List Binary64)}

theorem toInt_degree_member : (p.member l).degree.toInt = .ok (p.degree : ℤ) :=
  Binary64.toInt_intCast p.toRat?_degree_member

theorem bounds_of_linear (hx : p.HasBound x) (h : pieceInequality settings (p.member l) = .ok i) :
    i.bounds = [x] := by
  have degree := hx.degree
  obtain ⟨a, b, q, dense, hq, rfl⟩ := hx
  have coefficients := p.coefficientsTo_member (l := l)
  have exponent := toInt_degree_member (p := p) (l := l)
  rw [degree, Nat.cast_one] at coefficients exponent
  rw [dense] at coefficients
  rw [pieceInequality_of_linear exponent coefficients hq] at h
  obtain rfl := Except.ok.inj h
  rfl

theorem bounds_quadraticInequality (positive : Bool) (text : String) (xs : List Binary64) :
    (quadraticInequality positive text xs).bounds = crossings xs := by
  match xs with
  | [] => rfl
  | [_] => rfl
  | [_, _] => cases positive <;> rfl
  | _ :: _ :: _ :: _ => rfl

/-- The text of the piece is solved again, at degree 2. -/
theorem bounds_of_quadratic (isAlpha : l.isAlpha = true) (hl : l ≠ 'y')
    (settled : p.reread.dense = p.dense) (hr : p.HasRoots settings roots)
    (h : pieceInequality settings (p.member l) = .ok i) : i.bounds = crossings (roots.getD []) := by
  have degree := hr.degree
  obtain ⟨a, b, c, dense, hr⟩ := hr
  have coefficients := p.coefficientsTo_member (l := l)
  have exponent := toInt_degree_member (p := p) (l := l)
  rw [degree, Nat.cast_ofNat] at coefficients exponent
  rw [dense] at coefficients
  have parsed := (p.isWrittenAs_text isAlpha).parse_eqZero
  cases solving : (solve settings "y=0" 0 ⟨p.reread.member l, ⟨[.constant .zero]⟩⟩
      (some (.exact 2))).answer with
  | error e =>
    simp only [pieceInequality, exponent, coefficients, parsed, solving, bind, Except.bind] at h
    cases h
  | ok s =>
    rw [pieceInequality_of_quadratic exponent coefficients parsed solving] at h
    obtain rfl := Except.ok.inj h
    obtain ⟨again, ⟨a', b', c', dense', hr'⟩, results, -⟩ := exists_roots (p := p.reread) degree
      (p.reread.setsToZero_eqZero hl) (claimsDegree_two degree) (Work.yields_of_answer solving)
    rw [settled, dense] at dense'
    cases dense'
    obtain rfl := Except.ok.inj (hr.symm.trans hr')
    rw [bounds_quadraticInequality, results]

end Inequalities

end FunctionStudy
