import FunctionStudy.Proofs.Points

/-! Histories of a registry. Whatever was called before, its points are apart and named by their
positions, and registering changes none of them. -/

namespace FunctionStudy.Registry

inductive Call where
  | add (x y : Binary64) (background foreground : Option String)
  | reset

def after (r : Registry) : Call → Registry
  | .add x y background foreground => (r.add x y background foreground).2
  | .reset => r.reset

/-- The registry after a history of calls. -/
def replay : Registry → List Call → Registry
  | r, [] => r
  | r, call :: rest => (r.after call).replay rest

/-- No two points have equal coordinates, and names count the positions. -/
structure IsKept (r : Registry) : Prop where
  apart : r.points.Pairwise fun p q => p.isAt q.x q.y = false
  names : r.points.map (·.name) = namesFrom 0 r.points.length

variable {r r' : Registry} {ps new : List Point} {p q : Point} {x y : Binary64}
  {background foreground : Option String}

section Steps

theorem isKept_empty : empty.IsKept := ⟨.nil, rfl⟩

theorem Registers.isKept (h : r.Registers ps r' new) (kept : r.IsKept) : r'.IsKept := by
  refine ⟨?_, ?_⟩
  · rw [h.extends_eq]
    refine List.pairwise_append.mpr ⟨kept.apart, h.apart, fun p hp q hq => ?_⟩
    rw [← Bool.not_eq_true]
    exact fun coordinates => ((h.mem_new q).mp hq).2 ⟨p, hp, coordinates⟩
  · have go_on := namesFrom_append 0 r.points.length new.length
    rw [Nat.zero_add] at go_on
    rw [h.extends_eq, List.map_append, kept.names, h.names, go_on, List.length_append]

theorem IsKept.after (kept : r.IsKept) (call : Call) : (r.after call).IsKept := by
  cases call with
  | add x y background foreground =>
    obtain ⟨new, registers⟩ := r.registers_add x y background foreground
    exact registers.isKept kept
  | reset => exact isKept_empty

theorem IsKept.replay (kept : r.IsKept) (calls : List Call) : (r.replay calls).IsKept := by
  induction calls generalizing r with
  | nil => exact kept
  | cons call rest ih => exact ih (kept.after call)

theorem points_isPrefix_replay (r : Registry) {calls : List Call} (adding : ∀ call ∈ calls, call ≠ .reset) :
    r.points <+: (r.replay calls).points := by
  induction calls generalizing r with
  | nil => exact List.prefix_rfl
  | cons call rest ih =>
    have later := ih (r.after call) fun c hc => adding c (List.mem_cons_of_mem call hc)
    refine List.IsPrefix.trans ?_ later
    cases call with
    | add x y background foreground =>
      obtain ⟨new, registers⟩ := r.registers_add x y background foreground
      exact ⟨new, registers.extends_eq.symm⟩
    | reset => exact absurd rfl (adding .reset List.mem_cons_self)

end Steps

section Answers

theorem IsKept.eq_of_isAt (kept : r.IsKept) (hp : p ∈ r.points) (hq : q ∈ r.points)
    (h : p.isAt q.x q.y = true) : p = q := by
  have symmetric : Std.Symm fun p q : Point => p.isAt q.x q.y = false := by
    refine ⟨fun p q apart => ?_⟩
    rw [← Bool.not_eq_true] at apart ⊢
    exact fun coordinates => apart (Point.isAt_symm coordinates)
  by_contra different
  have apart := kept.apart.forall hp hq different
  rw [h] at apart
  cases apart

theorem IsKept.add_eq (kept : r.IsKept) (hp : p ∈ r.points) (coordinates : p.isAt x y = true)
    (background foreground : Option String) : r.add x y background foreground = (p, r) := by
  rcases r.add_cases x y background foreground with ⟨q, hq, found, -, added⟩ | ⟨-, -, without, -⟩
  · rw [added, kept.eq_of_isAt hq hp (Point.isAt_of_isAt found coordinates)]
  · exact absurd coordinates (without p hp)

theorem add_isAt (r : Registry) (hx : x.isNaN = false) (hy : y.isNaN = false)
    (background foreground : Option String) : (r.add x y background foreground).1.isAt x y = true := by
  rcases r.add_coordinates x y background foreground with coordinates | ⟨abscissa, ordinate⟩
  · exact coordinates
  · rw [Point.isAt_iff, abscissa, ordinate]
    exact ⟨Binary64.unsignedZero_same hx, Binary64.unsignedZero_same hy⟩

theorem mem_filter_isZero (coordinate : Point → Binary64) :
    p ∈ r.points.filter (fun p => (coordinate p).isZero) ↔ p ∈ r.points ∧ (coordinate p).toRat? = some 0 := by
  rw [List.mem_filter, Binary64.isZero, decide_eq_true_iff]

end Answers

/-- After every history of calls, no two points have equal coordinates and the names count the positions.
A point that is asked for is registered with its coordinates; all earlier points stay in their places, and
asking again before the next reset finds the point and changes nothing. The points on an axis are all those
that lie on it, in their order. -/
theorem replay_keeps_points (calls : List Call) :
    (empty.replay calls).points.Pairwise (fun p q => p.isAt q.x q.y = false) ∧
    (∀ (i : ℕ) p, (empty.replay calls).points[i]? = some p → p.name = some (pointName i)) ∧
    ((empty.replay calls).points.map (·.name)).Nodup ∧
    (∀ x y background foreground p r, x.isNaN = false → y.isNaN = false →
      (empty.replay calls).add x y background foreground = (p, r) →
      p ∈ r.points ∧ p.isAt x y = true ∧ (empty.replay calls).points <+: r.points ∧
      ∀ more, (∀ call ∈ more, call ≠ .reset) → ∀ background' foreground',
        (r.replay more).add x y background' foreground' = (p, r.replay more)) ∧
    (∀ more, (∀ call ∈ more, call ≠ .reset) →
      (empty.replay calls).points <+: ((empty.replay calls).replay more).points) ∧
    (∃ points, (empty.replay calls).onAxis "x" = .ok points ∧ points.Sublist (empty.replay calls).points ∧
      ∀ p, p ∈ points ↔ p ∈ (empty.replay calls).points ∧ p.y.toRat? = some 0) ∧
    ∃ points, (empty.replay calls).onAxis "y" = .ok points ∧ points.Sublist (empty.replay calls).points ∧
      ∀ p, p ∈ points ↔ p ∈ (empty.replay calls).points ∧ p.x.toRat? = some 0 := by
  have kept : (empty.replay calls).IsKept := isKept_empty.replay calls
  generalize empty.replay calls = r at kept
  refine ⟨kept.apart, fun i p hp => ?_, ?_, ?_, ?_, ?_, ?_⟩
  · have named := congrArg (·[i]?) kept.names
    obtain ⟨inside, -⟩ := List.getElem?_eq_some_iff.mp hp
    simp only [List.getElem?_map, hp, Option.map_some, namesFrom, List.getElem?_range' inside,
      Nat.zero_add, Nat.one_mul] at named
    exact Option.some.inj named
  · rw [kept.names]
    exact nodup_namesFrom _ _
  · intro x y background foreground p r' hx hy added
    obtain ⟨new, registers⟩ := r.registers_add x y background foreground
    have coordinates := r.add_isAt hx hy background foreground
    rw [added] at registers coordinates
    have registered : p ∈ r'.points := registers.registered p (List.mem_singleton_self p)
    refine ⟨registered, coordinates, ⟨new, registers.extends_eq.symm⟩, fun more adding => ?_⟩
    have later : p ∈ (r'.replay more).points := (points_isPrefix_replay r' adding).subset registered
    exact ((registers.isKept kept).replay more).add_eq later coordinates
  · intro more adding
    exact r.points_isPrefix_replay adding
  · exact ⟨_, rfl, List.filter_sublist, fun p => mem_filter_isZero Point.y⟩
  · exact ⟨_, rfl, List.filter_sublist, fun p => mem_filter_isZero Point.x⟩

/-- The origin under both of its signs, and a coloured point, before a reset and after it. -/
theorem replay_keeps_points_origin : ∃ p r,
    (empty.replay [.add (.ofInt 1) .zero none none, .reset, .add .negZero .zero (some "red") none,
      .add .zero (.ofInt 2) none none]).add .zero .negZero none (some "blue") = (p, r) ∧
    p.name = some "A" ∧ p ∈ r.points ∧ p.isAt .zero .negZero = true ∧
    (r.replay [.add .zero (.ofInt 3) none none]).add .zero .negZero none none =
      (p, r.replay [.add .zero (.ofInt 3) none none]) := by
  obtain ⟨-, -, -, asked, -⟩ := replay_keeps_points [.add (.ofInt 1) .zero none none, .reset,
    .add .negZero .zero (some "red") none, .add .zero (.ofInt 2) none none]
  obtain ⟨registered, coordinates, -, again⟩ := asked .zero .negZero none (some "blue") _ _ (by decide)
    (by decide) rfl
  have adding : ∀ call ∈ [Call.add .zero (.ofInt 3) none none], call ≠ .reset :=
    List.forall_mem_singleton.mpr nofun
  exact ⟨_, _, rfl, by decide +kernel, registered, coordinates, again _ adding none none⟩

end FunctionStudy.Registry
