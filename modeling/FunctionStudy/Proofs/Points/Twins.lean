import Mathlib.Data.List.Forall2
import FunctionStudy.Proofs.Points

/-! Points up to their names. Two registries that began as one answer alike apart from names,
whatever was registered in between. -/

namespace FunctionStudy

def Point.withoutName (p : Point) : Point := { p with name := none }

theorem Point.coordinates_eq {p q : Point} (h : p.withoutName = q.withoutName) : p.x = q.x ∧ p.y = q.y := by
  obtain ⟨hx, hy, -⟩ := Point.mk.inj h
  exact ⟨hx, hy⟩

/-- A point as registering makes it: uncoloured, and without a signed zero. -/
def Point.IsPlain (p : Point) : Prop := p.withoutName = .unnamed p.x.unsignedZero p.y.unsignedZero

theorem Point.IsPlain.withoutName_eq {p : Point} {x y : Binary64} (plain : p.IsPlain) (h : p.isAt x y = true) :
    p.withoutName = .unnamed x.unsignedZero y.unsignedZero := by
  obtain ⟨hx, hy⟩ := isAt_iff.mp h
  rw [plain, (Binary64.same_iff_unsignedZero.mp hx).2, (Binary64.same_iff_unsignedZero.mp hy).2]

namespace Registry

variable {base r r' r'' s s' s'' : Registry} {p q p' q' : Point} {x y : Binary64}

section Growing

/-- Plain points have been added at the end. -/
def GrowsTo (r s : Registry) : Prop := ∃ more, s.points = r.points ++ more ∧ ∀ p ∈ more, p.IsPlain

theorem GrowsTo.refl (r : Registry) : r.GrowsTo r := ⟨[], (List.append_nil _).symm, List.forall_mem_nil _⟩

theorem GrowsTo.trans (h : r.GrowsTo r') (h' : r'.GrowsTo r'') : r.GrowsTo r'' := by
  obtain ⟨more, points, plain⟩ := h
  obtain ⟨more', points', plain'⟩ := h'
  refine ⟨more ++ more', ?_, fun p hp => (List.mem_append.mp hp).elim (plain p) (plain' p)⟩
  rw [points', points, List.append_assoc]

/-- The coordinates of a point lead to the point itself, if they are numbers. -/
def IsFirst (r : Registry) (p : Point) : Prop :=
  p.isAt p.x p.y = true → r.points.find? (·.isAt p.x p.y) = some p

theorem IsFirst.mono (first : r.IsFirst p) (h : r.GrowsTo r') : r'.IsFirst p := by
  obtain ⟨more, points, -⟩ := h
  intro self
  rw [points, List.find?_append, first self, Option.some_or]

theorem IsFirst.same_eq (hp : r.IsFirst p) (hq : r.IsFirst q) : p.same q = p.isAt q.x q.y := by
  rw [Bool.eq_iff_iff]
  refine ⟨Point.isAt_of_same, fun coordinates => ?_⟩
  have found := hp (Point.isAt_self (Point.isAt_symm coordinates))
  rw [Point.isAt_eq coordinates, hq (Point.isAt_self coordinates)] at found
  obtain rfl := Option.some.inj found
  obtain ⟨hx, hy⟩ := Point.isAt_iff.mp coordinates
  simp only [Point.same, hx, hy, beq_self_eq_true, Bool.and_true]

end Growing

section Adding

def coordinates (r : Registry) : List (Binary64 × Binary64) := r.points.map fun p => (p.x, p.y)

theorem GrowsTo.withoutName_add (h : base.GrowsTo r) (x y : Binary64) :
    (r.add x y none none).1.withoutName = (base.add x y none none).1.withoutName := by
  obtain ⟨more, points, plain⟩ := h
  rcases base.add_cases x y none none with ⟨p, -, -, found, added⟩ | ⟨p, shape, without, added⟩
  · rcases r.add_cases x y none none with ⟨q, -, -, found', added'⟩ | ⟨q, -, without', -⟩
    · rw [points, List.find?_append, found, Option.some_or] at found'
      rw [added, added', Option.some.inj found']
    · have old : p ∈ r.points := points ▸ List.mem_append_left _ (List.mem_of_find?_eq_some found)
      exact absurd (List.find?_some found) (without' p old)
  · have unnamed : p.withoutName = .unnamed x.unsignedZero y.unsignedZero := by
      rw [shape]
      rfl
    rcases r.add_cases x y none none with ⟨q, hq, coordinates, -, added'⟩ | ⟨q, shape', -, added'⟩
    · rw [points] at hq
      have late := (List.mem_append.mp hq).resolve_left fun old => without q old coordinates
      rw [added, added', unnamed]
      exact (plain q late).withoutName_eq coordinates
    · rw [added, added', unnamed, shape']
      rfl

theorem add_grows (r : Registry) (x y : Binary64) :
    r.GrowsTo (r.add x y none none).2 ∧ (r.add x y none none).2.IsFirst (r.add x y none none).1 ∧
    ∀ c, c ∈ (r.add x y none none).2.coordinates ↔
      c ∈ r.coordinates ∨ c = ((r.add x y none none).1.x, (r.add x y none none).1.y) := by
  rcases r.add_cases x y none none with ⟨p, hp, coordinates, found, added⟩ | ⟨p, shape, without, added⟩
  · rw [added]
    refine ⟨.refl r, fun _ => ?_, fun c => (or_iff_left_of_imp ?_).symm⟩
    · rw [Point.isAt_eq coordinates, found]
    · rintro rfl
      exact List.mem_map.mpr ⟨p, hp, rfl⟩
  · rw [added]
    have plain : p.IsPlain := by
      rw [shape]
      simp only [Point.IsPlain, Point.withoutName, Point.unnamed, Binary64.unsignedZero_unsignedZero]
    refine ⟨⟨[p], rfl, List.forall_mem_singleton.mpr plain⟩, fun self => ?_, fun c => ?_⟩
    · have before : r.points.find? (·.isAt p.x p.y) = none := List.find?_eq_none.mpr fun q hq => by
        rw [shape, Point.isAt_unsignedZero]
        exact without q hq
      rw [List.find?_append, before, Option.none_or, List.find?_singleton, if_pos self]
    · rw [Registry.coordinates, List.map_append, List.mem_append, List.map_singleton, List.mem_singleton]
      rfl

end Adding

section Both

/-- The registries began as one. -/
def Alongside (r s : Registry) : Prop := ∃ base : Registry, base.GrowsTo r ∧ base.GrowsTo s

theorem alongside_self (r : Registry) : r.Alongside r := ⟨r, .refl r, .refl r⟩

/-- Two registries grow by points with the same coordinates. -/
structure GrowTogether (r s r' s' : Registry) : Prop where
  left : r.GrowsTo r'
  right : s.GrowsTo s'
  found : ∃ cs : List (Binary64 × Binary64), (∀ c, c ∈ r'.coordinates ↔ c ∈ r.coordinates ∨ c ∈ cs) ∧
    ∀ c, c ∈ s'.coordinates ↔ c ∈ s.coordinates ∨ c ∈ cs

theorem GrowTogether.refl (r s : Registry) : GrowTogether r s r s :=
  ⟨.refl r, .refl s, [], by simp, by simp⟩

theorem GrowTogether.trans (h : GrowTogether r s r' s') (h' : GrowTogether r' s' r'' s'') :
    GrowTogether r s r'' s'' := by
  obtain ⟨cs, inR, inS⟩ := h.found
  obtain ⟨cs', inR', inS'⟩ := h'.found
  refine ⟨h.left.trans h'.left, h.right.trans h'.right, cs ++ cs', fun c => ?_, fun c => ?_⟩
  · rw [inR', inR, List.mem_append, or_assoc]
  · rw [inS', inS, List.mem_append, or_assoc]

/-- What is found first on one side may be found last on the other. -/
theorem GrowTogether.exchange (h : GrowTogether r s' r' s'') (h' : GrowTogether r' s r'' s') :
    GrowTogether r s r'' s'' := by
  obtain ⟨cs, inR, inS⟩ := h.found
  obtain ⟨cs', inR', inS'⟩ := h'.found
  refine ⟨h.left.trans h'.left, h'.right.trans h.right, cs ++ cs', fun c => ?_, fun c => ?_⟩
  · rw [inR', inR, List.mem_append, or_assoc]
  · rw [inS, inS', List.mem_append, or_assoc, or_comm (a := c ∈ cs)]

theorem GrowTogether.follow (h : GrowTogether r s r' s') (h' : GrowTogether s s s' s'') :
    GrowTogether r s r' s'' := by
  obtain ⟨cs, inR, inS⟩ := h.found
  obtain ⟨cs', inS', inS''⟩ := h'.found
  exact ⟨h.left, h'.right, cs, inR, fun c => by rw [inS'', ← inS', inS]⟩

theorem Alongside.grow (h : r.Alongside s) (left : r.GrowsTo r') (right : s.GrowsTo s') : r'.Alongside s' := by
  obtain ⟨base, hr, hs⟩ := h
  exact ⟨base, hr.trans left, hs.trans right⟩

/-- One point, as it is registered in the two registries. -/
structure Twins (r s : Registry) (p q : Point) : Prop where
  withoutName : p.withoutName = q.withoutName
  left : r.IsFirst p
  right : s.IsFirst q

theorem Twins.mono (h : Twins r s p q) (grow : GrowTogether r s r' s') : Twins r' s' p q :=
  ⟨h.withoutName, h.left.mono grow.left, h.right.mono grow.right⟩

theorem Twins.same_eq (h : Twins r s p q) (h' : Twins r s p' q') : p.same p' = q.same q' := by
  obtain ⟨hx, hy⟩ := Point.coordinates_eq h.withoutName
  obtain ⟨hx', hy'⟩ := Point.coordinates_eq h'.withoutName
  rw [h.left.same_eq h'.left, h.right.same_eq h'.right, Point.isAt, Point.isAt, hx, hy, hx', hy']

theorem Alongside.add (h : r.Alongside s) (x y : Binary64) :
    GrowTogether r s (r.add x y none none).2 (s.add x y none none).2 ∧
    Twins (r.add x y none none).2 (s.add x y none none).2 (r.add x y none none).1 (s.add x y none none).1 := by
  obtain ⟨base, left, right⟩ := h
  obtain ⟨grows, first, coordinates⟩ := r.add_grows x y
  obtain ⟨grows', first', coordinates'⟩ := s.add_grows x y
  have same := (left.withoutName_add x y).trans (right.withoutName_add x y).symm
  obtain ⟨hx, hy⟩ := Point.coordinates_eq same
  refine ⟨⟨grows, grows', [((r.add x y none none).1.x, (r.add x y none none).1.y)], fun c => ?_, fun c => ?_⟩,
    same, first, first'⟩
  · rw [coordinates, List.mem_singleton]
  · rw [coordinates', List.mem_singleton, hx, hy]

end Both

end Registry

end FunctionStudy
