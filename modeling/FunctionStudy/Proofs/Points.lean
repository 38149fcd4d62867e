import Mathlib.Data.List.Nodup
import Mathlib.Tactic.IntervalCases
import FunctionStudy.Points
import FunctionStudy.Proofs.Member.Powers

/-! Registering points. Names count the positions of a registry, so that no two registered points
share one. A registry only grows at its end, and `Registers` says by which points: those of a list
whose coordinates it did not have. -/

namespace FunctionStudy

namespace Binary64

variable {x y z : Binary64} {a : ℚ}

theorem kinds (x : Binary64) : x = .nan ∨ (∃ s, x = .inf s) ∨ ∃ a, x.toRat? = some a := by
  cases x with
  | nan => exact .inl rfl
  | inf s => exact .inr (.inl ⟨s, rfl⟩)
  | negZero => exact .inr (.inr ⟨0, rfl⟩)
  | finite v grid => exact .inr (.inr ⟨v, rfl⟩)

theorem unsignedZero_ne_inf (hx : x.toRat? = some a) (s : Bool) : x.unsignedZero ≠ inf s := by
  intro equal
  have value := toRat?_unsignedZero hx
  rw [equal] at value
  cases value

theorem same_iff_unsignedZero :
    x.same y = true ↔ x.isNaN = false ∧ x.unsignedZero = y.unsignedZero := by
  rcases kinds x with rfl | ⟨s, rfl⟩ | ⟨a, hx⟩
  · exact iff_of_false Bool.false_ne_true fun h => Bool.true_eq_false.mp h.1
  · rcases kinds y with rfl | ⟨t, rfl⟩ | ⟨b, hy⟩
    · exact iff_of_false Bool.false_ne_true fun h => nomatch h.2
    · cases s <;> cases t <;> decide
    · refine iff_of_false ?_ fun h => unsignedZero_ne_inf hy s h.2.symm
      cases y <;> first | exact Bool.false_ne_true | cases hy
  · rcases kinds y with rfl | ⟨t, rfl⟩ | ⟨b, hy⟩
    · refine iff_of_false (by cases x <;> exact Bool.false_ne_true) fun h => ?_
      have value := toRat?_unsignedZero hx
      rw [h.2] at value
      cases value
    · refine iff_of_false ?_ fun h => unsignedZero_ne_inf hx t h.2
      cases x <;> first | exact Bool.false_ne_true | cases hx
    · rw [same_iff hx hy, isNaN_of_toRat? hx, eq_self, true_and]
      constructor
      · intro equal
        rw [unsignedZero_eq hx, unsignedZero_eq hy, equal]
      · intro equal
        have value := toRat?_unsignedZero hx
        rw [equal, toRat?_unsignedZero hy] at value
        exact (Option.some.inj value).symm

theorem isNaN_unsignedZero (x : Binary64) : x.unsignedZero.isNaN = x.isNaN := by
  rcases kinds x with rfl | ⟨s, rfl⟩ | ⟨a, hx⟩
  · rfl
  · rfl
  · rw [isNaN_of_toRat? hx, isNaN_of_toRat? (toRat?_unsignedZero hx)]

theorem same_symm (h : x.same y = true) : y.same x = true := by
  obtain ⟨number, equal⟩ := same_iff_unsignedZero.mp h
  have other : y.isNaN = false := by rw [← isNaN_unsignedZero, ← equal, isNaN_unsignedZero, number]
  exact same_iff_unsignedZero.mpr ⟨other, equal.symm⟩

theorem same_trans (h : x.same y = true) (h' : y.same z = true) : x.same z = true :=
  same_iff_unsignedZero.mpr ⟨(same_iff_unsignedZero.mp h).1,
    (same_iff_unsignedZero.mp h).2.trans (same_iff_unsignedZero.mp h').2⟩

theorem same_self (hx : x.isNaN = false) : x.same x = true := same_iff_unsignedZero.mpr ⟨hx, rfl⟩

theorem unsignedZero_unsignedZero (x : Binary64) : x.unsignedZero.unsignedZero = x.unsignedZero := by
  rcases kinds x with rfl | ⟨s, rfl⟩ | ⟨a, hx⟩
  · rfl
  · rfl
  · rw [unsignedZero_eq (toRat?_unsignedZero hx), unsignedZero_eq hx]

theorem same_unsignedZero : x.same y.unsignedZero = true ↔ x.same y = true := by
  rw [same_iff_unsignedZero, same_iff_unsignedZero, unsignedZero_unsignedZero]

theorem unsignedZero_same (hx : x.isNaN = false) : x.unsignedZero.same x = true :=
  same_iff_unsignedZero.mpr ⟨by rw [isNaN_unsignedZero, hx], unsignedZero_unsignedZero x⟩

end Binary64

section Names

/-- The position that letters stand for, with digits from 1 to 26. -/
def columnNumber (letters : List Char) : ℕ :=
  letters.foldl (fun n c => n * 26 + (c.toNat - 64)) 0

theorem columnNumber_append (letters : List Char) (c : Char) :
    columnNumber (letters ++ [c]) = columnNumber letters * 26 + (c.toNat - 64) := by
  rw [columnNumber, List.foldl_append]
  rfl

theorem toNat_columnLetter {k : ℕ} (hk : k < 26) : (Char.ofNat (65 + k)).toNat = 65 + k := by
  interval_cases k <;> rfl

theorem columnNumber_columnLetters (n : ℕ) : columnNumber (columnLetters n) = n := by
  induction n using columnLetters.induct with
  | case1 => rw [columnLetters, if_pos rfl]; rfl
  | case2 n positive ih =>
    have letter := toNat_columnLetter (Nat.mod_lt (n - 1) (by decide : 26 > 0))
    rw [columnLetters, if_neg positive, columnNumber_append, ih]
    change _ + ((Char.ofNat (65 + (n - 1) % 26)).toNat - 64) = n
    rw [letter]
    omega

theorem columnLetters_injective : Function.Injective columnLetters :=
  Function.LeftInverse.injective columnNumber_columnLetters

theorem pointName_injective {m n : ℕ} (h : pointName m = pointName n) : m = n :=
  Nat.succ_injective (columnLetters_injective (String.ofList_injective h))

def namesFrom (start count : ℕ) : List (Option String) :=
  (List.range' start count).map fun (i : ℕ) => some (pointName i)

theorem nodup_namesFrom (start count : ℕ) : (namesFrom start count).Nodup :=
  (List.nodup_range' 1).map fun _ _ h => pointName_injective (Option.some.inj h)

theorem namesFrom_append (start m n : ℕ) :
    namesFrom start m ++ namesFrom (start + m) n = namesFrom start (m + n) := by
  rw [namesFrom, namesFrom, namesFrom, ← List.map_append, List.range'_append_1]

end Names

section Points

variable {p q : Point} {x y : Binary64}

theorem Point.isAt_iff : p.isAt x y = true ↔ p.x.same x = true ∧ p.y.same y = true := by
  rw [Point.isAt, Bool.and_eq_true]

theorem Point.isAt_unsignedZero : p.isAt x.unsignedZero y.unsignedZero = p.isAt x y := by
  rw [Bool.eq_iff_iff, isAt_iff, isAt_iff, Binary64.same_unsignedZero, Binary64.same_unsignedZero]

theorem Point.isAt_symm (h : p.isAt q.x q.y = true) : q.isAt p.x p.y = true := by
  obtain ⟨hx, hy⟩ := isAt_iff.mp h
  exact isAt_iff.mpr ⟨Binary64.same_symm hx, Binary64.same_symm hy⟩

theorem Point.isAt_trans (h : q.isAt p.x p.y = true) (coordinates : p.isAt x y = true) : q.isAt x y = true := by
  obtain ⟨hx, hy⟩ := isAt_iff.mp h
  obtain ⟨hx', hy'⟩ := isAt_iff.mp coordinates
  exact isAt_iff.mpr ⟨Binary64.same_trans hx hx', Binary64.same_trans hy hy'⟩

theorem Point.isAt_of_isAt (hp : p.isAt x y = true) (hq : q.isAt x y = true) : p.isAt q.x q.y = true := by
  obtain ⟨hx, hy⟩ := isAt_iff.mp hp
  obtain ⟨hx', hy'⟩ := isAt_iff.mp hq
  exact isAt_iff.mpr ⟨Binary64.same_trans hx (Binary64.same_symm hx'),
    Binary64.same_trans hy (Binary64.same_symm hy')⟩

theorem Point.isAt_eq (h : p.isAt x y = true) : (fun q : Point => q.isAt p.x p.y) = (·.isAt x y) := by
  funext q
  rw [Bool.eq_iff_iff]
  exact ⟨fun there => isAt_trans there h, fun there => isAt_of_isAt there h⟩

theorem Point.isAt_self (h : q.isAt p.x p.y = true) : p.isAt p.x p.y = true := isAt_trans (isAt_symm h) h

theorem Point.isAt_of_same (h : p.same q = true) : p.isAt q.x q.y = true := by
  simp only [Point.same, Bool.and_eq_true] at h
  exact isAt_iff.mpr h.1.1.1

end Points

namespace Registry

variable {r r' r'' : Registry} {ps qs new new' : List Point}

/-- A registered point has the coordinates. -/
def HasAt (r : Registry) (x y : Binary64) : Prop := ∃ p ∈ r.points, p.isAt x y = true

/-- Registering points leads from one registry to another, which has the new points at its end: those
whose coordinates the first one did not have. -/
structure Registers (before : Registry) (points : List Point) (after : Registry)
    (new : List Point) : Prop where
  extends_eq : after.points = before.points ++ new
  names : new.map (·.name) = namesFrom before.points.length new.length
  apart : new.Pairwise fun p q => p.isAt q.x q.y = false
  mem_new : ∀ p, p ∈ new ↔ p ∈ points ∧ ¬ before.HasAt p.x p.y
  registered : ∀ p ∈ points, p ∈ after.points
  found : ∀ p ∈ points, before.HasAt p.x p.y → p ∈ before.points

theorem Registers.nodup (h : r.Registers ps r' new) : new.Nodup := by
  refine List.Nodup.of_map (·.name) ?_
  rw [h.names]
  exact nodup_namesFrom _ _

theorem Registers.mem_after (h : r.Registers ps r' new) {p : Point} :
    p ∈ r'.points ↔ p ∈ r.points ∨ p ∈ new := by
  rw [h.extends_eq, List.mem_append]

theorem Registers.hasAt (h : r.Registers ps r' new) {x y : Binary64} (has : r.HasAt x y) :
    r'.HasAt x y := by
  obtain ⟨p, hp, coordinates⟩ := has
  exact ⟨p, h.mem_after.mpr (.inl hp), coordinates⟩

theorem Registers.none (r : Registry) : r.Registers [] r [] where
  extends_eq := (List.append_nil _).symm
  names := rfl
  apart := .nil
  mem_new _ := iff_of_false List.not_mem_nil fun h => List.not_mem_nil h.1
  registered := List.forall_mem_nil _
  found := List.forall_mem_nil _

/-- Registering points twice registers all of them. Those of the second time that have the
coordinates of some of the first time may be left out. -/
theorem Registers.trans {all : List Point} (h : r.Registers ps r' new) (h' : r'.Registers qs r'' new')
    (first : ∀ p ∈ ps, p ∈ all) (both : ∀ p ∈ all, p ∈ ps ∨ p ∈ qs)
    (covered : ∀ q ∈ qs, q ∈ all ∨ ∃ p ∈ ps, p.isAt q.x q.y = true) :
    r.Registers all r'' (new ++ new') := by
  have late : ∀ p ∈ qs, r.HasAt p.x p.y → p ∈ r.points := by
    intro p hp has
    rcases h.mem_after.mp (h'.found p hp (h.hasAt has)) with old | new
    · exact old
    · exact absurd has ((h.mem_new p).mp new).2
  refine ⟨?_, ?_, ?_, ?_, ?_, ?_⟩
  · rw [h'.extends_eq, h.extends_eq, List.append_assoc]
  · have length : r'.points.length = r.points.length + new.length := by
      rw [h.extends_eq, List.length_append]
    rw [List.map_append, h.names, h'.names, length, namesFrom_append, List.length_append]
  · refine List.pairwise_append.mpr ⟨h.apart, h'.apart, fun p hp q hq => ?_⟩
    have without := ((h'.mem_new q).mp hq).2
    rw [← Bool.not_eq_true]
    exact fun coordinates => without ⟨p, h.mem_after.mpr (.inr hp), coordinates⟩
  · intro p
    rw [List.mem_append, h.mem_new, h'.mem_new]
    constructor
    · rintro (⟨hp, without⟩ | ⟨hq, without⟩)
      · exact ⟨first p hp, without⟩
      · refine ⟨(covered p hq).resolve_right ?_, fun has => without (h.hasAt has)⟩
        rintro ⟨q, hq, coordinates⟩
        exact without ⟨q, h.registered q hq, coordinates⟩
    · rintro ⟨hp, without⟩
      rcases both p hp with hp | hq
      · exact .inl ⟨hp, without⟩
      · by_cases has : r'.HasAt p.x p.y
        · rcases h.mem_after.mp (h'.found p hq has) with old | new
          · obtain ⟨q, -, coordinates⟩ := has
            exact absurd ⟨p, old, Point.isAt_self coordinates⟩ without
          · exact .inl ((h.mem_new p).mp new)
        · exact .inr ⟨hq, has⟩
  · intro p hp
    rcases both p hp with hp | hq
    · exact h'.mem_after.mpr (.inl (h.registered p hp))
    · exact h'.registered p hq
  · intro p hp has
    rcases both p hp with hp | hq
    · exact h.found p hp has
    · exact late p hq has

/-- A point at the coordinates is there, or one is added at the end. -/
theorem add_cases (r : Registry) (x y : Binary64) (background foreground : Option String) :
    (∃ p ∈ r.points, p.isAt x y = true ∧ r.points.find? (·.isAt x y) = some p ∧
      r.add x y background foreground = (p, r)) ∨
    ∃ p, p = ⟨x.unsignedZero, y.unsignedZero, some (pointName r.points.length), background, foreground⟩ ∧
      (∀ q ∈ r.points, ¬ q.isAt x y = true) ∧ r.add x y background foreground = (p, ⟨r.points ++ [p]⟩) := by
  have unsigned : (fun p : Point => p.isAt x.unsignedZero y.unsignedZero) = (·.isAt x y) :=
    funext fun p => Point.isAt_unsignedZero
  unfold add
  dsimp only
  rw [unsigned]
  cases found : r.points.find? (·.isAt x y) with
  | some p =>
    have coordinates := List.find?_some found
    exact .inl ⟨p, List.mem_of_find?_eq_some found, coordinates, rfl, rfl⟩
  | none => exact .inr ⟨_, rfl, List.find?_eq_none.mp found, rfl⟩

theorem registers_add (r : Registry) (x y : Binary64) (background foreground : Option String) :
    ∃ new, r.Registers [(r.add x y background foreground).1] (r.add x y background foreground).2 new := by
  rcases r.add_cases x y background foreground with ⟨p, old, coordinates, -, added⟩ | ⟨p, shape, without, added⟩
  · rw [added]
    refine ⟨[], (List.append_nil _).symm, rfl, .nil, fun q => ?_, ?_, ?_⟩
    · refine iff_of_false (List.not_mem_nil) fun ⟨hq, without⟩ => ?_
      rw [List.mem_singleton.mp hq] at without
      exact without ⟨p, old, Point.isAt_of_isAt coordinates coordinates⟩
    · exact List.forall_mem_singleton.mpr old
    · exact List.forall_mem_singleton.mpr fun _ => old
  · rw [added]
    have new : ¬ r.HasAt p.x p.y := by
      rintro ⟨q, hq, coordinates⟩
      rw [shape, Point.isAt_unsignedZero] at coordinates
      exact without q hq coordinates
    refine ⟨[p], rfl, ?_, List.pairwise_singleton _ _, fun q => ⟨fun hq => ⟨hq, ?_⟩, And.left⟩, ?_, ?_⟩
    · rw [shape]
      rfl
    · rwa [List.mem_singleton.mp hq]
    · exact List.forall_mem_singleton.mpr (List.mem_append_right _ (List.mem_singleton_self p))
    · exact List.forall_mem_singleton.mpr fun has => absurd has new

/-- The registered point has the coordinates asked for: numerically, or as they are if they are no
numbers. -/
theorem add_coordinates (r : Registry) (x y : Binary64) (background foreground : Option String) :
    (r.add x y background foreground).1.isAt x y = true ∨
      (r.add x y background foreground).1.x = x.unsignedZero ∧
        (r.add x y background foreground).1.y = y.unsignedZero := by
  rcases r.add_cases x y background foreground with ⟨p, -, coordinates, -, added⟩ | ⟨p, shape, -, added⟩
  · exact .inl (by rwa [added])
  · refine .inr ?_
    rw [added, shape]
    exact ⟨rfl, rfl⟩

end Registry

end FunctionStudy
