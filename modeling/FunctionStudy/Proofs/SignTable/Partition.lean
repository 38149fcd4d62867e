import FunctionStudy.Proofs.Binary64.Sorting
import FunctionStudy.Proofs.SignTable.Exact

/-! Intervals between finite bounds. The intervals of a sign table cut the line wherever the bounds
that they share are finite, also if breakpoints that are no numbers disappear inside of them. -/

namespace FunctionStudy

section Cuts

variable {runs : List SignedInterval} {bounds : List Binary64} {i : SignedInterval}

def AreBounded (runs : List SignedInterval) : Prop := ∀ i ∈ runs.dropLast, i.interval.finish.isFinite = true

/-- Intervals whose shared bounds are finite follow each other if the numbers among the columns are in order. -/
theorem AreCuts.isPartition (h : AreCuts (.inf true :: bounds) runs) (bounded : AreBounded runs)
    (order : (bounds.filter (!·.isNaN)).Pairwise fun a b => a.lt b = true) : IsPartition runs where
  first := h.first
  last := h.last
  adjacent := h.adjacent
  increasing := by
    have nonempty : runs ≠ [] := by
      rintro rfl
      cases h.first
    obtain ⟨front, final, rfl⟩ := (List.eq_nil_or_concat' runs).resolve_left nonempty
    rw [AreBounded, List.dropLast_concat] at bounded
    have infinite : final.interval.finish = .inf false := by
      simpa [List.getLast?_concat] using h.last
    have cuts : (front.map fun i => i.interval.finish).Sublist bounds := by
      have finishes := h.finishes
      rwa [List.map_append, List.map_singleton, infinite, List.tail_cons, List.append_sublist_append_right]
        at finishes
    have numbers : ∀ x ∈ front.map fun i => i.interval.finish, x.isNaN = false := by
      intro x hx
      obtain ⟨i, hi, rfl⟩ := List.mem_map.mp hx
      exact Binary64.isNaN_of_isFinite (bounded i hi)
    -- What is no number among the columns bounds nothing, and the other columns are in order.
    have kept := cuts.filter (!·.isNaN)
    rw [Binary64.filter_eq_self_of_numbers numbers] at kept
    refine List.pairwise_append.mpr ⟨List.pairwise_map.mp (order.sublist kept), List.pairwise_singleton _ _,
      fun i hi j hj => ?_⟩
    rw [List.mem_singleton.mp hj, infinite]
    exact (lt_inf (bounded i hi)).2
  unit := h.unit
  opposite := opposite_of_different h.unit h.different

/-- Intervals one after the other, each with its ends in order. -/
structure AreConsecutive (runs : List SignedInterval) : Prop where
  adjacent : runs.IsChain fun i j => i.interval.finish = j.interval.start
  proper : ∀ i ∈ runs, i.interval.start.lt i.interval.finish = true
  bounded : AreBounded runs

theorem proper_of_increasing (adjacent : (i :: runs).IsChain fun i j => i.interval.finish = j.interval.start)
    (increasing : (i :: runs).Pairwise fun i j => i.interval.finish.lt j.interval.finish = true)
    (first : i.interval.start.lt i.interval.finish = true) :
    ∀ k ∈ i :: runs, k.interval.start.lt k.interval.finish = true := by
  induction runs generalizing i with
  | nil => simpa using first
  | cons j rest ih =>
    obtain ⟨met, chain⟩ := List.isChain_cons_cons.mp adjacent
    obtain ⟨above, pairs⟩ := List.pairwise_cons.mp increasing
    have next : j.interval.start.lt j.interval.finish = true := met ▸ above j List.mem_cons_self
    exact List.forall_mem_cons.mpr ⟨first, ih chain pairs next⟩

theorem IsPartition.areConsecutive (h : IsPartition runs) (bounded : AreBounded runs) : AreConsecutive runs where
  adjacent := h.adjacent
  proper := by
    cases runs with
    | nil => exact List.forall_mem_nil _
    | cons i rest =>
      refine proper_of_increasing h.adjacent h.increasing ?_
      have start : i.interval.start = .inf true := by simpa using h.first
      rw [start]
      cases rest with
      | nil =>
        have finish : i.interval.finish = .inf false := by simpa using h.last
        rw [finish]
        exact inf_lt_inf
      | cons j rest => exact (lt_inf (bounded i (by simp))).1
  bounded := bounded

end Cuts

section Reals

variable {runs : List SignedInterval} {i j : SignedInterval} {x : ℝ} {b : Binary64}

def IsBeyond (x : ℝ) : Binary64 → Prop
  | .inf negative => negative = true
  | .nan => False
  | b => (b.toRat : ℝ) < x

def IsBefore (x : ℝ) : Binary64 → Prop
  | .inf negative => negative = false
  | .nan => False
  | b => x < (b.toRat : ℝ)

theorem Interval.containsReal_iff (i : Interval) :
    i.ContainsReal x ↔ IsBeyond x i.start ∧ IsBefore x i.finish := by
  obtain ⟨start, finish⟩ := i
  unfold Interval.ContainsReal
  refine and_congr ?_ ?_
  · cases start with
    | inf negative => cases negative <;> simp [IsBeyond]
    | _ => exact Iff.rfl
  · cases finish with
    | inf negative => cases negative <;> simp [IsBefore]
    | _ => exact Iff.rfl

theorem isBeyond_iff (hb : b.isFinite = true) :
    (IsBeyond x b ↔ (b.toRat : ℝ) < x) ∧ (IsBefore x b ↔ x < (b.toRat : ℝ)) := by
  cases b with
  | nan => cases hb
  | inf negative => cases hb
  | _ => exact ⟨Iff.rfl, Iff.rfl⟩

theorem AreConsecutive.tail (h : AreConsecutive (i :: j :: runs)) :
    AreConsecutive (j :: runs) ∧ i.interval.finish = j.interval.start ∧ i.interval.finish.isFinite = true := by
  obtain ⟨met, chain⟩ := List.isChain_cons_cons.mp h.adjacent
  have bounded := h.bounded
  rw [AreBounded, List.dropLast_cons_cons, List.forall_mem_cons] at bounded
  exact ⟨⟨chain, (List.forall_mem_cons.mp h.proper).2, bounded.2⟩, met, bounded.1⟩

theorem AreConsecutive.not_containsReal (h : AreConsecutive (i :: runs))
    (finite : i.interval.start.isFinite = true) (before : x ≤ (i.interval.start.toRat : ℝ)) :
    ∀ k ∈ i :: runs, ¬ k.interval.ContainsReal x := by
  have outside : ¬ i.interval.ContainsReal x := fun inside => by
    have beyond := (isBeyond_iff finite).1.mp (i.interval.containsReal_iff.mp inside).1
    exact before.not_gt beyond
  induction runs generalizing i with
  | nil => simpa using outside
  | cons j rest ih =>
    obtain ⟨later, met, bound⟩ := h.tail
    have proper := (Binary64.lt_iff (Binary64.toRat?_of_finite finite) (Binary64.toRat?_of_finite bound)).mp
      (h.proper i List.mem_cons_self)
    rw [met] at bound proper
    have next : x ≤ (j.interval.start.toRat : ℝ) := before.trans (by exact_mod_cast proper.le)
    refine List.forall_mem_cons.mpr ⟨outside, ih later bound next fun inside => ?_⟩
    exact next.not_gt ((isBeyond_iff bound).1.mp (j.interval.containsReal_iff.mp inside).1)

theorem AreConsecutive.existsUnique (h : AreConsecutive (i :: runs)) (beyond : IsBeyond x i.interval.start)
    (last : ((i :: runs).getLast?.map fun i => i.interval.finish) = some (.inf false))
    (apart : ∀ k ∈ (i :: runs).dropLast, (k.interval.finish.toRat : ℝ) ≠ x) :
    ∃! k, k ∈ i :: runs ∧ k.interval.ContainsReal x := by
  induction runs generalizing i with
  | nil =>
    have finish : i.interval.finish = .inf false := by simpa using last
    refine ⟨i, ⟨List.mem_cons_self, i.interval.containsReal_iff.mpr ⟨beyond, ?_⟩⟩, fun k hk => ?_⟩
    · rw [finish]
      rfl
    · exact List.mem_singleton.mp hk.1
  | cons j rest ih =>
    obtain ⟨later, met, bound⟩ := h.tail
    rw [List.dropLast_cons_cons, List.forall_mem_cons] at apart
    rcases lt_or_gt_of_ne apart.1 with left | right
    · -- The point lies beyond the first interval, so that the later ones decide.
      have next : IsBeyond x j.interval.start := met ▸ (isBeyond_iff bound).1.mpr left
      obtain ⟨k, ⟨hk, inside⟩, unique⟩ := ih later next (by simpa using last) apart.2
      refine ⟨k, ⟨List.mem_cons_of_mem i hk, inside⟩, fun m hm => ?_⟩
      rcases List.mem_cons.mp hm.1 with rfl | member
      · have before := (isBeyond_iff bound).2.mp (m.interval.containsReal_iff.mp hm.2).2
        exact absurd before left.not_gt
      · exact unique m ⟨member, hm.2⟩
    · have before : IsBefore x i.interval.finish := (isBeyond_iff bound).2.mpr right
      refine ⟨i, ⟨List.mem_cons_self, i.interval.containsReal_iff.mpr ⟨beyond, before⟩⟩, fun m hm => ?_⟩
      rcases List.mem_cons.mp hm.1 with same | member
      · exact same
      · rw [met] at bound right
        exact absurd hm.2 (later.not_containsReal bound right.le m member)

/-- Every point that is no shared bound is in exactly one interval of a partition. -/
theorem IsPartition.existsUnique (h : IsPartition runs) (bounded : AreBounded runs)
    (apart : ∀ i ∈ runs.dropLast, (i.interval.finish.toRat : ℝ) ≠ x) :
    ∃! i, i ∈ runs ∧ i.interval.ContainsReal x := by
  have consecutive := h.areConsecutive bounded
  cases runs with
  | nil => cases h.first
  | cons i rest =>
    have start : i.interval.start = .inf true := by simpa using h.first
    exact consecutive.existsUnique (by rw [start]; rfl) h.last apart

end Reals

end FunctionStudy
