import Mathlib.Order.WithBot
import FunctionStudy.Proofs.Points

/-! Sorting values that need not be numbers. Merge sort keeps the numbers in order if what is not a
number stands in the first two places: then it leaves the left half at once. -/

namespace FunctionStudy.Binary64

variable {x y : Binary64} {xs ys : List Binary64}

section Places

/-- Where a number stands, with the infinities at the ends. -/
def place : Binary64 → WithBot (WithTop ℚ)
  | .inf true => ⊥
  | .inf false => ((⊤ : WithTop ℚ) : WithBot (WithTop ℚ))
  | x => ((x.toRat : WithTop ℚ) : WithBot (WithTop ℚ))

theorem place_of_toRat? {a : ℚ} (hx : x.toRat? = some a) : x.place = ((a : WithTop ℚ) : WithBot (WithTop ℚ)) := by
  rw [← toRat_eq hx]
  cases x with
  | inf negative => cases hx
  | _ => rfl

theorem inf_lt_of_toRat? {a : ℚ} (hx : x.toRat? = some a) (s : Bool) : (inf s).lt x = s ∧ x.lt (inf s) = !s := by
  cases x with
  | nan => cases hx
  | inf negative => cases hx
  | _ => exact ⟨rfl, rfl⟩

theorem lt_self (x : Binary64) : x.lt x = false := by
  rcases kinds x with rfl | ⟨s, rfl⟩ | ⟨a, hx⟩
  · rfl
  · cases s <;> rfl
  · rw [← Bool.not_eq_true, lt_iff hx hx]
    exact lt_irrefl a

theorem lt_iff_place (hx : x.isNaN = false) (hy : y.isNaN = false) : x.lt y = true ↔ x.place < y.place := by
  rcases kinds x with rfl | ⟨s, rfl⟩ | ⟨a, ha⟩
  · cases hx
  · rcases kinds y with rfl | ⟨t, rfl⟩ | ⟨b, hb⟩
    · cases hy
    · cases s <;> cases t <;> simp [lt, place]
    · rw [(inf_lt_of_toRat? hb s).1, place_of_toRat? hb]
      cases s <;> simp [place]
  · rcases kinds y with rfl | ⟨t, rfl⟩ | ⟨b, hb⟩
    · cases hy
    · rw [(inf_lt_of_toRat? ha t).2, place_of_toRat? ha]
      cases t with
      | true => simp [place]
      | false => exact iff_of_true rfl (WithBot.coe_lt_coe.mpr (WithTop.coe_lt_top a))
    · rw [lt_iff ha hb, place_of_toRat? ha, place_of_toRat? hb, WithBot.coe_lt_coe, WithTop.coe_lt_coe]

def notAbove (x y : Binary64) : Bool := !(y.lt x)

theorem notAbove_iff (hx : x.isNaN = false) (hy : y.isNaN = false) : x.notAbove y = true ↔ x.place ≤ y.place := by
  rw [notAbove, Bool.not_eq_true', ← Bool.not_eq_true, lt_iff_place hy hx, not_lt]

theorem notAbove_of_isNaN (hx : x.isNaN = true) (y : Binary64) : x.notAbove y = true := by
  cases x with
  | nan => cases y <;> rfl
  | _ => cases hx

theorem same_of_place_eq (hx : x.isNaN = false) (hy : y.isNaN = false) (h : x.place = y.place) :
    x.same y = true := by
  rcases kinds x with rfl | ⟨s, rfl⟩ | ⟨a, ha⟩
  · cases hx
  · rcases kinds y with rfl | ⟨t, rfl⟩ | ⟨b, hb⟩
    · cases hy
    · cases s <;> cases t <;> simp_all [place, same]
    · rw [place_of_toRat? hb] at h
      cases s <;> simp [place] at h
  · rcases kinds y with rfl | ⟨t, rfl⟩ | ⟨b, hb⟩
    · cases hy
    · rw [place_of_toRat? ha] at h
      cases t with
      | true => simp [place] at h
      | false => exact absurd (WithBot.coe_inj.mp h) WithTop.coe_ne_top
    · rw [place_of_toRat? ha, place_of_toRat? hb, WithBot.coe_inj, WithTop.coe_inj] at h
      rw [same_iff ha hb, h]

theorem lt_of_place_le (hx : x.isNaN = false) (hy : y.isNaN = false) (le : x.place ≤ y.place)
    (apart : x.same y = false) : x.lt y = true := by
  rw [lt_iff_place hx hy]
  refine lt_of_le_of_ne le fun equal => ?_
  rw [same_of_place_eq hx hy equal] at apart
  cases apart

end Places

section Merging

/-- What is not a number leaves the left list at once. -/
theorem filter_merge (numbers : ∀ y ∈ ys, y.isNaN = false) :
    (xs.merge ys notAbove).filter (!·.isNaN) = (xs.filter (!·.isNaN)).merge ys notAbove := by
  induction xs generalizing ys with
  | nil =>
    rw [List.nil_merge, List.filter_nil, List.nil_merge, List.filter_eq_self]
    exact fun y hy => by rw [numbers y hy]; rfl
  | cons x xs ihx =>
    induction ys with
    | nil => rw [List.merge_right, List.merge_right]
    | cons y ys ihy =>
      rw [List.cons_merge_cons]
      cases hx : x.isNaN with
      | true =>
        rw [if_pos (notAbove_of_isNaN hx y), List.filter_cons_of_neg (by simp [hx]), ihx numbers,
          List.filter_cons_of_neg (by simp [hx])]
      | false =>
        have kept : (x :: xs).filter (!·.isNaN) = x :: xs.filter (!·.isNaN) :=
          List.filter_cons_of_pos (by simp [hx])
        have rest := ihy fun z hz => numbers z (List.mem_cons_of_mem y hz)
        rw [kept] at rest ⊢
        rw [List.cons_merge_cons]
        split_ifs
        · rw [List.filter_cons_of_pos (by simp [hx]), ihx numbers]
        · rw [List.filter_cons_of_pos (by simp [numbers y]), rest]

theorem pairwise_merge_place (hx : ∀ x ∈ xs, x.isNaN = false) (hy : ∀ y ∈ ys, y.isNaN = false)
    (sortedX : xs.Pairwise fun a b => a.place ≤ b.place) (sortedY : ys.Pairwise fun a b => a.place ≤ b.place) :
    (xs.merge ys notAbove).Pairwise fun a b => a.place ≤ b.place := by
  have places : (xs.merge ys notAbove).map place =
      (xs.map place).merge (ys.map place) fun a b => decide (a ≤ b) :=
    List.map_merge fun x hx' y hy' => by
      rw [Bool.eq_iff_iff, notAbove_iff (hx x hx') (hy y hy'), decide_eq_true_iff]
  refine List.pairwise_map.mp (places ▸ ?_)
  refine (List.pairwise_merge ?_ ?_ (xs.map place) (ys.map place) ?_ ?_).imp of_decide_eq_true
  · intro a b c ab bc
    exact decide_eq_true ((of_decide_eq_true ab).trans (of_decide_eq_true bc))
  · intro a b
    rw [Bool.or_eq_true, decide_eq_true_iff, decide_eq_true_iff]
    exact le_total _ _
  · exact List.pairwise_map.mpr (sortedX.imp decide_eq_true)
  · exact List.pairwise_map.mpr (sortedY.imp decide_eq_true)

theorem filter_eq_self_of_numbers (numbers : ∀ x ∈ xs, x.isNaN = false) : xs.filter (!·.isNaN) = xs :=
  List.filter_eq_self.mpr fun x hx => by rw [numbers x hx]; rfl

/-- Two values and more are sorted by halves, the left one being the longer if they are odd in number. -/
theorem sortAscending_halves (x y : Binary64) (rest : List Binary64) :
    sortAscending (x :: y :: rest) =
      (sortAscending ((x :: y :: rest).take ((rest.length + 3) / 2))).merge
        (sortAscending ((x :: y :: rest).drop ((rest.length + 3) / 2))) notAbove := by
  rw [sortAscending, List.mergeSort]
  simp only [List.MergeSort.Internal.splitInTwo_fst, List.MergeSort.Internal.splitInTwo_snd]
  rfl

theorem sortAscending_singleton (x : Binary64) : sortAscending [x] = [x] := List.mergeSort_singleton x

theorem pairwise_filter_pair (x y : Binary64) :
    ((sortAscending [x, y]).filter (!·.isNaN)).Pairwise fun a b => a.place ≤ b.place := by
  have merged : sortAscending [x, y] = [x].merge [y] notAbove := by
    have halves := sortAscending_halves x y []
    rwa [List.length_nil, List.take_succ_cons, List.take_zero, List.drop_succ_cons, List.drop_zero,
      sortAscending_singleton, sortAscending_singleton] at halves
  cases hy : y.isNaN with
  | false =>
    have number : ∀ z ∈ [y], z.isNaN = false := fun z hz => by rw [List.mem_singleton.mp hz, hy]
    rw [merged, filter_merge number]
    refine pairwise_merge_place (fun z hz => ?_) number (.filter _ (List.pairwise_singleton _ _))
      (List.pairwise_singleton _ _)
    simpa using (List.mem_filter.mp hz).2
  | true =>
    have short : ((sortAscending [x, y]).filter (!·.isNaN)).length ≤ 1 := by
      rw [sortAscending, ((List.mergeSort_perm [x, y] _).filter _).length_eq, List.filter_cons,
        List.filter_cons_of_neg (by simp [hy]), List.filter_nil]
      split_ifs <;> simp
    generalize (sortAscending [x, y]).filter (!·.isNaN) = kept at short
    rcases kept with _ | ⟨z, _ | ⟨w, rest⟩⟩
    · exact .nil
    · exact List.pairwise_singleton _ _
    · simp at short

/-- The numbers of a list are sorted if all others stand in its first two places. -/
theorem pairwise_filter_sortAscending (numbers : ∀ x ∈ xs.drop 2, x.isNaN = false) :
    ((sortAscending xs).filter (!·.isNaN)).Pairwise fun a b => a.place ≤ b.place := by
  induction n : xs.length using Nat.strong_induction_on generalizing xs with
  | _ n ih =>
    subst n
    match xs with
    | [] => simp [sortAscending]
    | [x] =>
      rw [sortAscending_singleton]
      exact .filter _ (List.pairwise_singleton _ _)
    | [x, y] => exact pairwise_filter_pair x y
    | x :: y :: z :: rest =>
      -- The left half takes two places at least, so that the right one has numbers only.
      generalize hk : (rest.length + 4) / 2 = k
      generalize hl : x :: y :: z :: rest = list at numbers ih
      have length : list.length = rest.length + 3 := by rw [← hl]; rfl
      have halves : sortAscending list =
          (sortAscending (list.take k)).merge (sortAscending (list.drop k)) notAbove := by
        rw [← hl, ← hk]
        exact sortAscending_halves x y (z :: rest)
      have right : ∀ u ∈ list.drop k, u.isNaN = false := fun u hu =>
        numbers u (List.drop_subset_drop_left list (by omega) hu)
      have left : ∀ u ∈ (list.take k).drop 2, u.isNaN = false := by
        intro u hu
        rw [List.drop_take] at hu
        exact numbers u (List.mem_of_mem_take hu)
      have sortedLeft := ih _ (by rw [List.length_take]; omega) left rfl
      have sortedRight := ih _ (by rw [List.length_drop]; omega)
        (fun u hu => right u (List.mem_of_mem_drop hu)) rfl
      have numbersRight : ∀ u ∈ sortAscending (list.drop k), u.isNaN = false := fun u hu =>
        right u (mem_sortAscending.mp hu)
      rw [filter_eq_self_of_numbers numbersRight] at sortedRight
      rw [halves, filter_merge numbersRight]
      refine pairwise_merge_place (fun u hu => ?_) numbersRight sortedLeft sortedRight
      simpa using (List.mem_filter.mp hu).2

theorem pairwise_distinct_same (xs : List Binary64) : (distinct xs).Pairwise fun a b => a.same b = false := by
  induction xs with
  | nil => exact .nil
  | cons x xs ih =>
    rw [distinct, List.pairwise_cons]
    refine ⟨fun y hy => ?_, ih.filter _⟩
    simpa using (List.mem_filter.mp hy).2

theorem pairwise_filter_distinct (numbers : ∀ x ∈ xs.drop 2, x.isNaN = false) :
    ((sortAscending (distinct xs)).filter (!·.isNaN)).Pairwise fun a b => a.lt b = true := by
  have kept : ∀ x ∈ (distinct xs).drop 2, x.isNaN = false := fun x hx =>
    numbers x (((distinct_sublist xs).drop 2).subset hx)
  have sorted := pairwise_filter_sortAscending kept
  have apart : (sortAscending (distinct xs)).Pairwise fun a b => a.same b = false := by
    refine ((List.mergeSort_perm _ _).pairwise_iff fun {a b} other => ?_).mpr (pairwise_distinct_same xs)
    rw [← Bool.not_eq_true] at other ⊢
    exact mt same_symm other
  refine (sorted.and (apart.filter _)).imp_of_mem fun ha hb both => ?_
  exact lt_of_place_le (by simpa using (List.mem_filter.mp ha).2) (by simpa using (List.mem_filter.mp hb).2)
    both.1 both.2

end Merging

end FunctionStudy.Binary64
