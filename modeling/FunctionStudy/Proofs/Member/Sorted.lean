import FunctionStudy.Proofs.Binary64.Sorting
import FunctionStudy.Proofs.Member.NormalForm

/-! Terms in stable order. `normalize` puts the terms in descending exponents and leaves those of
one exponent as they are. There is only one such order, so that whatever has it is what `normalize`
makes. -/

namespace FunctionStudy

namespace Binary64

variable {x y z : Binary64}

theorem place_eq_of_same (h : x.same y = true) : x.place = y.place := by
  rcases kinds x with rfl | ⟨s, rfl⟩ | ⟨a, ha⟩
  · cases h
  · cases y with
    | inf t => rw [show s = t from beq_iff_eq.mp h]
    | _ => cases h
  · rw [place_of_toRat? ha]
    rcases kinds y with rfl | ⟨t, rfl⟩ | ⟨b, hb⟩
    · cases x <;> cases h
    · cases x <;> cases ha <;> cases h
    · rw [place_of_toRat? hb, (same_iff ha hb).mp h]

theorem same_iff_place (hx : x.isNaN = false) (hy : y.isNaN = false) : x.same y = true ↔ x.place = y.place :=
  ⟨place_eq_of_same, same_of_place_eq hx hy⟩

end Binary64

/-- The exponents are numbers. -/
def HasOrder (ts : List Term) : Prop := ∀ t ∈ ts, t.exponent.isNaN = false

/-- Descending exponents, and the terms of one exponent as they were. -/
structure IsStableSort (ts us : List Term) : Prop where
  perm : us.Perm ts
  descending : us.Pairwise fun t u => t.exponent.lt u.exponent = false
  stable : ∀ e, us.filter (fun t => t.exponent.same e) = ts.filter fun t => t.exponent.same e

section Order

variable {t u : Term} {ts us vs : List Term}

theorem HasOrder.perm (h : HasOrder ts) (same : us.Perm ts) : HasOrder us :=
  fun t ht => h t (same.mem_iff.mp ht)

def Term.notBelow (t u : Term) : Bool := u.exponent.place ≤ t.exponent.place

theorem HasOrder.normalize_terms (h : HasOrder ts) :
    (Member.normalize ⟨ts⟩).terms = ts.mergeSort Term.notBelow := by
  refine mergeSort_congr fun t ht u hu => ?_
  rw [Bool.eq_iff_iff, Bool.not_eq_true', ← Bool.not_eq_true, Binary64.lt_iff_place (h t ht) (h u hu), not_lt]
  exact decide_eq_true_iff.symm

theorem isStableSort_normalize (h : HasOrder ts) : IsStableSort ts (Member.normalize ⟨ts⟩).terms := by
  have trans : ∀ t u v : Term, t.notBelow u = true → u.notBelow v = true → t.notBelow v = true :=
    fun t u v tu uv => decide_eq_true ((of_decide_eq_true uv).trans (of_decide_eq_true tu))
  have total : ∀ t u : Term, (t.notBelow u || u.notBelow t) = true := fun t u => by
    rw [Bool.or_eq_true, Term.notBelow, Term.notBelow, decide_eq_true_iff, decide_eq_true_iff]
    exact le_total _ _
  have perm := List.mergeSort_perm ts Term.notBelow
  rw [h.normalize_terms]
  refine ⟨perm, ?_, fun e => filter_mergeSort_of_ties trans total fun t u ht hu => ?_⟩
  · refine (List.pairwise_mergeSort trans total ts).imp_of_mem fun ht hu above => ?_
    rw [← Bool.not_eq_true, Binary64.lt_iff_place (h.perm perm _ ht) (h.perm perm _ hu), not_lt]
    exact of_decide_eq_true above
  · exact decide_eq_true ((Binary64.place_eq_of_same hu).trans (Binary64.place_eq_of_same ht).symm).le

namespace IsStableSort

theorem filter (h : IsStableSort ts us) (p : Term → Bool) : IsStableSort (ts.filter p) (us.filter p) where
  perm := h.perm.filter p
  descending := h.descending.filter p
  stable e := by rw [List.filter_comm, h.stable, List.filter_comm]

theorem map (h : IsStableSort ts us) {f : Term → Term} (exponent : ∀ t, (f t).exponent = t.exponent) :
    IsStableSort (ts.map f) (us.map f) where
  perm := h.perm.map f
  descending := List.pairwise_map.mpr (by simpa only [exponent] using h.descending)
  stable e := by
    have same : (fun t : Term => t.exponent.same e) ∘ f = fun t => t.exponent.same e :=
      funext fun t => congrArg (·.same e) (exponent t)
    rw [List.filter_map, List.filter_map, same, h.stable]

theorem trans (h : IsStableSort ts us) (next : IsStableSort us vs) : IsStableSort ts vs where
  perm := next.perm.trans h.perm
  descending := next.descending
  stable e := (next.stable e).trans (h.stable e)

theorem place_head_eq (order : HasOrder (t :: us)) (perm : (u :: vs).Perm (t :: us))
    (first : ∀ v ∈ us, t.exponent.lt v.exponent = false) (second : ∀ v ∈ vs, u.exponent.lt v.exponent = false) :
    t.exponent.place = u.exponent.place := by
  have numberT := order t List.mem_cons_self
  have numberU := order.perm perm u List.mem_cons_self
  have largest : ∀ {a b : Term} {rest : List Term}, (∀ c ∈ rest, a.exponent.lt c.exponent = false) →
      b ∈ a :: rest → a.exponent.lt b.exponent = false := fun below hb => by
    rcases List.mem_cons.mp hb with rfl | hb
    · exact Binary64.lt_self _
    · exact below _ hb
  have tu := largest first (perm.mem_iff.mp List.mem_cons_self)
  have ut := largest second (perm.mem_iff.mpr List.mem_cons_self)
  rw [← Bool.not_eq_true, Binary64.lt_iff_place numberT numberU, not_lt] at tu
  rw [← Bool.not_eq_true, Binary64.lt_iff_place numberU numberT, not_lt] at ut
  exact le_antisymm ut tu

theorem eq_of_perm (order : HasOrder us) (perm : vs.Perm us)
    (first : us.Pairwise fun t u => t.exponent.lt u.exponent = false)
    (second : vs.Pairwise fun t u => t.exponent.lt u.exponent = false)
    (same : ∀ e, us.filter (fun t => t.exponent.same e) = vs.filter fun t => t.exponent.same e) : us = vs := by
  induction us generalizing vs with
  | nil => exact perm.eq_nil.symm
  | cons t us ih =>
    obtain ⟨u, vs, rfl⟩ := List.exists_cons_of_ne_nil fun none : vs = [] => by
      rw [none] at perm
      cases perm.nil_eq
    obtain ⟨belowT, restT⟩ := List.pairwise_cons.mp first
    obtain ⟨belowU, restU⟩ := List.pairwise_cons.mp second
    have numberT := order t List.mem_cons_self
    have numberU := order.perm perm u List.mem_cons_self
    obtain rfl : t = u := by
      have largest := place_head_eq order perm belowT belowU
      have heads := same t.exponent
      rw [List.filter_cons, List.filter_cons, if_pos ((Binary64.same_iff_place numberT numberT).mpr rfl),
        if_pos ((Binary64.same_iff_place numberU numberT).mpr largest.symm)] at heads
      exact (List.cons_eq_cons.mp heads).1
    refine congrArg (t :: ·) (ih (fun v hv => order v (List.mem_cons_of_mem t hv)) perm.cons_inv restT restU
      fun e => ?_)
    have both := same e
    rw [List.filter_cons, List.filter_cons] at both
    split_ifs at both
    · exact (List.cons_eq_cons.mp both).2
    · exact both

theorem unique (order : HasOrder ts) (h : IsStableSort ts us) (h' : IsStableSort ts vs) : us = vs :=
  eq_of_perm (order.perm h.perm) (h'.perm.trans h.perm.symm) h.descending h'.descending fun e =>
    (h.stable e).trans (h'.stable e).symm

/-- What has the stable order of the terms is what `normalize` makes of them. -/
theorem eq_normalize (order : HasOrder ts) (h : IsStableSort ts us) : (⟨us⟩ : Member) = Member.normalize ⟨ts⟩ :=
  congrArg Member.mk (unique order h (isStableSort_normalize order))

end IsStableSort

end Order

end FunctionStudy
