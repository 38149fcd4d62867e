import Mathlib.Data.List.Forall2
import FunctionStudy.Data

/-! Data under keys. Putting a value under a key sets what is found there and nothing else; a key
that is new goes last. Data can be compared without its names, which only points have. -/

namespace FunctionStudy.Data

section Putting

variable {α : Type} {entries : List (String × α)} {key other : String} {value : α}

theorem put_of_notMem (fresh : key ∉ entries.map Prod.fst) :
    put entries key value = entries ++ [(key, value)] := by
  unfold put
  refine if_neg fun known => fresh ?_
  obtain ⟨e, he, same⟩ := List.any_eq_true.mp known
  exact List.mem_map.mpr ⟨e, he, beq_iff_eq.mp same⟩

theorem lookup_cons_of_ne (different : other ≠ key) :
    ((key, value) :: entries).lookup other = entries.lookup other := by
  rw [List.lookup_cons, beq_false_of_ne different]

theorem lookup_put_self : (put entries key value).lookup key = some value := by
  unfold put
  split_ifs with known
  · induction entries with
    | nil => cases known
    | cons e rest ih =>
      obtain ⟨k, v⟩ := e
      rw [List.map_cons]
      by_cases here : k = key
      · rw [here, beq_self_eq_true, if_pos rfl, List.lookup_cons_self]
      · rw [List.any_cons, beq_false_of_ne here, Bool.false_or] at known
        rw [beq_false_of_ne here, if_neg Bool.false_ne_true, lookup_cons_of_ne (Ne.symm here), ih known]
  · rw [List.lookup_append, List.lookup_eq_none_iff.mpr fun e he => ?_, Option.none_or, List.lookup_cons_self]
    rw [bne_iff_ne]
    exact fun same => known (List.any_eq_true.mpr ⟨e, he, beq_iff_eq.mpr same.symm⟩)

theorem lookup_put_of_ne (different : other ≠ key) :
    (put entries key value).lookup other = entries.lookup other := by
  unfold put
  split_ifs with known
  · clear known
    induction entries with
    | nil => rfl
    | cons e rest ih =>
      obtain ⟨k, v⟩ := e
      rw [List.map_cons]
      by_cases here : k = key
      · rw [here, beq_self_eq_true, if_pos rfl, lookup_cons_of_ne different, lookup_cons_of_ne different, ih]
      · rw [beq_false_of_ne here, if_neg Bool.false_ne_true, List.lookup_cons, List.lookup_cons, ih]
  · rw [List.lookup_append, lookup_cons_of_ne different, List.lookup_nil, Option.or_none]

theorem forall_mem_put {P : α → Prop} (old : ∀ e ∈ entries, P e.2) (new : P value) :
    ∀ e ∈ put entries key value, P e.2 := by
  unfold put
  split_ifs
  · refine List.forall_mem_map.mpr fun e he => ?_
    split_ifs
    · exact new
    · exact old e he
  · exact List.forall_mem_append.mpr ⟨old, List.forall_mem_singleton.mpr new⟩

end Putting

section Names

mutual

/-- The value without what mappings have under the key `name`. -/
def withoutNames : Data → Data
  | .list items => .list (itemsWithoutNames items)
  | .tuple items => .tuple (itemsWithoutNames items)
  | .map entries => .map (entriesWithoutNames entries)
  | d => d

def itemsWithoutNames : List Data → List Data
  | [] => []
  | d :: rest => d.withoutNames :: itemsWithoutNames rest

def entriesWithoutNames : List (Data × Data) → List (Data × Data)
  | [] => []
  | (key, d) :: rest =>
    if key.isText "name" then entriesWithoutNames rest
    else (key, d.withoutNames) :: entriesWithoutNames rest

end

/-- Nothing differs but names. -/
def SameUpToNames (d e : Data) : Prop := d.withoutNames = e.withoutNames

@[simp]
theorem SameUpToNames.refl (d : Data) : d.SameUpToNames d := rfl

theorem SameUpToNames.list {ds es : List Data} (h : List.Forall₂ SameUpToNames ds es) :
    (list ds).SameUpToNames (list es) := by
  have items : itemsWithoutNames ds = itemsWithoutNames es := by
    induction h with
    | nil => rfl
    | cons first others ih => rw [itemsWithoutNames, itemsWithoutNames, first, ih]
  rw [SameUpToNames, withoutNames, withoutNames, items]

theorem SameUpToNames.record {ds es : List (String × Data)}
    (h : List.Forall₂ (fun d e => d.1 = e.1 ∧ d.2.SameUpToNames e.2) ds es) :
    (record ds).SameUpToNames (record es) := by
  rw [SameUpToNames, Data.record, Data.record, withoutNames, withoutNames]
  congr 1
  induction h with
  | nil => rfl
  | cons first others ih =>
    rw [List.map_cons, List.map_cons, entriesWithoutNames, entriesWithoutNames, first.1, first.2, ih]

end Names

end FunctionStudy.Data
