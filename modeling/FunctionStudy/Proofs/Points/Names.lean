import Mathlib.Data.List.Shortlex
import FunctionStudy.Proofs.Points

/-! Names in order. Counting positions and spelling letters undo each other, because no digit is
zero. -/

namespace FunctionStudy

def IsColumnName (name : String) : Prop := name ≠ "" ∧ ∀ c ∈ name.toList, 'A' ≤ c ∧ c ≤ 'Z'

/-- By length first, and then alphabetically. -/
def ComesBefore (name other : String) : Prop :=
  name.length < other.length ∨ name.length = other.length ∧ name < other

section Order

variable {α : Type} {r : α → α → Prop} {xs ys : List α} {a b : α}

theorem lex_append_singleton (same : xs.length = ys.length) :
    List.Lex r (xs ++ [a]) (ys ++ [b]) ↔ List.Lex r xs ys ∨ xs = ys ∧ r a b := by
  induction xs generalizing ys with
  | nil =>
    obtain rfl := List.length_eq_zero_iff.mp same.symm
    simp
  | cons x xs ih =>
    cases ys with
    | nil => cases same
    | cons y ys =>
      rw [List.cons_append, List.cons_append, List.cons_lex_cons_iff, List.cons_lex_cons_iff,
        ih (Nat.succ.inj same), List.cons.injEq]
      tauto

/-- One more element at the end decides where nothing was decided before. -/
theorem shortlex_append_singleton :
    List.Shortlex r (xs ++ [a]) (ys ++ [b]) ↔ List.Shortlex r xs ys ∨ xs = ys ∧ r a b := by
  rw [List.shortlex_def, List.shortlex_def, List.length_append, List.length_append, List.length_singleton,
    List.length_singleton, Nat.add_lt_add_iff_right, Nat.add_right_cancel_iff]
  by_cases same : xs.length = ys.length
  · rw [lex_append_singleton same, and_iff_right same, and_iff_right same, or_assoc]
  · have different : xs ≠ ys := fun equal => same (congrArg List.length equal)
    tauto

theorem comesBefore_iff {letters others : List Char} :
    ComesBefore (String.ofList letters) (String.ofList others) ↔ List.Shortlex (· < ·) letters others := by
  rw [ComesBefore, List.shortlex_def, String.lt_iff, String.length_ofList, String.length_ofList,
    String.toList_ofList, String.toList_ofList]
  exact Iff.rfl

end Order

section Letters

variable {k l : ℕ} {c : Char} {letters : List Char}

theorem isCapital_iff : 'A' ≤ c ∧ c ≤ 'Z' ↔ 65 ≤ c.toNat ∧ c.toNat ≤ 90 := by
  rw [Char.le_def, Char.le_def, UInt32.le_iff_toNat_le, UInt32.le_iff_toNat_le]
  exact Iff.rfl

theorem columnLetter_lt_iff (hk : k < 26) (hl : l < 26) :
    Char.ofNat (65 + k) < Char.ofNat (65 + l) ↔ k < l := by
  rw [Char.lt_def, UInt32.lt_iff_toNat_lt]
  change (Char.ofNat (65 + k)).toNat < (Char.ofNat (65 + l)).toNat ↔ k < l
  rw [toNat_columnLetter hk, toNat_columnLetter hl]
  omega

theorem columnLetters_zero : columnLetters 0 = [] := by rw [columnLetters, if_pos rfl]

/-- One turn: the position before is cut into a position of its own and the last letter. -/
theorem columnLetters_succ (n : ℕ) :
    columnLetters (n + 1) = columnLetters (n / 26) ++ [Char.ofNat (65 + n % 26)] := by
  rw [columnLetters, if_neg n.succ_ne_zero]
  rfl

theorem isCapital_of_mem_columnLetters (n : ℕ) : ∀ c ∈ columnLetters n, 'A' ≤ c ∧ c ≤ 'Z' := by
  induction n using Nat.strong_induction_on with
  | _ n ih =>
    cases n with
    | zero =>
      rw [columnLetters_zero]
      exact List.forall_mem_nil _
    | succ n =>
      rw [columnLetters_succ, List.forall_mem_append, List.forall_mem_singleton, isCapital_iff,
        toNat_columnLetter (Nat.mod_lt n (by decide))]
      exact ⟨ih (n / 26) (by omega), by omega, by omega⟩

theorem columnLetters_columnNumber (capitals : ∀ c ∈ letters, 'A' ≤ c ∧ c ≤ 'Z') :
    columnLetters (columnNumber letters) = letters := by
  induction letters using List.reverseRecOn with
  | nil => exact columnLetters_zero
  | append_singleton before last ih =>
    obtain ⟨earlier, capital⟩ := List.forall_mem_append.mp capitals
    obtain ⟨low, high⟩ := isCapital_iff.mp (capital last List.mem_cons_self)
    have position : columnNumber (before ++ [last]) = columnNumber before * 26 + (last.toNat - 65) + 1 := by
      rw [columnNumber_append]
      omega
    have quotient : (columnNumber before * 26 + (last.toNat - 65)) / 26 = columnNumber before := by omega
    have remainder : 65 + (columnNumber before * 26 + (last.toNat - 65)) % 26 = last.toNat := by omega
    rw [position, columnLetters_succ, quotient, remainder, ih earlier, Char.ofNat_toNat]

/-- Positions are compared by what is before the last letter first, and then by the last letter. -/
theorem lt_iff_shortlex_columnLetters (m n : ℕ) :
    m < n ↔ List.Shortlex (· < ·) (columnLetters m) (columnLetters n) := by
  -- One turn on both sides at once: the quotients are compared by induction, the remainders as letters.
  induction m using Nat.strong_induction_on generalizing n with
  | _ m ih =>
    cases n with
    | zero =>
      rw [columnLetters_zero]
      exact iff_of_false m.not_lt_zero List.not_shortlex_nil_right
    | succ n =>
      cases m with
      | zero =>
        rw [columnLetters_zero, columnLetters_succ]
        exact iff_of_true n.succ_pos (.of_length_lt (by simp))
      | succ m =>
        rw [columnLetters_succ, columnLetters_succ, shortlex_append_singleton, ← ih (m / 26) (by omega),
          columnLetters_injective.eq_iff, columnLetter_lt_iff (Nat.mod_lt m (by decide))
          (Nat.mod_lt n (by decide))]
        omega

end Letters

theorem pointName_natCast (i : ℕ) : pointName i = String.ofList (columnLetters (i + 1)) := rfl

theorem isColumnName_pointName (i : ℕ) : IsColumnName (pointName i) := by
  rw [pointName_natCast, IsColumnName, String.toList_ofList]
  refine ⟨fun empty => ?_, isCapital_of_mem_columnLetters (i + 1)⟩
  have none : columnLetters (i + 1) = [] := by rw [← String.toList_ofList (l := columnLetters (i + 1)), empty]; rfl
  rw [columnLetters_succ] at none
  exact List.append_ne_nil_of_right_ne_nil _ (List.cons_ne_nil _ _) none

theorem exists_pointName {name : String} (h : IsColumnName name) : ∃ k : ℕ, pointName k = name := by
  obtain ⟨some, capitals⟩ := h
  have letters := columnLetters_columnNumber capitals
  refine ⟨columnNumber name.toList - 1, ?_⟩
  have positive : columnNumber name.toList ≠ 0 := by
    intro zero
    rw [zero, columnLetters_zero] at letters
    exact some (String.toList_eq_nil_iff.mp letters.symm)
  rw [pointName_natCast, Nat.sub_add_cancel (Nat.one_le_iff_ne_zero.mpr positive), letters, String.ofList_toList]

/-- The names of the positions are the names in capital letters, all of them, in their order. -/
theorem pointName_orders :
    (∀ name, IsColumnName name ↔ ∃ i : ℕ, pointName i = name) ∧
    ∀ i j : ℕ, i < j ↔ ComesBefore (pointName i) (pointName j) := by
  refine ⟨fun name => ⟨exists_pointName, ?_⟩, fun i j => ?_⟩
  · rintro ⟨i, rfl⟩
    exact isColumnName_pointName i
  · rw [pointName_natCast, pointName_natCast, comesBefore_iff, ← lt_iff_shortlex_columnLetters,
      Nat.add_lt_add_iff_right]

/-- Where the names get longer. -/
example : pointName 25 = "Z" ∧ pointName 26 = "AA" ∧ pointName 701 = "ZZ" ∧ pointName 702 = "AAA" := by
  decide +kernel

end FunctionStudy
