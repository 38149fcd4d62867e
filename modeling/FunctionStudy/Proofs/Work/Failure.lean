import FunctionStudy.Proofs.Work

/-! How a computation may fail. A contract says what an answer is like and which failures may stand
in its place. It is met by the steps of a computation one after the other, each knowing what the
steps before it have answered. -/

namespace FunctionStudy

/-- The user gave what caused the failure. -/
def Error.IsUserInput (e : Error) : Prop := e.isUserInput = true

/-- The text that is to be evaluated reads as a quotation. -/
def Error.IsQuotation : Error → Prop
  | .conversion (.quotedText _) => True
  | _ => False

/-- The failures of numbers: a zero divisor, or a conversion without a result. -/
def Error.IsArithmetic : Error → Prop
  | .conversion (.quotedText _) => False
  | .divisionByZero | .conversion _ => True
  | _ => False

/-- The failures that text can lead to: the user's, and those of its numbers and quotations. -/
def Error.IsRegular (e : Error) : Prop := e.IsUserInput ∨ e.IsArithmetic ∨ e.IsQuotation

/-- Numbers of ordinary size do not fail and plain letters quote nothing, so only the user's failures are left
to them. -/
def Error.IsAllowed (ordinary : Prop) (e : Error) : Prop :=
  e.IsUserInput ∨ (e.IsArithmetic ∨ e.IsQuotation) ∧ ¬ ordinary

theorem Error.IsUserInput.isRegular {e : Error} (h : e.IsUserInput) : e.IsRegular := .inl h

theorem Error.IsUserInput.isAllowed {e : Error} {ordinary : Prop} (h : e.IsUserInput) :
    e.IsAllowed ordinary := .inl h

variable {α β : Type} {E F : Error → Prop} {P Q : α → Prop} {R : β → Prop}

/-- An answer has the one property, and a failure the other. -/
def Meets (E : Error → Prop) (Q : α → Prop) : Except Error α → Prop
  | .ok a => Q a
  | .error e => E e

namespace Meets

variable {r : Except Error α} {f : α → Except Error β}

theorem of_eq_ok {a : α} (h : r = .ok a) (ha : Q a) : Meets E Q r := by
  rw [h]
  exact ha

theorem any (r : Except Error α) : Meets (fun _ => True) (fun _ => True) r := by
  cases r <;> trivial

theorem imp (h : Meets E P r) (hQ : ∀ a, P a → Q a) : Meets E Q r := by
  cases r with
  | ok a => exact hQ a h
  | error e => exact h

theorem weaken (h : Meets E Q r) (hE : ∀ e, E e → F e) : Meets F Q r := by
  cases r with
  | ok a => exact h
  | error e => exact hE e h

/-- An answer knows where it comes from. -/
theorem eq_ok (h : Meets E P r) : Meets E (fun a => r = .ok a ∧ P a) r := by
  cases r with
  | ok a => exact ⟨rfl, h⟩
  | error e => exact h

theorem bind (h : Meets E P r) (hf : ∀ a, P a → Meets E R (f a)) : Meets E R (r >>= f) := by
  cases r with
  | ok a => exact hf a h
  | error e => exact h

theorem error {e : Error} (h : E e) : Meets E Q (.error e : Except Error α) := h

/-- What fails regularly, and by the user's fault alone where the numbers are ordinary. -/
theorem allowed {ordinary : Prop} (known : ordinary → Meets Error.IsUserInput Q r)
    (regular : Meets Error.IsRegular (fun _ => True) r) :
    Meets (Error.IsAllowed ordinary) (fun a => ordinary → Q a) r := by
  by_cases h : ordinary
  · exact ((known h).weaken fun _ he => he.isAllowed).imp fun _ ha _ => ha
  · exact (regular.weaken fun _ he => he.imp_right fun arithmetic => ⟨arithmetic, h⟩).imp
      fun _ _ known => absurd known h

theorem mapM {xs : List α} (h : ∀ a ∈ xs, Meets E R (f a)) :
    Meets E (fun bs => ∀ b ∈ bs, R b) (xs.mapM f) := by
  induction xs with
  | nil => exact List.forall_mem_nil _
  | cons a rest ih =>
    rw [List.mapM_cons]
    refine (h a List.mem_cons_self).bind fun b hb => ?_
    refine (ih fun c hc => h c (List.mem_cons_of_mem a hc)).bind fun bs hbs => ?_
    exact List.forall_mem_cons.mpr ⟨hb, hbs⟩

theorem mapM_all {xs : List α} {P : α → Prop} (h : ∀ a ∈ xs, Meets E (fun _ => P a) (f a)) :
    Meets E (fun _ => ∀ a ∈ xs, P a) (xs.mapM f) := by
  induction xs with
  | nil => exact List.forall_mem_nil _
  | cons a rest ih =>
    rw [List.mapM_cons]
    refine (h a List.mem_cons_self).bind fun b ha => ?_
    refine (ih fun c hc => h c (List.mem_cons_of_mem a hc)).bind fun bs hs => ?_
    exact List.forall_mem_cons.mpr ⟨ha, hs⟩

end Meets

namespace Work

variable {w : Work α} {f : α → Work β}

/-- From every notebook and in every layout the outcome meets the contract. -/
def Meets (w : Work α) (E : Error → Prop) (Q : α → Prop) : Prop :=
  ∀ start layout, FunctionStudy.Meets E Q (w.runFrom start layout).1

theorem meets_pure {a : α} (h : Q a) : Meets (pure a) E Q := fun _ _ => h

theorem meets_throw {e : Error} (h : E e) : Meets (throw e : Work α) E Q := fun _ _ => h

theorem Meets.imp (hw : w.Meets E P) (h : ∀ a, P a → Q a) : w.Meets E Q :=
  fun start layout => (hw start layout).imp h

theorem Meets.allowed {ordinary : Prop} (known : ordinary → w.Meets Error.IsUserInput Q)
    (regular : w.Meets Error.IsRegular fun _ => True) :
    w.Meets (Error.IsAllowed ordinary) fun a => ordinary → Q a :=
  fun start layout => .allowed (fun h => known h start layout) (regular start layout)

theorem Meets.bind (hw : w.Meets E P) (hf : ∀ a, P a → (f a).Meets E R) : (w >>= f).Meets E R := by
  intro start layout
  have first := hw start layout
  rw [runFrom_bind]
  cases run : w.runFrom start layout with
  | mk result middle =>
    rw [run] at first
    cases result with
    | error e => exact first
    | ok a => exact hf a first middle layout

/-- What the last step alone says about the answer, whatever the steps before it do. -/
theorem meets_bind_last (h : ∀ a, (f a).Meets (fun _ => True) R) : (w >>= f).Meets (fun _ => True) R :=
  Meets.bind (P := fun _ => True) (fun _ _ => .any _) fun a _ => h a

theorem Meets.bind_of_fails (hw : w.Meets E fun _ => False) : (w >>= f).Meets E R :=
  hw.bind fun _ h => h.elim

theorem meets_ofExcept {r : Except Error α} (h : FunctionStudy.Meets E Q r) :
    Meets (ofExcept r) E Q := by
  cases r with
  | ok a => exact meets_pure h
  | error e => exact meets_throw h

theorem meets_ofExcept_bind {r : Except Error α} (h : FunctionStudy.Meets E P r)
    (hf : ∀ a, P a → (f a).Meets E R) : Meets (ofExcept r >>= f) E R :=
  (meets_ofExcept h).bind hf

theorem Meets.ofExcept_bind {r : Except Error α} {a : α} (h : r = .ok a) (hf : (f a).Meets E R) :
    (ofExcept r >>= f).Meets E R := by
  subst h
  exact hf

theorem meets_record_bind {s : Step} {f : Unit → Work β} (hf : (f ()).Meets E R) :
    Meets (record s >>= f) E R :=
  Meets.bind (P := fun _ => True) (fun _ _ => trivial) fun _ _ => hf

theorem meets_ascending_bind {name : SetName} {xs : List Binary64} {f : List Binary64 → Work β}
    (hf : ∀ layout : Layout, (f (layout.ascending name xs)).Meets E R) : Meets (ascending name xs >>= f) E R :=
  fun start layout => hf layout start layout

theorem Returns.meets (hw : w.Returns Q) : w.Meets E Q := by
  intro start layout
  obtain ⟨a, after, run, ha⟩ := hw start layout
  rw [run]
  exact ha

theorem Meets.answer (hw : w.Meets E Q) : FunctionStudy.Meets E Q w.answer := hw .empty .insertion

theorem meets_mapM {xs : List α} (h : ∀ a ∈ xs, (f a).Meets E R) :
    (xs.mapM f).Meets E fun bs => ∀ b ∈ bs, R b := by
  induction xs with
  | nil => exact meets_pure (List.forall_mem_nil _)
  | cons a rest ih =>
    rw [List.mapM_cons]
    refine (h a List.mem_cons_self).bind fun b hb => ?_
    refine (ih fun c hc => h c (List.mem_cons_of_mem a hc)).bind fun bs hbs => ?_
    exact meets_pure (List.forall_mem_cons.mpr ⟨hb, hbs⟩)

theorem meets_foldlM {xs : List α} {step : β → α → Work β}
    (h : ∀ b, R b → ∀ a ∈ xs, (step b a).Meets E R) {b : β} (hb : R b) :
    (xs.foldlM step b).Meets E R := by
  induction xs generalizing b with
  | nil => exact meets_pure hb
  | cons a rest ih =>
    rw [List.foldlM_cons]
    refine (h b hb a List.mem_cons_self).bind fun c hc => ?_
    exact ih (fun d hd e he => h d hd e (List.mem_cons_of_mem a he)) hc

end Work

end FunctionStudy
