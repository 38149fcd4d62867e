import Mathlib.Data.List.Forall2
import FunctionStudy.Solution

/-! What a computation returns: it succeeds, from every notebook and in every layout, with an answer
that has a property. -/

namespace FunctionStudy.Work

variable {α β : Type}

/-- The computation succeeds, whatever was written before and in every layout, and its answer has the
property. -/
def Returns (w : Work α) (Q : α → Prop) : Prop :=
  ∀ start layout, ∃ a after, w.runFrom start layout = (.ok a, after) ∧ Q a

variable {w : Work α} {P Q : α → Prop} {R : β → Prop} {f : α → Work β}

theorem Returns.pure {a : α} (h : Q a) : Returns (Pure.pure a : Work α) Q :=
  fun start _ => ⟨a, start, rfl, h⟩

/-- A failure is passed on with the notebook that it left. -/
theorem runFrom_bind (w : Work α) (f : α → Work β) (start : Notebook) (layout : Layout) :
    (w >>= f).runFrom start layout =
      match w.runFrom start layout with
      | (.ok a, middle) => (f a).runFrom middle layout
      | (.error e, middle) => (.error e, middle) := by
  change ExceptT.bindCont (fun a => (f a).run layout) (w.runFrom start layout).1 (w.runFrom start layout).2 = _
  rcases w.runFrom start layout with ⟨e | a, middle⟩ <;> rfl

theorem Returns.bind (hw : Returns w P) (hf : ∀ a, P a → Returns (f a) R) :
    Returns (w >>= f) R := by
  intro start layout
  obtain ⟨a, middle, run, ha⟩ := hw start layout
  obtain ⟨b, after, run', hb⟩ := hf a ha middle layout
  exact ⟨b, after, by rw [runFrom_bind, run]; exact run', hb⟩

theorem Returns.imp (hw : Returns w P) (h : ∀ a, P a → Q a) : Returns w Q := by
  intro start layout
  obtain ⟨a, after, run, ha⟩ := hw start layout
  exact ⟨a, after, run, h a ha⟩

/-- The answer alone, of a computation whose notebook is dropped. -/
theorem Returns.exists_answer (hw : Returns w Q) : ∃ a, w.answer = .ok a ∧ Q a := by
  obtain ⟨a, after, run, ha⟩ := hw .empty .insertion
  exact ⟨a, by rw [answer, run], ha⟩

theorem returns_ofExcept {e : Except Error α} {a : α} (h : e = .ok a) (ha : Q a) :
    Returns (ofExcept e) Q := by
  rw [h]
  exact Returns.pure ha

theorem returns_record (s : Step) : Returns (record s) fun _ => True :=
  fun start _ => ⟨(), { start with steps := start.steps ++ [s] }, rfl, trivial⟩

theorem Returns.ofExcept_bind {e : Except Error α} {a : α} (h : e = .ok a)
    (hf : Returns (f a) R) : Returns (ofExcept e >>= f) R := by
  subst h
  exact (returns_ofExcept (Q := fun b => b = a) rfl rfl).bind fun b hb => hb ▸ hf

theorem Returns.record_bind {s : Step} {f : Unit → Work β} (hf : Returns (f ()) R) :
    Returns (record s >>= f) R :=
  (returns_record s).bind fun _ _ => hf

theorem returns_point (x y : Binary64) : Returns (point x y) fun _ => True := by
  rintro ⟨steps, registry⟩ layout
  cases registry with
  | none => exact ⟨_, _, rfl, trivial⟩
  | some r => exact ⟨_, _, rfl, trivial⟩

theorem runFrom_read_bind (f : Layout → Work α) (start : Notebook) (layout : Layout) :
    ((read : Work Layout) >>= f).runFrom start layout = (f layout).runFrom start layout := rfl

/-- The elements of a set come in some order, the same for all sets without a NaN. -/
theorem returns_ascending (name : SetName) (xs : List Binary64) :
    Returns (ascending name xs) fun ys => ∃ layout : Layout, ys = layout.ascending name xs :=
  fun start layout => ⟨_, start, rfl, layout, rfl⟩

theorem returns_mapM {xs : List α} {f : α → Work β} {R : α → β → Prop}
    (h : ∀ a ∈ xs, Returns (f a) (R a)) : Returns (xs.mapM f) (List.Forall₂ R xs) := by
  induction xs with
  | nil => exact Returns.pure .nil
  | cons a rest ih =>
    rw [List.mapM_cons]
    refine (h a (by simp)).bind fun b hb => ?_
    refine (ih fun c hc => h c (by simp [hc])).bind fun bs hbs => ?_
    exact Returns.pure (.cons hb hbs)

theorem returns_rootPoints (roots : List Binary64) (height : Binary64) :
    Returns (rootPoints roots height) fun _ => True :=
  (returns_mapM (R := fun _ _ => True) fun x _ => returns_point x height).imp fun _ _ => trivial

/-- A kind of computations with all those that only answer, fail or write a step. What is put together from
its members is one of them. -/
structure IsKind (K : ∀ {α : Type}, Work α → Prop) : Prop where
  ofExcept : ∀ {α : Type} (e : Except Error α), K (ofExcept e)
  record : ∀ s, K (record s)
  bind : ∀ {α β : Type} {w : Work α} {f : α → Work β}, K w → (∀ a, K (f a)) → K (w >>= f)

section Kinds

variable {K : ∀ {α : Type}, Work α → Prop}

theorem IsKind.pure (kind : IsKind K) (a : α) : K (Pure.pure a : Work α) := kind.ofExcept (.ok a)

theorem IsKind.mapM (kind : IsKind K) {xs : List α} (h : ∀ a ∈ xs, K (f a)) : K (xs.mapM f) := by
  induction xs with
  | nil => exact kind.pure []
  | cons a rest ih =>
    rw [List.mapM_cons]
    refine kind.bind (h a List.mem_cons_self) fun b => ?_
    exact kind.bind (ih fun c hc => h c (List.mem_cons_of_mem a hc)) fun bs => kind.pure _

theorem IsKind.foldlM (kind : IsKind K) {xs : List α} {step : β → α → Work β}
    (h : ∀ b, ∀ a ∈ xs, K (step b a)) (b : β) : K (xs.foldlM step b) := by
  induction xs generalizing b with
  | nil => exact kind.pure b
  | cons a rest ih =>
    rw [List.foldlM_cons]
    exact kind.bind (h b a List.mem_cons_self) fun c => ih (fun d e he => h d e (List.mem_cons_of_mem a he)) c

end Kinds

section Yields

variable {a : α} {b : β} {layout : Layout}

/-- In the layout the computation succeeds with the answer from some notebook. -/
def Yields (w : Work α) (layout : Layout) (a : α) : Prop :=
  ∃ start after, w.runFrom start layout = (.ok a, after)

theorem Returns.exists_yields (h : Returns w Q) (layout : Layout) : ∃ a, w.Yields layout a ∧ Q a := by
  obtain ⟨a, after, run, ha⟩ := h .empty layout
  exact ⟨a, ⟨.empty, after, run⟩, ha⟩

theorem yields_of_answer (h : w.answer layout = .ok a) : w.Yields layout a :=
  ⟨.empty, (w.runFrom .empty layout).2, Prod.ext h rfl⟩

theorem Yields.of_pure {c : α} (h : (Pure.pure c : Work α).Yields layout a) : a = c := by
  obtain ⟨start, after, run⟩ := h
  cases run
  rfl

theorem Yields.of_bind (h : (w >>= f).Yields layout b) : ∃ a, w.Yields layout a ∧ (f a).Yields layout b := by
  obtain ⟨start, after, run⟩ := h
  rw [runFrom_bind] at run
  cases first : w.runFrom start layout with
  | mk answer middle =>
    rw [first] at run
    cases answer with
    | error e => cases run
    | ok a => exact ⟨a, ⟨start, middle, first⟩, middle, after, run⟩

theorem Yields.of_ofExcept {e : Except Error α} (h : (ofExcept e).Yields layout a) : e = .ok a := by
  cases e with
  | ok c => rw [Yields.of_pure h]
  | error e =>
    obtain ⟨start, after, run⟩ := h
    cases run

theorem Yields.of_throw {e : Error} (h : (throw e : Work α).Yields layout a) : False := by
  obtain ⟨start, after, run⟩ := h
  cases run

theorem Yields.of_ofExcept_bind {e : Except Error α} (h : (ofExcept e >>= f).Yields layout b) :
    ∃ a, e = .ok a ∧ (f a).Yields layout b := by
  obtain ⟨a, first, rest⟩ := h.of_bind
  exact ⟨a, first.of_ofExcept, rest⟩

theorem Yields.of_record_bind {s : Step} {f : Unit → Work β} (h : (record s >>= f).Yields layout b) :
    (f ()).Yields layout b := by
  obtain ⟨_, _, rest⟩ := h.of_bind
  exact rest

theorem Yields.of_read_bind {f : Layout → Work β} (h : ((read : Work Layout) >>= f).Yields layout b) :
    (f layout).Yields layout b := h

theorem Yields.of_ascending_bind {name : SetName} {xs : List Binary64} {f : List Binary64 → Work β}
    (h : (ascending name xs >>= f).Yields layout b) : (f (layout.ascending name xs)).Yields layout b := h

theorem Yields.of_mapM {xs : List α} {ys : List β} (h : (xs.mapM f).Yields layout ys) :
    List.Forall₂ (fun x y => (f x).Yields layout y) xs ys := by
  induction xs generalizing ys with
  | nil =>
    rw [List.mapM_nil] at h
    rw [h.of_pure]
    exact .nil
  | cons x xs ih =>
    rw [List.mapM_cons] at h
    obtain ⟨y, first, h⟩ := h.of_bind
    obtain ⟨zs, rest, h⟩ := h.of_bind
    rw [h.of_pure]
    exact .cons first (ih rest)

end Yields

section Relates

variable {γ δ : Type} {v : Work α} {w : Work β} {f : α → Work γ} {g : β → Work δ}
  {R : α → β → Prop} {T : γ → δ → Prop} {layout layout' : Layout}

/-- Whatever the two computations answer, each in its layout, is related. Nothing is said about failures. -/
def Relates (layout layout' : Layout) (R : α → β → Prop) (v : Work α) (w : Work β) : Prop :=
  ∀ a b, v.Yields layout a → w.Yields layout' b → R a b

theorem relates_pure {a : α} {b : β} (h : R a b) : Relates layout layout' R (Pure.pure a) (Pure.pure b) := by
  intro c d first second
  rw [first.of_pure, second.of_pure]
  exact h

theorem relates_throw (e : Error) : Relates layout layout' R (throw e) w := fun _ _ first _ => first.of_throw.elim

theorem Relates.bind (hw : Relates layout layout' R v w)
    (next : ∀ a b, R a b → Relates layout layout' T (f a) (g b)) :
    Relates layout layout' T (v >>= f) (w >>= g) := by
  intro c d first second
  obtain ⟨a, va, fa⟩ := first.of_bind
  obtain ⟨b, wb, gb⟩ := second.of_bind
  exact next a b (hw a b va wb) c d fa gb

theorem relates_ofExcept_bind {e : Except Error α} {f g : α → Work γ} {T : γ → γ → Prop}
    (next : ∀ a, e = .ok a → Relates layout layout' T (f a) (g a)) :
    Relates layout layout' T (ofExcept e >>= f) (ofExcept e >>= g) := by
  intro c d first second
  obtain ⟨a, known, fa⟩ := first.of_ofExcept_bind
  obtain ⟨b, known', gb⟩ := second.of_ofExcept_bind
  obtain rfl := Except.ok.inj (known.symm.trans known')
  exact next a known c d fa gb

theorem relates_record_bind {s t : Step} {f : Unit → Work γ} {g : Unit → Work δ}
    (next : Relates layout layout' T (f ()) (g ())) : Relates layout layout' T (record s >>= f) (record t >>= g) :=
  fun c d first second => next c d first.of_record_bind second.of_record_bind

theorem relates_ascending_bind {name name' : SetName} {xs ys : List Binary64} {f : List Binary64 → Work γ}
    {g : List Binary64 → Work δ}
    (next : Relates layout layout' T (f (layout.ascending name xs)) (g (layout'.ascending name' ys))) :
    Relates layout layout' T (ascending name xs >>= f) (ascending name' ys >>= g) :=
  fun c d first second => next c d first.of_ascending_bind second.of_ascending_bind

theorem relates_foldlM {xs : List α} {step step' : γ → α → Work γ} {T : γ → γ → Prop}
    (h : ∀ c d, T c d → ∀ a ∈ xs, Relates layout layout' T (step c a) (step' d a)) {c d : γ} (start : T c d) :
    Relates layout layout' T (xs.foldlM step c) (xs.foldlM step' d) := by
  induction xs generalizing c d with
  | nil => exact relates_pure start
  | cons a rest ih =>
    rw [List.foldlM_cons, List.foldlM_cons]
    refine (h c d start a List.mem_cons_self).bind fun c' d' next => ?_
    exact ih (fun c d related b hb => h c d related b (List.mem_cons_of_mem a hb)) next

end Relates

end FunctionStudy.Work
