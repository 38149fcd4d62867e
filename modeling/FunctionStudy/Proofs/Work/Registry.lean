import FunctionStudy.Proofs.Work

/-! What a computation does to the registry. Two questions are asked: what a success has registered,
and whether a failure has registered anything at all. -/

namespace FunctionStudy.Work

variable {α β : Type} {w : Work α} {f : α → Work β} {start after : Notebook} {layout : Layout}

section Runs

theorem runFrom_bind_ok {b : β} (h : (w >>= f).runFrom start layout = (.ok b, after)) :
    ∃ a middle, w.runFrom start layout = (.ok a, middle) ∧ (f a).runFrom middle layout = (.ok b, after) := by
  rw [runFrom_bind] at h
  cases first : w.runFrom start layout with
  | mk result middle =>
    rw [first] at h
    cases result with
    | error e => cases h
    | ok a => exact ⟨a, middle, rfl, h⟩

theorem runFrom_bind_error {e : Error} (h : (w >>= f).runFrom start layout = (.error e, after)) :
    w.runFrom start layout = (.error e, after) ∨
      ∃ a middle, w.runFrom start layout = (.ok a, middle) ∧ (f a).runFrom middle layout = (.error e, after) := by
  rw [runFrom_bind] at h
  cases first : w.runFrom start layout with
  | mk result middle =>
    rw [first] at h
    cases result with
    | error e =>
      cases h
      exact .inl rfl
    | ok a => exact .inr ⟨a, middle, rfl, h⟩

theorem runFrom_ofExcept_bind_ok {e : Except Error α} {b : β}
    (h : (ofExcept e >>= f).runFrom start layout = (.ok b, after)) :
    ∃ a, e = .ok a ∧ (f a).runFrom start layout = (.ok b, after) := by
  cases e with
  | ok a => exact ⟨a, rfl, h⟩
  | error e => cases h

theorem Returns.not_error {Q : α → Prop} (hw : w.Returns Q) {e : Error} :
    w.runFrom start layout ≠ (.error e, after) := by
  obtain ⟨a, middle, success, -⟩ := hw start layout
  rw [success]
  exact fun h => nomatch congrArg Prod.fst h

end Runs

section Keeping

/-- Succeeding or not, the computation leaves the registry as it was. -/
def KeepsRegistry (w : Work α) : Prop := ∀ start layout, (w.runFrom start layout).2.registry = start.registry

theorem keepsRegistry_pure (a : α) : KeepsRegistry (pure a : Work α) := fun _ _ => rfl

theorem keepsRegistry_throw (e : Error) : KeepsRegistry (throw e : Work α) := fun _ _ => rfl

theorem keepsRegistry_record (s : Step) : KeepsRegistry (record s) := fun _ _ => rfl

theorem KeepsRegistry.bind (hw : w.KeepsRegistry) (hf : ∀ a, (f a).KeepsRegistry) :
    (w >>= f).KeepsRegistry := by
  intro start layout
  have first := hw start layout
  rw [runFrom_bind]
  cases run : w.runFrom start layout with
  | mk answer middle =>
    rw [run] at first
    cases answer with
    | error e => exact first
    | ok a => exact (hf a middle layout).trans first

end Keeping

section Writing

/-- The computation writes steps and does nothing else: its outcome depends on the layout but not on the
notebook, and the registry stays as it was. -/
def OnlyWrites (w : Work α) : Prop :=
  ∀ start layout, (w.runFrom start layout).1 = w.answer layout ∧
    (w.runFrom start layout).2.registry = start.registry

theorem onlyWrites_pure (a : α) : OnlyWrites (pure a : Work α) := fun _ _ => ⟨rfl, rfl⟩

theorem onlyWrites_throw (e : Error) : OnlyWrites (throw e : Work α) := fun _ _ => ⟨rfl, rfl⟩

theorem onlyWrites_ofExcept (e : Except Error α) : OnlyWrites (ofExcept e) := by
  cases e with
  | ok a => exact onlyWrites_pure a
  | error e => exact onlyWrites_throw e

theorem onlyWrites_record (s : Step) : OnlyWrites (record s) := fun _ _ => ⟨rfl, rfl⟩

theorem onlyWrites_read : OnlyWrites (read : Work Layout) := fun _ _ => ⟨rfl, rfl⟩

theorem onlyWrites_ascending (name : SetName) (xs : List Binary64) : OnlyWrites (ascending name xs) :=
  fun _ _ => ⟨rfl, rfl⟩

theorem OnlyWrites.bind (hw : w.OnlyWrites) (hf : ∀ a, (f a).OnlyWrites) : (w >>= f).OnlyWrites := by
  intro start layout
  obtain ⟨same, kept⟩ := hw start layout
  rw [answer] at same ⊢
  rw [runFrom_bind, runFrom_bind]
  cases run : w.runFrom start layout with
  | mk outcome middle =>
    cases bare : w.runFrom .empty layout with
    | mk outcome' middle' =>
      rw [run, bare] at same
      rw [run] at kept
      dsimp only at same
      subst same
      cases outcome with
      | error e => exact ⟨rfl, kept⟩
      | ok a =>
        exact ⟨(hf a middle layout).1.trans (hf a middle' layout).1.symm, (hf a middle layout).2.trans kept⟩

theorem onlyWrites_isKind : IsKind fun w => OnlyWrites w :=
  ⟨onlyWrites_ofExcept, onlyWrites_record, OnlyWrites.bind⟩

theorem OnlyWrites.keepsRegistry (hw : w.OnlyWrites) : w.KeepsRegistry := fun start layout => (hw start layout).2

theorem OnlyWrites.answer_of_yields {a : α} (hw : w.OnlyWrites) (h : w.Yields layout a) :
    w.answer layout = .ok a := by
  obtain ⟨start, after, run⟩ := h
  rw [← (hw start layout).1, run]

end Writing

section Successes

variable {r : Registry} {P Q : α → Registry → Prop} {R : β → Registry → Prop}

/-- Started on a registry, every success leaves another one, with a property that relates it to the
answer. -/
def EndsWith (w : Work α) (r : Registry) (Q : α → Registry → Prop) : Prop :=
  ∀ steps layout a after, w.runFrom ⟨steps, some r⟩ layout = (.ok a, after) →
    ∃ r', after.registry = some r' ∧ Q a r'

theorem endsWith_pure {a : α} (h : Q a r) : EndsWith (pure a) r Q := by
  intro steps layout b after run
  cases run
  exact ⟨r, rfl, h⟩

theorem endsWith_throw (e : Error) : EndsWith (throw e : Work α) r Q := by
  intro steps layout a after run
  cases run

theorem EndsWith.imp (hw : w.EndsWith r P) (h : ∀ a r', P a r' → Q a r') : w.EndsWith r Q := by
  intro steps layout a after run
  obtain ⟨r', registry, property⟩ := hw steps layout a after run
  exact ⟨r', registry, h a r' property⟩

theorem EndsWith.bind (hw : w.EndsWith r P) (hf : ∀ a r', P a r' → (f a).EndsWith r' R) :
    (w >>= f).EndsWith r R := by
  intro steps layout b after run
  obtain ⟨a, ⟨written, named⟩, first, rest⟩ := runFrom_bind_ok run
  obtain ⟨r', registry, property⟩ := hw steps layout a _ first
  obtain rfl : named = some r' := registry
  exact hf a r' property written layout b after rest

theorem KeepsRegistry.endsWith (hw : w.KeepsRegistry) : w.EndsWith r fun _ r' => r' = r := by
  intro steps layout a after run
  have kept := hw ⟨steps, some r⟩ layout
  rw [run] at kept
  exact ⟨r, kept, rfl⟩

theorem KeepsRegistry.bind_endsWith (hw : w.KeepsRegistry) (hf : ∀ a, (f a).EndsWith r R) :
    (w >>= f).EndsWith r R :=
  hw.endsWith.bind fun a _ same => same ▸ hf a

theorem endsWith_ofExcept_bind {e : Except Error α} (hf : ∀ a, e = .ok a → (f a).EndsWith r R) :
    (ofExcept e >>= f).EndsWith r R := by
  cases e with
  | ok a => exact hf a rfl
  | error e =>
    intro steps layout a after run
    cases run

/-- Whatever the order in which a set is read. -/
theorem endsWith_ascending_bind {name : SetName} {xs : List Binary64} {f : List Binary64 → Work β}
    (hf : ∀ layout : Layout, (f (layout.ascending name xs)).EndsWith r R) : (ascending name xs >>= f).EndsWith r R :=
  fun steps layout => hf layout steps layout

theorem endsWith_point (x y : Binary64) :
    EndsWith (point x y) r fun p r' => r.add x y none none = (p, r') := by
  intro steps layout p after run
  cases run
  exact ⟨_, rfl, rfl⟩

theorem endsWith_foldlM {xs : List α} {step : β → α → Work β}
    (hf : ∀ b x s, x ∈ xs → R b s → (step b x).EndsWith s R) {b : β} (h : R b r) :
    (xs.foldlM step b).EndsWith r R := by
  induction xs generalizing b r with
  | nil => exact endsWith_pure h
  | cons x xs ih =>
    rw [List.foldlM_cons]
    refine (hf b x r List.mem_cons_self h).bind fun b' r' h' => ?_
    exact ih (fun b y s hy => hf b y s (List.mem_cons_of_mem x hy)) h'

end Successes

section Failures

/-- A failure leaves the registry as it was. -/
def IsAtomic (w : Work α) : Prop :=
  ∀ start layout e after, w.runFrom start layout = (.error e, after) → after.registry = start.registry

theorem KeepsRegistry.isAtomic (hw : w.KeepsRegistry) : w.IsAtomic := by
  intro start layout e after run
  have kept := hw start layout
  rwa [run] at kept

theorem Returns.isAtomic {Q : α → Prop} (hw : w.Returns Q) : w.IsAtomic :=
  fun _ _ _ _ run => absurd run hw.not_error

/-- After a change of the registry nothing may fail any more. -/
theorem IsAtomic.bind (hw : w.IsAtomic) (hf : ∀ {layout} a, w.Yields layout a → (f a).IsAtomic)
    (sure : ∀ start layout a after, w.runFrom start layout = (.ok a, after) → after.registry ≠ start.registry →
      (f a).Returns fun _ => True) : (w >>= f).IsAtomic := by
  intro start layout e after run
  rcases runFrom_bind_error run with failed | ⟨a, middle, first, failed⟩
  · exact hw start layout e after failed
  · by_cases same : middle.registry = start.registry
    · exact (hf a ⟨start, middle, first⟩ middle layout e after failed).trans same
    · exact absurd failed (sure start layout a middle first same).not_error

theorem KeepsRegistry.bind_isAtomic (hw : w.KeepsRegistry)
    (hf : ∀ {layout} a, w.Yields layout a → (f a).IsAtomic) : (w >>= f).IsAtomic := by
  refine hw.isAtomic.bind hf fun start layout a after run changed => absurd ?_ changed
  have kept := hw start layout
  rwa [run] at kept

theorem IsAtomic.bind_returns {Q : β → Prop} (hw : w.IsAtomic) (hf : ∀ a, (f a).Returns Q) :
    (w >>= f).IsAtomic :=
  hw.bind (fun a _ => (hf a).isAtomic) fun _ _ a _ _ _ => (hf a).imp fun _ _ => trivial

theorem isAtomic_ofExcept_bind {e : Except Error α} (hf : ∀ a, e = .ok a → (f a).IsAtomic) :
    (ofExcept e >>= f).IsAtomic := by
  cases e with
  | ok a => exact hf a rfl
  | error e =>
    intro start layout e' after run
    cases run
    rfl

end Failures

end FunctionStudy.Work
