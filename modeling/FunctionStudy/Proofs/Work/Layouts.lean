import FunctionStudy.Proofs.Work.Registry

/-! Runs in two layouts. A set without a NaN is read alike in all layouts. So a run goes the same
way in each of them as long as its steps show no set that holds one. -/

namespace FunctionStudy

/-- Whether a set that the step shows holds numbers only. The roots of a quadratic do not come from a set. -/
def Step.isOrdered : Step → Bool
  | .roots _ results (some _) => results.all (!·.isNaN)
  | .signTable bounds _ => bounds.all (!·.isNaN)
  | _ => true

def Step.IsOrdered (s : Step) : Prop := s.isOrdered = true

instance : DecidablePred Step.IsOrdered := fun s => inferInstanceAs (Decidable (s.isOrdered = true))

theorem Step.isOrdered_roots {equation : String} {results : List Binary64} {factored : List String} :
    (roots equation results (some factored)).IsOrdered ↔ ∀ x ∈ results, x.isNaN = false := by
  simp [IsOrdered, isOrdered]

theorem Step.isOrdered_signTable {bounds : List Binary64} {rows : List SignRow} :
    (signTable bounds rows).IsOrdered ↔ ∀ x ∈ bounds, x.isNaN = false := by
  simp [IsOrdered, isOrdered]

namespace Work

variable {α β : Type} {w : Work α} {f : α → Work β} {C : Step → Prop} {layout layout' : Layout}

/-- Steps are only added, and a run whose steps all have the property goes the same way in every layout. -/
def IgnoresLayout (C : Step → Prop) (w : Work α) : Prop :=
  ∀ start layout, start.steps ⊆ (w.runFrom start layout).2.steps ∧
    ((∀ s ∈ (w.runFrom start layout).2.steps, C s) →
      ∀ layout', w.runFrom start layout' = w.runFrom start layout)

theorem ignoresLayout_ofExcept (e : Except Error α) : IgnoresLayout C (ofExcept e) := by
  cases e with
  | ok a => exact fun _ _ => ⟨List.Subset.refl _, fun _ _ => rfl⟩
  | error e => exact fun _ _ => ⟨List.Subset.refl _, fun _ _ => rfl⟩

theorem ignoresLayout_pure (a : α) : IgnoresLayout C (pure a : Work α) := ignoresLayout_ofExcept (.ok a)

theorem ignoresLayout_throw (e : Error) : IgnoresLayout C (throw e : Work α) := ignoresLayout_ofExcept (.error e)

theorem ignoresLayout_record (s : Step) : IgnoresLayout C (record s) :=
  fun _ _ => ⟨List.subset_append_left _ _, fun _ _ => rfl⟩

theorem ignoresLayout_point (x y : Binary64) : IgnoresLayout C (point x y) := by
  rintro ⟨steps, registry⟩ layout
  cases registry with
  | none => exact ⟨List.Subset.refl _, fun _ _ => rfl⟩
  | some r => exact ⟨List.Subset.refl _, fun _ _ => rfl⟩

/-- The steps of the first part are among those of the whole run. -/
theorem IgnoresLayout.bind_yields (hw : w.IgnoresLayout C)
    (hf : ∀ {layout} a, w.Yields layout a → (f a).IgnoresLayout C) : (w >>= f).IgnoresLayout C := by
  intro start layout
  obtain ⟨grow, same⟩ := hw start layout
  simp only [runFrom_bind]
  cases run : w.runFrom start layout with
  | mk answer middle =>
    rw [run] at grow same
    cases answer with
    | error e => exact ⟨grow, fun all layout' => by rw [same all layout']⟩
    | ok a =>
      obtain ⟨grow', same'⟩ := hf a ⟨start, middle, run⟩ middle layout
      refine ⟨List.Subset.trans grow grow', fun all layout' => ?_⟩
      rw [same (fun s hs => all s (grow' hs)) layout']
      exact same' all layout'

theorem IgnoresLayout.bind (hw : w.IgnoresLayout C) (hf : ∀ a, (f a).IgnoresLayout C) :
    (w >>= f).IgnoresLayout C :=
  hw.bind_yields fun a _ => hf a

theorem ignoresLayout_isKind (C : Step → Prop) : IsKind fun w => IgnoresLayout C w :=
  ⟨ignoresLayout_ofExcept, ignoresLayout_record, IgnoresLayout.bind⟩

theorem ascending_of_numbers {name : SetName} {xs : List Binary64}
    (numbers : ∀ x ∈ Binary64.distinct xs, x.isNaN = false) :
    ascending name xs = pure (Binary64.sortAscending (Binary64.distinct xs)) := by
  funext layout
  change (pure (layout.ascending name xs) : ExceptT Error (StateM Notebook) (List Binary64)) = pure _
  rw [Layout.ascending_of_numbers numbers]

/-- A set that the next step shows. -/
theorem ignoresLayout_ascending_bind {name : SetName} {xs : List Binary64} {step : List Binary64 → Step}
    {f : List Binary64 → Work β} (shown : ∀ ys, C (step ys) → ∀ y ∈ ys, y.isNaN = false)
    (next : ∀ ys, (f ys).IgnoresLayout C) :
    (ascending name xs >>= fun ys => record (step ys) >>= fun _ => f ys).IgnoresLayout C := by
  intro start layout
  let ys := layout.ascending name xs
  obtain ⟨grow, same⟩ := (ignoresLayout_record (C := C) (step ys)).bind (fun _ => next ys) start layout
  refine ⟨grow, fun all => ?_⟩
  have written : step ys ∈ ((f ys).runFrom { start with steps := start.steps ++ [step ys] } layout).2.steps :=
    (next ys _ layout).1 (List.mem_append_right _ (List.mem_singleton_self _))
  have numbers : ∀ x ∈ Binary64.distinct xs, x.isNaN = false := fun x hx =>
    shown ys (all _ written) x (Layout.mem_ascending.mpr hx)
  intro layout'
  have settled : layout'.ascending name xs = ys :=
    (Layout.ascending_of_numbers numbers).trans (Layout.ascending_of_numbers numbers).symm
  refine Eq.trans ?_ (same all layout')
  rw [← settled]
  rfl

theorem IgnoresLayout.yields {a : α} (plain : w.IgnoresLayout fun _ => True) (h : w.Yields layout a)
    (layout' : Layout) : w.Yields layout' a := by
  obtain ⟨start, after, run⟩ := h
  exact ⟨start, after, ((plain start layout).2 (fun _ _ => trivial) layout').trans run⟩

/-- What depends neither on the layout nor on the notebook has one answer. -/
theorem IgnoresLayout.yields_unique {a b : α} (plain : w.IgnoresLayout fun _ => True) (writes : w.OnlyWrites)
    (h : w.Yields layout a) (h' : w.Yields layout' b) : a = b :=
  Except.ok.inj ((writes.answer_of_yields (plain.yields h layout')).symm.trans (writes.answer_of_yields h'))

end Work

end FunctionStudy
