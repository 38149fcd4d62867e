import FunctionStudy.Proofs.Work

/-! Computations that end alike. Two computations may write different texts and still do the same.
From notebooks with one registry they fail together, or they give related answers and leave one
registry. -/

namespace FunctionStudy

variable {α β γ δ : Type} {R : α → β → Prop} {Q : γ → δ → Prop}

/-- Both fail, or both succeed with related values. -/
inductive EndAlike (R : α → β → Prop) : Except Error α → Except Error β → Prop where
  | ok {a : α} {b : β} (h : R a b) : EndAlike R (.ok a) (.ok b)
  | error (d e : Error) : EndAlike R (.error d) (.error e)

namespace EndAlike

variable {d : Except Error α} {e : Except Error β}

theorem refl {R : α → α → Prop} (h : ∀ a, R a a) (e : Except Error α) : EndAlike R e e := by
  cases e with
  | ok a => exact .ok (h a)
  | error d => exact .error d d

theorem of_eq_ok {a : α} {b : β} (first : d = .ok a) (second : e = .ok b) (h : R a b) : EndAlike R d e := by
  rw [first, second]
  exact .ok h

theorem bind {f : α → Except Error γ} {g : β → Except Error δ} (first : EndAlike R d e)
    (next : ∀ a b, R a b → EndAlike Q (f a) (g b)) : EndAlike Q (d >>= f) (e >>= g) := by
  cases first with
  | ok h => exact next _ _ h
  | error d e => exact .error d e

end EndAlike

namespace Work

/-- The computations end alike wherever they start from one registry, in one layout. -/
def Alike (R : α → β → Prop) (v : Work α) (w : Work β) : Prop :=
  ∀ (s t : Notebook) (layout : Layout), s.registry = t.registry →
    EndAlike R (v.runFrom s layout).1 (w.runFrom t layout).1 ∧
      (v.runFrom s layout).2.registry = (w.runFrom t layout).2.registry

variable {v : Work α} {w : Work β} {f : α → Work γ} {g : β → Work δ}

theorem alike_pure {a : α} {b : β} (h : R a b) : Alike R (pure a) (pure b) :=
  fun _ _ _ same => ⟨.ok h, same⟩

theorem alike_throw (d e : Error) : Alike R (throw d) (throw e) :=
  fun _ _ _ same => ⟨.error d e, same⟩

theorem alike_record (s t : Step) : Alike (fun _ _ => True) (record s) (record t) :=
  fun _ _ _ same => ⟨.ok trivial, same⟩

theorem Alike.bind (first : Alike R v w) (next : ∀ a b, R a b → Alike Q (f a) (g b)) :
    Alike Q (v >>= f) (w >>= g) := by
  intro s t layout same
  obtain ⟨outcome, registry⟩ := first s t layout same
  rw [runFrom_bind, runFrom_bind]
  cases left : v.runFrom s layout with
  | mk answer middle =>
    cases right : w.runFrom t layout with
    | mk answer' middle' =>
      rw [left, right] at outcome registry
      dsimp only at outcome
      cases outcome with
      | ok h => exact next _ _ h middle middle' layout registry
      | error d e => exact ⟨.error d e, registry⟩

theorem alike_ofExcept_bind {d : Except Error α} {e : Except Error β} (h : EndAlike R d e)
    (next : ∀ a b, d = .ok a → e = .ok b → R a b → Alike Q (f a) (g b)) :
    Alike Q (ofExcept d >>= f) (ofExcept e >>= g) := by
  cases h with
  | ok h => exact next _ _ rfl rfl h
  | error d e => exact alike_throw d e

theorem alike_record_bind {s t : Step} {f : Unit → Work γ} {g : Unit → Work δ}
    (next : Alike Q (f ()) (g ())) : Alike Q (record s >>= f) (record t >>= g) :=
  (alike_record s t).bind fun _ _ _ => next

theorem alike_ascending_bind {name : SetName} {xs : List Binary64} {f : List Binary64 → Work γ}
    {g : List Binary64 → Work δ}
    (next : ∀ ys, Alike Q (f ys) (g ys)) : Alike Q (ascending name xs >>= f) (ascending name xs >>= g) :=
  fun s t layout same => next (layout.ascending name xs) s t layout same

theorem alike_point (x y : Binary64) : Alike Eq (point x y) (point x y) := by
  rintro ⟨steps, registry⟩ ⟨steps', _⟩ layout rfl
  cases registry with
  | none => exact ⟨.ok rfl, rfl⟩
  | some r => exact ⟨.ok rfl, rfl⟩

theorem alike_mapM {xs : List α} {f : α → Work γ} (h : ∀ a ∈ xs, Alike Eq (f a) (f a)) :
    Alike Eq (xs.mapM f) (xs.mapM f) := by
  induction xs with
  | nil => exact alike_pure rfl
  | cons a rest ih =>
    rw [List.mapM_cons]
    refine (h a List.mem_cons_self).bind fun b _ first => ?_
    subst first
    refine (ih fun c hc => h c (List.mem_cons_of_mem a hc)).bind fun bs _ others => ?_
    exact alike_pure (congrArg (b :: ·) others)

theorem alike_foldlM {xs : List α} {f g : γ → α → Work γ}
    (h : ∀ c, ∀ a ∈ xs, Alike Eq (f c a) (g c a)) (c : γ) :
    Alike Eq (xs.foldlM f c) (xs.foldlM g c) := by
  induction xs generalizing c with
  | nil => exact alike_pure rfl
  | cons a rest ih =>
    rw [List.foldlM_cons, List.foldlM_cons]
    refine (h c a List.mem_cons_self).bind fun d _ same => ?_
    subst same
    exact ih (fun d e he => h d e (List.mem_cons_of_mem a he)) d

end Work

end FunctionStudy
