import FunctionStudy.Proofs.Points.Twins
import FunctionStudy.Proofs.Work.Registry

/-! Computations on two registries. One computation is run on two registries that began as one. It
fails on both or on none, its answers are related, and both registries grow by the same coordinates. -/

namespace FunctionStudy

open Registry (GrowTogether)

variable {α β γ δ : Type} {layout : Layout} {r s : Registry} {P R : α → β → Registry → Registry → Prop}
  {Q : γ → δ → Registry → Registry → Prop}

/-- Both runs fail, or both succeed with a registry and related answers. -/
inductive BothEnd (R : α → β → Registry → Registry → Prop) :
    Except Error α × Notebook → Except Error β × Notebook → Prop where
  | ok {a : α} {b : β} {steps steps' : List Step} {r s : Registry} (h : R a b r s) :
      BothEnd R (.ok a, ⟨steps, some r⟩) (.ok b, ⟨steps', some s⟩)
  | error (d e : Error) (m n : Notebook) : BothEnd R (.error d, m) (.error e, n)

theorem BothEnd.imp {left : Except Error α × Notebook} {right : Except Error β × Notebook}
    (h : BothEnd P left right) (weaker : ∀ a b r s, P a b r s → R a b r s) : BothEnd R left right := by
  cases h with
  | ok h => exact .ok (weaker _ _ _ _ h)
  | error d e m n => exact .error d e m n

namespace Work

variable {v : Work α} {w : Work β} {f : α → Work γ} {g : β → Work δ}

/-- On registries that began as one and in one layout, both computations end and both registries grow
together. -/
def Together (r s : Registry) (v : Work α) (w : Work β) (R : α → β → Registry → Registry → Prop) : Prop :=
  r.Alongside s → ∀ steps steps' layout, BothEnd (fun a b r' s' => GrowTogether r s r' s' ∧ R a b r' s')
    (v.runFrom ⟨steps, some r⟩ layout) (w.runFrom ⟨steps', some s⟩ layout)

section Rules

theorem Together.imp (h : Together r s v w P) (weaker : ∀ a b r' s', P a b r' s' → R a b r' s') :
    Together r s v w R :=
  fun along steps steps' layout => (h along steps steps' layout).imp fun _ _ _ _ ⟨grow, ha⟩ => ⟨grow, weaker _ _ _ _ ha⟩

theorem together_pure {a : α} {b : β} (h : R a b r s) : Together r s (pure a) (pure b) R :=
  fun _ _ _ _ => .ok ⟨.refl r s, h⟩

theorem together_throw (d e : Error) : Together r s (throw d) (throw e) R := fun _ _ _ _ => .error d e _ _

theorem Together.bind (first : Together r s v w P)
    (next : ∀ a b r' s', GrowTogether r s r' s' → P a b r' s' → Together r' s' (f a) (g b) Q) :
    Together r s (v >>= f) (w >>= g) Q := by
  intro along steps steps' layout
  have outcome := first along steps steps' layout
  rw [runFrom_bind, runFrom_bind]
  cases left : v.runFrom ⟨steps, some r⟩ layout with
  | mk answer middle =>
    cases right : w.runFrom ⟨steps', some s⟩ layout with
    | mk answer' middle' =>
      rw [left, right] at outcome
      cases outcome with
      | error d e => exact .error d e _ _
      | ok h =>
        obtain ⟨grow, ha⟩ := h
        refine (next _ _ _ _ grow ha (along.grow grow.left grow.right) _ _ layout).imp fun _ _ _ _ ⟨more, hc⟩ => ?_
        exact ⟨grow.trans more, hc⟩

theorem OnlyWrites.together {v : Work α} (hv : v.OnlyWrites) :
    Together r s v v fun a b r' s' => a = b ∧ r' = r ∧ s' = s := by
  intro _ steps steps' layout
  obtain ⟨first, kept⟩ := hv ⟨steps, some r⟩ layout
  obtain ⟨second, kept'⟩ := hv ⟨steps', some s⟩ layout
  cases left : v.runFrom ⟨steps, some r⟩ layout with
  | mk answer middle =>
    cases right : v.runFrom ⟨steps', some s⟩ layout with
    | mk answer' middle' =>
      obtain ⟨written, registry⟩ := middle
      obtain ⟨written', registry'⟩ := middle'
      rw [left] at first kept
      rw [right] at second kept'
      dsimp only at first second kept kept'
      subst kept kept' first second
      cases v.answer layout with
      | ok a => exact .ok ⟨.refl r s, rfl, rfl, rfl⟩
      | error e => exact .error e e _ _

theorem OnlyWrites.together_bind {v : Work α} {f : α → Work γ} {g : α → Work δ} (hv : v.OnlyWrites)
    (next : ∀ a, Together r s (f a) (g a) Q) : Together r s (v >>= f) (v >>= g) Q := by
  refine hv.together.bind fun a b r' s' _ ⟨same, left, right⟩ => ?_
  subst same left right
  exact next a

theorem together_ofExcept_bind {e : Except Error α} {f : α → Work γ} {g : α → Work δ}
    (next : ∀ a, Together r s (f a) (g a) Q) : Together r s (ofExcept e >>= f) (ofExcept e >>= g) Q :=
  (onlyWrites_ofExcept e).together_bind next

theorem together_record_bind {t u : Step} {f : Unit → Work γ} {g : Unit → Work δ}
    (next : Together r s (f ()) (g ()) Q) : Together r s (record t >>= f) (record u >>= g) Q :=
  fun along steps steps' layout => next along (steps ++ [t]) (steps' ++ [u]) layout

theorem together_point (x y : Binary64) :
    Together r s (point x y) (point x y) fun p q r' s' => r'.Twins s' p q :=
  fun along _ _ _ => .ok (along.add x y)

theorem together_mapM {xs : List α} {f : α → Work γ} {g : α → Work δ}
    (stays : ∀ c d r s r' s', Q c d r s → GrowTogether r s r' s' → Q c d r' s')
    (h : ∀ a ∈ xs, ∀ r s, Together r s (f a) (g a) Q) :
    Together r s (xs.mapM f) (xs.mapM g) fun cs ds r' s' => List.Forall₂ (Q · · r' s') cs ds := by
  induction xs generalizing r s with
  | nil => exact together_pure .nil
  | cons a rest ih =>
    rw [List.mapM_cons, List.mapM_cons]
    refine (h a List.mem_cons_self r s).bind fun c d r' s' _ first => ?_
    refine (ih fun b hb => h b (List.mem_cons_of_mem a hb)).bind fun cs ds r'' s'' grow others => ?_
    exact together_pure (.cons (stays c d _ _ _ _ first grow) others)

theorem together_foldlM {xs : List α} {f : γ → α → Work γ} {g : δ → α → Work δ}
    (h : ∀ c d, ∀ a ∈ xs, ∀ r s, Q c d r s → Together r s (f c a) (g d a) Q) {c : γ} {d : δ}
    (start : Q c d r s) : Together r s (xs.foldlM f c) (xs.foldlM g d) Q := by
  induction xs generalizing c d r s with
  | nil => exact together_pure start
  | cons a rest ih =>
    rw [List.foldlM_cons, List.foldlM_cons]
    refine (h c d a List.mem_cons_self r s start).bind fun c' d' r' s' _ next => ?_
    exact ih (fun c d b hb => h c d b (List.mem_cons_of_mem a hb)) next

end Rules

section Exchange

variable {S : α → α → Prop} {T : β → β → Prop}

/-- The computation ends alike on all registries that began as one. -/
def IsSteady (S : α → α → Prop) (v : Work α) : Prop := ∀ r s, Together r s v v fun a b _ _ => S a b

theorem IsSteady.grows (hv : v.IsSteady S) {steps : List Step} {a : α} {after : Notebook}
    (run : v.runFrom ⟨steps, some r⟩ layout = (.ok a, after)) :
    ∃ written r', after = ⟨written, some r'⟩ ∧ r.GrowsTo r' := by
  have outcome := hv r r r.alongside_self steps steps layout
  rw [run] at outcome
  cases outcome with
  | ok h => exact ⟨_, _, rfl, h.1.left⟩

/-- What comes first on one side may come second on the other. The answer of each is compared between an
earlier run and a later one. -/
theorem IsSteady.exchange (hv : v.IsSteady S) (hw : w.IsSteady T) {f : α → β → Work γ} {g : α → β → Work δ}
    (next : ∀ a a' b b' r' s', S a a' → T b b' → Together r' s' (f a b) (g a' b') Q) :
    Together r s (v >>= fun a => w >>= fun b => f a b) (w >>= fun b => v >>= fun a => g a b) Q := by
  intro along steps steps' layout
  rw [runFrom_bind, runFrom_bind]
  cases left : v.runFrom ⟨steps, some r⟩ layout with
  | mk answer middle =>
    cases right : w.runFrom ⟨steps', some s⟩ layout with
    | mk answer' middle' =>
      cases answer with
      | error d =>
        -- the computation that fails first on the left fails on the right as well, if only later
        cases answer' with
        | error e => exact .error d e _ _
        | ok b =>
          obtain ⟨written, s', rfl, grow⟩ := hw.grows right
          have late := hv r s' (along.grow (.refl r) grow) steps written layout
          rw [left] at late
          dsimp only
          rw [runFrom_bind]
          generalize v.runFrom ⟨written, some s'⟩ layout = outcome at late
          cases late with
          | error d e m n => exact .error d e _ _
      | ok a =>
        -- the second run on the left is compared with the first one on the right, and the other way round
        obtain ⟨written, r', rfl, grow⟩ := hv.grows left
        have late := hw r' s (along.grow grow (.refl s)) written steps' layout
        rw [right] at late
        dsimp only
        rw [runFrom_bind]
        generalize w.runFrom ⟨written, some r'⟩ layout = outcome at late
        cases late with
        | error d e m n => exact .error d e _ _
        | @ok b b' _ written' r'' s' h =>
          have first := hv r s' (along.grow (.refl r) h.1.right) steps written' layout
          rw [left] at first
          dsimp only
          rw [runFrom_bind]
          generalize v.runFrom ⟨written', some s'⟩ layout = outcome' at first
          cases first with
          | ok h' =>
            have both := h'.1.exchange h.1
            refine (next a _ b b' r'' _ h'.2 h.2 (along.grow both.left both.right) _ _ layout).imp fun _ _ _ _ rest => ?_
            exact ⟨both.trans rest.1, rest.2⟩

end Exchange

section Chains

variable {u v w : Work α} {S : α → α → Prop}

theorem Together.trans (transitive : ∀ a b c, S a b → S b c → S a c)
    (h : Together r s u v fun a b _ _ => S a b) (h' : Together s s v w fun a b _ _ => S a b) :
    Together r s u w fun a b _ _ => S a b := by
  intro along steps steps' layout
  have first := h along steps steps layout
  have second := h' s.alongside_self steps steps' layout
  generalize u.runFrom ⟨steps, some r⟩ layout = left at first
  generalize v.runFrom ⟨steps, some s⟩ layout = middle at first second
  generalize w.runFrom ⟨steps', some s⟩ layout = right at second
  cases first with
  | error d e m n =>
    cases second with
    | error d' e' m' n' => exact .error d e' _ _
  | ok h =>
    cases second with
    | ok h' => exact .ok ⟨h.1.follow h'.1, transitive _ _ _ h.2 h'.2⟩

end Chains

end Work

end FunctionStudy
