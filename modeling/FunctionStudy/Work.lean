import FunctionStudy.Layout
import FunctionStudy.Settings
import FunctionStudy.Trace

/-! Traced work. A computation writes steps and registers points while it goes, and may fail. What
was written and registered before a failure stays, since a caller sees both. -/

namespace FunctionStudy

/-- What a computation leaves behind besides its answer. Without a registry, points have no
names. -/
structure Notebook where
  steps : List Step
  registry : Option Registry

def Notebook.empty : Notebook := ⟨[], none⟩

abbrev Work := ReaderT Layout (ExceptT Error (StateM Notebook))

namespace Work

/-- The answer, and the notebook after it. -/
def runFrom {α : Type} (w : Work α) (start : Notebook) (layout : Layout := .insertion) :
    Except Error α × Notebook :=
  Id.run (StateT.run (ExceptT.run (ReaderT.run w layout)) start)

def ofExcept {α : Type} : Except Error α → Work α
  | .ok a => pure a
  | .error e => throw e

def record (s : Step) : Work Unit := modify fun n => { n with steps := n.steps ++ [s] }

/-- The point at the coordinates, registered if there is a registry. -/
def point (x y : Binary64) : Work Point := do
  match (← get).registry with
  | none => return .unnamed x y
  | some r =>
    let (p, r) := r.add x y none none
    modify fun n => { n with registry := some r }
    return p

/-- The elements of a set of doubles in the order in which this run reads them. -/
def ascending (name : SetName) (xs : List Binary64) : Work (List Binary64) :=
  return (← read).ascending name xs

/-- The answer of a computation whose steps and points nobody keeps. -/
def answer {α : Type} (w : Work α) (layout : Layout := .insertion) : Except Error α :=
  (w.runFrom .empty layout).1

end Work
end FunctionStudy
