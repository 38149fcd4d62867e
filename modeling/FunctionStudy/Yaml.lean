import FunctionStudy.Yaml.Scalar

/-! Reading YAML. One document becomes data. Keys are scalars, and of equal keys the last value
counts. What is malformed is refused; so are tags of other values than scalars, sequences and
mappings. -/

namespace FunctionStudy.Yaml

namespace Node

def kind : Node → Kind
  | .scalar tag isPlain text =>
    match tag with
    | some name => .ofTag name
    | none => if isPlain then .ofPlain text else .text
  | .sequence tag _ => if tag = none ∨ tag = some "!" then .list else .ofTag (tag.getD "")
  | .mapping tag _ => if tag = none ∨ tag = some "!" then .map else .ofTag (tag.getD "")

mutual

/-- The entries of a mapping, those of merge keys first. -/
def mergedEntries : Node → Except Error (List (Node × Node))
  | .mapping _ entries => do
    let (merged, own) ← splitMerged entries
    return merged ++ own
  | _ => malformed

/-- The entries that merge keys take in, and the other ones. -/
def splitMerged :
    List (Node × Node) → Except Error (List (Node × Node) × List (Node × Node))
  | [] => .ok ([], [])
  | (key, value) :: rest => do
    if key.kind = .merge then
      let taken ← match value with
        | .mapping tag entries => mergedEntries (.mapping tag entries)
        | .sequence _ items => mergedItems items
        | .scalar .. => malformed
      let (merged, own) ← splitMerged rest
      return (taken ++ merged, own)
    else
      let (merged, own) ← splitMerged rest
      return (merged, (key, value) :: own)

/-- The entries of a list of mappings, those of the last one first. -/
def mergedItems : List Node → Except Error (List (Node × Node))
  | [] => .ok []
  | n :: rest => do
    let entries ← mergedEntries n
    return (← mergedItems rest) ++ entries

end

end Node

/-- The data of a node that is at most `depth` deep. -/
def dataOf : Nat → Node → Except Error Data
  | 0, _ => malformed
  | depth + 1, n =>
    match n with
    | .scalar _ _ text => scalarOf n.kind text
    | .sequence _ items =>
      if n.kind = .list then do return .list (← items.mapM (dataOf depth)) else malformed
    | .mapping .. => do
      if n.kind ≠ .map then malformed
      let entries ← (← n.mergedEntries).mapM fun (key, value) => do
        let k ← match key with
          | .scalar _ _ text => scalarOf (if key.kind = .default then .text else key.kind) text
          | _ => malformed
        return (k, ← dataOf depth value)
      return .map (entries.foldl (fun done (k, v) => Data.putEntry done k v) [])

def read (text : String) : Except Error Data :=
  match node? text with
  | some n => dataOf (text.length + 1) n
  | none => malformed

end FunctionStudy.Yaml
