import FunctionStudy.Inequality

/-! Sign tables. The sign of a product of pieces is constant between breakpoints, so there is one
column right of minus infinity and of each breakpoint; neighbouring columns of equal sign are one
interval. -/

namespace FunctionStudy

/-- An open interval; its ends may be infinite. -/
structure Interval where
  start : Binary64
  finish : Binary64
deriving DecidableEq

namespace Interval

/-- A bound as data; an infinite one is null. -/
def boundData (x : Binary64) : Data := if x.isFinite then .float x else .null

def entries (i : Interval) : List (String × Data) :=
  [("start", boundData i.start), ("end", boundData i.finish)]

def toData (i : Interval) : Data := .record i.entries

def format (latex : Bool) (i : Interval) : String :=
  s!"({Decimal.displayText latex i.start},{Decimal.displayText latex i.finish})"

def Contains (i : Interval) (x : Rat) : Prop :=
  (match i.start with
    | .inf true => True
    | .inf false | .nan => False
    | start => start.toRat < x) ∧
  (match i.finish with
    | .inf false => True
    | .inf true | .nan => False
    | finish => x < finish.toRat)

def formatUnion (latex : Bool) (intervals : List Interval) : String :=
  if intervals.isEmpty then (if latex then "\\emptyset" else "∅")
  else (if latex then " \\cup " else " ∪ ").intercalate (intervals.map (·.format latex))

end Interval

structure SignedInterval where
  sign : Int
  interval : Interval
deriving DecidableEq

def SignedInterval.toData (s : SignedInterval) : Data :=
  .record (("sign", .int s.sign) :: s.interval.entries)

structure SignAnalysis where
  ordered : List SignedInterval := []
  breakpoints : List Binary64 := []
  rows : List SignRow := []
  status : Status := .solved
deriving DecidableEq

namespace SignAnalysis

def positive (s : SignAnalysis) : List Interval :=
  (s.ordered.filter fun i => 0 < i.sign).map (·.interval)

def negative (s : SignAnalysis) : List Interval :=
  (s.ordered.filter fun i => i.sign < 0).map (·.interval)

def toData (s : SignAnalysis) : Data :=
  .record [("positive", .list (s.positive.map Interval.toData)),
    ("negative", .list (s.negative.map Interval.toData)),
    ("ordered", .list (s.ordered.map SignedInterval.toData)),
    ("breakpoints", .floats s.breakpoints),
    ("rows", .list (s.rows.map SignRow.toData)), ("status", .text s.status.name)]

end SignAnalysis

/-- Merges columns of equal sign; a run ends where the next one starts. -/
def signRuns : List (Binary64 × Int) → List SignedInterval
  | [] => []
  | (start, sign) :: rest =>
    match signRuns rest with
    | [] => [⟨sign, ⟨start, .inf false⟩⟩]
    | next :: more =>
      if next.sign = sign then ⟨sign, ⟨start, next.interval.finish⟩⟩ :: more
      else ⟨sign, ⟨start, next.interval.start⟩⟩ :: next :: more

/-- The bounds of all inequalities, each once, ascending. -/
def breakpoints (layout : Layout) (inequalities : List Inequality) : List Binary64 :=
  layout.ascending (.bounds (inequalities.map (·.piece))) (inequalities.flatMap (·.bounds))

def signRow (letter : String) (columns : List Binary64) (i : Inequality) :
    Except Error SignRow := do
  return ⟨i.piece, i.format letter, ← columns.mapM i.signRightOf⟩

def productSigns (columns : Nat) (rows : List SignRow) : List Int :=
  rows.foldl (fun product row => List.zipWith (· * ·) row.signs product) (List.replicate columns 1)

def solveInequalities (inequalities : List Inequality) (letter : String) : Work SignAnalysis := do
  let bounds := breakpoints (← read) inequalities
  let columns := Binary64.inf true :: bounds
  let pieceRows ← Work.ofExcept (inequalities.mapM (signRow letter columns))
  let product := productSigns columns.length pieceRows
  let rows := pieceRows ++ [⟨"product", "", product⟩]
  Work.record (.signTable bounds rows)
  return { ordered := signRuns (columns.zip product), breakpoints := bounds, rows }

end FunctionStudy
