import FunctionStudy.Error
import FunctionStudy.Text.Blank

/-! Cutting text into chunks and sides. An expression is cut before each delimiter that is not its
first character, so a leading sign stays with its term. An equation is cut at its single equals
sign, blanks removed. -/

namespace FunctionStudy

/-- The chunks of a text; each but the first starts with a delimiter. -/
def chunks (isDelimiter : Char → Bool) : List Char → List (List Char)
  | [] => []
  | c :: rest =>
    (c :: rest.takeWhile fun d => !isDelimiter d) ::
      chunks isDelimiter (rest.dropWhile fun d => !isDelimiter d)
termination_by cs => cs.length
decreasing_by
  have := (List.dropWhile_sublist (p := fun d => !isDelimiter d) (l := rest)).length_le
  simp only [List.length_cons]
  omega

@[simp] theorem chunks_nil (isDelimiter : Char → Bool) : chunks isDelimiter [] = [] := by
  simp [chunks]

theorem flatten_chunks (isDelimiter : Char → Bool) (cs : List Char) :
    (chunks isDelimiter cs).flatten = cs := by
  fun_induction chunks isDelimiter cs with
  | case1 => rfl
  | case2 c rest ih => simp [ih, List.takeWhile_append_dropWhile]

def isSign (c : Char) : Bool := c == '+' || c == '-'

def splitTerms (expression : String) : List String :=
  (chunks isSign expression.toList).map String.ofList

/-- The two sides of an equation, without blanks; both must be there. -/
def splitSides (text : String) : Except Error (String × String) :=
  let cs := text.toList.filter fun c => !Text.isBlank c
  let left := cs.takeWhile (· != '=')
  let right := (cs.dropWhile (· != '=')).drop 1
  if cs.isEmpty then .error (.parse .emptyEquation)
  else if !cs.contains '=' then .error (.parse (.missingEquals text))
  else if right.contains '=' then .error (.parse (.manyEquals text))
  else if left.isEmpty || right.isEmpty then .error (.parse (.emptySide text))
  else .ok (String.ofList left, String.ofList right)

end FunctionStudy
