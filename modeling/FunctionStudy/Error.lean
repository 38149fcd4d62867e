import FunctionStudy.Decimal.Plain
import FunctionStudy.Formula.Quotation
import FunctionStudy.Text.Quoted
import FunctionStudy.Timestamp

/-! What can go wrong: one constructor for each cause, grouped by whose fault it is. The wording is
in `message`. -/

namespace FunctionStudy

open Decimal (plainText)
open Text (quoted)

/-- Text outside the grammar of terms and equations. -/
inductive ParseError where
  | tooManyPowers (token : String)
  | invalidLiteral (token : String)
  | invalidExponent (token : String)
  | emptyTerm
  | invalidCoefficient (chunk : String)
  | danglingSign (chunk : String)
  | emptyEquation
  | missingEquals (text : String)
  | manyEquals (text : String)
  | emptySide (text : String)
  | invalidAxisLabel (label : String)
deriving DecidableEq

def ParseError.message : ParseError → String
  | .tooManyPowers token => s!"Too many '^' in literal part: {quoted token}"
  | .invalidLiteral token => s!"Invalid literal part: {quoted token}"
  | .invalidExponent token => s!"Invalid exponent in literal part: {quoted token}"
  | .emptyTerm => "Empty term."
  | .invalidCoefficient chunk => s!"Invalid coefficient in term: {quoted chunk}"
  | .danglingSign chunk => s!"Dangling sign without a value: {quoted chunk}"
  | .emptyEquation => "Empty equation."
  | .missingEquals text => s!"Missing '=' in equation: {quoted text}"
  | .manyEquals text => s!"Equation has more than one '=': {quoted text}"
  | .emptySide text => s!"Empty member in equation: {quoted text}"
  | .invalidAxisLabel label => s!"Invalid axis label: {quoted label}"

/-- A well-formed function for which the operation has no meaning. -/
inductive DomainError where
  | exponentNotNatural (exponent : Binary64)
  | termExceedsDegree (term : String) (degree : Int)
  | noDependentTerm (equation : String)
  | dependentTermsCancel (equation : String)
  | derivativeOrder (order : Int)
  | logarithm (term : String)
  | degreeLimit (text : String) (limit : Int)
  | unsolvableDegree (degree : Binary64)
  | zeroLeadingLinear (equation : String)
  | zeroLeadingQuadratic (equation : String)
deriving DecidableEq

def DomainError.message : DomainError → String
  | .exponentNotNatural exponent =>
    s!"Exponent {plainText exponent} is not a non-negative integer."
  | .termExceedsDegree term degree => s!"Term {term} exceeds degree {degree}."
  | .noDependentTerm equation => s!"No y term to isolate in {equation}."
  | .dependentTermsCancel equation => s!"The y terms cancel out in {equation}."
  | .derivativeOrder order => s!"Derivative order must be >= 1, got {order}."
  | .logarithm term => s!"The antiderivative of {term} is a logarithm."
  | .degreeLimit text limit => s!"Degree of {text} exceeds the limit of {limit}."
  | .unsolvableDegree degree => s!"Cannot solve an equation of degree {plainText degree}."
  | .zeroLeadingLinear equation =>
    s!"Leading coefficient is zero in first-degree equation {equation}."
  | .zeroLeadingQuadratic equation =>
    s!"Leading coefficient is zero in second-degree equation {equation}."

/-- Text that has no value at a point. -/
inductive EvaluationError where
  | cannotParse (text : String)
  | unbound (text : String) (letters : List String)
deriving DecidableEq

def EvaluationError.message : EvaluationError → String
  | .cannotParse text => s!"Cannot parse expression {quoted text}: it is no formula"
  | .unbound text letters =>
    s!"Expression {quoted text} has unbound symbols: " ++ ", ".intercalate letters

/-- Worksheet data of the wrong shape. -/
inductive WorksheetError where
  | invalidYaml
  | notAMapping
  | noFunctions
  | noExpression (position : Nat)
  | duplicateId (id : String)
  | unknownOperations (id : String) (operations : List String)
  | areaPoints (id : String)
deriving DecidableEq

def WorksheetError.message : WorksheetError → String
  | .invalidYaml => "Invalid YAML: the text cannot be read"
  | .notAMapping => "Worksheet must be a mapping with 'title' and 'functions'."
  | .noFunctions => "Worksheet needs a non-empty 'functions' list."
  | .noExpression position => s!"Entry #{position} has no 'expr'."
  | .duplicateId id => s!"Duplicate entry id: {id}"
  | .unknownOperations id operations =>
    s!"Entry {id}: unknown operation(s) " ++ ", ".intercalate operations
  | .areaPoints id => s!"Entry {id}: area_points must be numbers."

/-- A number or text that cannot be turned into what is asked for. -/
inductive ConversionError where
  | notARational (number : String)
  | notADouble (text : String)
  | notAnInteger (base : Nat) (text : String)
  | tooManyDigits (count : Nat)
  | integerTooLong
  | infiniteInteger
  | undefinedInteger
  | integerTooLarge
  | quotientTooLarge
  | complexResult
  /-- A text that is all quotation, where a formula is needed. -/
  | quotedText (kind : Formula.Quotation)
deriving DecidableEq

def ConversionError.message : ConversionError → String
  | .notARational number => s!"Invalid literal for Fraction: {quoted number}"
  | .notADouble text => s!"could not convert string to float: {quoted text}"
  | .notAnInteger base text => s!"invalid literal for int() with base {base}: {quoted text}"
  | .tooManyDigits count =>
    s!"Exceeds the limit (4300 digits) for integer string conversion: value has {count} digits; " ++
      "use sys.set_int_max_str_digits() to increase the limit"
  | .integerTooLong =>
    "Exceeds the limit (4300 digits) for integer string conversion; " ++
      "use sys.set_int_max_str_digits() to increase the limit"
  | .infiniteInteger => "cannot convert float infinity to integer"
  | .undefinedInteger => "cannot convert float NaN to integer"
  | .integerTooLarge => "int too large to convert to float"
  | .quotientTooLarge => "integer division result too large for a float"
  | .complexResult => "Cannot convert complex to float"
  | .quotedText kind => "'" ++ kind.name ++ "' object has no attribute 'free_symbols'"

inductive Error where
  | parse (error : ParseError)
  | domain (error : DomainError)
  | evaluation (error : EvaluationError)
  | worksheet (error : WorksheetError)
  | conversion (error : ConversionError)
  | calendar (error : CalendarError)
  | divisionByZero
  | indexOutOfRange
  | unknownAxis (axis : String)
  | unknownComparison (operator : String)
  | unknownOperations (operations : List String)
  | traceFormat (format : String)
  /-- A scalar where a list is needed; `kind` names what it is. -/
  | notIterable (kind : String)
deriving DecidableEq

namespace Error

def message : Error → String
  | .parse e => e.message
  | .domain e => e.message
  | .evaluation e => e.message
  | .worksheet e => e.message
  | .conversion e => e.message
  | .calendar e => e.message
  | .divisionByZero => "float division by zero"
  | .indexOutOfRange => "list index out of range"
  | .unknownAxis axis => s!"Unknown axis {quoted axis}; expected 'x' or 'y'."
  | .unknownComparison operator => s!"Unknown comparison operator {quoted operator}"
  | .unknownOperations operations =>
    "Unknown study operation(s): " ++ ", ".intercalate operations
  | .traceFormat format =>
    s!"MATHSOLVER_TRACE_FORMAT must be one of ('text', 'latex'), got {quoted format}"
  | .notIterable kind => s!"'{kind}' object is not iterable"

/-- Whether the cause is the text or the request of the user; the others are faults of the
engine. -/
def isUserInput : Error → Bool
  | .parse _ | .domain _ | .evaluation _ | .unknownOperations _ => true
  | _ => false

end Error

def Binary64.div (x y : Binary64) : Except Error Binary64 :=
  match x.div? y with
  | some q => .ok q
  | none => .error .divisionByZero

def Binary64.toInt : Binary64 → Except Error Int
  | .nan => .error (.conversion .undefinedInteger)
  | .inf _ => .error (.conversion .infiniteInteger)
  | .negZero => .ok 0
  | .finite v _ => .ok (v.num.tdiv v.den)

def Binary64.ofIntChecked (n : Int) : Except Error Binary64 :=
  match Binary64.ofInt? n with
  | some x => .ok x
  | none => .error (.conversion .integerTooLarge)

def Binary64.ofRatChecked (v : Rat) : Except Error Binary64 :=
  if (Binary64.round v).isFinite then .ok (.round v)
  else .error (.conversion .quotientTooLarge)

/-- An integer in the free spelling, of at most 4300 digits. -/
def Decimal.integer (text : String) : Except Error Int :=
  match Decimal.readInt? text with
  | some n =>
    let count := (text.toList.filter Text.isDigit).length
    if 4300 < count then .error (.conversion (.tooManyDigits count)) else .ok n
  | none => .error (.conversion (.notAnInteger 10 text))

def Decimal.exact (x : Binary64) : Except Error Rat :=
  match Decimal.exactValue? x with
  | some v => .ok v
  | none => .error (.conversion (.notARational (plainText x)))

end FunctionStudy
