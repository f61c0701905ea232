import ColumnDecl.Kind

/-! What can be wrong with a declaration. A fault keeps its cause, and where they are known the
text that was read and the span in it; the wording is decided here, once for all causes. -/
namespace ColumnDecl

structure Located (α : Type) where
  cause : α
  text : Option Text
  start : Option Nat
  stop : Option Nat
  deriving DecidableEq, Repr

namespace Located

/-- The rejected part of the text; an open end reaches to the end of the text. -/
def span {α : Type} (f : Located α) : Option Text := do
  let text ← f.text
  let start ← f.start
  some (text.slice start (f.stop.getD text.length))

def message {α : Type} (detail : α → String) (f : Located α) : String :=
  match f.start with
  | some start => s!"{detail f.cause} at position {start}"
  | none => detail f.cause

end Located

inductive Category where
  | declaration | malformed | unknown | invalid
  deriving DecidableEq, Repr

inductive Cause where
  | unterminatedQuote (quote : Char) (line : Nat)
  | illegalCharacter (c : Char)
  | expected (what : String) (got : Option Text)
  | columnExpected
  | columnExpectedAfterComma
  | unexpected (raw : Text)
  | unexpectedAfterType (raw : Text)
  | unexpectedInDeclaration (raw : Text)
  | unexpectedAfterCode (raw : Text)
  | nameOrTypeExpected (raw : Text)
  | missingType (name : Text)
  | nullExpectedAfterNot
  | parametersRefused (kind : Kind)
  | parametersRequired (kind : Kind)
  | unterminatedList (kind : Option Kind)
  | commaExpected (signature : Text)
  | emptyParameter
  | parameterExpected (what : String)
  | unknownType (word : Text)
  | tooDeep (limit : Nat)
  | wrapperArity (kind : Kind) (given : Nat)
  | notAnInteger (what : String) (got : Option Text)
  | outOfRange (what : String) (low high value : Int)
  | parameterCount (kind : Kind) (low high given : Nat)
  | equalsExpected (label : Text)
  | unresolvedKind (kind : Kind)
  | arity (kind : Kind) (wanted : String) (given : Nat)
  | enumTableRequired (kind : Kind)
  | unnamedField (typeText : Text)
  | emptyEnum
  | codeOutOfRange (name : Text) (code : Int) (bits : Nat)
  | duplicateName (name : Text)
  | duplicateCode (code : Int) (name earlier : Text)
  | precisionOutOfRange (precision : Int)
  deriving DecidableEq, Repr

namespace Cause

def category : Cause → Category
  | unterminatedQuote .. | illegalCharacter .. | expected .. | columnExpected
  | columnExpectedAfterComma | unexpected .. | unexpectedAfterType .. | unexpectedInDeclaration ..
  | unexpectedAfterCode .. | nameOrTypeExpected .. | missingType .. | nullExpectedAfterNot
  | parametersRefused .. | parametersRequired .. | unterminatedList .. | commaExpected ..
  | emptyParameter | parameterExpected .. => .malformed
  | unknownType .. => .unknown
  | _ => .invalid

def quoted (t : Text) : String := s!"'{t.asString}'"

def detail : Cause → String
  | unterminatedQuote quote line =>
    let what := if quote = '\'' then "literal" else "identifier"
    s!"Unterminated quoted {what} (line {line})"
  | illegalCharacter c => s!"Illegal character {quoted [c]}"
  | expected what none => s!"Expected {what} but reached end of declaration"
  | expected what (some raw) => s!"Expected {what}, got {quoted raw}"
  | columnExpected => "Expected column declaration"
  | columnExpectedAfterComma => "Expected column declaration after ','"
  | unexpected raw => s!"Unexpected {quoted raw}"
  | unexpectedAfterType raw => s!"Unexpected {quoted raw} after type declaration"
  | unexpectedInDeclaration raw => s!"Unexpected {quoted raw} in column declaration"
  | unexpectedAfterCode raw => s!"Unexpected {quoted raw} after enum value"
  | nameOrTypeExpected raw => s!"Expected column name or type, got {quoted raw}"
  | missingType name => s!"Missing type for column {quoted name}"
  | nullExpectedAfterNot => "Expected NULL after NOT"
  | parametersRefused kind => s!"{kind.name} does not take parameters"
  | parametersRequired kind => s!"{kind.name} requires a parameter list"
  | unterminatedList none => "Unterminated parameter list"
  | unterminatedList (some kind) => s!"Unterminated parameter list of {kind.name}"
  | commaExpected signature => s!"Expected ',' after aggregate function {quoted signature}"
  | emptyParameter => "Empty parameter"
  | parameterExpected what => s!"Expected {what}"
  | unknownType word => s!"Unknown data type {quoted word}"
  | tooDeep limit => s!"Type nesting exceeds the maximum depth of {limit}"
  | wrapperArity kind given => s!"{kind.name} expects exactly one nested type, got {given}"
  | notAnInteger what none => s!"{what} must be an integer, got end of declaration"
  | notAnInteger what (some raw) => s!"{what} must be an integer, got {quoted raw}"
  | outOfRange what low high value => s!"{what} must be between {low} and {high}, got {value}"
  | parameterCount kind low high given =>
    let wanted := if low = high then s!"{low}" else s!"{low} to {high}"
    s!"{kind.name} expects {wanted} parameter(s), got {given}"
  | equalsExpected label => s!"Expected '=' after enum name {quoted label}"
  | unresolvedKind kind => s!"'{kind.name}' is resolved while parsing and cannot be a column type"
  | arity kind wanted given => s!"{kind.name} expects {wanted}, got {given}"
  | enumTableRequired kind => s!"{kind.name} requires enum constants"
  | unnamedField typeText => s!"Nested field {quoted typeText} must be named"
  | emptyEnum => "Enum must declare at least one constant"
  | codeOutOfRange name code bits =>
    let half := Int.pow 2 (bits - 1)
    s!"Enum value {code} for {quoted name} does not fit Enum{bits} (allowed range {-half}..{half - 1})"
  | duplicateName name => s!"Duplicate enum name {quoted name}"
  | duplicateCode code name earlier =>
    s!"Duplicate enum value {code} for {quoted name} and {quoted earlier}"
  | precisionOutOfRange precision => s!"Decimal precision {precision} is out of range"

end Cause

abbrev Fault := Located Cause

namespace Fault

def category (f : Fault) : Category := f.cause.category

def message (f : Fault) : String := Located.message Cause.detail f

end Fault

/-- How a reading can end without a column. Next to a located fault these are: a number too long
to be written into a message, a shift by a negative width, a window that reaches past its text, and
a reader that consumed nothing. -/
inductive Failure where
  | rejected (fault : Fault)
  | unwritableNumber
  | negativeShift
  | pastEnd
  | stalled
  deriving DecidableEq, Repr

namespace Failure

def message : Failure → String
  | rejected fault => fault.message
  | unwritableNumber => "Exceeds the limit (4300 digits) for integer string conversion; " ++
      "use sys.set_int_max_str_digits() to increase the limit"
  | negativeShift => "negative shift count"
  | pastEnd => "string index out of range"
  | stalled => "no progress"

end Failure
end ColumnDecl
