import ColumnDecl.Text.Digit
import ColumnDecl.Text.Spelled

/-! Command-line arguments. Each argument is first told apart, as an option, a positional or the
mark behind which all are positional; then they are taken in order. Long options can be shortened
as long as one option alone begins so, and options of one letter can share a dash. -/
namespace ColumnDecl.CommandLine

inductive Switch where
  | help | name | json | format | verbose
  deriving DecidableEq, Repr

namespace Switch

def all : List Switch := [.help, .name, .json, .format, .verbose]

def letter : Switch → Char
  | help => 'h'
  | name => 'n'
  | json => 'j'
  | format => 'f'
  | verbose => 'v'

def word : Switch → String
  | help => "help"
  | name => "name"
  | json => "json"
  | format => "format"
  | verbose => "verbose"

def takesValue (s : Switch) : Bool := s == .name || s == .format

def short (s : Switch) : Text := ['-', s.letter]

def long (s : Switch) : Text := '-' :: '-' :: s.word.toList

def ofShort? (t : Text) : Option Switch := all.find? (·.short == t)

def ofLong? (t : Text) : Option Switch := all.find? (·.long == t)

end Switch

/-- An argument as it was written. An option has its long name or its letter, alone or with text
attached: behind an equals sign, or directly behind the letter. -/
inductive Argument where
  | positional
  | mark
  | unknown
  | long (s : Switch) (attached : Option Text)
  | letter (s : Switch) (attached : Option Text)
  deriving DecidableEq, Repr

inductive Misuse where
  | ambiguous (argument : Text) (candidates : List Switch)
  | valueExpected (switch : Switch)
  | valueIgnored (switch : Switch) (value : Text)
  | unrecognized (arguments : List Text)
  deriving DecidableEq, Repr

namespace Misuse

def display (s : Switch) : String := s!"argument {s.short.asString}/{s.long.asString}"

def message : Misuse → String
  | ambiguous argument candidates =>
    let longs := String.intercalate ", " (candidates.map fun s => s.long.asString)
    s!"ambiguous option: {argument.asString} could match {longs}"
  | valueExpected s => s!"{display s}: expected one argument"
  | valueIgnored s value => s!"{display s}: ignored explicit argument {value.spelled.asString}"
  | unrecognized arguments =>
    let list := String.intercalate " " (arguments.map Text.asString)
    s!"unrecognized arguments: {list}"

end Misuse

/-- Digits to the end; a newline may stand behind them. -/
def digitsToEnd (t : Text) : Bool :=
  let digits := if t.getLast? = some '\n' then t.dropLast else t
  !digits.isEmpty && digits.all Text.isDigit

/-- A minus sign before a whole number or a fraction. -/
def isNegativeNumber : Text → Bool
  | '-' :: rest =>
    digitsToEnd rest ||
      match rest.dropWhile Text.isDigit with
      | '.' :: fraction => digitsToEnd fraction
      | _ => false
  | _ => false

/-- An argument without an equals sign and what is attached behind the first one. -/
def splitValue (t : Text) : Text × Option Text :=
  match t.dropWhile (· != '=') with
  | _ :: value => (t.takeWhile (· != '='), some value)
  | [] => (t, none)

/-- What looks like an option, but is none, can still be meant as a positional. -/
def notAnOption (t : Text) : Argument :=
  if isNegativeNumber t || t.contains ' ' then .positional else .unknown

def abbreviated (t : Text) : Except Misuse Argument :=
  let (start, value) := splitValue t
  match Switch.all.filter fun s => start.isPrefixOf s.long with
  | [] => .ok (notAnOption t)
  | [s] => .ok (.long s value)
  | candidates => .error (.ambiguous t candidates)

def attachedToLetter (t : Text) : Argument :=
  match Switch.ofShort? (t.take 2) with
  | some s => .letter s (some (t.drop 2))
  | none => notAnOption t

/-- An option written in full, with or without a value behind an equals sign. -/
def inFull? (t : Text) : Option Argument :=
  let (start, value) := splitValue t
  match Switch.ofShort? start, Switch.ofLong? start with
  | some s, _ => some (.letter s value)
  | none, some s => some (.long s value)
  | none, none => none

def classify (t : Text) : Except Misuse Argument :=
  match t with
  | '-' :: c :: _ =>
    match inFull? t with
    | some argument => .ok argument
    | none => if c = '-' then abbreviated t else .ok (attachedToLetter t)
  | _ => .ok .positional

/-- All arguments told apart; behind the first mark every one is a positional. -/
def classifyAll : List Text → Except Misuse (List (Text × Argument))
  | [] => .ok []
  | t :: ts =>
    if t = ['-', '-'] then .ok ((t, .mark) :: ts.map fun u => (u, .positional))
    else do
      let argument ← classify t
      let rest ← classifyAll ts
      .ok ((t, argument) :: rest)

structure Request where
  declaration : Option Text
  name : Option Text
  json : Bool
  format : Option Text
  verbose : Bool
  deriving DecidableEq, Repr

inductive Intent where
  | help
  | run (r : Request)
  deriving DecidableEq, Repr

/-- How far the arguments are taken: what they ask for, whether the positional is still to come,
and those nothing was found for. -/
structure Progress where
  request : Request
  awaiting : Bool
  extras : List Text
  deriving DecidableEq, Repr

def Progress.start : Progress := ⟨⟨none, none, false, none, false⟩, true, []⟩

def setValue (r : Request) (value : Text) : Switch → Request
  | .name => { r with name := some value }
  | .format => { r with format := some value }
  | _ => r

def setFlag (r : Request) : Switch → Request
  | .json => { r with json := true }
  | .verbose => { r with verbose := true }
  | _ => r

/-- What one argument switches on: flags, and behind them perhaps a switch that takes a value,
with the value if the argument holds it. -/
structure Bundle where
  flags : List Switch
  valued : Option (Switch × Option Text)
  deriving DecidableEq, Repr

def single (s : Switch) : Bundle :=
  if s.takesValue then ⟨[], some (s, none)⟩ else ⟨[s], none⟩

/-- A mark in the place of a value stands for no text. -/
def unmarked (t : Text) : Text := if t = ['-', '-'] then [] else t

/-- A switch with a value; a flag has no use for one. -/
def withValue (s : Switch) (value : Text) : Except Misuse Bundle :=
  if s.takesValue then .ok ⟨[], some (s, some (unmarked value))⟩ else .error (.valueIgnored s value)

/-- A letter and what is behind it: the value of a switch that takes one, else more letters. An
equals sign in front of them is gone already; a later one is a character like any other. -/
def bundle (s : Switch) : Text → Except Misuse Bundle
  | [] => .ok (single s)
  | c :: rest =>
    if s.takesValue then withValue s (c :: rest)
    else match Switch.ofShort? ['-', c] with
      | none => .error (.valueIgnored s (c :: rest))
      | some next => (bundle next rest).map fun b => { b with flags := s :: b.flags }

def bundle? : Argument → Option (Except Misuse Bundle)
  | .long s none | .letter s none => some (.ok (single s))
  | .long s (some value) => some (withValue s value)
  | .letter s (some []) => some (withValue s [])
  | .letter s (some attached) => some (bundle s attached)
  | _ => none

def Progress.setDeclaration (p : Progress) (t : Text) : Progress :=
  { p with request := { p.request with declaration := some t }, awaiting := false }

def Progress.leave (p : Progress) (ts : List Text) : Progress := { p with extras := p.extras ++ ts }

/-- The flags of a bundle are set and its value, if it has a switch that takes one; `none` if
they ask for help. -/
def Progress.apply? (p : Progress) (b : Bundle) (value : Text) : Option Progress :=
  if b.flags.contains .help then none
  else
    let r := b.flags.foldl setFlag p.request
    some { p with request := match b.valued with
      | some (s, _) => setValue r value s
      | none => r }

/-- A mark behind the positional belongs to it. -/
def dropMark : List (Text × Argument) → List (Text × Argument)
  | (_, .mark) :: rest => rest
  | arguments => arguments

theorem dropMarkLength (arguments : List (Text × Argument)) :
    (dropMark arguments).length ≤ arguments.length := by
  unfold dropMark; split <;> simp

/-- The arguments in order; `none` as soon as help is asked for. The positional is taken once,
together with a mark before it. -/
def take (p : Progress) : List (Text × Argument) → Except Misuse (Option Progress)
  | [] => .ok (some p)
  | (t, argument) :: rest =>
    match bundle? argument, argument with
    | some (.error misuse), _ => .error misuse
    | some (.ok b), _ =>
      match b.valued with
      | some (s, none) =>
        match rest with
        | (value, .positional) :: rest =>
          match p.apply? b value with
          | none => .ok none
          | some p => take p rest
        | _ => .error (.valueExpected s)
      | valued =>
        match p.apply? b ((valued.bind (·.2)).getD []) with
        | none => .ok none
        | some p => take p rest
    | none, .positional =>
      if p.awaiting then take (p.setDeclaration t) (dropMark rest) else take (p.leave [t]) rest
    | none, .mark =>
      if p.awaiting then
        match rest with
        | [] => .ok (some p)
        | (u, _) :: rest => take (p.setDeclaration u) rest
      else take (p.leave [t]) rest
    | none, _ => take (p.leave [t]) rest
termination_by arguments => arguments.length
decreasing_by all_goals first | exact Nat.lt_succ_of_le (dropMarkLength _) | (simp; try omega)

def read (arguments : List Text) : Except Misuse Intent := do
  let classified ← classifyAll arguments
  match ← take .start classified with
  | none => .ok .help
  | some p => if p.extras = [] then .ok (.run p.request) else .error (.unrecognized p.extras)

end ColumnDecl.CommandLine
