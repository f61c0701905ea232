import ColumnDecl.Column
import ColumnDecl.Declaration.Argument

/-! Literal parameters: lengths, precisions and scales within their ranges, time zones, and the
constants of an enum. -/
namespace ColumnDecl.Declaration

structure Parameters where
  precision : Option Int
  scale : Option Int
  timeZone : Option Text
  deriving DecidableEq, Repr

def single (s : Scope) (what : String) (a : Argument) : Except Failure Token :=
  match a.tokens with
  | [t] => .ok t
  | _ => s.faultOver (.parameterExpected what) a.start a.stop

def integer (s : Scope) (what : String) : Option Token → Except Failure Int
  | none => .error (.rejected ⟨.notAnInteger what none, some s.text, none, none⟩)
  | some t =>
    match if t.tag = .number then Integer.read? t.raw else none with
    | some value => .ok value
    | none => s.faultOn (.notAnInteger what (some t.raw)) t

/-- An integer between `low` and `high`. One that cannot be written cannot be reported either. -/
def bounded (s : Scope) (what : String) (low high : Int) (a : Argument) : Except Failure Int := do
  let t ← single s what a
  let value ← integer s what (some t)
  if low ≤ value ∧ value ≤ high then .ok value
  else if Integer.isWritable value then s.faultOver (.outOfRange what low high value) a.start a.stop
  else .error .unwritableNumber

def quotedString (s : Scope) (start : Nat) : Option Token → Except Failure Text
  | none => s.faultAt (.expected "quoted string" none) start
  | some t =>
    if t.tag = .string then .ok t.value
    else s.faultOn (.expected "quoted string" (some t.raw)) t

def timeZone (s : Scope) (a : Argument) : Except Failure Text := do
  let t ← single s "quoted time zone" a
  quotedString s t.start (some t)

/-- A fault over all arguments, from the start of the first to the stop of the last. -/
def faultOverAll {α : Type} (s : Scope) (cause : Cause) (items : List Argument) :
    Except Failure α :=
  s.faultOver cause ((items.head?.map Argument.start).getD 0) ((items.getLast?.map Argument.stop).getD 0)

def wrongCount {α : Type} (s : Scope) (kind : Kind) (low high : Nat) (items : List Argument) :
    Except Failure α :=
  faultOverAll s (.parameterCount kind low high items.length) items

def maxLength : Int := Int.pow 2 31 - 1

def decimal (s : Scope) (items : List Argument) : Except Failure Parameters :=
  match items with
  | [p] => do
    let precision ← bounded s "Decimal precision" 1 76 p
    .ok ⟨some precision, some 0, none⟩
  | [p, q] => do
    let precision ← bounded s "Decimal precision" 1 76 p
    let scale ← bounded s "Decimal scale" 0 precision q
    .ok ⟨some precision, some scale, none⟩
  | _ => wrongCount s .decimal 1 2 items

def fractionalTime (s : Scope) (items : List Argument) : Except Failure Parameters :=
  match items with
  | [p] => do
    let scale ← bounded s "DateTime64 precision" 0 9 p
    .ok ⟨none, some scale, none⟩
  | [p, z] => do
    let scale ← bounded s "DateTime64 precision" 0 9 p
    let zone ← timeZone s z
    .ok ⟨none, some scale, some zone⟩
  | _ => wrongCount s .dateTime64 1 2 items

def parameters (s : Scope) (kind : Kind) (items : List Argument) : Except Failure Parameters :=
  match kind with
  | .decimal => decimal s items
  | .dateTime64 => fractionalTime s items
  | _ =>
    match items with
    | [a] =>
      if kind = .fixedString then do
        let length ← bounded s "FixedString length" 1 maxLength a
        .ok ⟨some length, none, none⟩
      else match kind.sizedPrecision? with
        | some precision => do
          let scale ← bounded s s!"{kind.name} scale" 0 precision a
          .ok ⟨some (precision : Int), some scale, none⟩
        | none => do
          let zone ← timeZone s a
          .ok ⟨none, none, some zone⟩
    | _ => wrongCount s kind 1 1 items

/-- One constant of an enum, a quoted name, an equals sign and a code. -/
def constant (s : Scope) (a : Argument) : Except Failure (Text × Int) := do
  let label ← quotedString s a.start a.tokens.head?
  match a.tokens.tail with
  | [] => s.faultOver (.equalsExpected label) a.start a.stop
  | e :: rest =>
    if e.tag = .equals then do
      let code ← integer s s!"Value of enum name {Cause.quoted label}" rest.head?
      match rest.tail with
      | [] => .ok (label, code)
      | t :: _ => s.faultOn (.unexpectedAfterCode t.raw) t
    else s.faultOver (.equalsExpected label) a.start a.stop

/-- The sized kind of an enum; the unsized one takes one byte if all codes fit. -/
def enumKind (kind : Kind) (pairs : List (Text × Int)) : Kind :=
  if kind = .enum then (if pairs.all fun p => EnumTable.fits 8 p.2 then .enum8 else .enum16)
  else kind

def enumeration (s : Scope) (kind : Kind) (items : List Argument) :
    Except Failure (Kind × EnumTable) := do
  let pairs ← items.mapM (constant s)
  let kind := enumKind kind pairs
  match EnumTable.ofWidth (kind.enumBits?.getD 0) pairs with
  | .ok table => .ok (kind, table)
  | .error (.rejected fault) => faultOverAll s fault.cause items
  | .error failure => .error failure

end ColumnDecl.Declaration
