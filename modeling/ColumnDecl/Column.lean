import ColumnDecl.Aggregate
import ColumnDecl.EnumTable

/-! A column: the name and the exact type text, and what the type says about the data. Wrapping
types leave only a flag. A draft is a column before it is checked, with a length that may still be
derived from the kind. -/
namespace ColumnDecl

structure Column where
  name : Text
  typeText : Text
  kind : Kind
  nullable : Bool
  lowCardinality : Bool
  fixedLength : Bool
  estimatedLength : Int
  nested : List Column
  enumTable : Option EnumTable
  aggregate : Option Aggregate
  signature : Option Text
  precision : Option Int
  scale : Option Int
  timeZone : Option Text
  deriving Repr

namespace Column

/-- All of a column but the columns nested in it. -/
structure Traits where
  name : Text
  typeText : Text
  kind : Kind
  nullable : Bool
  lowCardinality : Bool
  fixedLength : Bool
  estimatedLength : Int
  enumTable : Option EnumTable
  aggregate : Option Aggregate
  signature : Option Text
  precision : Option Int
  scale : Option Int
  timeZone : Option Text
  deriving DecidableEq, Repr

def traits (c : Column) : Traits :=
  ⟨c.name, c.typeText, c.kind, c.nullable, c.lowCardinality, c.fixedLength, c.estimatedLength,
    c.enumTable, c.aggregate, c.signature, c.precision, c.scale, c.timeZone⟩

theorem extTraits {a b : Column} (h : a.traits = b.traits) (hn : a.nested = b.nested) : a = b := by
  cases a; cases b; simp_all [traits]

mutual
def same : (a b : Column) → Decidable (a = b)
  | ⟨n, t, k, nu, lc, f, e, xs, en, ag, sg, p, sc, z⟩,
    ⟨n', t', k', nu', lc', f', e', ys, en', ag', sg', p', sc', z'⟩ =>
    if h : Traits.mk n t k nu lc f e en ag sg p sc z =
        Traits.mk n' t' k' nu' lc' f' e' en' ag' sg' p' sc' z' then
      match sameList xs ys with
      | .isTrue hn => .isTrue (extTraits h hn)
      | .isFalse hn => .isFalse fun e => hn (congrArg Column.nested e)
    else .isFalse fun e => h (congrArg traits e)

def sameList : (xs ys : List Column) → Decidable (xs = ys)
  | [], [] => .isTrue rfl
  | [], _ :: _ => .isFalse nofun
  | _ :: _, [] => .isFalse nofun
  | x :: xs, y :: ys =>
    match same x y with
    | .isTrue hx =>
      match sameList xs ys with
      | .isTrue hxs => .isTrue (by rw [hx, hxs])
      | .isFalse hxs => .isFalse fun e => hxs (List.cons.inj e).2
    | .isFalse hx => .isFalse fun e => hx (List.cons.inj e).1
end

instance : DecidableEq Column := same

mutual
/-- How many arrays are stacked, from this column on along the first nested ones. -/
def arrayLevel : Column → Nat
  | { kind, nested, .. } => if kind = .array then firstArrayLevel nested else 0

def firstArrayLevel : List Column → Nat
  | [] => 0
  | c :: _ => c.arrayLevel + 1
end

mutual
def arrayBase? : Column → Option Column
  | { kind, nested, .. } => if kind = .array then firstArrayBase? nested else none

def firstArrayBase? : List Column → Option Column
  | [] => none
  | c :: _ => if c.kind = .array then c.arrayBase? else some c
end

def keyColumn? (c : Column) : Option Column := if c.kind = .map then c.nested[0]? else none

def valueColumn? (c : Column) : Option Column := if c.kind = .map then c.nested[1]? else none

def decimalWidth (precision : Int) : Except Cause Nat :=
  if precision ≤ 9 then .ok 4
  else if precision ≤ 18 then .ok 8
  else if precision ≤ 38 then .ok 16
  else if precision ≤ 76 then .ok 32
  else .error (.precisionOutOfRange precision)

/-- Whether values have one length, and the length to expect; a variable one is given as 1. -/
def lengthOf (kind : Kind) (precision : Option Int) : Except Cause (Bool × Int) :=
  let byWidth := if kind.width = 0 then (false, 1) else (true, (kind.width : Int))
  match precision with
  | none => .ok byWidth
  | some p =>
    if p = 0 then .ok byWidth
    else if kind = .fixedString then .ok (true, p)
    else if kind = .decimal then (decimalWidth p).map fun w => (true, (w : Int))
    else .ok byWidth

structure Draft where
  name : Text
  typeText : Text
  kind : Kind
  nullable : Bool := false
  lowCardinality : Bool := false
  fixedLength : Option Bool := none
  estimatedLength : Option Int := none
  nested : List Column := []
  enumTable : Option EnumTable := none
  aggregate : Option Aggregate := none
  signature : Option Text := none
  precision : Option Int := none
  scale : Option Int := none
  timeZone : Option Text := none
  deriving Repr

namespace Draft

/-- What the number of nested columns should be, when it is not that. -/
def arityFault? (d : Draft) : Option Cause :=
  let count := d.nested.length
  let wanted (text : String) := some (Cause.arity d.kind text count)
  match d.kind with
  | .array => if count = 1 then none else wanted "exactly one element type"
  | .map => if count = 2 then none else wanted "exactly two types (key and value)"
  | .tuple | .nested => if count = 0 then wanted "at least one element type" else none
  | .simpleAggregateFunction => if count = 1 then none else wanted "exactly one argument type"
  | _ => none

def fault? (d : Draft) : Option Cause :=
  if d.kind.isWrapper || d.kind == .enum then some (.unresolvedKind d.kind)
  else if let some cause := d.arityFault? then some cause
  else if d.kind.isEnum && d.enumTable.isNone then some (.enumTableRequired d.kind)
  else if d.kind = .nested then
    (d.nested.find? (·.name.isEmpty)).map fun c => .unnamedField c.typeText
  else none

/-- The length of the column; what the draft leaves open follows from the kind. -/
def length (d : Draft) : Except Cause (Bool × Int) :=
  match d.fixedLength, d.estimatedLength with
  | some fixed, some estimated => .ok (fixed, estimated)
  | fixed, estimated =>
    (lengthOf d.kind d.precision).map fun own => (fixed.getD own.1, estimated.getD own.2)

def withLength (d : Draft) (length : Bool × Int) : Column :=
  { d with fixedLength := length.1, estimatedLength := length.2 }

end Draft

/-- The column of a draft that breaks no rule. A fault names the type text; only a precision
without a width is reported alone. -/
def ofDraft (d : Draft) : Except Fault Column :=
  match d.fault? with
  | some cause => .error ⟨cause, some d.typeText, none, none⟩
  | none =>
    match d.length with
    | .error cause => .error ⟨cause, none, none, none⟩
    | .ok length => .ok (d.withLength length)

end Column
end ColumnDecl
