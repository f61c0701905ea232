import ColumnDecl.Column
import ColumnDecl.Value

/-! Records: one value for each column, found by position or by the column's name. Of columns with
one name a lookup finds the first, and so does the view as an object keep the first one's place,
but with the value of the last. -/
namespace ColumnDecl

structure Record where
  columns : List Column
  values : List Value
  deriving Repr

/-- A row with another number of values than there are columns. -/
structure WidthMismatch where
  values : Nat
  columns : Nat
  deriving DecidableEq, Repr

def WidthMismatch.message (m : WidthMismatch) : String :=
  s!"Record has {m.values} value(s) but {m.columns} column(s)"

namespace Record

def ofRow (columns : List Column) (values : List Value) : Except WidthMismatch Record :=
  if values.length = columns.length then .ok ⟨columns, values⟩
  else .error ⟨values.length, columns.length⟩

def size (r : Record) : Nat := r.values.length

def indexOf (r : Record) (name : Text) : Except Missing Nat :=
  match r.columns.findIdx? (·.name == name) with
  | some i => .ok i
  | none => .error (.column name)

/-- The value at a position; a negative one counts from the end. -/
def at? (r : Record) (index : Int) : Option Value :=
  let i := if index < 0 then index + r.size else index
  if i < 0 then none else r.values[i.toNat]?

def outOfRange : String := "tuple index out of range"

def get (r : Record) (name : Text) : Except Missing Value := do
  let i ← r.indexOf name
  match r.values[i]? with
  | some v => .ok v
  | none => .error (.column name)

/-- A position in the record; one before the start or past the end is moved there. -/
def clip (r : Record) (index : Int) : Nat :=
  if index < 0 then (index + r.size).toNat else min index.toNat r.size

def slice (r : Record) (start stop : Option Int) : List Value :=
  let first := (start.map r.clip).getD 0
  let last := (stop.map r.clip).getD r.size
  (r.values.drop first).take (last - first)

/-- Gives a member its value, in its old place when the key is there already. -/
def insert (key : Text) (v : Value) : List (Text × Value) → List (Text × Value)
  | [] => [(key, v)]
  | (k, w) :: rest => if k = key then (k, v) :: rest else (k, w) :: insert key v rest

/-- The values by column name, in the order in which the names first come. -/
def members (r : Record) : List (Text × Value) :=
  (r.columns.zip r.values).foldl (fun ms p => insert p.1.name p.2 ms) []

/-- Records agree when their values do, one by one, and they are of the same columns. -/
def agrees (r s : Record) : Bool := Value.agreesAll r.values s.values && r.columns == s.columns

def spelled (r : Record) : Text :=
  "Record(".toList ++ (Value.object r.members).spelled ++ [')']

end Record
end ColumnDecl
