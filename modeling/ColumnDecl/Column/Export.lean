import ColumnDecl.Column
import ColumnDecl.Value

/-! A column as a value. What a column does not have is left out, so a member that is absent differs
from one that is empty or zero. -/
namespace ColumnDecl

def EnumTable.toValue (t : EnumTable) : Value :=
  .object (t.entries.map fun e => (e.1, .int e.2))

namespace Column

def given (key : String) (v : Option Value) : List (Text × Value) :=
  match v with
  | some v => [(key.toList, v)]
  | none => []

def alwaysMembers (c : Column) : List (Text × Value) := [
  ("name".toList, .text c.name),
  ("type".toList, .text c.typeText),
  ("data_type".toList, .text c.kind.name.toList),
  ("nullable".toList, .bool c.nullable),
  ("low_cardinality".toList, .bool c.lowCardinality),
  ("fixed_length".toList, .bool c.fixedLength),
  ("estimated_length".toList, .int c.estimatedLength)]

def optionalMembers (c : Column) : List (Text × Value) :=
  given "precision" (c.precision.map .int) ++
  given "scale" (c.scale.map .int) ++
  given "time_zone" (c.timeZone.map .text) ++
  given "function" (c.signature.map .text) ++
  given "aggregate_function" (c.aggregate.map fun f => .text f.name.toList) ++
  given "enum_constants" (c.enumTable.map EnumTable.toValue) ++
  given "array_nested_level"
    (if c.kind = .array then some (.int c.arrayLevel) else none)

mutual
def toValue : Column → Value
  | ⟨n, t, k, nu, lc, f, e, nested, en, ag, sg, p, s, z⟩ =>
    let c : Column := ⟨n, t, k, nu, lc, f, e, nested, en, ag, sg, p, s, z⟩
    .object (c.alwaysMembers ++ c.optionalMembers ++
      match nested with
      | [] => []
      | _ :: _ => [("nested_columns".toList, .list (toValues nested))])

def toValues : List Column → List Value
  | [] => []
  | c :: cs => toValue c :: toValues cs
end

end Column
end ColumnDecl
