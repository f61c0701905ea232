import ColumnDecl.Column

/-! A column as lines of text: one for the column and one for each column nested in it, indented by
its level. -/
namespace ColumnDecl.Column

def label (c : Column) : String := if c.name = [] then "<anonymous>" else c.name.asString

def constants (t : EnumTable) : String :=
  String.intercalate ", " (t.entries.map fun e => s!"{e.1.asString}={e.2}")

def details (c : Column) : List String :=
  [c.kind.name] ++
  (if c.nullable then ["nullable"] else []) ++
  (if c.lowCardinality then ["low_cardinality"] else []) ++
  (if c.fixedLength then [s!"fixed {c.estimatedLength}B"] else []) ++
  (c.precision.map fun p => s!"precision={p}").toList ++
  (c.scale.map fun p => s!"scale={p}").toList ++
  (c.timeZone.map fun z => s!"tz={z.asString}").toList ++
  (c.signature.map fun f => s!"function={f.asString}").toList ++
  (c.enumTable.map fun t => s!"values=\x7b{constants t}\x7d").toList

def line (level : Nat) (c : Column) : String :=
  let indent := String.ofList (List.replicate (2 * level) ' ')
  let details := String.intercalate ", " c.details
  s!"{indent}{c.label}: {c.typeText.asString} ({details})"

mutual
def outline (level : Nat) : Column → List String
  | ⟨n, t, k, nu, lc, f, e, nested, en, ag, sg, p, s, z⟩ =>
    line level ⟨n, t, k, nu, lc, f, e, nested, en, ag, sg, p, s, z⟩ :: outlines (level + 1) nested

def outlines (level : Nat) : List Column → List String
  | [] => []
  | c :: cs => outline level c ++ outlines level cs
end

end ColumnDecl.Column
