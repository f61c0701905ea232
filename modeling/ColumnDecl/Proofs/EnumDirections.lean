import ColumnDecl.Proofs.EnumTable
import ColumnDecl.Proofs.Text.Apart

/-! Both directions of an enum table. The loop that makes a table stops at the first pair that brings
a name or a code again. If it stops nowhere, a name is read as the code and a code as the name of the
one pair that holds it, and what no pair holds is missing. -/
namespace ColumnDecl.EnumTable

variable {t : EnumTable} {name : Text} {code : Int} {missing : Missing}

/-- What a table says is what these pairs say, each of them in both directions. -/
structure Mirrors (t : EnumTable) (pairs : List (Text × Int)) : Prop where
  entries : t.entries = pairs
  code : ∀ name code, t.codeOf name = .ok code ↔ (name,code) ∈ pairs
  name : ∀ code name, t.nameOf code = .ok name ↔ (name,code) ∈ pairs
  codeless : ∀ name missing, t.codeOf name = .error missing ↔
    missing = .enumName name ∧ name ∉ pairs.map Prod.fst
  nameless : ∀ code missing, t.nameOf code = .error missing ↔
    missing = .enumCode code ∧ code ∉ pairs.map Prod.snd
  member : ∀ name, t.contains name = true ↔ ∃ code, t.codeOf name = .ok code
  names : t.names = pairs.map Prod.fst
  codes : t.codes = pairs.map Prod.snd
  size : t.size = pairs.length

end ColumnDecl.EnumTable
