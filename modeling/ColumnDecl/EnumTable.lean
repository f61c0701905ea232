import ColumnDecl.Fault
import ColumnDecl.Integer

/-! The constants of an enum: names with codes, in the order of declaration. A table is made from
pairs in which no name and no code comes twice, so it can be read in both directions. -/
namespace ColumnDecl

structure EnumTable where
  entries : List (Text × Int)
  deriving DecidableEq, Repr

inductive Missing where
  | enumCode (code : Int)
  | enumName (name : Text)
  | column (name : Text)
  deriving DecidableEq, Repr

def Missing.message : Missing → String
  | enumCode code => s!"Unknown enum value {code}"
  | enumName name => s!"Unknown enum name '{name.asString}'"
  | column name => s!"Column '{name.asString}' not found"

namespace EnumTable

/-- The first pair that repeats a name or a code of an earlier one; of one pair the name counts
first. `seen` holds the earlier pairs. -/
def clash? (seen : List (Text × Int)) : List (Text × Int) → Option Cause
  | [] => none
  | (name, code) :: rest =>
    if seen.any (·.1 == name) then some (.duplicateName name)
    else match seen.find? (·.2 == code) with
      | some earlier => some (.duplicateCode code name earlier.1)
      | none => clash? (seen ++ [(name, code)]) rest

def ofPairs (pairs : List (Text × Int)) : Except Cause EnumTable :=
  match clash? [] pairs with
  | some cause => .error cause
  | none => .ok ⟨pairs⟩

def fits (bits : Nat) (code : Int) : Bool :=
  -Int.pow 2 (bits - 1) ≤ code && code < Int.pow 2 (bits - 1)

/-- The table of these pairs as codes of a signed integer of `bits` bits. -/
def ofWidth (bits : Int) (pairs : List (Text × Int)) : Except Failure EnumTable :=
  let rejected (cause : Cause) := Failure.rejected ⟨cause, none, none, none⟩
  if pairs = [] then .error (rejected .emptyEnum)
  else if bits ≤ 0 then .error .negativeShift
  else match pairs.find? fun p => !fits bits.toNat p.2 with
    | some (name, code) =>
      if Integer.isWritable code then .error (rejected (.codeOutOfRange name code bits.toNat))
      else .error .unwritableNumber
    | none => (ofPairs pairs).mapError rejected

def nameOf (t : EnumTable) (code : Int) : Except Missing Text :=
  match t.entries.find? (·.2 == code) with
  | some (name, _) => .ok name
  | none => .error (.enumCode code)

def codeOf (t : EnumTable) (name : Text) : Except Missing Int :=
  match t.entries.lookup name with
  | some code => .ok code
  | none => .error (.enumName name)

def contains (t : EnumTable) (name : Text) : Bool := t.entries.any (·.1 == name)

def names (t : EnumTable) : List Text := t.entries.map Prod.fst

def codes (t : EnumTable) : List Int := t.entries.map Prod.snd

def size (t : EnumTable) : Nat := t.entries.length

end EnumTable
end ColumnDecl
