import ColumnDecl.Text.Spelled

/-! Values of records and of exported columns: numbers, texts, and lists and objects of values. An
object keeps the order of its members. -/
namespace ColumnDecl

inductive Value where
  | null
  | bool (b : Bool)
  | int (i : Int)
  | text (t : Text)
  | list (items : List Value)
  | object (members : List (Text × Value))
  deriving Repr

namespace Value

def number? : Value → Option Int
  | bool b => some (if b then 1 else 0)
  | int i => some i
  | _ => none

/- Truth values count as the numbers one and zero, and the members of an object have no order:
each of one object must have an equal under its key in the other, which is no larger. -/
mutual
def agrees : Value → Value → Bool
  | null, null => true
  | text a, text b => a == b
  | list a, list b => agreesAll a b
  | object a, object b => a.length == b.length && agreesIn b a
  | a, b =>
    match a.number?, b.number? with
    | some m, some n => m == n
    | _, _ => false

def agreesAll : List Value → List Value → Bool
  | [], [] => true
  | a :: as, b :: bs => agrees a b && agreesAll as bs
  | _, _ => false

def agreesIn (other : List (Text × Value)) : List (Text × Value) → Bool
  | [] => true
  | (key, a) :: rest =>
    (match other.lookup key with
      | some b => agrees a b
      | none => false) && agreesIn other rest
end

mutual
def spelled : Value → Text
  | null => "None".toList
  | bool b => (if b then "True" else "False").toList
  | int i => (toString i).toList
  | text t => t.spelled
  | list items => '[' :: Text.join [',', ' '] (spelledAll items) ++ [']']
  | object members => '\x7b' :: Text.join [',', ' '] (spelledMembers members) ++ ['\x7d']

def spelledAll : List Value → List Text
  | [] => []
  | v :: vs => spelled v :: spelledAll vs

def spelledMembers : List (Text × Value) → List Text
  | [] => []
  | (key, v) :: rest => (key.spelled ++ [':', ' '] ++ spelled v) :: spelledMembers rest
end

end Value
end ColumnDecl
