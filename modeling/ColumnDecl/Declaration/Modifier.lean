import ColumnDecl.Declaration.Scope
import ColumnDecl.Token.Bracket

/-! What may follow a type. `NULL` and `NOT NULL` belong to the type text, and the last of them
decides; a clause such as `DEFAULT` runs to the end of the declaration and is not looked into. -/
namespace ColumnDecl.Declaration

inductive Modifier where
  | null | not | clause
  deriving DecidableEq, Repr

def clauseWords : List String :=
  ["DEFAULT", "MATERIALIZED", "ALIAS", "EPHEMERAL", "CODEC", "TTL", "COMMENT"]

def Modifier.ofWord? (word : Text) : Option Modifier :=
  let word := Text.upper word
  if word = "NULL".toList then some .null
  else if word = "NOT".toList then some .not
  else if clauseWords.any (·.toList == word) then some .clause
  else none

def modifier? (t : Token) : Option Modifier :=
  if t.tag = .identifier then Modifier.ofWord? t.value else none

/-- What follows a type: whether `NULL` was said last, where the type text ends, and the tokens
from the delimiter on. -/
structure Suffix where
  nullable : Bool
  stop : Nat
  rest : List Token
  deriving DecidableEq, Repr

def suffix (s : Scope) (nullable : Bool) (stop : Nat) : List Token → Except Failure Suffix
  | [] => .ok ⟨nullable, stop, []⟩
  | t :: ts =>
    if t.isDelimiter then .ok ⟨nullable, stop, t :: ts⟩
    else match modifier? t with
      | some .null => suffix s true t.stop ts
      | some .not =>
        match ts with
        | [] => s.faultOn .nullExpectedAfterNot t
        | n :: rest =>
          if modifier? n = some .null then suffix s false n.stop rest
          else s.faultOn .nullExpectedAfterNot t
      | some .clause => .ok ⟨nullable, stop, (Token.cut ts).2⟩
      | none => s.faultOn (.unexpectedInDeclaration t.raw) t

end ColumnDecl.Declaration
