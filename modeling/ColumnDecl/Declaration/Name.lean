import ColumnDecl.Declaration.Modifier

/-! The name before a type. A word that is a type keyword is the type itself when only a type can
be followed by what follows it: a parameter list, a delimiter, a modifier or nothing. -/
namespace ColumnDecl.Declaration

/-- A name, empty when none was given, and the tokens of the type behind it. -/
structure Named where
  name : Text
  head : Token
  rest : List Token
  deriving DecidableEq, Repr

/-- These tokens can stand directly behind a type keyword, but not behind a name. -/
def followsTypeOnly : List Token → Bool
  | [] => true
  | t :: _ => t.tag == .opening || t.isDelimiter || (modifier? t).isSome

/-- Neither a name nor an unknown word can be followed by these. -/
def followsKnownOnly : List Token → Bool
  | [] => true
  | t :: _ => t.tag == .opening || t.isDelimiter

def givenName (s : Scope) (t : Token) : List Token → Except Failure Named
  | [] => s.faultOn (.missingType t.value) t
  | head :: rest =>
    if head.isDelimiter then s.faultOn (.missingType t.value) t else .ok ⟨t.value, head, rest⟩

def named (s : Scope) (t : Token) (ts : List Token) : Except Failure Named :=
  match t.tag with
  | .quotedIdentifier => givenName s t ts
  | .identifier =>
    match s.keyword? (t :: ts) with
    | some hit => if followsTypeOnly hit.rest then .ok ⟨[], t, ts⟩ else givenName s t ts
    | none =>
      if followsKnownOnly ts then s.faultOn (.unknownType t.value) t else givenName s t ts
  | _ => s.faultOn (.nameOrTypeExpected t.raw) t

end ColumnDecl.Declaration
