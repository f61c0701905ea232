import ColumnDecl.Text.Quoted

/-! Tokens. A token keeps its source text and the offset it starts at, so its end and its value
follow from these. -/
namespace ColumnDecl

inductive Token.Tag where
  | identifier | quotedIdentifier | string | number | opening | closing | comma | equals | other
  deriving DecidableEq, Repr

structure Token where
  tag : Token.Tag
  raw : Text
  start : Nat
  deriving DecidableEq, Repr

namespace Token

def stop (t : Token) : Nat := t.start + t.raw.length

/-- The text a token stands for: quotes and escapes are resolved, all else is taken as written. -/
def value (t : Token) : Text :=
  match t.tag with
  | .string | .quotedIdentifier => (Text.unquote? t.raw).getD []
  | _ => t.raw

/-- A comma or a closing parenthesis ends a declaration. -/
def isDelimiter (t : Token) : Bool := t.tag == .comma || t.tag == .closing

end Token
end ColumnDecl
