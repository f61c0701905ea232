import ColumnDecl.Value

/-! Values as JSON text in ASCII, one item or member a line, two spaces for each level. Characters
beyond the sixteen-bit range are written as a pair of surrogates. -/
namespace ColumnDecl.Value

def jsonUnit (n : Nat) : Text := '\\' :: 'u' :: Text.hexDigits 4 n

def jsonChar (c : Char) : Text :=
  let n := c.toNat
  if c = '"' then ['\\', '"']
  else if c = '\\' then ['\\', '\\']
  else if c = '\n' then ['\\', 'n']
  else if c = '\r' then ['\\', 'r']
  else if c = '\t' then ['\\', 't']
  else if c = '\x08' then ['\\', 'b']
  else if c = '\x0c' then ['\\', 'f']
  else if 0x20 ≤ n ∧ n < 0x7f then [c]
  else if n ≤ 0xffff then jsonUnit n
  else jsonUnit (0xd800 + (n - 0x10000) / 0x400) ++ jsonUnit (0xdc00 + (n - 0x10000) % 0x400)

def jsonText (t : Text) : Text := '"' :: t.flatMap jsonChar ++ ['"']

def lineBreak (level : Nat) : Text := '\n' :: List.replicate (2 * level) ' '

def bracketed (opening closing : Char) (level : Nat) (items : List Text) : Text :=
  if items = [] then [opening, closing]
  else opening :: (lineBreak (level + 1) ++ Text.join (',' :: lineBreak (level + 1)) items ++
    lineBreak level ++ [closing])

mutual
/-- The JSON text of a value that stands `level` brackets deep. -/
def json (level : Nat) : Value → Text
  | null => "null".toList
  | bool b => (if b then "true" else "false").toList
  | int i => (toString i).toList
  | text t => jsonText t
  | list items => bracketed '[' ']' level (jsonAll (level + 1) items)
  | object members => bracketed '\x7b' '\x7d' level (jsonMembers (level + 1) members)

def jsonAll (level : Nat) : List Value → List Text
  | [] => []
  | v :: vs => json level v :: jsonAll level vs

def jsonMembers (level : Nat) : List (Text × Value) → List Text
  | [] => []
  | (key, v) :: rest => (jsonText key ++ [':', ' '] ++ json level v) :: jsonMembers level rest
end

end ColumnDecl.Value
