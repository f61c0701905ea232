import ColumnDecl.Text

/-! Quoted text. Inside it a backslash escapes the next character, unless that is a newline, and
the quote written twice stands for itself. A doubled quote that nothing later can close closes
the text with its first half. -/
namespace ColumnDecl.Text

/-- Characters up to and including the closing quote, counted behind the opening one. -/
def quotedTail (q : Char) : Text → Option Nat
  | [] => none
  | [c] => if c = q then some 1 else none
  | c :: d :: rest =>
    if c = q then
      if d = q then
        match quotedTail q rest with
        | some n => some (n + 2)
        | none => some 1
      else some 1
    else if c = '\\' then
      if d = '\n' then none else (quotedTail q rest).map (· + 2)
    else (quotedTail q (d :: rest)).map (· + 1)

/-- What a backslash and this character stand for. -/
def escaped (c : Char) : Char :=
  match c with
  | 'n' => '\n'
  | 't' => '\t'
  | 'r' => '\r'
  | '0' => '\x00'
  | 'b' => '\x08'
  | 'f' => '\x0c'
  | _ => c

def unescape (q : Char) : Text → Text
  | [] => []
  | [c] => [c]
  | c :: d :: rest =>
    if c = '\\' then escaped d :: unescape q rest
    else if c = q ∧ d = q then q :: unescape q rest
    else c :: unescape q (d :: rest)

/-- The text between the quotes; the first character is the quote, the last one is dropped. -/
def unquote? : Text → Option Text
  | [] => none
  | q :: rest => some (unescape q rest.dropLast)

theorem quotedTailBounds {q : Char} {t : Text} {n : Nat} (h : quotedTail q t = some n) :
    0 < n ∧ n ≤ t.length := by
  fun_induction quotedTail q t generalizing n <;> simp_all <;> grind

end ColumnDecl.Text
