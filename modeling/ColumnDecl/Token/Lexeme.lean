import ColumnDecl.Text.Blank
import ColumnDecl.Text.Digit
import ColumnDecl.Token

/-! The spellings of tokens. The rules are tried in a fixed order, and each takes as many
characters as it can: quoted text, numbers, identifiers, and then single characters. -/
namespace ColumnDecl.Token

def isHexDigit (c : Char) : Bool :=
  ('0' ≤ c && c ≤ '9') || ('a' ≤ c && c ≤ 'f') || ('A' ≤ c && c ≤ 'F')

def isNameStart (c : Char) : Bool :=
  ('a' ≤ c && c ≤ 'z') || ('A' ≤ c && c ≤ 'Z') || c == '_'

def isNameChar (c : Char) : Bool := isNameStart c || ('0' ≤ c && c ≤ '9')

/-- Characters of a name behind its first one; a dot joins two names when one follows it. -/
def nameTail : Text → Nat
  | [] => 0
  | [c] => if isNameChar c then 1 else 0
  | c :: d :: rest =>
    if isNameChar c || (c == '.' && isNameChar d) then nameTail (d :: rest) + 1 else 0

def run (p : Char → Bool) (t : Text) : Nat := (t.takeWhile p).length

def signLength : Text → Nat
  | c :: _ => if c = '+' ∨ c = '-' then 1 else 0
  | [] => 0

/-- An exponent needs a digit; without one it is not part of the number. -/
def exponentLength : Text → Nat
  | c :: rest =>
    if c = 'e' ∨ c = 'E' then
      let sign := signLength rest
      match run Text.isDigit (rest.drop sign) with
      | 0 => 0
      | n + 1 => 1 + sign + (n + 1)
    else 0
  | [] => 0

def fractionLength : Text → Nat
  | '.' :: rest => 1 + run Text.isDigit rest
  | _ => 0

def hexLength : Text → Nat
  | '0' :: x :: rest =>
    if x = 'x' ∨ x = 'X' then
      match run isHexDigit rest with
      | 0 => 0
      | n + 1 => 2 + (n + 1)
    else 0
  | _ => 0

/-- A decimal number has digits before its point or behind it. -/
def decimalLength (t : Text) : Nat :=
  match run Text.isDigit t with
  | 0 =>
    match fractionLength t with
    | 0 | 1 => 0
    | n + 2 => (n + 2) + exponentLength (t.drop (n + 2))
  | n + 1 =>
    let whole := (n + 1) + fractionLength (t.drop (n + 1))
    whole + exponentLength (t.drop whole)

/-- Length of the number a text begins with, zero when it begins with none. -/
def numberLength (t : Text) : Nat :=
  let sign := signLength t
  let body := t.drop sign
  match hexLength body with
  | 0 =>
    match decimalLength body with
    | 0 => 0
    | n + 1 => sign + (n + 1)
  | n + 1 => sign + (n + 1)

def quoteTag? (c : Char) : Option Tag :=
  if c = '\x60' ∨ c = '"' then some .quotedIdentifier else if c = '\'' then some .string else none

def singleTag? (c : Char) : Option Tag :=
  if c = '(' then some .opening
  else if c = ')' then some .closing
  else if c = ',' then some .comma
  else if c = '=' then some .equals
  else if Text.isBlank c then none
  else some .other

/-- The tag of the token that begins with `c`, and how many characters of `rest` belong to it. -/
def lexeme? (c : Char) (rest : Text) : Option (Tag × Nat) :=
  match quoteTag? c with
  | some tag => (Text.quotedTail c rest).map (tag, ·)
  | none =>
    match numberLength (c :: rest) with
    | n + 1 => some (.number, n)
    | 0 =>
      if isNameStart c then some (.identifier, nameTail rest)
      else (singleTag? c).map (·, 0)

end ColumnDecl.Token
