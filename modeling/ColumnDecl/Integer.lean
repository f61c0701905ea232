import ColumnDecl.Text.Digit

/-! Integers in texts. A decimal literal takes the digits of any script, but no more than
`maxDigits` of them; a hexadecimal one has no such limit, so its value can be too long to write. -/
namespace ColumnDecl.Integer

def maxDigits : Nat := 4300

/-- The number can be written in decimal. -/
def isWritable (i : Int) : Bool := i.natAbs < Nat.pow 10 maxDigits

def hexDigit? (c : Char) : Option Nat :=
  if '0' ≤ c ∧ c ≤ '9' then some (c.toNat - '0'.toNat)
  else if 'a' ≤ c ∧ c ≤ 'f' then some (c.toNat - 'a'.toNat + 10)
  else if 'A' ≤ c ∧ c ≤ 'F' then some (c.toNat - 'A'.toNat + 10)
  else none

/-- Digits of one base, most significant first, read on from `value`. -/
def fold (base : Nat) (digit? : Char → Option Nat) (value : Nat) : Text → Option Nat
  | [] => some value
  | c :: cs => (digit? c).bind fun d => fold base digit? (value * base + d) cs

def hexadecimal? (digits : Text) : Option Nat :=
  if digits = [] then none else fold 16 hexDigit? 0 digits

def decimal? (digits : Text) : Option Nat :=
  if digits = [] ∨ maxDigits < digits.length then none else fold 10 Text.digit? 0 digits

def magnitude? : Text → Option Nat
  | '0' :: 'x' :: digits => hexadecimal? digits
  | '0' :: 'X' :: digits => hexadecimal? digits
  | digits => decimal? digits

/-- The value of an integer literal with at most one sign. -/
def read? : Text → Option Int
  | '-' :: digits => (magnitude? digits).map fun n => -(n : Int)
  | '+' :: digits => (magnitude? digits).map Int.ofNat
  | digits => (magnitude? digits).map Int.ofNat

end ColumnDecl.Integer
