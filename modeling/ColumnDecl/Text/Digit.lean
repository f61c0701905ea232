import ColumnDecl.Text

/-! Decimal digits of every script. The digits of one script are ten neighbours in ascending
order, so a script is given by its zero. -/
namespace ColumnDecl.Text

def digitZeros : List Nat := [
  0x30, 0x660, 0x6f0, 0x7c0, 0x966, 0x9e6, 0xa66, 0xae6, 0xb66, 0xbe6, 0xc66,
  0xce6, 0xd66, 0xde6, 0xe50, 0xed0, 0xf20, 0x1040, 0x1090, 0x17e0, 0x1810, 0x1946,
  0x19d0, 0x1a80, 0x1a90, 0x1b50, 0x1bb0, 0x1c40, 0x1c50, 0xa620, 0xa8d0, 0xa900, 0xa9d0,
  0xa9f0, 0xaa50, 0xabf0, 0xff10, 0x104a0, 0x10d30, 0x11066, 0x110f0, 0x11136, 0x111d0, 0x112f0,
  0x11450, 0x114d0, 0x11650, 0x116c0, 0x11730, 0x118e0, 0x11950, 0x11c50, 0x11d50, 0x11da0, 0x16a60,
  0x16ac0, 0x16b50, 0x1d7ce, 0x1d7d8, 0x1d7e2, 0x1d7ec, 0x1d7f6, 0x1e140, 0x1e2f0, 0x1e950, 0x1fbf0]

def digitAbove (n : Nat) : List Nat → Option Nat
  | [] => none
  | z :: zs => if z ≤ n ∧ n < z + 10 then some (n - z) else digitAbove n zs

/-- The value of a decimal digit; `none` for every other character. -/
def digit? (c : Char) : Option Nat := digitAbove c.toNat digitZeros

def isDigit (c : Char) : Bool := (digit? c).isSome

theorem digitAboveBound {n d : Nat} : ∀ {zs : List Nat}, digitAbove n zs = some d → d < 10
  | [], h => by simp [digitAbove] at h
  | z :: zs, h => by
    unfold digitAbove at h
    split at h
    · cases Option.some.inj h; omega
    · exact digitAboveBound h

theorem digitBound {c : Char} {d : Nat} (h : digit? c = some d) : d < 10 := digitAboveBound h

end ColumnDecl.Text
