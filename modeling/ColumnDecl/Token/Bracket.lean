import ColumnDecl.Token

/-! Brackets in a token list. Parentheses, square brackets and braces share one depth, which
never falls below zero. A list is cut at the first delimiter that no bracket encloses. -/
namespace ColumnDecl.Token

def opensBracket (t : Token) : Bool :=
  t.tag == .opening || (t.tag == .other && (t.raw == ['['] || t.raw == ['\x7b']))

def closesBracket (t : Token) : Bool :=
  t.tag == .closing || (t.tag == .other && (t.raw == [']'] || t.raw == ['\x7d']))

def depthAfter (depth : Nat) (t : Token) : Nat :=
  if t.opensBracket then depth + 1 else if t.closesBracket then depth - 1 else depth

/-- The tokens before the first delimiter at depth zero that `ends` accepts, and the tokens from
that delimiter on; with no such delimiter nothing remains. -/
def cutAt (ends : Token → Bool) (depth : Nat) : List Token → List Token × List Token
  | [] => ([], [])
  | t :: ts =>
    if depth = 0 ∧ t.isDelimiter ∧ ends t then ([], t :: ts)
    else
      let parts := cutAt ends (t.depthAfter depth) ts
      (t :: parts.1, parts.2)

def cut (ts : List Token) : List Token × List Token := cutAt (fun _ => true) 0 ts

theorem cutAtRejoins (ends : Token → Bool) (depth : Nat) (ts : List Token) :
    (cutAt ends depth ts).1 ++ (cutAt ends depth ts).2 = ts := by
  induction ts generalizing depth with
  | nil => rfl
  | cons t ts ih => unfold cutAt; split <;> simp [ih]

theorem cutRejoins (ts : List Token) : (cut ts).1 ++ (cut ts).2 = ts := cutAtRejoins _ _ ts

theorem cutLength (ts : List Token) : (cut ts).2.length ≤ ts.length := by
  have h := congrArg List.length (cutRejoins ts)
  simp only [List.length_append] at h
  omega

end ColumnDecl.Token
