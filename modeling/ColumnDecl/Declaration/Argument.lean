import ColumnDecl.Declaration.Scope
import ColumnDecl.Token.Bracket

/-! Parameter lists of literals. A list is split at its own commas; each argument keeps the span
between its delimiters, blanks included, and the tokens in it. -/
namespace ColumnDecl.Declaration

structure Argument where
  start : Nat
  stop : Nat
  tokens : List Token
  deriving DecidableEq, Repr

/-- The arguments up to the parenthesis that closes the list, and the tokens behind it. -/
structure Arguments where
  items : List Argument
  close : Token
  rest : List Token
  deriving DecidableEq, Repr

def arguments? (start : Nat) (ts : List Token) : Option Arguments :=
  match _h : (Token.cut ts).2 with
  | [] => none
  | d :: rest =>
    let item : Argument := ⟨start, d.start, (Token.cut ts).1⟩
    if d.tag = .closing then some ⟨[item], d, rest⟩
    else (arguments? d.stop rest).map fun more => { more with items := item :: more.items }
termination_by ts.length
decreasing_by
  have := Token.cutLength ts
  simp only [_h, List.length_cons] at this
  omega

def arguments (s : Scope) (opening : Token) (ts : List Token) : Except Failure Arguments :=
  match arguments? opening.stop ts with
  | some args => .ok args
  | none => s.faultAt (.unterminatedList none) opening.start

/-- The source of an argument without the layout between its tokens. -/
def Argument.written (s : Scope) (a : Argument) : Except Failure Text :=
  match a.tokens with
  | [] => s.faultAt .emptyParameter a.start
  | ts => .ok (ts.flatMap Token.raw)

end ColumnDecl.Declaration
