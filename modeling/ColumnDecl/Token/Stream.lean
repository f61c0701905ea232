import ColumnDecl.Fault
import ColumnDecl.Token.Lexeme

/-! The tokens of a text, left to right, each with its offset. Layout between tokens is skipped;
lines are counted by the newlines outside of tokens. -/
namespace ColumnDecl.Token

def lexFault (source : Text) (start line : Nat) (c : Char) : Fault :=
  let cause := match quoteTag? c with
    | some _ => Cause.unterminatedQuote c line
    | none => .illegalCharacter c
  ⟨cause, some source, some start, none⟩

/-- The tokens of what is left of `source` at offset `start`, on line `line`. -/
def streamFrom (source : Text) (start line : Nat) : Text → Except Fault (List Token)
  | [] => .ok []
  | c :: rest =>
    if c = '\n' then streamFrom source (start + 1) (line + 1) rest
    else if Text.isLayout c then streamFrom source (start + 1) line rest
    else match lexeme? c rest with
      | none => .error (lexFault source start line c)
      | some (tag, n) =>
        match streamFrom source (start + 1 + n) line (rest.drop n) with
        | .error fault => .error fault
        | .ok tokens => .ok (⟨tag, c :: rest.take n, start⟩ :: tokens)
termination_by t => t.length
decreasing_by all_goals simp [List.length_drop]; try omega

def stream (t : Text) : Except Fault (List Token) := streamFrom t 0 1 t

end ColumnDecl.Token
