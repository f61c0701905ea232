import ColumnDecl.Keywords
import ColumnDecl.Token

/-! What stays fixed while a declaration is read: the language (its keywords and how deep types may
nest), the text that offsets refer to, and the offset that no declaration crosses. -/
namespace ColumnDecl

structure Dialect where
  keywords : Keywords
  maxDepth : Nat
  deriving DecidableEq, Repr

namespace Dialect

/-- The deepest nesting that can be asked for. -/
def depthLimit : Nat := 180

def standard : Dialect := ⟨Keywords.builtin, 64⟩

/-- The standard language with another nesting limit. -/
def withDepth? (depth : Int) : Option Dialect :=
  if 0 ≤ depth ∧ depth ≤ depthLimit then some { standard with maxDepth := depth.toNat } else none

def depthRefused (depth : Int) : String :=
  s!"max_depth must be between 0 and {depthLimit}, got {depth}"

end Dialect

structure Scope extends Dialect where
  text : Text
  stop : Nat
  deriving DecidableEq, Repr

namespace Scope

/-- A fault at an offset, with no end. -/
def faultAt {α : Type} (s : Scope) (cause : Cause) (start : Nat) : Except Failure α :=
  .error (.rejected ⟨cause, some s.text, some start, none⟩)

def faultOver {α : Type} (s : Scope) (cause : Cause) (start stop : Nat) : Except Failure α :=
  .error (.rejected ⟨cause, some s.text, some start, some stop⟩)

def faultOn {α : Type} (s : Scope) (cause : Cause) (t : Token) : Except Failure α :=
  s.faultOver cause t.start t.stop

/-- A type keyword at the head of a token list: its kind, where its last word ends, and the
tokens behind it. -/
structure Hit where
  kind : Kind
  stop : Nat
  rest : List Token
  deriving DecidableEq, Repr

def keyword? (s : Scope) (ts : List Token) : Option Hit :=
  let words := (ts.takeWhile (·.tag == .identifier)).take s.keywords.maxWords
  match s.keywords.longest? (words.map Token.value) with
  | none => none
  | some (kind, count) => (ts.take count).getLast?.map fun last => ⟨kind, last.stop, ts.drop count⟩

/-- Where the next token starts, or the end of the scope when there is none. A scope may reach
past its text, but no reader may. -/
def arrive (s : Scope) : List Token → Except Failure Nat
  | t :: _ => .ok t.start
  | [] => if s.stop ≤ s.text.length then .ok s.stop else .error .pastEnd

end Scope
end ColumnDecl
