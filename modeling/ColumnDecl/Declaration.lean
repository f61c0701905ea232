import ColumnDecl.Declaration.Reader
import ColumnDecl.Token.Window

/-! Reading texts as columns: a list of declarations, one type under a given name, or the one
declaration in a window of a longer text. -/
namespace ColumnDecl

namespace Declaration

/-- Declarations separated by commas, to the end of the text. -/
def columns (s : Scope) (ts : List Token) : Except Failure (List Column) :=
  match ts with
  | [] => .ok []
  | t :: tail =>
    match outermost s true t.start (t :: tail) with
    | .error failure => .error failure
    | .ok (column, []) => .ok [column]
    | .ok (column, d :: rest) =>
      if d.tag ≠ .comma then s.faultOn (.unexpected d.raw) d
      else if rest = [] then s.faultAt .columnExpectedAfterComma d.start
      else if _h : rest.length ≤ tail.length then
        match columns s rest with
        | .error failure => .error failure
        | .ok more => .ok (column :: more)
      else .error .stalled
termination_by ts.length
decreasing_by exact Nat.lt_succ_of_le _h

def only (s : Scope) (ts : List Token) : Except Failure Column := do
  let start ← s.arrive ts
  let (column, rest) ← outermost s false start ts
  match rest with
  | [] => .ok column
  | t :: _ =>
    s.faultOver (.unexpectedAfterType (Text.trim (s.text.drop t.start))) t.start s.stop

end Declaration

/-- A column and the offset of the delimiter behind it, or of the end of the window. -/
structure Reading where
  column : Column
  next : Nat
  deriving Repr

namespace Dialect

def scope (d : Dialect) (text : Text) (stop : Nat) : Scope := { d with text := text, stop := stop }

def tokens (text : Text) : Except Failure (List Token) :=
  (Token.stream text).mapError Failure.rejected

def parse (d : Dialect) (text : Text) : Except Failure (List Column) := do
  let ts ← tokens text
  Declaration.columns (d.scope text text.length) ts

/-- The column of one type; an empty name leaves it unnamed. -/
def columnOf (d : Dialect) (name text : Text) : Except Failure Column := do
  let ts ← tokens text
  let column ← Declaration.only (d.scope text text.length) ts
  .ok { column with name := name }

/-- Whether a declaration inside a type of this kind may carry a name; outside of all it may. -/
def allowsNames : Option Kind → Bool
  | none => true
  | some kind => kind.namesItsParts

/-- The declaration between two offsets of a text, as a part of a type of kind `parent`. -/
def readColumn (d : Dialect) (text : Text) (start stop : Nat) (parent : Option Kind) :
    Except Failure Reading := do
  let w ← (Window.ofText text stop).mapError Failure.rejected
  let first ← w.skipLayout start stop
  let (column, rest) ←
    Declaration.outermost (d.scope text stop) (allowsNames parent) first (w.between start stop)
  .ok ⟨column, match rest with | [] => stop | t :: _ => t.start⟩

end Dialect
end ColumnDecl
