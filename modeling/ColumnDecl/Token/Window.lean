import ColumnDecl.Fault
import ColumnDecl.Token.Bracket
import ColumnDecl.Token.Stream

/-! A text beside its tokens, addressed by offsets. An operation looks at the tokens that lie
between two offsets, so a token that an offset cuts through is not seen. -/
namespace ColumnDecl

structure Window where
  text : Text
  tokens : List Token
  deriving DecidableEq, Repr

namespace Window

/-- The window on a text whose first `stop` characters have been read. -/
def ofText (text : Text) (stop : Nat) : Except Fault Window :=
  (Token.stream (text.take stop)).map (⟨text, ·⟩)

def between (w : Window) (start stop : Nat) : List Token :=
  (w.tokens.dropWhile (·.start < start)).takeWhile (·.stop ≤ stop)

def peek? (w : Window) (start stop : Nat) : Option Token := (w.between start stop).head?

/-- The first offset from `pos` on that holds no layout; `rest` is the text from `pos` on. -/
def skipFrom (stop pos : Nat) : Text → Except Failure Nat
  | [] => if pos < stop then .error .pastEnd else .ok pos
  | c :: rest => if pos < stop ∧ Text.isLayout c then skipFrom stop (pos + 1) rest else .ok pos

def skipLayout (w : Window) (start stop : Nat) : Except Failure Nat :=
  skipFrom stop start (w.text.drop start)

def expected (w : Window) (what : String) (start : Nat) : Option Token → Fault
  | none => ⟨.expected what none, some w.text, some start, none⟩
  | some t => ⟨.expected what (some t.raw), some w.text, some t.start, some t.stop⟩

/-- The value of the next token if it has one of the tags, and the offset behind it. -/
def take (w : Window) (what : String) (tags : List Token.Tag) (start stop : Nat) :
    Except Fault (Text × Nat) :=
  match w.peek? start stop with
  | none => .error (w.expected what start none)
  | some t =>
    if tags.contains t.tag then .ok (t.value, t.stop) else .error (w.expected what start (some t))

def identifier (w : Window) : Nat → Nat → Except Fault (Text × Nat) :=
  w.take "identifier" [.identifier, .quotedIdentifier]

def quotedString (w : Window) : Nat → Nat → Except Fault (Text × Nat) :=
  w.take "quoted string" [.string]

/-- The offset of the first of the delimiters that no bracket opened behind `start` encloses. -/
def delimiter (w : Window) (delimiters : Text) (start stop : Nat) : Nat :=
  let ends (t : Token) := delimiters.contains (if t.tag = .comma then ',' else ')')
  match (Token.cutAt ends 0 (w.between start stop)).2 with
  | [] => stop
  | t :: _ => t.start

end Window
end ColumnDecl
