import ColumnDecl.Fault
import ColumnDecl.Text.Blank
import ColumnDecl.Text.Upper

/-! The keywords of the kinds. A keyword is one or more words, written in upper case with single
spaces. The table keeps the order of entry and never changes the kind of a keyword. -/
namespace ColumnDecl

structure Keywords where
  entries : List (Text × Kind)
  maxWords : Nat
  deriving DecidableEq, Repr

namespace Keywords

/-- The key of a list of words; a word is not split, whatever it holds. -/
def key (words : List Text) : Text := Text.join [' '] (words.map Text.upper)

/-- The key of a keyword as written, with any blanks between its words. -/
def keyOf (keyword : Text) : Text := key (Text.words keyword)

def find? (k : Keywords) (key : Text) : Option Kind := k.entries.lookup key

def get? (k : Keywords) (keyword : Text) : Option Kind := k.find? (keyOf keyword)

def contains (k : Keywords) (keyword : Text) : Bool := (k.get? keyword).isSome

/-- The words of a key, counted by the spaces between them. -/
def wordCount (key : Text) : Nat := key.count ' ' + 1

/-- A keyword that already belongs to another kind. -/
structure Conflict where
  keyword : Text
  kind : Kind
  deriving DecidableEq, Repr

def Conflict.message (c : Conflict) : String :=
  s!"Type keyword '{c.keyword.asString}' is already defined as '{c.kind.name}'"

def register (k : Keywords) (keyword : Text) (kind : Kind) : Except Conflict Keywords :=
  let key := keyOf keyword
  match k.find? key with
  | some earlier => if earlier = kind then .ok k else .error ⟨keyword, earlier⟩
  | none => .ok ⟨k.entries ++ [(key, kind)], max k.maxWords (wordCount key)⟩

def empty : Keywords := ⟨[], 1⟩

def spellings (kind : Kind) : List String := kind.name :: kind.aliases

/- No two kinds share a spelling, so entering the built-in ones meets no conflict. -/
def enter (k : Keywords) (keyword : Text) (kind : Kind) : Keywords :=
  match k.register keyword kind with
  | .ok k => k
  | .error _ => k

def builtin : Keywords :=
  Kind.all.foldl (fun k kind => (spellings kind).foldl (fun k s => k.enter s.toList kind) k) empty

def getOrFault (k : Keywords) (keyword : Text) : Except Fault Kind :=
  match k.get? keyword with
  | some kind => .ok kind
  | none => .error ⟨.unknownType keyword, none, none, none⟩

/-- The longest keyword that the first words form, trying `count` words, then fewer. -/
def matchFrom (k : Keywords) (words : List Text) : Nat → Option (Kind × Nat)
  | 0 => none
  | count + 1 =>
    match k.find? (key (words.take (count + 1))) with
    | some kind => some (kind, count + 1)
    | none => matchFrom k words count

def longest? (k : Keywords) (words : List Text) : Option (Kind × Nat) :=
  k.matchFrom words (min words.length k.maxWords)

def precedes (a b : Text) : Bool := !(decide (b < a))

def sorted (k : Keywords) : List Text := (k.entries.map Prod.fst).mergeSort precedes

end Keywords
end ColumnDecl
