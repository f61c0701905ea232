import ColumnDecl.Declaration

/-! Remarks made while a text is read: the aggregate functions that are not known, in the order in
which their types end. A remark stands even if the reading fails further on. -/
namespace ColumnDecl

structure Remark where
  function : Text
  typeText : Text
  deriving DecidableEq, Repr

namespace Declaration

/-- Remarks on a nested declaration, with the same arguments as its reader. -/
abbrev Remarker := Bool → Nat → List Token → List Remark

def partsRemarks (remarks : Remarker) (inner : Reader) (names : Bool) (start : Nat)
    (ts : List Token) : List Remark :=
  remarks names start ts ++
    match inner names start ts with
    | .ok (_, d :: rest) =>
      if _h : d.tag ≠ .closing ∧ rest.length < ts.length then
        partsRemarks remarks inner names d.stop rest
      else []
    | _ => []
termination_by ts.length
decreasing_by exact _h.2

/-- Remarks on an aggregate type: those on its argument types, then one on its function. -/
def callRemarks (s : Scope) (remarks : Remarker) (inner : Reader) (kind : Kind) (start : Nat)
    (opening : Token) (c : Call) : List Remark :=
  (match c.rest with
    | t :: rest =>
      if t.tag = .comma then partsRemarks remarks inner kind.namesItsParts t.stop rest else []
    | [] => []) ++
  match callParts s inner kind opening c with
  | .ok list =>
    if (Aggregate.resolve? c.function).isNone then
      [⟨c.function, s.text.slice start list.stop⟩]
    else []
  | .error _ => []

def typeRemarks (s : Scope) (remarks : Remarker) (inner : Reader) (start : Nat) (t : Token)
    (ts : List Token) : List Remark :=
  match s.keyword? (t :: ts) with
  | none => []
  | some hit =>
    match opened? hit.rest with
    | none => []
    | some (opening, rest) =>
      if hit.kind.isAggregate then
        match call s opening rest with
        | .ok c => callRemarks s remarks inner hit.kind start opening c
        | .error _ => []
      else if hit.kind.shape = .nested then
        partsRemarks remarks inner hit.kind.namesItsParts opening.stop rest
      else []

def declarationRemarks (s : Scope) (remarks : Remarker) (inner : Reader) (names : Bool)
    (start : Nat) : List Token → List Remark
  | [] => []
  | t :: ts =>
    if t.isDelimiter then []
    else if names then
      match named s t ts with
      | .ok n => typeRemarks s remarks inner n.head.start n.head n.rest
      | .error _ => []
    else typeRemarks s remarks inner start t ts

def nestedRemarks (s : Scope) : Nat → Remarker
  | 0 => fun _ _ _ => []
  | level + 1 => fun names _ ts =>
    match s.arrive ts with
    | .ok start => declarationRemarks s (nestedRemarks s level) (nestedReader s level) names start ts
    | .error _ => []

def outermostRemarks (s : Scope) : Bool → Nat → List Token → List Remark :=
  declarationRemarks s (nestedRemarks s s.maxDepth) (nestedReader s s.maxDepth)

def columnsRemarks (s : Scope) (ts : List Token) : List Remark :=
  match ts with
  | [] => []
  | t :: tail =>
    outermostRemarks s true t.start (t :: tail) ++
      match outermost s true t.start (t :: tail) with
      | .ok (_, d :: rest) =>
        if _h : d.tag = .comma ∧ rest.length ≤ tail.length then columnsRemarks s rest else []
      | _ => []
termination_by ts.length
decreasing_by exact Nat.lt_succ_of_le _h.2

end Declaration

namespace Dialect

def remarks (d : Dialect) (text : Text) : List Remark :=
  match Token.stream text with
  | .ok ts => Declaration.columnsRemarks (d.scope text text.length) ts
  | .error _ => []

def typeRemarks (d : Dialect) (text : Text) : List Remark :=
  match Token.stream text with
  | .ok (t :: ts) => Declaration.outermostRemarks (d.scope text text.length) false t.start (t :: ts)
  | _ => []

end Dialect
end ColumnDecl
