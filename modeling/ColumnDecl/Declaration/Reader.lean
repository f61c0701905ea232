import ColumnDecl.Declaration.Literal
import ColumnDecl.Declaration.Name

/-! The reader of one declaration. It is written over the reader of the level below, so that types
nest exactly as deep as the dialect allows; a reader returns the column it read and the tokens from
the delimiter on. -/
namespace ColumnDecl.Declaration

/-- Reads a nested declaration, given whether names are allowed and the offset behind the
delimiter before it. -/
abbrev Reader := Bool → Nat → List Token → Except Failure (Column × List Token)

/-- A column whose type text ends at `stop`, and the tokens behind the type. -/
structure Typed where
  column : Column
  stop : Nat
  rest : List Token

/-- Nested columns up to the parenthesis that closes their list, which ends at `stop`. -/
structure Parts where
  columns : List Column
  stop : Nat
  rest : List Token

def build (d : Column.Draft) : Except Failure Column :=
  (Column.ofDraft d).mapError Failure.rejected

def buildOver (s : Scope) (start stop : Nat) (d : Column.Draft) : Except Failure Column :=
  match Column.ofDraft d with
  | .ok column => .ok column
  | .error fault => s.faultOver fault.cause start stop

/-- The declarations of a list that `opening` begins; `start` is the offset behind the delimiter
before the first of them. -/
def parts (s : Scope) (inner : Reader) (kind : Kind) (opening : Token) (start : Nat)
    (ts : List Token) : Except Failure Parts :=
  match inner kind.namesItsParts start ts with
  | .error failure => .error failure
  | .ok (_, []) => s.faultAt (.unterminatedList (some kind)) opening.start
  | .ok (column, d :: rest) =>
    if d.tag = .closing then .ok ⟨[column], d.stop, rest⟩
    else if _h : rest.length < ts.length then
      match parts s inner kind opening d.stop rest with
      | .error failure => .error failure
      | .ok more => .ok { more with columns := column :: more.columns }
    else .error .stalled
termination_by ts.length

/-- Everything of a type before its parameters: its name, where it starts, its kind, where the
keyword ends. -/
structure Head where
  name : Text
  start : Nat
  kind : Kind
  stop : Nat

def Head.text (h : Head) (s : Scope) (stop : Nat) : Text := s.text.slice h.start stop

def Head.draft (h : Head) (s : Scope) (stop : Nat) : Column.Draft :=
  { name := h.name, typeText := h.text s stop, kind := h.kind }

/-- A type without a parameter list. -/
def bare (s : Scope) (h : Head) (rest : List Token) : Except Failure Typed := do
  if h.kind.isComposite then s.faultOver (.parametersRequired h.kind) h.start h.stop
  else
    let column ← build (h.draft s h.stop)
    .ok ⟨column, h.stop, rest⟩

/-- A kind under its own name takes no parameter list it has no use for; under an alias it takes
one and ignores it. -/
def ignored (s : Scope) (h : Head) (opening : Token) (rest : List Token) : Except Failure Typed := do
  if Keywords.keyOf (h.text s h.stop) = Keywords.keyOf h.kind.name.toList then
    s.faultOn (.parametersRefused h.kind) opening
  else
    let args ← arguments s opening rest
    let column ← build (h.draft s args.close.stop)
    .ok ⟨column, args.close.stop, args.rest⟩

/-- A wrapping type leaves a flag on the one type it wraps, whose length is no longer known. -/
def wrapped (s : Scope) (inner : Reader) (h : Head) (opening : Token) (rest : List Token) :
    Except Failure Typed := do
  let list ← parts s inner h.kind opening opening.stop rest
  match list.columns with
  | [c] =>
    let column := { c with
      name := h.name
      typeText := h.text s list.stop
      nullable := c.nullable || h.kind == .nullable
      lowCardinality := c.lowCardinality || h.kind == .lowCardinality
      fixedLength := false
      estimatedLength := 1 }
    .ok ⟨column, list.stop, list.rest⟩
  | columns => s.faultOver (.wrapperArity h.kind columns.length) h.start list.stop

def composed (s : Scope) (inner : Reader) (h : Head) (opening : Token) (rest : List Token) :
    Except Failure Typed := do
  let list ← parts s inner h.kind opening opening.stop rest
  let column ← buildOver s h.start list.stop { h.draft s list.stop with nested := list.columns }
  .ok ⟨column, list.stop, list.rest⟩

structure Call where
  function : Text
  signature : Text
  rest : List Token

def call (s : Scope) (opening : Token) : List Token → Except Failure Call
  | [] => s.faultAt (.expected "identifier" none) opening.stop
  | t :: ts =>
    if t.tag = .identifier ∨ t.tag = .quotedIdentifier then
      match ts with
      | [] => .ok ⟨t.value, t.value, []⟩
      | o :: rest =>
        if o.tag = .opening then do
          let args ← arguments s o rest
          let written ← args.items.mapM (Argument.written s)
          .ok ⟨t.value, t.value ++ '(' :: Text.join [','] written ++ [')'], args.rest⟩
        else .ok ⟨t.value, t.value, o :: rest⟩
    else s.faultOn (.expected "identifier" (some t.raw)) t

def callParts (s : Scope) (inner : Reader) (kind : Kind) (opening : Token) (c : Call) :
    Except Failure Parts :=
  match c.rest with
  | [] => s.faultAt (.unterminatedList (some kind)) opening.start
  | t :: rest =>
    match t.tag with
    | .comma => parts s inner kind opening t.stop rest
    | .closing => .ok ⟨[], t.stop, rest⟩
    | _ => s.faultOn (.commaExpected c.signature) t

def aggregated (s : Scope) (inner : Reader) (h : Head) (opening : Token) (rest : List Token) :
    Except Failure Typed := do
  let c ← call s opening rest
  let list ← callParts s inner h.kind opening c
  let column ← buildOver s h.start list.stop { h.draft s list.stop with
    nested := list.columns
    aggregate := Aggregate.resolve? c.function
    signature := some c.signature }
  .ok ⟨column, list.stop, list.rest⟩

def parameterised (s : Scope) (h : Head) (opening : Token) (rest : List Token) :
    Except Failure Typed := do
  let args ← arguments s opening rest
  let draft := h.draft s args.close.stop
  if h.kind.isEnum then
    let (kind, table) ← enumeration s h.kind args.items
    let column ← build { draft with kind := kind, enumTable := some table }
    .ok ⟨column, args.close.stop, args.rest⟩
  else
    let p ← parameters s h.kind args.items
    let column ← build
      { draft with precision := p.precision, scale := p.scale, timeZone := p.timeZone }
    .ok ⟨column, args.close.stop, args.rest⟩

def opened? : List Token → Option (Token × List Token)
  | t :: rest => if t.tag = .opening then some (t, rest) else none
  | [] => none

def type (s : Scope) (inner : Reader) (name : Text) (start : Nat) (t : Token) (ts : List Token) :
    Except Failure Typed :=
  match s.keyword? (t :: ts) with
  | none => s.faultOn (.unknownType t.raw) t
  | some hit =>
    let h : Head := ⟨name, start, hit.kind, hit.stop⟩
    match opened? hit.rest with
    | none => bare s h hit.rest
    | some (opening, rest) =>
      if h.kind.isWrapper then wrapped s inner h opening rest
      else if h.kind.isAggregate then aggregated s inner h opening rest
      else match h.kind.shape with
        | .bare => ignored s h opening rest
        | .nested => composed s inner h opening rest
        | _ => parameterised s h opening rest

/-- The column of a type with what follows it. A wrapper that made the type nullable is stronger
than a modifier behind it. -/
def finish (s : Scope) (start : Nat) (t : Typed) : Except Failure (Column × List Token) := do
  let after ← suffix s false t.stop t.rest
  .ok ({ t.column with
    typeText := s.text.slice start after.stop
    nullable := t.column.nullable || after.nullable }, after.rest)

/-- A declaration at offset `start`; where names are allowed, one may come first. -/
def declaration (s : Scope) (inner : Reader) (names : Bool) (start : Nat) :
    List Token → Except Failure (Column × List Token)
  | [] => s.faultAt .columnExpected start
  | t :: ts => do
    if t.isDelimiter then s.faultAt .columnExpected start
    else if names then
      let n ← named s t ts
      let typed ← type s inner n.name n.head.start n.head n.rest
      finish s n.head.start typed
    else
      let typed ← type s inner [] start t ts
      finish s start typed

/-- The reader of nested declarations with this many levels left. -/
def nestedReader (s : Scope) : Nat → Reader
  | 0 => fun _ start _ => s.faultAt (.tooDeep s.maxDepth) start
  | level + 1 => fun names _ ts => do
    let start ← s.arrive ts
    declaration s (nestedReader s level) names start ts

def outermost (s : Scope) : Bool → Nat → List Token → Except Failure (Column × List Token) :=
  declaration s (nestedReader s s.maxDepth)

end ColumnDecl.Declaration
