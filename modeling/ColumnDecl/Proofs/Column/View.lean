import ColumnDecl.Proofs.Column.Draft
import ColumnDecl.Text.Upper
import Mathlib.Data.List.Forall2

/-! Columns as seen without some of their texts. A view says which letters of names and signatures
are told apart, whether the type text counts and whether the function does; all else always counts,
at every depth. -/
namespace ColumnDecl.Column

structure View where
  letter : Char → Char
  typeText : Bool
  function : Bool

namespace View

def whole : View := ⟨id,true,true⟩

def word (v : View) (t : Text) : Text := t.map v.letter

def excerpt (v : View) (t : Text) : Text := if v.typeText then v.word t else []

def aggregate (v : View) (f : Option Aggregate) : Option Aggregate := if v.function then f else none

variable {v : View}

theorem lettersKept (kept : ∀ c, v.letter c = c) (c d : Char) (same : v.letter c = v.letter d) :
    Text.upperChar c = Text.upperChar d := by
  rw [kept,kept] at same
  rw [same]

theorem wordAppend (a b : Text) : v.word (a ++ b) = v.word a ++ v.word b := List.map_append

theorem wordEmpty {a b : Text} (h : v.word a = v.word b) : a.isEmpty = b.isEmpty := by
  have sizes := congrArg List.length h
  simp only [word,List.length_map] at sizes
  cases a <;> cases b <;> simp_all

theorem wholeWord (t : Text) : whole.word t = t := List.map_id t

theorem wholeExcerpt (t : Text) : whole.excerpt t = t := List.map_id t

theorem wholeAggregate (f : Option Aggregate) : whole.aggregate f = f := rfl

theorem wordJoined {gap : Text} {as bs : List Text}
    (h : List.Forall₂ (fun a b => v.word a = v.word b) as bs) :
    v.word (Text.join gap as) = v.word (Text.join gap bs) := by
  induction h with
  | nil => rfl
  | cons head tail ih =>
    cases tail with
    | nil => exact head
    | cons => simp only [Text.join,wordAppend,head,ih]

end View

mutual
/-- The column as seen by a view. -/
def seen (v : View) : Column → Column
  | ⟨name,typeText,kind,nullable,lowCardinality,fixedLength,estimatedLength,nested,enumTable,
      aggregate,signature,precision,scale,timeZone⟩ =>
    ⟨v.word name,v.excerpt typeText,kind,nullable,lowCardinality,fixedLength,estimatedLength,
      seenAll v nested,enumTable,v.aggregate aggregate,signature.map v.word,precision,scale,timeZone⟩

def seenAll (v : View) : List Column → List Column
  | [] => []
  | c :: cs => seen v c :: seenAll v cs
end

theorem seenAllMap (v : View) (cs : List Column) : seenAll v cs = cs.map (seen v) := by
  induction cs with
  | nil => rfl
  | cons c cs ih => simp [seenAll,ih]

theorem seenColumn (v : View) (c : Column) : c.seen v = { c with
    name := v.word c.name
    typeText := v.excerpt c.typeText
    nested := c.nested.map (seen v)
    aggregate := v.aggregate c.aggregate
    signature := c.signature.map v.word } := by
  cases c
  simp [seen,seenAllMap]

mutual
theorem seenWhole : (c : Column) → c.seen .whole = c
  | ⟨name,typeText,kind,nullable,lowCardinality,fixedLength,estimatedLength,nested,enumTable,
      aggregate,signature,precision,scale,timeZone⟩ => by
    have inner := seenAllWhole nested
    have spelled : (signature.map View.whole.word) = signature := by
      cases signature <;> simp [View.wholeWord]
    simp only [seen,inner,spelled,View.wholeWord,View.wholeExcerpt,View.wholeAggregate]

theorem seenAllWhole : (cs : List Column) → seenAll .whole cs = cs
  | [] => rfl
  | c :: cs => by simp [seenAll,seenWhole c,seenAllWhole cs]
end

/-! Drafts. -/

namespace View

/-- The same cause, in other words where the view does not tell them apart. -/
def SameCause (v : View) (c d : Cause) : Prop := c.category = d.category ∧ (v = whole → c = d)

theorem sameCause (v : View) (c : Cause) : v.SameCause c c := ⟨rfl,fun _ => rfl⟩

end View

def Draft.seen (v : View) (d : Draft) : Draft := { d with
  name := v.word d.name
  typeText := v.excerpt d.typeText
  nested := d.nested.map (Column.seen v)
  aggregate := v.aggregate d.aggregate
  signature := d.signature.map v.word }

section
variable {v : View} {c d : Column} {cs ds : List Column} {a b : Draft}

theorem seenName (h : c.seen v = d.seen v) : v.word c.name = v.word d.name := by
  simpa [seenColumn] using congrArg Column.name h

theorem seenText (h : c.seen v = d.seen v) : v.excerpt c.typeText = v.excerpt d.typeText := by
  simpa [seenColumn] using congrArg Column.typeText h

theorem unnamedSeen (h : cs.map (seen v) = ds.map (seen v)) :
    Option.Rel (fun c d => v.excerpt c.typeText = v.excerpt d.typeText)
      (cs.find? (·.name.isEmpty)) (ds.find? (·.name.isEmpty)) := by
  induction cs generalizing ds with
  | nil =>
    have none : ds = [] := by simpa using h.symm
    rw [none]
    exact .none
  | cons c cs ih =>
    rcases ds with _ | ⟨d,ds⟩
    · simp at h
    simp only [List.map_cons,List.cons.injEq] at h
    have names := View.wordEmpty (seenName h.1)
    simp only [List.find?_cons,names]
    cases d.name.isEmpty with
    | true => exact .some (seenText h.1)
    | false => exact ih h.2

theorem unnamedCause {x y : Option Column}
    (h : Option.Rel (fun c d => v.excerpt c.typeText = v.excerpt d.typeText) x y) :
    Option.Rel v.SameCause (x.map fun c => .unnamedField c.typeText)
      (y.map fun c => .unnamedField c.typeText) := by
  cases h with
  | none => exact .none
  | some same =>
    refine .some ⟨rfl,fun whole => ?_⟩
    subst whole
    simpa [View.wholeExcerpt] using same

theorem optionSame (x : Option Cause) : Option.Rel v.SameCause x x := by
  cases x with
  | none => exact .none
  | some c => exact .some (v.sameCause c)

theorem draftFault (same : a.seen v = b.seen v) : Option.Rel v.SameCause a.fault? b.fault? := by
  have kind : a.kind = b.kind := (congrArg Draft.kind same :)
  have table : a.enumTable = b.enumTable := (congrArg Draft.enumTable same :)
  have nested : a.nested.map (seen v) = b.nested.map (seen v) := (congrArg Draft.nested same :)
  have count : a.nested.length = b.nested.length := by simpa using congrArg List.length nested
  have arity : a.arityFault? = b.arityFault? := by simp only [Draft.arityFault?,kind,count]
  unfold Draft.fault?
  rw [kind,arity,table]
  split
  · exact optionSame _
  split
  · exact optionSame _
  split
  · exact optionSame _
  split
  · exact unnamedCause (unnamedSeen nested)
  · exact .none

theorem draftSize (same : a.seen v = b.seen v) : a.length = b.length := by
  have kind : a.kind = b.kind := (congrArg Draft.kind same :)
  have precision : a.precision = b.precision := (congrArg Draft.precision same :)
  have fixed : a.fixedLength = b.fixedLength := (congrArg Draft.fixedLength same :)
  have estimated : a.estimatedLength = b.estimatedLength := (congrArg Draft.estimatedLength same :)
  simp only [Draft.length,kind,precision,fixed,estimated]

theorem draftColumn (a : Draft) (length : Bool × Int) :
    (a.withLength length).seen v = (a.seen v).withLength length := seenColumn v _

end
end ColumnDecl.Column
