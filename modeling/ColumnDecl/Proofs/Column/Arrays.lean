import ColumnDecl.Proofs.Column.WellFormed
import ColumnDecl.Proofs.Declaration.Within

/-! Stacked arrays. A column may keep its level and its base when it is made, both taken from what the
first column nested in it keeps. They are what the chain of the first nested columns says, whatever the
columns were made and made again from. -/
namespace ColumnDecl.Column

/-- The column so many levels down, always at the first of the nested ones. -/
def descend (c : Column) : Nat → Option Column
  | 0 => some c
  | i + 1 => (c.descend i).bind (·.nested[0]?)

/-- So many arrays stand on the chain before the first column that is none, which is the base of them. -/
structure Flattens (c : Column) (level : Nat) (base : Option Column) : Prop where
  arrays : ∀ i < level, ∃ a, c.descend i = some a ∧ a.kind = .array
  stops : ∃ b, c.descend level = some b ∧ b.kind ≠ .array ∧ base = if level = 0 then none else some b

/-- The column is so many arrays, one in the other, around one that is no array. -/
inductive Wraps (base : Column) : Nat → Column → Prop where
  | base (other : base.kind ≠ .array) : Wraps base 0 base
  | array {k e a} (inside : Wraps base k e) (kind : a.kind = .array) (one : a.nested = [e]) :
      Wraps base (k + 1) a

section
variable {a b c e : Column} {i k : Nat}

theorem levelOther (other : c.kind ≠ .array) : c.arrayLevel = 0 := by
  cases c
  rw [arrayLevel]
  exact if_neg other

theorem levelFirst (array : c.kind = .array) : c.arrayLevel = firstArrayLevel c.nested := by
  cases c
  rw [arrayLevel]
  exact if_pos array

theorem levelArray (array : c.kind = .array) (one : c.nested = [e]) :
    c.arrayLevel = e.arrayLevel + 1 := by
  rw [levelFirst array,one,firstArrayLevel]

theorem baseOther (other : c.kind ≠ .array) : c.arrayBase? = none := by
  cases c
  rw [arrayBase?]
  exact if_neg other

theorem baseFirst (array : c.kind = .array) : c.arrayBase? = firstArrayBase? c.nested := by
  cases c
  rw [arrayBase?]
  exact if_pos array

theorem baseArray (array : c.kind = .array) (one : c.nested = [e]) :
    c.arrayBase? = if e.kind = .array then e.arrayBase? else some e := by
  rw [baseFirst array,one,firstArrayBase?]

theorem descendNested (one : c.nested = [e]) (i : Nat) : c.descend (i + 1) = e.descend i := by
  induction i with
  | zero => simp [descend,one]
  | succ i ih => rw [descend,ih]; rfl

theorem wrapsArray (h : Wraps b (k + 1) a) : a.kind = .array := by
  cases h with
  | array _ kind => exact kind

theorem wrapsLevel (h : Wraps b k a) : a.arrayLevel = k := by
  induction h with
  | base other => exact levelOther other
  | array _ kind one ih => rw [levelArray kind one,ih]

theorem wrapsBase (h : Wraps b k a) : a.arrayBase? = if k = 0 then none else some b := by
  induction h with
  | base other => exact baseOther other
  | @array k e a inside kind one ih =>
    rw [baseArray kind one]
    cases inside with
    | base other => exact if_neg other
    | array _ same _ => rw [if_pos same,ih]; rfl

theorem wrapsDescend (h : Wraps b k a) (small : i ≤ k) :
    ∃ x, a.descend i = some x ∧ Wraps b (k - i) x := by
  induction h generalizing i with
  | base other =>
    cases Nat.le_zero.mp small
    exact ⟨b,rfl,.base other⟩
  | @array k e a inside kind one ih =>
    cases i with
    | zero => exact ⟨a,rfl,.array inside kind one⟩
    | succ i =>
      obtain ⟨x,found,wraps⟩ := ih (Nat.le_of_succ_le_succ small)
      exact ⟨x,(descendNested one i).trans found,by rwa [Nat.add_sub_add_right]⟩

theorem wrapsRenamed (h : Wraps b (k + 1) a) (name : Text) :
    Wraps b (k + 1) { a with name := name } := by
  cases h with
  | array inside kind one => exact .array inside kind one

theorem wrapsFlattens (h : Wraps b k a) : a.Flattens k (if k = 0 then none else some b) where
  arrays i small := by
    obtain ⟨x,found,wraps⟩ := wrapsDescend h (Nat.le_of_lt small)
    obtain ⟨j,rest⟩ : ∃ j, k - i = j + 1 := ⟨k - i - 1,by omega⟩
    exact ⟨x,found,wrapsArray (rest ▸ wraps)⟩
  stops := by
    obtain ⟨x,found,wraps⟩ := wrapsDescend h (Nat.le_refl k)
    rw [Nat.sub_self] at wraps
    cases wraps with
    | base other => exact ⟨b,found,other,rfl⟩

/-- The column is so many arrays around this one, and each level down is one array less. -/
structure Levels (a base : Column) (k : Nat) : Prop where
  level : a.arrayLevel = k
  base : a.arrayBase? = some base
  each : ∀ i ≤ k, ∃ x, a.descend i = some x ∧ x.arrayLevel = k - i

theorem wrapsLevels (h : Wraps b (k + 1) a) : a.Levels b (k + 1) where
  level := wrapsLevel h
  base := wrapsBase h
  each i small := by
    obtain ⟨x,found,wraps⟩ := wrapsDescend h small
    exact ⟨x,found,wrapsLevel wraps⟩

end

/-! Columns that keep what they found. -/

structure Kept where
  column : Column
  level : Nat
  base : Option Column

/-- A column with what it keeps, given what its nested columns keep. -/
def keep (c : Column) (parts : List Kept) : Kept :=
  if c.kind = .array then
    match parts with
    | [] => ⟨c, 0, none⟩
    | e :: _ => if e.column.kind = .array then ⟨c, e.level + 1, e.base⟩ else ⟨c, 1, some e.column⟩
  else ⟨c, 0, none⟩

/-- Columns from checked drafts, around columns that were made before. To replace fields of a column
is to make another one, from a draft that has the other fields of the column. -/
inductive Made : Kept → Prop where
  | built {d : Draft} {c : Column} {parts : List Kept} (each : ∀ x ∈ parts, Made x)
      (nested : d.nested = parts.map Kept.column) (made : ofDraft d = .ok c) : Made (keep c parts)

theorem keepColumn (c : Column) (parts : List Kept) : (keep c parts).column = c := by
  unfold keep
  split
  · split
    · rfl
    · split
      · rfl
      · rfl
  · rfl

/- A replacement goes through the checks again, around the columns that the old one is around. -/
theorem replacedMade {x : Kept} (h : Made x) {d : Draft} {c : Column}
    (kept : d.nested = x.column.nested) (made : ofDraft d = .ok c) : ∃ z, Made z ∧ z.column = c := by
  cases h with
  | @built _ _ parts each nested old =>
    rw [keepColumn,draftNested old,nested] at kept
    exact ⟨_,.built each kept made,keepColumn c parts⟩

theorem draftArray {d : Draft} {c : Column} (made : ofDraft d = .ok c) (array : c.kind = .array) :
    c.nested.length = 1 := by
  obtain ⟨fault,length,_,rfl⟩ := ofDraftExact.mp made
  have counted := (faultClear fault).2.2.1
  rw [show d.kind = .array from array] at counted
  exact counted

theorem madeWraps {x : Kept} (h : Made x) :
    ∃ b, Wraps b x.level x.column ∧ x.base = if x.level = 0 then none else some b := by
  induction h with
  | @built d c parts each nested made ih =>
    have inside : c.nested = parts.map Kept.column := (draftNested made).trans nested
    unfold keep
    split
    next array =>
      obtain ⟨e,rfl⟩ : ∃ e, parts = [e] := by
        rw [← List.length_eq_one_iff,← List.length_map,← inside]
        exact draftArray made array
      obtain ⟨b,wraps,base⟩ := ih e List.mem_cons_self
      dsimp only
      split
      next stacked =>
        refine ⟨b,.array wraps array inside,?_⟩
        rw [base]
        cases level : e.level with
        | zero =>
          rw [level] at wraps
          cases wraps with
          | base other => exact absurd stacked other
        | succ k => rfl
      next other => exact ⟨e.column,.array (.base other) array inside,rfl⟩
    next other => exact ⟨c,.base other,rfl⟩

/- Keeping them or counting again comes to the same. -/
theorem madeFlattens {x : Kept} (h : Made x) : x.column.Flattens x.level x.base ∧
    x.level = x.column.arrayLevel ∧ x.base = x.column.arrayBase? := by
  obtain ⟨b,wraps,base⟩ := madeWraps h
  rw [wrapsLevel wraps,wrapsBase wraps,base]
  exact ⟨wrapsFlattens wraps,rfl,rfl⟩

theorem madeWithin {x : Kept} (h : Made x) {y : Column} (inside : y.Within x.column) :
    ∃ z, Made z ∧ z.column = y := by
  generalize whole : x.column = c at inside
  induction inside generalizing x with
  | self => exact ⟨x,h,whole⟩
  | nested member deeper ih =>
    cases h with
    | @built d made parts each nested built =>
      rw [keepColumn] at whole
      rw [← whole,draftNested built,nested] at member
      obtain ⟨z,listed,rfl⟩ := List.mem_map.mp member
      exact ih (each z listed) rfl

/-! Drafts of columns. -/

/-- All fields of a column, to be replaced or kept. -/
def toDraft (c : Column) : Draft :=
  { c with fixedLength := some c.fixedLength, estimatedLength := some c.estimatedLength }

theorem nestsCounted {kind : Kind} {count : Nat} (h : Nests kind count) : Counted kind count := by
  cases kind with
  | tuple | nested => exact Nat.ne_zero_of_lt h
  | array | map | simpleAggregateFunction => exact h
  | _ => trivial

theorem enumeratedTable {kind : Kind} {table : Option EnumTable} (resolved : kind ≠ .enum)
    (h : Enumerated kind.enumBits? table) : (kind.isEnum && table.isNone) = false := by
  cases table with
  | some t => exact Bool.and_false _
  | none =>
    cases kind with
    | enum => contradiction
    | enum8 | enum16 => contradiction
    | _ => rfl

/- What makes a column well-formed is all that the check of a draft looks at. -/
theorem draftClear {d : Draft} (resolved : d.kind.isWrapper = false ∧ d.kind ≠ .enum)
    (counted : Counted d.kind d.nested.length)
    (table : (d.kind.isEnum && d.enumTable.isNone) = false)
    (named : d.kind = .nested → ∀ y ∈ d.nested, y.name ≠ []) : d.fault? = none := by
  obtain ⟨wrapper,enum⟩ := resolved
  unfold Draft.fault?
  rw [wrapper,arityExact.mpr counted,table,if_neg (by simpa using enum)]
  dsimp only
  rw [if_neg Bool.false_ne_true]
  split
  next nested =>
    rw [Option.map_eq_none_iff,List.find?_eq_none]
    intro y member empty
    exact named nested y member (List.isEmpty_iff.mp empty)
  next => rfl

/- A well-formed column may be made again with other words and lengths. -/
theorem redrafted {c : Column} (h : c.WellFormed) (name typeText : Text)
    (nullable lowCardinality fixed : Bool) (estimated : Int) :
    ofDraft { c.toDraft with
      name := name
      typeText := typeText
      nullable := nullable
      lowCardinality := lowCardinality
      fixedLength := some fixed
      estimatedLength := some estimated } = .ok { c with
        name := name
        typeText := typeText
        nullable := nullable
        lowCardinality := lowCardinality
        fixedLength := fixed
        estimatedLength := estimated } :=
  ofDraftExact.mpr ⟨draftClear h.resolved (nestsCounted h.count)
    (enumeratedTable h.resolved.2 h.own.table) h.named,(fixed,estimated),rfl,rfl⟩

theorem redraftedSame {c : Column} (h : c.WellFormed) : ofDraft c.toDraft = .ok c := by
  have same := redrafted h c.name c.typeText c.nullable c.lowCardinality c.fixedLength c.estimatedLength
  cases c
  exact same

end ColumnDecl.Column
