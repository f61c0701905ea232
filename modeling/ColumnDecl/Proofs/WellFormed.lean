import ColumnDecl.Proofs.Column.WellFormed
import ColumnDecl.Proofs.Declaration.Course
import ColumnDecl.Proofs.Declaration.Series
import ColumnDecl.Proofs.Declaration.Within

/-! Every column in what a text is read as is well-formed, at any depth. -/
namespace ColumnDecl
open Token

namespace Column

def Sound (c : Column) : Prop := ∀ x : Column, x.Within c → x.WellFormed

theorem soundBuilt {c : Column} (own : c.WellFormed) (nested : ∀ y ∈ c.nested, y.Sound) :
    c.Sound := by
  intro x inside
  cases inside with
  | self => exact own
  | nested member deeper => exact nested _ member x deeper

theorem soundNested {c y : Column} (h : c.Sound) (member : y ∈ c.nested) : y.Sound :=
  fun x inside => h x (.nested member inside)

end Column

namespace Declaration

/-! Particulars from literal parameters. -/

theorem boundedRange {s : Scope} {what : String} {low high v : Int} {a : Argument}
    (h : bounded s what low high a = .ok v) : low ≤ v ∧ v ≤ high := by
  obtain ⟨_,_,_,_,inside⟩ := boundedExact.mp h
  exact inside

theorem decimalParticulars {s : Scope} {items : List Argument} {p : Parameters}
    (h : decimal s items = .ok p) :
    Column.Particulars .decimal none none p.precision p.scale p.timeZone := by
  unfold decimal at h
  split at h
  next =>
    obtain ⟨precision,read,h⟩ := bindOk.mp h
    cases h
    have inside := boundedRange read
    exact ⟨trivial,rfl,⟨Int.le_refl 0,by omega⟩,inside,fun some => absurd rfl some⟩
  next =>
    obtain ⟨precision,read,h⟩ := bindOk.mp h
    obtain ⟨scale,read',h⟩ := bindOk.mp h
    cases h
    exact ⟨trivial,rfl,boundedRange read',boundedRange read,fun some => absurd rfl some⟩
  next => contradiction

theorem timeParticulars {s : Scope} {items : List Argument} {p : Parameters}
    (h : fractionalTime s items = .ok p) :
    Column.Particulars .dateTime64 none none p.precision p.scale p.timeZone := by
  have zoned : ∀ z : Option Text, z ≠ none →
      Kind.dateTime64 = .dateTime ∨ Kind.dateTime64 = .dateTime32 ∨ Kind.dateTime64 = .dateTime64 :=
    fun _ _ => .inr (.inr rfl)
  unfold fractionalTime at h
  split at h
  next =>
    obtain ⟨scale,read,h⟩ := bindOk.mp h
    cases h
    exact ⟨trivial,rfl,boundedRange read,trivial,zoned _⟩
  next =>
    obtain ⟨scale,read,h⟩ := bindOk.mp h
    obtain ⟨zone,_,h⟩ := bindOk.mp h
    cases h
    exact ⟨trivial,rfl,boundedRange read,trivial,zoned _⟩
  next => contradiction

theorem sizedParticulars {kind : Kind} {precision : Nat} {scale : Int}
    (sized : kind.sizedPrecision? = some precision) (inside : 0 ≤ scale ∧ scale ≤ precision) :
    Column.Particulars kind none none (some (precision : Int)) (some scale) none := by
  cases kind <;> cases sized
  all_goals exact ⟨trivial,rfl,inside,⟨by decide,by decide⟩,fun some => absurd rfl some⟩

theorem zonedParticulars {kind : Kind} (zoned : kind = .dateTime ∨ kind = .dateTime32) (zone : Text) :
    Column.Particulars kind none none none none (some zone) := by
  rcases zoned with rfl | rfl
  · exact ⟨trivial,rfl,trivial,trivial,fun _ => .inl rfl⟩
  · exact ⟨trivial,rfl,trivial,trivial,fun _ => .inr (.inl rfl)⟩

theorem parametersParticulars {s : Scope} {kind : Kind} {items : List Argument} {p : Parameters}
    (literal : kind.shape ≠ .bare ∧ kind.shape ≠ .nested) (plain : kind.isEnum = false)
    (h : parameters s kind items = .ok p) :
    Column.Particulars kind none none p.precision p.scale p.timeZone := by
  unfold parameters at h
  split at h
  next => exact decimalParticulars h
  next => exact timeParticulars h
  next decimal time =>
    split at h
    next =>
      split at h
      next text =>
        obtain ⟨length,read,h⟩ := bindOk.mp h
        cases h
        rw [text]
        exact ⟨trivial,rfl,trivial,boundedRange read,fun some => absurd rfl some⟩
      next text =>
        split at h
        next precision sized =>
          obtain ⟨scale,read,h⟩ := bindOk.mp h
          cases h
          exact sizedParticulars sized (boundedRange read)
        next unsized =>
          obtain ⟨zone,_,h⟩ := bindOk.mp h
          cases h
          refine zonedParticulars ?_ zone
          cases kind <;> simp_all [Kind.shape,Kind.isEnum,Kind.sizedPrecision?]
    next => contradiction

theorem enumerationParticulars {s : Scope} {kind sized : Kind} {items : List Argument}
    {table : EnumTable} (enum : kind.isEnum = true)
    (h : enumeration s kind items = .ok (sized,table)) :
    sized.shape = .required ∧ Column.Particulars sized (some table) none none none none := by
  obtain ⟨pairs,_,h⟩ := bindOk.mp h
  have known : enumKind kind pairs = .enum8 ∨ enumKind kind pairs = .enum16 := by
    unfold enumKind
    split
    · split
      · exact .inl rfl
      · exact .inr rfl
    next other => cases kind <;> simp_all [Kind.isEnum]
  dsimp only at h
  split at h
  next made =>
    cases h
    rcases known with same | same
    · rw [same] at made ⊢
      obtain ⟨_,sound⟩ := (EnumTable.ofWidthExact (by decide)).mp made
      exact ⟨rfl,sound,rfl,trivial,trivial,fun some => absurd rfl some⟩
    · rw [same] at made ⊢
      obtain ⟨_,sound⟩ := (EnumTable.ofWidthExact (by decide)).mp made
      exact ⟨rfl,sound,rfl,trivial,trivial,fun some => absurd rfl some⟩
  next => contradiction
  next => contradiction

/-! Types, form by form. -/

/-- All that is read is well-formed, and without a name where none is allowed. -/
def Forms (inner : Reader) : Prop :=
  ∀ names start ts c rest, inner names start ts = .ok (c,rest) →
    c.Sound ∧ (names = false → c.name = [])

theorem listedForms {inner : Reader} {kind : Kind} {start : Nat} {ts : List Token} {p : Parts}
    (forms : Forms inner) (h : Listed inner kind start ts p) :
    ∀ c ∈ p.columns, c.Sound ∧ (kind.namesItsParts = false → c.name = []) := by
  induction h with
  | last read closing =>
    intro c member
    cases List.mem_singleton.mp member
    exact forms _ _ _ _ _ read
  | more read between shorter next ih =>
    intro c member
    rcases List.mem_cons.mp member with rfl | member
    · exact forms _ _ _ _ _ read
    · exact ih c member

def FormSound (form : Form) (kind : Kind) : Prop :=
  ∀ s h opening ts r, h.kind = kind → form s h opening ts = .ok r → r.column.Sound

section
variable {inner : Scope → Reader} {kind : Kind}

theorem leafSound {d : Column.Draft} {c : Column} (made : Column.ofDraft d = .ok c)
    (derived : d.fixedLength = none ∧ d.estimatedLength = none) (leaf : d.nested = [])
    (own : Column.Particulars d.kind d.enumTable d.signature d.precision d.scale d.timeZone) :
    c.Sound := by
  refine Column.soundBuilt (Column.draftWellFormed made derived (fun _ => leaf) ?_ own) ?_
  · intro _ y member
    rw [leaf] at member
    contradiction
  · intro y member
    rw [Column.draftNested made,leaf] at member
    contradiction

theorem ignoredSound (bare : kind.shape = .bare) : FormSound ignored kind := by
  intro s h opening ts r same read
  subst same
  unfold ignored at read
  split at read
  next => contradiction
  next =>
    obtain ⟨args,_,read⟩ := bindOk.mp read
    obtain ⟨column,made,read⟩ := bindOk.mp read
    cases read
    have own := Column.simpleParticulars (Kind.bareSimple bare)
    exact leafSound (buildExact.mp made) ⟨rfl,rfl⟩ rfl own

theorem parameterisedSound (literal : kind.shape ≠ .bare ∧ kind.shape ≠ .nested) :
    FormSound parameterised kind := by
  intro s h opening ts r same read
  subst same
  obtain ⟨args,_,read⟩ := bindOk.mp read
  dsimp only at read
  split at read
  next enum =>
    obtain ⟨⟨sized,table⟩,pairs,read⟩ := bindOk.mp read
    obtain ⟨column,made,read⟩ := bindOk.mp read
    cases read
    exact leafSound (buildExact.mp made) ⟨rfl,rfl⟩ rfl (enumerationParticulars enum pairs).2
  next other =>
    obtain ⟨p,read_,read⟩ := bindOk.mp read
    obtain ⟨column,made,read⟩ := bindOk.mp read
    cases read
    have plain : h.kind.isEnum = false := by simpa using other
    refine leafSound (buildExact.mp made) ⟨rfl,rfl⟩ rfl ?_
    exact parametersParticulars literal plain read_

theorem wrappedSound (forms : ∀ s, Forms (inner s)) : FormSound (fun s => wrapped s (inner s)) kind := by
  intro s h opening ts r same read
  obtain ⟨list,found,read⟩ := bindOk.mp read
  dsimp only at read
  split at read
  next c one =>
    cases read
    have sound := (listedForms (forms s) (listedSound found) c (by rw [one]; exact List.mem_cons_self)).1
    refine Column.soundBuilt (Column.wrappedOnce (sound c (.self c)) _ _ _ _) ?_
    exact fun y member => Column.soundNested sound member
  next => contradiction

theorem composedSound (forms : ∀ s, Forms (inner s)) (nested : kind.shape = .nested)
    (other : kind.isAggregate = false) : FormSound (fun s => composed s (inner s)) kind := by
  intro s h opening ts r same read
  subst same
  obtain ⟨list,found,read⟩ := bindOk.mp read
  obtain ⟨column,made,read⟩ := bindOk.mp read
  cases read
  have made := buildOverExact.mp made
  have parts := listedForms (forms s) (listedSound found)
  have own : Column.Particulars h.kind none none none none none :=
    Column.plainParticulars (by rw [nested]; decide) other
  refine Column.soundBuilt (Column.draftWellFormed made ⟨rfl,rfl⟩ ?_ ?_ own) ?_
  · exact fun plain => absurd nested plain
  · exact fun unnamed y member => (parts y member).2 unnamed
  · intro y member
    rw [Column.draftNested made] at member
    exact (parts y member).1

theorem aggregatedSound (forms : ∀ s, Forms (inner s)) (aggregate : kind.isAggregate = true) :
    FormSound (fun s => aggregated s (inner s)) kind := by
  intro s h opening ts r same read
  subst same
  obtain ⟨c,_,read⟩ := bindOk.mp read
  obtain ⟨list,found,read⟩ := bindOk.mp read
  obtain ⟨column,made,read⟩ := bindOk.mp read
  cases read
  have made := buildOverExact.mp made
  have parts : ∀ y ∈ list.columns, y.Sound ∧ (h.kind.namesItsParts = false → y.name = []) := by
    have follows := followsExact.mp found
    generalize c.rest = us at follows
    cases follows with
    | none closing => exact nofun
    | some comma listed => exact listedForms (forms s) listed
  have own := Column.aggregateParticulars aggregate c.signature
  refine Column.soundBuilt (Column.draftWellFormed made ⟨rfl,rfl⟩ ?_ ?_ own) ?_
  · intro plain
    exact absurd (Column.aggregateShape aggregate) plain
  · exact fun unnamed y member => (parts y member).2 unnamed
  · intro y member
    rw [Column.draftNested made] at member
    exact (parts y member).1

theorem formSound (forms : ∀ s, Forms (inner s)) (kind : Kind) :
    FormSound (formOf inner kind) kind := by
  unfold formOf
  split
  · exact wrappedSound forms
  split
  · next aggregate => exact aggregatedSound forms aggregate
  next other =>
    split
    next bare => exact ignoredSound bare
    next nested => exact composedSound forms nested (by simpa using other)
    next bare nested => exact parameterisedSound ⟨bare,nested⟩

/-! Declarations. -/

theorem bodySound (forms : ∀ s, Forms (inner s)) {s : Scope} {name : Text} {start : Nat} {t : Token}
    {ts rest : List Token} {c : Column} (h : body s (inner s) name start t ts = .ok (c,rest)) :
    c.Sound := by
  obtain ⟨typed,after,_,_,read,_,same⟩ := bodyExact.mp h
  cases same
  have sound : typed.column.Sound := by
    obtain ⟨hit,_,⟨_,plain⟩ | ⟨o,rest,_,form⟩⟩ := typeSound read
    · obtain ⟨simple,column,made,rfl⟩ := bareExact.mp plain
      exact leafSound made ⟨rfl,rfl⟩ rfl (Column.simpleParticulars simple)
    · exact formSound forms hit.kind _ _ _ _ _ rfl form
  refine Column.soundBuilt (Column.retold (sound _ (.self _)) _ _ _) ?_
  exact fun y member => Column.soundNested sound member

theorem nestedReaderForms (level : Nat) : ∀ s, Forms (nestedReader s level) := by
  induction level with
  | zero => intro s names start ts c rest h; contradiction
  | succ level ih =>
    intro s names start ts c rest h
    obtain ⟨below,t,tail,same,rfl,read⟩ := nestedReaderExact.mp h
    cases same
    obtain ⟨n,first,begins,inside⟩ := declarationSound read
    refine ⟨bodySound ih inside,fun none => ?_⟩
    have named := (bodyCarried (nestedReaderCarries (Nat.le_refl level)) inside).1
    subst none
    cases begins
    exact named

theorem outermostSound {s : Scope} {names : Bool} {start : Nat} {ts rest : List Token} {c : Column}
    (h : outermost s names start ts = .ok (c,rest)) : c.Sound := by
  rcases ts with _ | ⟨t,ts⟩
  · contradiction
  obtain ⟨n,first,_,inside⟩ := declarationSound h
  exact bodySound (nestedReaderForms s.maxDepth) inside

theorem columnsSound {s : Scope} {ts : List Token} {cs : List Column} (h : Series s ts cs) :
    ∀ c ∈ cs, c.Sound := by
  induction h with
  | none => exact nofun
  | last read =>
    intro c member
    cases List.mem_singleton.mp member
    exact outermostSound read
  | more read comma some shorter next ih =>
    intro c member
    rcases List.mem_cons.mp member with rfl | member
    · exact outermostSound read
    · exact ih c member

end
end Declaration

namespace Dialect
open Declaration

theorem columnsWellFormed (d : Dialect) (text : Text) :
    (∀ cs, d.parse text = .ok cs → ∀ c ∈ cs, ∀ x : Column, x.Within c → x.WellFormed) ∧
    (∀ name c, d.columnOf name text = .ok c → ∀ x : Column, x.Within c → x.WellFormed) := by
  constructor
  · intro cs h c member
    obtain ⟨ts,_,series⟩ := parseExact.mp h
    exact columnsSound series c member
  · intro name c h
    obtain ⟨t,tail,column,_,read,rfl⟩ := columnOfExact.mp h
    have sound := outermostSound read
    refine Column.soundBuilt (Column.retold (sound _ (.self _)) name _ _) ?_
    exact fun y member => Column.soundNested sound member

theorem columnsWellFormedMap :
    let d : Dialect := ⟨⟨[("MAP".toList,.map),("NULLABLE".toList,.nullable),("DECIMAL".toList,.decimal),
      ("ENUM".toList,.enum)],1⟩,2⟩
    let text := "m Map(Nullable(Decimal(12, 3)), Enum('a' = 1, 'b' = -200))".toList
    let key : Column := ⟨[],"Nullable(Decimal(12, 3))".toList,.decimal,true,false,false,1,[],none,none,
      none,some 12,some 3,none⟩
    let value : Column := ⟨[],"Enum('a' = 1, 'b' = -200)".toList,.enum16,false,false,true,2,[],
      some ⟨[("a".toList,1),("b".toList,-200)]⟩,none,none,none,none,none⟩
    let c : Column := ⟨"m".toList,text.drop 2,.map,false,false,false,1,[key,value],none,none,none,none,
      none,none⟩
    d.parse text = .ok [c] ∧ c.WellFormed ∧ key.WellFormed ∧ value.WellFormed := by
  intro d text key value c
  have read : d.parse text = .ok [c] := by decide +kernel
  have formed := (columnsWellFormed d text).1 [c] read c List.mem_cons_self
  exact ⟨read,formed c (.self c),formed key (.nested (by simp [c]) (.self key)),
    formed value (.nested (by simp [c]) (.self value))⟩

end Dialect
end ColumnDecl
