import ColumnDecl.Column.Export
import ColumnDecl.Proofs.Column.Rearranged
import ColumnDecl.Proofs.Combinators
import ColumnDecl.Proofs.EnumDirections
import ColumnDecl.Proofs.Keywords
import ColumnDecl.Proofs.Value

/-! What a column exports. Under each key there is one value or none, and the two exports of columns are
the same if under each key they have the same value or both have none. -/
namespace ColumnDecl

/-! Names and tables as values. -/

theorem Kind.nameApart {j k : Kind} : j.name.toList = k.name.toList ↔ j = k := by
  refine ⟨fun same => ?_,fun same => same ▸ rfl⟩
  have found := Keywords.nameFound j
  rw [same,Keywords.nameFound k] at found
  exact (Option.some.inj found).symm

theorem Aggregate.nameApart {f g : Aggregate} : f.name.toList = g.name.toList ↔ f = g := by
  have listed : ∀ f : Aggregate, (f.name.toList,f) ∈ spellings := fun _ => spellingsNames.mpr (.inl rfl)
  refine ⟨fun same => ?_,fun same => same ▸ rfl⟩
  exact congrArg Prod.snd (List.inj_on_of_nodup_map spellingsChecked.1 (listed f) (listed g) same)

namespace EnumTable

variable {s t : EnumTable}

theorem codeLookup (entries : List (Text × Int)) (name : Text) :
    (entries.map fun e => (e.1,Value.int e.2)).lookup name = (entries.lookup name).map .int := by
  induction entries with
  | nil => rfl
  | cons e entries ih =>
    rw [List.map_cons,List.lookup_cons,List.lookup_cons,ih]
    cases name == e.1 <;> rfl

theorem sameTables (left : s.names.Nodup) (right : t.names.Nodup) :
    s.toValue.Same t.toValue ↔ s.entries.Perm t.entries := by
  have once : s.entries.Nodup ∧ t.entries.Nodup := ⟨left.of_map _,right.of_map _⟩
  simp only [toValue,Value.sameObject,codeLookup,Value.sameGiven fun _ _ => Value.sameInt]
  rw [List.perm_ext_iff_of_nodup once.1 once.2]
  constructor
  · rintro each ⟨name,code⟩
    rw [← Text.lookupListed left,← Text.lookupListed right,each name]
  · intro each name
    ext code
    rw [Text.lookupListed left,Text.lookupListed right,each (name,code)]

end EnumTable

namespace Column

/-! Objects with a place for each key. -/

/-- The members of an object that has a value, or has none, under each of these keys. -/
def filled (slots : List (String × Option Value)) : List (Text × Value) :=
  slots.flatMap fun s => given s.1 s.2

section
variable {key : String} {v : Option Value} {slots as bs : List (String × Option Value)}

theorem filledAbsent (absent : key ∉ slots.map Prod.fst) :
    (filled slots).lookup key.toList = none := by
  rw [List.lookup_eq_none_iff]
  intro m member
  obtain ⟨s,listed,inside⟩ := List.mem_flatMap.mp member
  have other : key ≠ s.1 := fun same => absent (List.mem_map.mpr ⟨s,listed,same.symm⟩)
  cases value : s.2 with
  | none => rw [value] at inside; contradiction
  | some v =>
    rw [value] at inside
    cases List.mem_singleton.mp inside
    exact bne_iff_ne.mpr fun same => other (String.toList_inj.mp same)

theorem filledLookup (fresh : key ∉ slots.map Prod.fst) (k : Text) :
    (filled ((key,v) :: slots)).lookup k = if k = key.toList then v else (filled slots).lookup k := by
  have apart : filled ((key,v) :: slots) = given key v ++ filled slots := List.flatMap_cons
  rw [apart,List.lookup_append]
  split
  next here =>
    subst here
    rw [filledAbsent fresh]
    cases v <;> simp [given]
  next other =>
    cases v with
    | none => rfl
    | some v =>
      rw [given,List.lookup_cons,beq_eq_false_iff_ne.mpr other]
      rfl

theorem sameFilled (keys : as.map Prod.fst = bs.map Prod.fst) (unique : (as.map Prod.fst).Nodup) :
    Value.Same (.object (filled as)) (.object (filled bs)) ↔
      List.Forall₂ (fun a b => Option.Rel Value.Same a.2 b.2) as bs := by
  rw [Value.sameObject]
  induction as generalizing bs with
  | nil =>
    cases List.map_eq_nil_iff.mp keys.symm
    exact ⟨fun _ => .nil,fun _ _ => .none⟩
  | cons a as ih =>
    obtain ⟨_,v⟩ := a
    obtain ⟨⟨key,w⟩,bs,rfl,rfl,rest⟩ := List.map_eq_cons_iff.mp keys.symm
    obtain ⟨fresh,unique⟩ := List.nodup_cons.mp unique
    have fresh' : key ∉ bs.map Prod.fst := rest ▸ fresh
    simp only [filledLookup fresh,filledLookup fresh']
    rw [List.forall₂_cons,← ih rest.symm unique]
    constructor
    · intro each
      refine ⟨by simpa using each key.toList,fun k => ?_⟩
      by_cases here : k = key.toList
      · rw [here,filledAbsent fresh,filledAbsent fresh']
        exact .none
      · simpa only [if_neg here] using each k
    · intro each k
      split
      next => exact each.1
      next => exact each.2 k

end

/-! The places of a column. -/

theorem valuesEach (columns : List Column) : toValues columns = columns.map toValue := by
  induction columns with
  | nil => rfl
  | cons c columns ih => rw [toValues,ih,List.map_cons]

def levelValue (c : Column) : Option Value :=
  if c.kind = .array then some (.int c.arrayLevel) else none

def nestedValue (c : Column) : Option Value :=
  if c.nested = [] then none else some (.list (c.nested.map toValue))

def slots (c : Column) : List (String × Option Value) := [
  ("name",some (.text c.name)),
  ("type",some (.text c.typeText)),
  ("data_type",some (.text c.kind.name.toList)),
  ("nullable",some (.bool c.nullable)),
  ("low_cardinality",some (.bool c.lowCardinality)),
  ("fixed_length",some (.bool c.fixedLength)),
  ("estimated_length",some (.int c.estimatedLength)),
  ("precision",c.precision.map .int),
  ("scale",c.scale.map .int),
  ("time_zone",c.timeZone.map .text),
  ("function",c.signature.map .text),
  ("aggregate_function",c.aggregate.map fun f => .text f.name.toList),
  ("enum_constants",c.enumTable.map EnumTable.toValue),
  ("array_nested_level",c.levelValue),
  ("nested_columns",c.nestedValue)]

theorem toValueSlots (c : Column) : c.toValue = .object (filled c.slots) := by
  obtain ⟨_,_,_,_,_,_,_,nested,_,_,_,_,_,_⟩ := c
  cases nested with
  | nil => simp [toValue,filled,slots,alwaysMembers,optionalMembers,given,levelValue,nestedValue]
  | cons c cs =>
    simp [toValue,filled,slots,alwaysMembers,optionalMembers,given,levelValue,nestedValue,valuesEach]

variable {c d : Column}

theorem sameSlots : c.toValue.Same d.toValue ↔
    List.Forall₂ (fun a b => Option.Rel Value.Same a.2 b.2) c.slots d.slots := by
  have unique : (c.slots.map Prod.fst).Nodup := by simp [slots]
  rw [toValueSlots c,toValueSlots d]
  exact sameFilled rfl unique

theorem sameNested : Option.Rel Value.Same c.nestedValue d.nestedValue ↔
    List.Forall₂ (fun x y => x.toValue.Same y.toValue) c.nested d.nested := by
  unfold nestedValue
  generalize c.nested = xs, d.nested = ys
  cases xs with
  | nil => cases ys <;> simp
  | cons x xs =>
    cases ys with
    | nil => simp
    | cons y ys =>
      simp only [reduceCtorEq,if_false,Option.rel_some_some,Value.sameList,
        List.forall₂_map_left_iff,List.forall₂_map_right_iff]

theorem sameTable (left : c.Tabled) (right : d.Tabled) :
    Option.Rel Value.Same (c.enumTable.map EnumTable.toValue) (d.enumTable.map EnumTable.toValue) ↔
      Option.Rel (fun s t => s.entries.Perm t.entries) c.enumTable d.enumTable := by
  cases own : c.enumTable with
  | none => cases d.enumTable <;> simp
  | some s =>
    cases other : d.enumTable with
    | none => simp
    | some t =>
      simp only [Option.map_some,Option.rel_some_some]
      exact EnumTable.sameTables (tabledNames left own) (tabledNames right other)

theorem pairsAgree {R S : Column → Column → Prop} {cs ds : List Column}
    (agree : ∀ x ∈ cs, ∀ y ∈ ds, (R x y ↔ S x y)) : List.Forall₂ R cs ds ↔ List.Forall₂ S cs ds := by
  simp only [List.forall₂_iff_zip]
  refine and_congr_right fun _ => ⟨fun each x y inside => ?_,fun each x y inside => ?_⟩
  all_goals obtain ⟨hx,hy⟩ := List.of_mem_zip inside
  · exact (agree x hx y hy).mp (each inside)
  · exact (agree x hx y hy).mpr (each inside)

theorem sameLevel (h : c.Rearranged d) : Option.Rel Value.Same c.levelValue d.levelValue := by
  unfold levelValue
  rw [rearrangedKind h,(rearrangedArrays h).1]
  split
  next => exact .some (.int _)
  next => exact .none

/- The level of an array is no field of its own, but it is exported. -/
theorem sameExact : c.toValue.Same d.toValue ↔ c.plain = d.plain ∧
    Option.Rel Value.Same (c.enumTable.map EnumTable.toValue) (d.enumTable.map EnumTable.toValue) ∧
    Option.Rel Value.Same c.levelValue d.levelValue ∧
    List.Forall₂ (fun x y => x.toValue.Same y.toValue) c.nested d.nested := by
  have functions : ∀ f g : Aggregate,
      Value.Same (.text f.name.toList) (.text g.name.toList) ↔ f = g := fun _ _ =>
    Value.sameText.trans Aggregate.nameApart
  rw [sameSlots]
  simp only [slots,List.forall₂_cons,Option.rel_some_some,Value.sameText,Value.sameBool,
    Value.sameInt,Kind.nameApart,Value.sameGiven fun _ _ => Value.sameInt,
    Value.sameGiven fun _ _ => Value.sameText,Value.sameGiven functions,sameNested,
    List.Forall₂.nil,plain,traits,Traits.mk.injEq]
  tauto

/- By induction on what is nested: the tables list the same pairs, and all else can be read back. -/
theorem exportRearranged (left : c.Tabled) (right : d.Tabled) :
    c.toValue.Same d.toValue ↔ c.Rearranged d := by
  induction c using nestedInduction generalizing d with
  | step c ih =>
    have nested : List.Forall₂ (fun x y => x.toValue.Same y.toValue) c.nested d.nested ↔
        List.Forall₂ Rearranged c.nested d.nested := pairsAgree fun x hx y hy =>
      ih x hx (tabledNested left hx) (tabledNested right hy)
    rw [sameExact,nested,sameTable left right]
    constructor
    · rintro ⟨plain,tables,-,nested⟩
      exact .of plain tables nested
    · intro h
      have level := sameLevel h
      obtain ⟨plain,tables,nested⟩ := h
      exact ⟨plain,tables,level,nested⟩

end Column
end ColumnDecl
