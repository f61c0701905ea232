import ColumnDecl.Proofs.Column.Arrays

/-! Columns that differ at most in the order of the constants of their enums. They have the same level of
arrays, and their bases differ no more than they do. In what is built or read every table is one that can
be made, so the order is all that may differ in two tables with the same pairs. -/
namespace ColumnDecl.Column

/-- All fields of a column but its enum table and the columns nested in it. -/
def plain (c : Column) : Traits := { c.traits with enumTable := none }

/-- Equal in every field, but the enum tables at any depth may list the same pairs in another order. -/
inductive Rearranged : Column → Column → Prop where
  | of {c d : Column} (plain : c.plain = d.plain)
      (tables : Option.Rel (fun s t => s.entries.Perm t.entries) c.enumTable d.enumTable)
      (nested : List.Forall₂ Rearranged c.nested d.nested) : Rearranged c d

section
variable {motive : Column → Prop}

mutual
theorem nestedInduction (step : ∀ c : Column, (∀ y ∈ c.nested, motive y) → motive c) :
    (c : Column) → motive c
  | ⟨_,_,_,_,_,_,_,nested,_,_,_,_,_,_⟩ => step _ (nestedEach step nested)

theorem nestedEach (step : ∀ c : Column, (∀ y ∈ c.nested, motive y) → motive c) :
    (cs : List Column) → ∀ y ∈ cs, motive y
  | [] => nofun
  | c :: cs => List.forall_mem_cons.mpr ⟨nestedInduction step c,nestedEach step cs⟩
end

end

theorem rearrangedSelf (c : Column) : c.Rearranged c := by
  induction c using nestedInduction with
  | step c ih =>
    refine .of rfl ?_ (List.forall₂_same.mpr ih)
    cases c.enumTable with
    | none => exact .none
    | some t => exact .some (.refl _)

variable {c d : Column}

theorem rearrangedKind (h : c.Rearranged d) : c.kind = d.kind := by
  cases h with
  | of plain => exact congrArg Traits.kind plain

theorem rearrangedArrays (h : c.Rearranged d) :
    c.arrayLevel = d.arrayLevel ∧ Option.Rel Rearranged c.arrayBase? d.arrayBase? := by
  induction c using nestedInduction generalizing d with
  | step c ih =>
    have kind := rearrangedKind h
    obtain ⟨-,-,nested⟩ := h
    by_cases array : c.kind = .array
    · rw [levelFirst array,levelFirst (kind ▸ array),baseFirst array,baseFirst (kind ▸ array)]
      generalize c.nested = es, d.nested = fs at ih nested ⊢
      cases nested with
      | nil => exact ⟨rfl,.none⟩
      | @cons e f es fs first rest =>
        obtain ⟨level,base⟩ := ih e List.mem_cons_self first
        simp only [firstArrayLevel,firstArrayBase?,level,rearrangedKind first]
        refine ⟨trivial,?_⟩
        split
        next => exact base
        next => exact .some first
    · rw [levelOther array,levelOther (kind ▸ array),baseOther array,baseOther (kind ▸ array)]
      exact ⟨rfl,.none⟩

/-! Tables. -/

/-- Every enum table in the column, at any depth, is one that is made from its pairs. -/
def Tabled (c : Column) : Prop :=
  ∀ y : Column, y.Within c → ∀ t, y.enumTable = some t → EnumTable.ofPairs t.entries = .ok t

theorem tabledNested {y : Column} (h : c.Tabled) (member : y ∈ c.nested) : y.Tabled :=
  fun x inside => h x (.nested member inside)

theorem tabledBuilt (own : ∀ t, c.enumTable = some t → EnumTable.ofPairs t.entries = .ok t)
    (nested : ∀ y ∈ c.nested, y.Tabled) : c.Tabled := by
  intro x inside
  cases inside with
  | self => exact own
  | nested member deeper => exact nested _ member x deeper

theorem tabledRenamed (h : c.Tabled) (name : Text) : { c with name := name }.Tabled :=
  tabledBuilt (h c (.self c)) fun _ member => tabledNested h member

theorem tabledNames {t : EnumTable} (h : c.Tabled) (table : c.enumTable = some t) : t.names.Nodup :=
  (EnumTable.ofPairsExact.mp (h c (.self c) t table)).2.1

/- To check a draft changes neither its table nor what is nested in it. -/
theorem draftTabled {e : Draft} (made : ofDraft e = .ok c)
    (own : ∀ t, e.enumTable = some t → EnumTable.ofPairs t.entries = .ok t)
    (nested : ∀ y ∈ e.nested, y.Tabled) : c.Tabled := by
  obtain ⟨_,_,_,rfl⟩ := ofDraftExact.mp made
  exact tabledBuilt own nested

theorem enumeratedMade {bits : Option Nat} {table : Option EnumTable} (h : Enumerated bits table)
    {t : EnumTable} (some : table = some t) : EnumTable.ofPairs t.entries = .ok t := by
  subst some
  cases bits with
  | none => contradiction
  | some bits => exact EnumTable.ofPairsExact.mpr ⟨rfl,h.names,h.codes⟩

end ColumnDecl.Column
