import ColumnDecl.Proofs.Column.Export
import ColumnDecl.Proofs.DeclarationEnd
import ColumnDecl.Proofs.WellFormed

/-! Exports of columns. They tell columns apart by every field; only the order in which an enum lists its
constants is lost. -/
namespace ColumnDecl.Column

theorem soundTabled {c : Column} (h : c.Sound) : c.Tabled :=
  fun y inside _ table => enumeratedMade (h y inside).own.table table

theorem parsedTabled {d : Dialect} {text : Text} {cs : List Column} (read : d.parse text = .ok cs) :
    ∀ c ∈ cs, c.Tabled := by
  obtain ⟨ts,_,series⟩ := Dialect.parseExact.mp read
  exact fun c member => soundTabled (Declaration.columnsSound series c member)

theorem columnOfTabled {d : Dialect} {name text : Text} {c : Column}
    (read : d.columnOf name text = .ok c) : c.Tabled := by
  obtain ⟨t,tail,column,_,outer,rfl⟩ := Dialect.columnOfExact.mp read
  exact tabledRenamed (soundTabled (Declaration.outermostSound outer)) name

theorem readColumnTabled {d : Dialect} {text : Text} {start stop : Nat} {parent : Option Kind}
    {r : Reading} (read : d.readColumn text start stop parent = .ok r) : r.column.Tabled := by
  obtain ⟨_,_,_,_,outer,_⟩ := Dialect.readColumnSound read
  exact soundTabled (Declaration.outermostSound outer)

theorem exportFaithful :
    (∀ c d : Column, c.Tabled → d.Tabled →
      (c.toValue.Same d.toValue ↔ c.Rearranged d) ∧ (c = d → c.toValue.Same d.toValue) ∧
      (c.Rearranged d →
        c.arrayLevel = d.arrayLevel ∧ Option.Rel Rearranged c.arrayBase? d.arrayBase?)) ∧
    (∀ (e : Draft) c, ofDraft e = .ok c →
      (∀ t, e.enumTable = some t → EnumTable.ofPairs t.entries = .ok t) →
      (∀ y ∈ e.nested, y.Tabled) → c.Tabled) ∧
    (∀ (d : Dialect) text cs, d.parse text = .ok cs → ∀ c ∈ cs, c.Tabled) ∧
    (∀ (d : Dialect) name text c, d.columnOf name text = .ok c → c.Tabled) ∧
    ∀ (d : Dialect) text start stop parent r, d.readColumn text start stop parent = .ok r →
      r.column.Tabled := by
  refine ⟨fun c d left right => ?_,fun e c made own nested => draftTabled made own nested,
    fun d text cs => parsedTabled,fun d name text c => columnOfTabled,
    fun d text start stop parent r => readColumnTabled⟩
  have told := exportRearranged left right
  exact ⟨told,fun same => told.mpr (same ▸ rearrangedSelf c),rearrangedArrays⟩

/- An enum read from a text and one with its constants the other way round are not equal and export the
same; a time zone that is empty differs from none. -/
theorem exportFaithfulEnum :
    let d : Dialect := ⟨⟨[("ENUM8".toList,.enum8)],1⟩,0⟩
    let text := "Enum8('x' = 1, 'y' = 2)".toList
    let read : Column := ⟨[],text,.enum8,false,false,true,1,[],some ⟨[(['x'],1),(['y'],2)]⟩,none,none,
      none,none,none⟩
    let built : Column := { read with enumTable := some ⟨[(['y'],2),(['x'],1)]⟩ }
    let zoned : Column := { read with timeZone := some [] }
    d.columnOf [] text = .ok read ∧ ofDraft built.toDraft = .ok built ∧ ofDraft zoned.toDraft = .ok zoned ∧
      read ≠ built ∧ read.toValue.Same built.toValue ∧ ¬read.toValue.Same zoned.toValue := by
  intro d text read built zoned
  obtain ⟨faithful,constructed,-,named,-⟩ := exportFaithful
  have found : d.columnOf [] text = .ok read := by decide +kernel
  have tabled := named d [] text read found
  have other : ofDraft built.toDraft = .ok built := rfl
  have again : ofDraft zoned.toDraft = .ok zoned := rfl
  have reversed := constructed _ _ other (fun t table => by cases table; rfl) nofun
  have third := constructed _ _ again (fun t table => by cases table; rfl) nofun
  refine ⟨found,other,again,by decide,?_,fun same => ?_⟩
  · exact (faithful _ _ tabled reversed).1.mpr (.of rfl (.some (.swap _ _ _)) .nil)
  · cases (faithful _ _ tabled third).1.mp same with
    | of plain => exact nomatch (congrArg Traits.timeZone plain :)

end ColumnDecl.Column
