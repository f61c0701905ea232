import ColumnDecl.Proofs.Applied
import ColumnDecl.Proofs.Column.Arrays
import ColumnDecl.Proofs.Containers
import ColumnDecl.Proofs.NestingLimit
import ColumnDecl.Proofs.Reparse
import ColumnDecl.Proofs.WellFormed

/-! Arrays of arrays. What is read can be made column by column, so that the level and the base it
keeps are those of its chain. A text with so many arrays written around it has just this level, and the
column of the text for its base. -/
namespace ColumnDecl
open Token Declaration

namespace Column

mutual
theorem soundMade : (c : Column) → c.Sound → ∃ x, Made x ∧ x.column = c
  | ⟨name,typeText,kind,nullable,low,fixed,estimated,nested,table,aggregate,signature,precision,scale,
      zone⟩, h => by
    obtain ⟨parts,each,same⟩ := soundParts nested fun y member => soundNested h member
    have own := redraftedSame (h _ (.self _))
    exact ⟨_,.built each same.symm own,keepColumn _ parts⟩

theorem soundParts : (cs : List Column) → (∀ c ∈ cs, c.Sound) →
    ∃ parts : List Kept, (∀ x ∈ parts, Made x) ∧ parts.map Kept.column = cs
  | [], _ => ⟨[],nofun,rfl⟩
  | c :: cs, each => by
    obtain ⟨x,made,same⟩ := soundMade c (each c List.mem_cons_self)
    obtain ⟨parts,all,rest⟩ := soundParts cs fun y member => each y (List.mem_cons_of_mem c member)
    refine ⟨x :: parts,List.forall_mem_cons.mpr ⟨made,all⟩,?_⟩
    rw [List.map_cons,same,rest]
end

theorem soundRenamed {c : Column} (h : c.Sound) (name : Text) : { c with name := name }.Sound :=
  soundBuilt (retold (h c (.self c)) name _ _) fun _ member => soundNested h member

end Column

namespace Dialect

/-- A type text with so many arrays written around it. -/
def arraysOf (k : Nat) (text : Text) : Text :=
  (List.replicate k "Array(".toList).flatten ++ text ++ List.replicate k ')'

theorem arraysOuter (k : Nat) (text : Text) :
    arraysOf (k + 1) text = applied .array (arraysOf k text) := by
  have opening : "Array(".toList = Kind.array.name.toList ++ ['('] := by decide
  simp only [arraysOf,applied,opening,List.replicate_succ,List.flatten_cons,List.append_assoc,
    List.cons_append,List.nil_append]
  rw [← List.replicate_succ,List.replicate_succ']

theorem appliedNested (kind : Kind) {text : Text} (h : NestedText text) :
    NestedText (applied kind text) := by
  obtain ⟨ts,lexed,good⟩ := h
  obtain ⟨us,z,same,closing,-,lexed'⟩ := appliedLexes kind (streamExact.mp lexed)
  refine ⟨_,streamExact.mpr lexed',?_⟩
  change nestedFrom ([] ++ [')']) (us ++ [z]) = true
  rw [nestedAround good same]
  simp [nestedFrom,bracket?,closing,closer?]

variable {d : Dialect} {text : Text} {c : Column}

/- By induction on the number of arrays; each one more is read one level deeper. -/
theorem arraysRead (builtin : d.keywords = Keywords.builtin) (read : d.columnOf [] text = .ok c)
    (nested : NestedText text) (other : c.kind ≠ .array) (k : Nat) :
    NestedText (arraysOf k text) ∧ ∃ a,
      Dialect.columnOf { d with maxDepth := d.maxDepth + k } [] (arraysOf k text) = .ok a ∧
      c.Wraps k a := by
  induction k with
  | zero =>
    have plain : arraysOf 0 text = text := by simp [arraysOf]
    rw [plain]
    exact ⟨nested,c,read,.base other⟩
  | succ k ih =>
    obtain ⟨nested,a,read,wraps⟩ := ih
    let inside : Dialect := { d with maxDepth := d.maxDepth + k }
    let field : Field := ⟨[],arraysOf k text,a⟩
    have fits : ∀ f ∈ [field], f.Fits inside := by
      intro f member
      cases List.mem_singleton.mp member
      exact ⟨read,nested⟩
    have suits : Suits .array [a] := (suitsUnnamed (by decide)).mpr rfl
    obtain ⟨x,made,kind,one⟩ := (composedOutcome (d := inside) builtin (List.cons_ne_nil _ _) fits
      (by decide) rfl fun f member => .inr (by cases List.mem_singleton.mp member; rfl)).1 suits
    rw [arraysOuter]
    exact ⟨appliedNested .array nested,x,made,.array wraps kind one⟩

theorem columnOfDeeper {name : Text} {limit : Nat} (read : d.columnOf name text = .ok c)
    (deep : d.maxDepth ≤ limit) : Dialect.columnOf { d with maxDepth := limit } name text = .ok c := by
  have extended : CutOff (d.scope text text.length) (d.columnOf name text)
      (Dialect.columnOf { d with maxDepth := limit } name text) :=
    cutOffFollowed (.same _) fun ts => cutOffFollowed (onlyExtended deep ts) fun _ => .same _
  rcases cutOffOverrun extended with ⟨start,overrun⟩ | same
  · exact nomatch read.symm.trans overrun
  · rw [same,read]

theorem parsedMade {cs : List Column} (read : d.parse text = .ok cs) :
    ∀ c ∈ cs, ∃ x, Column.Made x ∧ x.column = c := by
  obtain ⟨ts,_,series⟩ := parseExact.mp read
  exact fun c member => Column.soundMade c (columnsSound series c member)

theorem columnOfMade {name : Text} (read : d.columnOf name text = .ok c) :
    ∃ x, Column.Made x ∧ x.column = c := by
  obtain ⟨t,tail,column,_,outer,rfl⟩ := columnOfExact.mp read
  exact Column.soundMade _ (Column.soundRenamed (outermostSound outer) name)

theorem arraysFlattened :
    (∀ x, Column.Made x → (x.level = x.column.arrayLevel ∧ x.base = x.column.arrayBase?) ∧
      (∀ y : Column, y.Within x.column → y.Flattens y.arrayLevel y.arrayBase?) ∧
      ∀ (e : Column.Draft) c, e.nested = x.column.nested → Column.ofDraft e = .ok c →
        ∃ z, Column.Made z ∧ z.column = c) ∧
    (∀ (d : Dialect) text cs, d.parse text = .ok cs → ∀ c ∈ cs, ∃ x, Column.Made x ∧ x.column = c) ∧
    (∀ (d : Dialect) name text c, d.columnOf name text = .ok c →
      ∃ x, Column.Made x ∧ x.column = c) ∧
    ∀ (d : Dialect) k name text c limit, d.keywords = Keywords.builtin → 1 ≤ k →
      d.columnOf [] text = .ok c → NestedText text → c.kind ≠ .array → d.maxDepth + k ≤ limit →
      ∃ a, Dialect.columnOf { d with maxDepth := limit } name (arraysOf k text) = .ok a ∧
        a.Levels c k := by
  refine ⟨fun x made => ⟨(Column.madeFlattens made).2,fun y inside => ?_,
    fun e c => Column.replacedMade made⟩,fun d text cs => parsedMade,
    fun d name text c => columnOfMade,?_⟩
  · obtain ⟨z,made,rfl⟩ := Column.madeWithin made inside
    obtain ⟨flattens,level,base⟩ := Column.madeFlattens made
    rwa [level,base] at flattens
  · intro d k name text c limit builtin some read nested other deep
    obtain ⟨k,rfl⟩ : ∃ n, k = n + 1 := ⟨k - 1,by omega⟩
    obtain ⟨-,a,outer,wraps⟩ := arraysRead builtin read nested other (k + 1)
    exact ⟨_,columnOfRenamed (columnOfDeeper outer deep) name,
      Column.wrapsLevels (Column.wrapsRenamed wraps name)⟩

theorem arraysFlattenedText :
    let d : Dialect := ⟨Keywords.builtin,0⟩
    let c : Column := ⟨[],"FixedString( 2)".toList,.fixedString,false,false,true,2,[],none,none,none,
      some 2,none,none⟩
    ∃ a, Dialect.columnOf { d with maxDepth := 3 } "m".toList
        "Array(Array(Array(FixedString( 2))))".toList = .ok a ∧ a.Levels c 3 := by
  intro d c
  let size : Token := ⟨.number,"2".toList,1⟩
  have tokens : Lexes 0 " 2".toList [size] := streamExact.mp (by decide +kernel)
  have length : Ranged 1 (2 ^ 31 - 1) size 2 :=
    ⟨rfl,Integer.readExact.mp (by decide +kernel),by decide,by decide⟩
  have builtin : d.keywords = Keywords.builtin := by simp only [d]
  have read : d.columnOf [] "FixedString( 2)".toList = .ok c :=
    (appliedExact builtin (.inr (by decide)) tokens (by decide +kernel)).mpr
      ⟨[[size]],_,.last [size],.literals rfl (.length length),by decide +kernel⟩
  have nested : NestedText "FixedString( 2)".toList := by decide +kernel
  have around : "Array(Array(Array(FixedString( 2))))".toList =
      arraysOf 3 "FixedString( 2)".toList := by decide
  rw [around]
  exact arraysFlattened.2.2.2 d 3 _ _ c 3 builtin (by decide) read nested (by decide) (by decide)

end Dialect
end ColumnDecl
