import ColumnDecl.Declaration
import ColumnDecl.Proofs.KeywordTable
import ColumnDecl.Record
import Mathlib.Data.List.Induction
import Mathlib.Order.Bounds.Defs

/-! Records by name. Columns may share a name, and all that have none share the empty one: a lookup takes
the first of them, the view as an object shows the value of the last. -/
namespace ColumnDecl.Record

/-- Where the columns of this name stand. -/
def places (columns : List Column) (name : Text) : Set Nat :=
  { i | ∃ c, columns[i]? = some c ∧ c.name = name }

section
variable {columns : List Column} {values : List Value} {r : Record} {name : Text}

theorem ofRowExact : ofRow columns values = .ok r ↔
    values.length = columns.length ∧ r = ⟨columns,values⟩ := by
  unfold ofRow
  split
  next wide =>
    constructor
    · intro h
      cases h
      exact ⟨wide,rfl⟩
    · rintro ⟨-,rfl⟩
      rfl
  next narrow => exact ⟨nofun,fun h => absurd h.1 narrow⟩

theorem lookupOther {key : Text} (other : name ≠ key) (v : Value) (ms : List (Text × Value)) :
    ((key,v) :: ms).lookup name = ms.lookup name := by
  rw [List.lookup_cons,beq_eq_false_iff_ne.mpr other]

theorem insertLookup (key : Text) (v : Value) (ms : List (Text × Value)) :
    (insert key v ms).lookup name = if name = key then some v else ms.lookup name := by
  induction ms with
  | nil =>
    unfold insert
    split
    next same => rw [same,List.lookup_cons_self]
    next other => exact lookupOther other v []
  | cons m ms ih =>
    obtain ⟨k,w⟩ := m
    unfold insert
    split
    next here =>
      subst here
      split
      next same => rw [same,List.lookup_cons_self]
      next other => rw [lookupOther other,lookupOther other]
    next apart =>
      by_cases first : name = k
      · rw [first,if_neg apart,List.lookup_cons_self,List.lookup_cons_self]
      · rw [lookupOther first,lookupOther first,ih]

/- By induction from the last pair, which takes the place of those before it. -/
theorem gatheredLast (pairs : List (Column × Value)) (known : ∃ p ∈ pairs, p.1.name = name) :
    ∃ (j : Nat) (c : Column) (w : Value), pairs[j]? = some (c,w) ∧ c.name = name ∧
      (∀ (i : Nat) (p : Column × Value), pairs[i]? = some p → p.1.name = name → i ≤ j) ∧
      (pairs.foldl (fun ms p => insert p.1.name p.2 ms) []).lookup name = some w := by
  induction pairs using List.reverseRecOn with
  | nil =>
    obtain ⟨p,member,-⟩ := known
    exact nomatch member
  | append_singleton pairs last ih =>
    rw [List.foldl_append,List.foldl_cons,List.foldl_nil,insertLookup]
    by_cases here : name = last.1.name
    · rw [if_pos here]
      refine ⟨pairs.length,last.1,last.2,List.getElem?_concat_length,here.symm,?_,rfl⟩
      intro i p found _
      have bound := (List.getElem?_eq_some_iff.mp found).1
      rw [List.length_append,List.length_singleton] at bound
      omega
    · rw [if_neg here]
      obtain ⟨p,member,called⟩ := known
      rcases List.mem_append.mp member with before | same
      · obtain ⟨j,c,w,stands,named,last_,shown⟩ := ih ⟨p,before,called⟩
        have bound := (List.getElem?_eq_some_iff.mp stands).1
        refine ⟨j,c,w,(List.getElem?_append_left bound).trans stands,named,?_,shown⟩
        intro i q found calledToo
        rcases Nat.lt_trichotomy i pairs.length with less | rfl | more
        · rw [List.getElem?_append_left less] at found
          exact last_ i q found calledToo
        · rw [List.getElem?_concat_length] at found
          cases found
          exact absurd calledToo.symm here
        · have bound := (List.getElem?_eq_some_iff.mp found).1
          rw [List.length_append,List.length_singleton] at bound
          omega
      · cases List.mem_singleton.mp same
        exact absurd called.symm here

theorem indexLeast (values : List Value) (known : name ∈ columns.map Column.name) :
    ∃ i, IsLeast (places columns name) i ∧ (Record.mk columns values).indexOf name = .ok i := by
  unfold indexOf
  dsimp only
  cases found : columns.findIdx? (·.name == name) with
  | none =>
    obtain ⟨c,member,called⟩ := List.mem_map.mp known
    have other := List.findIdx?_eq_none_iff.mp found c member
    exact absurd (beq_iff_eq.mpr called) (Bool.eq_false_iff.mp other)
  | some i =>
    obtain ⟨bound,called,earlier⟩ := List.findIdx?_eq_some_iff_getElem.mp found
    refine ⟨i,⟨⟨columns[i],List.getElem?_eq_getElem bound,beq_iff_eq.mp called⟩,?_⟩,rfl⟩
    rintro j ⟨c,stands,named⟩
    refine Nat.le_of_not_lt fun less => earlier j less ?_
    obtain ⟨_,rfl⟩ := List.getElem?_eq_some_iff.mp stands
    exact beq_iff_eq.mpr named

theorem membersGreatest (wide : values.length = columns.length)
    (known : name ∈ columns.map Column.name) :
    ∃ j w, IsGreatest (places columns name) j ∧ values[j]? = some w ∧
      (Record.mk columns values).members.lookup name = some w := by
  have paired : ∃ p ∈ columns.zip values, p.1.name = name := by
    obtain ⟨c,member,called⟩ := List.mem_map.mp known
    rw [← List.map_fst_zip (Nat.le_of_eq wide.symm)] at member
    obtain ⟨p,inside,rfl⟩ := List.mem_map.mp member
    exact ⟨p,inside,called⟩
  obtain ⟨j,c,w,stands,named,latest,shown⟩ := gatheredLast _ paired
  obtain ⟨column,value⟩ := List.getElem?_zip_eq_some.mp stands
  refine ⟨j,w,⟨⟨c,column,named⟩,?_⟩,value,shown⟩
  rintro i ⟨d,other,called⟩
  have bound := (List.getElem?_eq_some_iff.mp other).1
  have given := List.getElem?_eq_getElem (wide.symm ▸ bound : i < values.length)
  exact latest i (d,_) (List.getElem?_zip_eq_some.mpr ⟨other,given⟩) called

/-- What a record answers to a name that stands first at `i` and last at `j`. -/
structure Named (r : Record) (name : Text) (i j : Nat) : Prop where
  first : IsLeast (places r.columns name) i
  last : IsGreatest (places r.columns name) j
  index : r.indexOf name = .ok i
  lookup : ∃ v, r.values[i]? = some v ∧ r.get name = .ok v
  member : ∃ w, r.values[j]? = some w ∧ r.members.lookup name = some w

/- A lookup by name is a lookup at its index; the object agrees with both if the name stands once. -/
theorem namedViews (made : ofRow columns values = .ok r) (known : name ∈ columns.map Column.name) :
    ∃ i j, r.Named name i j ∧ (i = j → r.members.lookup name = (r.get name).toOption) := by
  obtain ⟨wide,rfl⟩ := ofRowExact.mp made
  obtain ⟨i,first,index⟩ := indexLeast values known
  obtain ⟨j,w,last,other,member⟩ := membersGreatest wide known
  obtain ⟨c,stands,-⟩ := first.1
  have bound := (List.getElem?_eq_some_iff.mp stands).1
  have value := List.getElem?_eq_getElem (wide.symm ▸ bound : i < values.length)
  have got : (Record.mk columns values).get name = .ok values[i] := by
    rw [get,index]
    dsimp only [bind,Except.bind]
    rw [value]
  refine ⟨i,j,⟨first,last,index,⟨_,value,got⟩,⟨w,other,member⟩⟩,?_⟩
  rintro rfl
  rw [member,got,← other,value]
  rfl

end

theorem namedViewsPair :
    let column (name : String) : Column :=
      ⟨name.toList,"UInt8".toList,.uint8,false,false,true,1,[],none,none,none,none,none,none⟩
    let columns := [column "a",column "b"]
    ∃ r, ofRow columns [.int 1,.int 2] = .ok r ∧ ['b'] ∈ columns.map Column.name ∧
      r.Named ['b'] 1 1 ∧ r.members.lookup ['b'] = (r.get ['b']).toOption := by
  intro column columns
  have made : ofRow columns [.int 1,.int 2] = .ok _ := rfl
  have known : ['b'] ∈ columns.map Column.name := by decide
  obtain ⟨i,j,named,once⟩ := namedViews made known
  have first : i = 1 := Except.ok.inj (named.index.symm.trans rfl)
  have last : j = 1 := by
    obtain ⟨c,stands,called⟩ := named.last.1
    match j, stands with
    | 0, stands =>
      cases stands
      exact absurd called (by decide)
    | 1, _ => rfl
    | j + 2, stands => exact nomatch stands
  subst first last
  exact ⟨_,made,known,named,once rfl⟩

/- The object keeps the value of the last column of a name, a lookup finds that of the first. -/
theorem nameShadowed :
    let text := "a UInt8, a String".toList
    let a := "a".toList
    ∃ columns r, Dialect.standard.parse text = .ok columns ∧
      ofRow columns [.int 1,.text ['x']] = .ok r ∧ a ∈ columns.map Column.name ∧
      r.indexOf a = .ok 0 ∧ r.get a = .ok (.int 1) ∧ r.members.lookup a = some (.text ['x']) ∧
      r.members.lookup a ≠ (r.get a).toOption := by
  intro text a
  let column (type : String) (kind : Kind) (fixed : Bool) : Column :=
    ⟨a,type.toList,kind,false,false,fixed,1,[],none,none,none,none,none,none⟩
  let columns := [column "UInt8" .uint8 true,column "String" .string false]
  have read : Dialect.standard.parse text = .ok columns := by
    rw [Dialect.standard,Keywords.builtinTable]
    decide +kernel
  exact ⟨columns,_,read,rfl,by decide,rfl,rfl,rfl,nofun⟩

end ColumnDecl.Record
