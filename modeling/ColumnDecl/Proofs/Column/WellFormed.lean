import ColumnDecl.Proofs.Column.Draft
import ColumnDecl.Proofs.EnumTable

/-! Well-formed columns: what the kind of a column says about all else it holds. Every draft that
passes its checks becomes one, if the parameters of its type suit its kind. -/
namespace ColumnDecl

namespace Kind

def isDecimal (k : Kind) : Bool := k == .decimal || k.sizedPrecision?.isSome

/-- The lengths and precisions of a kind; none where it has no precision. -/
def precisionRange? (k : Kind) : Option (Int × Int) :=
  if k = .fixedString then some (1,2 ^ 31 - 1) else if k.isDecimal then some (1,76) else none

def scaleRange? (k : Kind) (precision : Option Int) : Option (Int × Int) :=
  if k = .dateTime64 then some (0,9)
  else if k.isDecimal then precision.map fun p => (0,p) else none

theorem bareSimple {kind : Kind} (bare : kind.shape = .bare) : kind.isComposite = false := by
  rw [isComposite,bare]
  rfl

end Kind

namespace Column

/-- The value lies in the range, and there is one exactly if there is a range. -/
def Ranged : Option (Int × Int) → Option Int → Prop
  | some (low,high), some v => low ≤ v ∧ v ≤ high
  | none, none => True
  | _, _ => False

def Enumerated : Option Nat → Option EnumTable → Prop
  | some bits, some t => t.Sound bits
  | none, none => True
  | _, _ => False

def Nests (kind : Kind) (count : Nat) : Prop :=
  match kind with
  | .array | .simpleAggregateFunction => count = 1
  | .map => count = 2
  | .tuple | .nested => 1 ≤ count
  | .aggregateFunction => True
  | _ => count = 0

/-- Bytes of a decimal number of this precision. -/
def Stores (precision width : Int) : Prop :=
  (precision ≤ 9 ∧ width = 4) ∨ (10 ≤ precision ∧ precision ≤ 18 ∧ width = 8) ∨
    (19 ≤ precision ∧ precision ≤ 38 ∧ width = 16) ∨ (39 ≤ precision ∧ precision ≤ 76 ∧ width = 32)

inductive Width : Kind → Option Int → Int → Prop where
  | own {kind precision} (some : kind.width ≠ 0) : Width kind precision kind.width
  | text (n : Int) : Width .fixedString (some n) n
  | decimal {p w} (stores : Stores p w) : Width .decimal (some p) w

/-- What the parameters of a type leave in its column. -/
structure Particulars (kind : Kind) (table : Option EnumTable) (signature : Option Text)
    (precision scale : Option Int) (timeZone : Option Text) : Prop where
  table : Enumerated kind.enumBits? table
  signature : signature.isSome = kind.isAggregate
  scale : Ranged (kind.scaleRange? precision) scale
  precision : Ranged kind.precisionRange? precision
  timeZone : timeZone ≠ none → kind = .dateTime ∨ kind = .dateTime32 ∨ kind = .dateTime64

structure WellFormed (c : Column) : Prop where
  resolved : c.kind.isWrapper = false ∧ c.kind ≠ .enum
  count : Nests c.kind c.nested.length
  named : c.kind = .nested → ∀ y ∈ c.nested, y.name ≠ []
  unnamed : c.kind.namesItsParts = false → ∀ y ∈ c.nested, y.name = []
  own : Particulars c.kind c.enumTable c.signature c.precision c.scale c.timeZone
  fixed : c.fixedLength = true → Width c.kind c.precision c.estimatedLength
  varying : c.fixedLength = false → c.estimatedLength = 1

/-! Particulars of a type without any, and of one with a function. -/

theorem plainParticulars {kind : Kind} (plain : kind.shape ≠ .required)
    (other : kind.isAggregate = false) : Particulars kind none none none none none := by
  refine ⟨?_,by rw [other]; rfl,?_,?_,fun some => absurd rfl some⟩
  all_goals cases kind <;> first | exact trivial | exact absurd rfl plain

theorem simpleParticulars {kind : Kind} (simple : kind.isComposite = false) :
    Particulars kind none none none none none := by
  refine plainParticulars ?_ ?_
  all_goals cases kind <;> first | decide | exact nomatch simple

theorem aggregateShape {kind : Kind} (aggregate : kind.isAggregate = true) :
    kind.shape = .nested := by
  cases kind <;> first | rfl | exact nomatch aggregate

theorem aggregateParticulars {kind : Kind} (aggregate : kind.isAggregate = true) (signature : Text) :
    Particulars kind none (some signature) none none none := by
  refine ⟨?_,by rw [aggregate]; rfl,?_,?_,fun some => absurd rfl some⟩
  all_goals cases kind <;> first | exact trivial | exact nomatch aggregate

/-! Lengths. -/

theorem decimalStores {p : Int} {w : Nat} (h : decimalWidth p = .ok w) : Stores p w := by
  unfold decimalWidth at h
  unfold Stores
  split at h
  · cases h; omega
  split at h
  · cases h; omega
  split at h
  · cases h; omega
  split at h
  · cases h; omega
  · contradiction

theorem decimalStored {p : Int} (small : p ≤ 76) : ∃ w, decimalWidth p = .ok w := by
  unfold decimalWidth
  split
  · exact ⟨4,rfl⟩
  split
  · exact ⟨8,rfl⟩
  split
  · exact ⟨16,rfl⟩
  · exact ⟨32,rfl⟩

theorem lengthSound {kind : Kind} {precision : Option Int} {length : Bool × Int}
    (h : lengthOf kind precision = .ok length) (ranged : Ranged kind.precisionRange? precision) :
    (length.1 = true → Width kind precision length.2) ∧ (length.1 = false → length.2 = 1) := by
  have own : ∀ length, (if kind.width = 0 then (false,1) else (true,(kind.width : Int))) = length →
      (length.1 = true → Width kind precision length.2) ∧ (length.1 = false → length.2 = 1) := by
    intro length same
    split at same
    next => cases same; exact ⟨nofun,fun _ => rfl⟩
    next some => cases same; exact ⟨fun _ => .own some,nofun⟩
  unfold lengthOf at h
  dsimp only at h
  split at h
  next => cases h; exact own _ rfl
  next p =>
    split at h
    next => cases h; exact own _ rfl
    split at h
    next text => cases h; rw [text]; exact ⟨fun _ => .text p,nofun⟩
    split at h
    next decimal =>
      cases stored : decimalWidth p with
      | error cause => rw [stored] at h; contradiction
      | ok w =>
        rw [stored] at h
        cases h
        rw [decimal]
        exact ⟨fun _ => .decimal (decimalStores stored),nofun⟩
    next => cases h; exact own _ rfl

theorem lengthKnown {kind : Kind} {precision : Option Int}
    (ranged : Ranged kind.precisionRange? precision) :
    ∃ length, lengthOf kind precision = .ok length := by
  unfold lengthOf
  dsimp only
  split
  next => exact ⟨_,rfl⟩
  next p =>
    split
    · exact ⟨_,rfl⟩
    split
    · exact ⟨_,rfl⟩
    split
    next decimal =>
      rw [decimal] at ranged
      obtain ⟨w,stored⟩ := decimalStored ranged.2
      rw [stored]
      exact ⟨_,rfl⟩
    next => exact ⟨_,rfl⟩

/-! Drafts. -/

theorem faultClear {d : Draft} (h : d.fault? = none) :
    d.kind.isWrapper = false ∧ d.kind ≠ .enum ∧ Counted d.kind d.nested.length ∧
      (d.kind = .nested → ∀ y ∈ d.nested, y.name ≠ []) := by
  unfold Draft.fault? at h
  split at h
  next => contradiction
  next resolved =>
    split at h
    next => contradiction
    next counted =>
      obtain ⟨wrapper,enum⟩ : d.kind.isWrapper = false ∧ d.kind ≠ .enum := by
        simpa using resolved
      have clear : d.arityFault? = none := by
        cases arity : d.arityFault? with
        | none => rfl
        | some cause => exact absurd arity (counted cause)
      refine ⟨wrapper,enum,arityExact.mp clear,fun nested y member none => ?_⟩
      rw [nested] at h
      have named := List.find?_eq_none.mp (Option.map_eq_none_iff.mp h) y member
      exact named (List.isEmpty_iff.mpr none)

theorem countedNests {kind : Kind} {count : Nat} (counted : Counted kind count)
    (wrapper : kind.isWrapper = false) (leaf : kind.shape ≠ .nested → count = 0) :
    Nests kind count := by
  cases kind with
  | array | map | simpleAggregateFunction => exact counted
  | tuple | nested => exact Nat.pos_of_ne_zero counted
  | aggregateFunction => trivial
  | nullable | lowCardinality => contradiction
  | _ => exact leaf (by decide)

theorem draftWellFormed {d : Draft} {c : Column} (made : ofDraft d = .ok c)
    (derived : d.fixedLength = none ∧ d.estimatedLength = none)
    (leaf : d.kind.shape ≠ .nested → d.nested = [])
    (unnamed : d.kind.namesItsParts = false → ∀ y ∈ d.nested, y.name = [])
    (own : Particulars d.kind d.enumTable d.signature d.precision d.scale d.timeZone) :
    c.WellFormed := by
  obtain ⟨fault,length,size,rfl⟩ := ofDraftExact.mp made
  obtain ⟨wrapper,enum,counted,named⟩ := faultClear fault
  have sizes : lengthOf d.kind d.precision = .ok length := by
    unfold Draft.length at size
    rw [derived.1,derived.2] at size
    cases found : lengthOf d.kind d.precision with
    | error cause => rw [found] at size; contradiction
    | ok length => rw [found] at size; cases size; rfl
  obtain ⟨fixed,varying⟩ := lengthSound sizes own.precision
  have count := countedNests counted wrapper fun plain => by rw [leaf plain]; rfl
  exact ⟨⟨wrapper,enum⟩,count,named,unnamed,own,fixed,varying⟩

/- Outside of the types with nested columns no draft is refused. -/
theorem draftBuilt {d : Draft} (literal : d.kind.shape ≠ .nested) (resolved : d.kind ≠ .enum)
    (table : d.kind.isEnum = true → d.enumTable.isSome = true)
    (ranged : Ranged d.kind.precisionRange? d.precision) : ∃ c, ofDraft d = .ok c := by
  have plain : d.kind.isWrapper = false ∧ Counted d.kind d.nested.length ∧ d.kind ≠ .nested := by
    cases kind : d.kind <;> rw [kind] at literal
    all_goals first | exact ⟨rfl,trivial,nofun⟩ | exact absurd rfl literal
  obtain ⟨wrapper,counted,other⟩ := plain
  have clear : d.fault? = none := by
    unfold Draft.fault?
    rw [wrapper,arityExact.mpr counted,if_neg other]
    cases enum : d.kind.isEnum with
    | false => simp [resolved]
    | true => simp [resolved,Option.isSome_iff_ne_none.mp (table enum)]
  have size : ∃ length, d.length = .ok length := by
    obtain ⟨length,known⟩ := lengthKnown ranged
    unfold Draft.length
    rw [known]
    split
    · exact ⟨_,rfl⟩
    · exact ⟨_,rfl⟩
  obtain ⟨length,size⟩ := size
  exact ⟨_,ofDraftExact.mpr ⟨clear,length,size,rfl⟩⟩

theorem simpleBuilt {d : Draft} (simple : d.kind.isComposite = false) (plain : d.precision = none) :
    ∃ c, ofDraft d = .ok c := by
  have own : Ranged d.kind.precisionRange? d.precision := by
    rw [plain]
    exact (simpleParticulars simple).precision
  have literal : d.kind.shape ≠ .nested ∧ d.kind ≠ .enum ∧ d.kind.isEnum ≠ true := by
    cases kind : d.kind <;> rw [kind] at simple
    all_goals first | exact absurd simple (by decide) | exact ⟨by decide,by decide,by decide⟩
  exact draftBuilt literal.1 literal.2.1 (fun enum => absurd enum literal.2.2) own

/-! What a well-formed column may be given from outside. -/

theorem retold {c : Column} (h : c.WellFormed) (name typeText : Text) (nullable : Bool) :
    { c with name := name, typeText := typeText, nullable := nullable }.WellFormed :=
  ⟨h.resolved,h.count,h.named,h.unnamed,h.own,h.fixed,h.varying⟩

theorem wrappedOnce {c : Column} (h : c.WellFormed) (name typeText : Text)
    (nullable lowCardinality : Bool) :
    { c with
      name := name
      typeText := typeText
      nullable := nullable
      lowCardinality := lowCardinality
      fixedLength := false
      estimatedLength := 1 }.WellFormed :=
  ⟨h.resolved,h.count,h.named,h.unnamed,h.own,nofun,fun _ => rfl⟩

end Column
end ColumnDecl
