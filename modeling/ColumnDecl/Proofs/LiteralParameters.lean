import ColumnDecl.Proofs.Applied
import ColumnDecl.Proofs.Column.WellFormed
import Mathlib.Order.Bounds.Basic

/-! Types with literal parameters written out. One is read just when its list holds the numbers and the
time zone that its kind takes, each number in its range however it is spelled. -/
namespace ColumnDecl

/-- This many bytes are the fewest of an integer that holds all numbers of so many decimal digits. -/
def IsWidth (precision : Int) (bytes : Nat) : Prop :=
  IsLeast {w : Nat | w ∈ [4,8,16,32] ∧ 10 ^ precision.toNat ≤ 2 ^ (8 * w - 1)} bytes

namespace Column

/-- How many decimal digits an integer of so many bytes holds. -/
def capacities : List (Nat × Nat) := [(4,9),(8,18),(16,38),(32,76)]

theorem capacityExact {e : Nat × Nat} (member : e ∈ capacities) (n : Nat) :
    10 ^ n ≤ 2 ^ (8 * e.1 - 1) ↔ n ≤ e.2 := by
  have bounds : ∀ e ∈ capacities,
      10 ^ e.2 ≤ 2 ^ (8 * e.1 - 1) ∧ 2 ^ (8 * e.1 - 1) < 10 ^ (e.2 + 1) := by decide
  obtain ⟨holds,full⟩ := bounds e member
  constructor
  · intro h
    by_contra more
    have larger : 10 ^ (e.2 + 1) ≤ 10 ^ n := Nat.pow_le_pow_right (by decide) (by omega)
    omega
  · intro h
    exact (Nat.pow_le_pow_right (by decide) h).trans holds

theorem leastWidth {precision : Int} (e : Nat × Nat) (low : Nat) (member : e ∈ capacities)
    (earlier : ∀ f ∈ capacities, f.1 < e.1 → f.2 < low) (more : low ≤ precision.toNat)
    (fits : precision.toNat ≤ e.2) : IsWidth precision e.1 := by
  have listed : ∀ w : Nat, w ∈ [4,8,16,32] ↔ ∃ f ∈ capacities, f.1 = w := by
    intro w
    simp [capacities,eq_comm]
  refine ⟨⟨(listed _).mpr ⟨e,member,rfl⟩,(capacityExact member _).mpr fits⟩,?_⟩
  rintro w ⟨width,holds⟩
  obtain ⟨f,member',rfl⟩ := (listed w).mp width
  by_contra smaller
  have enough := (capacityExact member' _).mp holds
  have less := earlier f member' (by omega)
  omega

theorem storesLeast {precision : Int} {w : Nat} (stores : Stores precision w) :
    IsWidth precision w := by
  rcases stores with ⟨high,same⟩ | ⟨low,high,same⟩ | ⟨low,high,same⟩ | ⟨low,high,same⟩
  · obtain rfl : w = 4 := by omega
    exact leastWidth (4,9) 0 (by decide) (by decide) (by omega) (by dsimp only; omega)
  · obtain rfl : w = 8 := by omega
    exact leastWidth (8,18) 10 (by decide) (by decide) (by omega) (by dsimp only; omega)
  · obtain rfl : w = 16 := by omega
    exact leastWidth (16,38) 19 (by decide) (by decide) (by omega) (by dsimp only; omega)
  · obtain rfl : w = 32 := by omega
    exact leastWidth (32,76) 39 (by decide) (by decide) (by omega) (by dsimp only; omega)

end Column

namespace Dialect
open Token Declaration

/-- The bytes of one value of a kind with these parameters. -/
def Bytes (kind : Kind) (p : Parameters) (length : Int) : Prop :=
  match kind with
  | .fixedString => p.precision = some length
  | .dateTime | .dateTime32 => length = 4
  | .dateTime64 => length = 8
  | _ => ∃ precision w, p.precision = some precision ∧ IsWidth precision w ∧ length = w

theorem bytesLeast {precision length : Int} {w : Nat} (least : IsWidth precision w) :
    (∃ p v, some precision = some p ∧ IsWidth p v ∧ length = (v : Nat)) ↔ length = w := by
  constructor
  · intro h
    obtain ⟨p,v,same,other,rfl⟩ := h
    cases same
    exact congrArg Nat.cast (other.unique least)
  · intro same
    exact ⟨precision,w,rfl,least,same⟩

theorem literalsLength {kind : Kind} {groups : List (List Token)} {p : Parameters}
    (h : Literals kind groups p) : ∃ length, Column.lengthOf kind p.precision = .ok (true,length) ∧
      ∀ other, Bytes kind p other ↔ other = length := by
  have decimal : ∀ {t : Token} {precision : Int}, Ranged 1 76 t precision → ∃ w : Nat,
      Column.lengthOf .decimal (some precision) = .ok (true,(w : Int)) ∧ IsWidth precision w := by
    intro t precision ranged
    have low := ranged.low
    obtain ⟨w,stored⟩ := Column.decimalStored ranged.high
    refine ⟨w,?_,Column.storesLeast (Column.decimalStores stored)⟩
    unfold Column.lengthOf
    dsimp only
    rw [if_neg (by omega),if_neg (by decide),if_pos rfl,stored]
    rfl
  cases h with
  | @length t n length =>
    have low := length.low
    refine ⟨n,?_,fun other => ?_⟩
    · unfold Column.lengthOf
      dsimp only
      rw [if_neg (by omega),if_pos rfl]
    · simp [Bytes,eq_comm]
  | precision precision =>
    obtain ⟨w,known,least⟩ := decimal precision
    exact ⟨w,known,fun other => bytesLeast least⟩
  | scaled precision scale =>
    obtain ⟨w,known,least⟩ := decimal precision
    exact ⟨w,known,fun other => bytesLeast least⟩
  | sized sized scale =>
    simp only [sizedDecimals,List.mem_cons,Prod.mk.injEq,List.not_mem_nil,or_false] at sized
    rcases sized with ⟨rfl,rfl⟩ | ⟨rfl,rfl⟩ | ⟨rfl,rfl⟩ | ⟨rfl,rfl⟩
    · exact ⟨4,rfl,fun _ => bytesLeast (Column.storesLeast (by simp [Column.Stores]))⟩
    · exact ⟨8,rfl,fun _ => bytesLeast (Column.storesLeast (by simp [Column.Stores]))⟩
    · exact ⟨16,rfl,fun _ => bytesLeast (Column.storesLeast (by simp [Column.Stores]))⟩
    · exact ⟨32,rfl,fun _ => bytesLeast (Column.storesLeast (by simp [Column.Stores]))⟩
  | fraction | zonedFraction => exact ⟨8,rfl,fun _ => Iff.rfl⟩
  | zone plain => rcases plain with rfl | rfl <;> exact ⟨4,rfl,fun _ => Iff.rfl⟩

theorem literalBuilt {name text : Text} {kind : Kind} (literal : kind ∈ literalKinds)
    {p : Parameters} {length : Int}
    (size : Column.lengthOf kind p.precision = .ok (true,length)) {c : Column} :
    Column.ofDraft {
        name := name
        typeText := text
        kind := kind
        precision := p.precision
        scale := p.scale
        timeZone := p.timeZone } = .ok c ↔
      c = ⟨name,text,kind,false,false,true,length,[],none,none,none,p.precision,p.scale,
        p.timeZone⟩ := by
  rw [Column.ofDraftExact]
  constructor
  · intro h
    obtain ⟨_,_,found,rfl⟩ := h
    simp only [Column.Draft.length,size] at found
    cases found
    rfl
  · intro same
    refine ⟨?_,(true,length),?_,same⟩
    · simp only [literalKinds,List.mem_cons,List.not_mem_nil,or_false] at literal
      rcases literal with rfl | rfl | rfl | rfl | rfl | rfl | rfl | rfl | rfl <;> rfl
    · simp only [Column.Draft.length,size]
      rfl

theorem literalsExact {d : Dialect} (builtin : d.keywords = Keywords.builtin) {kind : Kind}
    (literal : kind ∈ literalKinds) {body : Text} {ts : List Token} (tokens : stream body = .ok ts)
    (matched : Matched ts) {name : Text} {c : Column} :
    d.columnOf name (applied kind body) = .ok c ↔ ∃ groups p length, Separated groups ts ∧
      Literals kind groups p ∧ Bytes kind p length ∧
      c = {
        name := name
        typeText := applied kind body
        kind := kind
        nullable := false
        lowCardinality := false
        fixedLength := true
        estimatedLength := length
        nested := []
        enumTable := none
        aggregate := none
        signature := none
        precision := p.precision
        scale := p.scale
        timeZone := p.timeZone } := by
  rw [appliedExact builtin (.inr literal) (streamExact.mp tokens) matched]
  have plain : ∀ kind ∈ literalKinds, kind.isEnum = false := by decide
  constructor
  · intro h
    obtain ⟨groups,e,separated,filled,made⟩ := h
    cases filled with
    | constants enum => rw [plain kind literal] at enum; contradiction
    | @literals p _ read =>
      obtain ⟨length,size,bytes⟩ := literalsLength read
      exact ⟨groups,p,length,separated,read,(bytes length).mpr rfl,(literalBuilt literal size).mp made⟩
  · intro h
    obtain ⟨groups,p,other,separated,read,bytes,same⟩ := h
    obtain ⟨length,size,only⟩ := literalsLength read
    cases (only other).mp bytes
    exact ⟨groups,_,separated,.literals (plain kind literal) read,(literalBuilt literal size).mpr same⟩

theorem literalsExactDecimal :
    let d : Dialect := ⟨Keywords.builtin,0⟩
    let body := "0x28 , +０３".toList
    ∃ ts, stream body = .ok ts ∧ Matched ts ∧ d.columnOf [] (applied .decimal body) = .ok
      ⟨[],"Decimal(0x28 , +０３)".toList,.decimal,false,false,true,32,[],none,none,none,some 40,some 3,
        none⟩ := by
  intro d body
  let precision : Token := ⟨.number,"0x28".toList,0⟩
  let comma : Token := ⟨.comma,[','],5⟩
  let scale : Token := ⟨.number,"+０３".toList,7⟩
  have tokens : stream body = .ok [precision,comma,scale] := by decide +kernel
  have matched : Matched [precision,comma,scale] := by decide +kernel
  have builtin : d.keywords = Keywords.builtin := by simp only [d]
  have first : Ranged 1 76 precision 40 :=
    ⟨rfl,Integer.readExact.mp (by decide +kernel),by decide,by decide⟩
  have second : Ranged 0 40 scale 3 :=
    ⟨rfl,Integer.readExact.mp (by decide +kernel),by decide,by decide⟩
  have width : IsWidth 40 32 := Column.storesLeast (by simp [Column.Stores])
  refine ⟨_,tokens,matched,(literalsExact builtin (by decide) tokens matched).mpr
    ⟨[[precision],[scale]],_,32,.more rfl (.last [scale]),.scaled first second,
      ⟨40,32,rfl,width,rfl⟩,?_⟩⟩
  decide +kernel

end Dialect
end ColumnDecl
