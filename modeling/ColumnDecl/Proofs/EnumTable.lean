import ColumnDecl.EnumTable
import Mathlib.Algebra.Group.Int.Defs

/-! The tables that can be made. Of pairs in which no name and no code comes twice a table is made if
their codes fit, and it holds them as they were given. -/
namespace ColumnDecl.EnumTable

def Distinct (p q : Text × Int) : Prop := p.1 ≠ q.1 ∧ p.2 ≠ q.2

theorem distinctExact {pairs : List (Text × Int)} :
    pairs.Pairwise Distinct ↔ (pairs.map Prod.fst).Nodup ∧ (pairs.map Prod.snd).Nodup := by
  rw [List.Nodup,List.Nodup,List.pairwise_map,List.pairwise_map,← List.pairwise_and_iff]
  rfl

theorem clashCons {seen pairs : List (Text × Int)} {name : Text} {code : Int} :
    clash? seen ((name,code) :: pairs) = none ↔
      (∀ q ∈ seen, Distinct q (name,code)) ∧ clash? (seen ++ [(name,code)]) pairs = none := by
  rw [clash?]
  constructor
  · intro h
    split at h
    next => contradiction
    next fresh =>
      split at h
      next => contradiction
      next unused =>
        refine ⟨fun q hq => ⟨?_,?_⟩,h⟩
        · intro same
          exact fresh (List.any_eq_true.mpr ⟨q,hq,beq_iff_eq.mpr same⟩)
        · simpa using List.find?_eq_none.mp unused q hq
  · intro h
    obtain ⟨apart,rest⟩ := h
    have fresh : ¬seen.any (·.1 == name) = true := by
      intro found
      obtain ⟨q,hq,same⟩ := List.any_eq_true.mp found
      exact (apart q hq).1 (beq_iff_eq.mp same)
    have unused : seen.find? (·.2 == code) = none :=
      List.find?_eq_none.mpr fun q hq same => (apart q hq).2 (beq_iff_eq.mp same)
    rw [if_neg fresh,unused]
    exact rest

theorem clashNone {seen pairs : List (Text × Int)} (earlier : seen.Pairwise Distinct) :
    clash? seen pairs = none ↔ (seen ++ pairs).Pairwise Distinct := by
  induction pairs generalizing seen with
  | nil => simpa [clash?] using earlier
  | cons p pairs ih =>
    rw [clashCons,List.append_cons seen p pairs]
    constructor
    · intro h
      exact (ih (by simpa [List.pairwise_append,earlier] using h.1)).mp h.2
    · intro h
      have front : (seen ++ [p]).Pairwise Distinct := (List.pairwise_append.mp h).1
      refine ⟨?_,(ih front).mpr h⟩
      simpa [List.pairwise_append,earlier] using front

/-- What a table of codes of this many bits holds to. -/
structure Sound (bits : Nat) (t : EnumTable) : Prop where
  some : t.entries ≠ []
  names : t.names.Nodup
  codes : t.codes.Nodup
  fit : ∀ code ∈ t.codes, -(2 : Int) ^ (bits - 1) ≤ code ∧ code < 2 ^ (bits - 1)

theorem ofPairsExact {pairs : List (Text × Int)} {t : EnumTable} :
    ofPairs pairs = .ok t ↔ t = ⟨pairs⟩ ∧ t.names.Nodup ∧ t.codes.Nodup := by
  have apart : clash? [] pairs = none ↔ (pairs.map Prod.fst).Nodup ∧ (pairs.map Prod.snd).Nodup := by
    rw [clashNone .nil,List.nil_append,distinctExact]
  unfold ofPairs
  cases clash : clash? [] pairs with
  | some cause =>
    refine ⟨nofun,fun ⟨same,distinct⟩ => ?_⟩
    rw [same] at distinct
    rw [apart.mpr distinct] at clash
    contradiction
  | none =>
    constructor
    · intro h
      cases h
      exact ⟨rfl,apart.mp clash⟩
    · intro h
      rw [h.1]

theorem fitsExact {bits : Nat} {code : Int} :
    fits bits code = true ↔ -(2 : Int) ^ (bits - 1) ≤ code ∧ code < 2 ^ (bits - 1) := by
  unfold fits
  rw [Bool.and_eq_true,decide_eq_true_iff,decide_eq_true_iff]
  rfl

theorem ofWidthExact {bits : Nat} (width : 0 < bits) {pairs : List (Text × Int)} {t : EnumTable} :
    ofWidth bits pairs = .ok t ↔ t = ⟨pairs⟩ ∧ t.Sound bits := by
  unfold ofWidth
  dsimp only
  constructor
  · intro h
    split at h
    next => contradiction
    next some =>
      split at h
      next => contradiction
      next =>
        split at h
        next =>
          split at h
          · exact nomatch h
          · exact nomatch h
        next inside =>
          cases made : ofPairs pairs with
          | error cause => rw [made] at h; contradiction
          | ok table =>
            rw [made] at h
            cases h
            obtain ⟨rfl,names,codes⟩ := ofPairsExact.mp made
            refine ⟨rfl,some,names,codes,fun code member => ?_⟩
            obtain ⟨p,hp,rfl⟩ := List.mem_map.mp member
            exact fitsExact.mp (by simpa using List.find?_eq_none.mp inside p hp)
  · intro h
    obtain ⟨rfl,some,names,codes,fit⟩ := h
    have inside : (pairs.find? fun p => !fits bits p.2) = none := by
      refine List.find?_eq_none.mpr fun p hp => ?_
      simpa using fitsExact.mpr (fit p.2 (List.mem_map_of_mem hp))
    rw [if_neg some,if_neg (by omega),Int.toNat_natCast,inside,
      ofPairsExact.mpr ⟨rfl,names,codes⟩]
    rfl

/- With a width given, only a code that is too long to be written is refused without a fault. -/
theorem ofWidthRefused {bits : Nat} {pairs : List (Text × Int)} {failure : Failure}
    (h : ofWidth bits pairs = .error failure) (width : 0 < bits) :
    (∃ fault, failure = .rejected fault) ∨
      (failure = .unwritableNumber ∧
        ∃ p ∈ pairs, fits bits p.2 = false ∧ Integer.isWritable p.2 = false) := by
  unfold ofWidth at h
  dsimp only at h
  split at h
  next => cases h; exact .inl ⟨_,rfl⟩
  next =>
    split at h
    next none => omega
    next =>
      split at h
      next name code outside =>
        split at h
        next => cases h; exact .inl ⟨_,rfl⟩
        next long =>
          cases h
          have found := List.find?_some outside
          refine .inr ⟨rfl,_,List.mem_of_find?_eq_some outside,by simpa using found,?_⟩
          exact Bool.eq_false_iff.mpr long
      next =>
        cases made : ofPairs pairs with
        | error cause => rw [made] at h; cases h; exact .inl ⟨_,rfl⟩
        | ok table => rw [made] at h; contradiction

end ColumnDecl.EnumTable
