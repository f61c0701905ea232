import ColumnDecl.Text
import Mathlib.Data.List.Nodup

/-! Lists of texts without repetition. To compare two texts takes a step for each letter they share, to
compare two numbers takes one, so a long list is checked on a number for each text. -/
namespace ColumnDecl.Text

/-- Texts with different numbers are different. -/
def code : Text → Nat
  | [] => 0
  | c :: t => c.toNat + 1 + 0x110001 * code t

/-- No number comes twice. -/
def apart : List Nat → Bool
  | [] => true
  | n :: ns => ns.all (fun m => !Nat.beq n m) && apart ns

theorem apartNodup {ns : List Nat} (h : apart ns = true) : ns.Nodup := by
  induction ns with
  | nil => exact List.nodup_nil
  | cons n ns ih =>
    rw [apart,Bool.and_eq_true,List.all_eq_true] at h
    refine List.nodup_cons.mpr ⟨fun again => ?_,ih h.2⟩
    have other := h.1 n again
    rw [Nat.beq_refl] at other
    contradiction

theorem codesApart {ts : List Text} (h : apart (ts.map code) = true) : ts.Nodup :=
  (apartNodup h).of_map code

variable {α : Type} {es : List (Text × α)} {key : Text} {v : α}

theorem lookupListed (distinct : (es.map Prod.fst).Nodup) :
    es.lookup key = some v ↔ (key,v) ∈ es := by
  rw [List.lookup_eq_some_iff]
  constructor
  · rintro ⟨front,back,rfl,_⟩
    exact List.mem_append_right front List.mem_cons_self
  · intro member
    obtain ⟨front,back,rfl⟩ := List.append_of_mem member
    refine ⟨front,back,rfl,fun s before => ?_⟩
    rw [List.map_append,List.map_cons] at distinct
    have other := (List.nodup_append.mp distinct).2.2 s.1 (List.mem_map_of_mem before) key
      List.mem_cons_self
    exact bne_iff_ne.mpr other.symm

theorem lookupAbsent : es.lookup key = none ↔ key ∉ es.map Prod.fst := by
  rw [List.lookup_eq_none_iff]
  constructor
  · intro other member
    obtain ⟨e,listed,rfl⟩ := List.mem_map.mp member
    exact bne_iff_ne.mp (other e listed) rfl
  · intro absent e listed
    exact bne_iff_ne.mpr fun same => absent (same ▸ List.mem_map_of_mem listed)

end ColumnDecl.Text
