import ColumnDecl.Proofs.Token.Nesting
import ColumnDecl.Declaration.Reader

/-! A passage is a piece of text that stands in two scopes with the same keywords. Everything a
reader takes from a scope (tokens, and the slices between two of them) is the same in both. -/
namespace ColumnDecl

theorem Text.sliceInside (t : Text) {p d e n : Nat} (h : e ≤ n) :
    t.slice (p + d) (p + e) = (t.slice p (p + n)).slice d e := by
  simp only [Text.slice,List.drop_take,List.drop_drop,List.take_take]
  congr 1
  omega

theorem Text.sliceFits {t : Text} {a b : Nat} (h : b ≤ t.length) : (t.slice a b).length = b - a := by
  rw [Text.slice,List.length_take,List.length_drop]
  omega

namespace Declaration
open Token

structure Passage where
  source : Scope
  target : Scope
  start : Nat
  offset : Nat
  size : Nat
  keywords : source.keywords = target.keywords
  text : source.text.slice start (start + size) = target.text.slice offset (offset + size)

namespace Passage
variable {m : Passage}

def At (m : Passage) (a b : Nat) : Prop := ∃ d, a = m.start + d ∧ b = m.offset + d ∧ d ≤ m.size

def Same (m : Passage) : Token → Token → Prop := Shifted m.start m.offset m.size

def Sames (m : Passage) : List Token → List Token → Prop := List.Forall₂ m.Same

theorem sliceAt {a b c d : Nat} (first : m.At a b) (last : m.At c d) :
    m.source.text.slice a c = m.target.text.slice b d := by
  obtain ⟨i,rfl,rfl,_⟩ := first
  obtain ⟨j,rfl,rfl,inside⟩ := last
  rw [Text.sliceInside _ inside,Text.sliceInside _ inside,m.text]

theorem sameAlike {t u : Token} (h : m.Same t u) : Alike t u := ⟨h.1,h.2.1⟩

theorem samesAlike {ts us : List Token} (h : m.Sames ts us) : List.Forall₂ Alike ts us :=
  h.imp fun _ _ => sameAlike

theorem sameStart {t u : Token} (h : m.Same t u) : m.At t.start u.start := by
  obtain ⟨_,_,d,first,second,inside⟩ := h
  exact ⟨d,first,second,by omega⟩

theorem sameStop {t u : Token} (h : m.Same t u) : m.At t.stop u.stop := by
  obtain ⟨_,raw,d,first,second,inside⟩ := h
  exact ⟨d + t.raw.length,by simp only [stop]; omega,by simp only [stop,← raw]; omega,inside⟩

theorem sameValue {t u : Token} (h : m.Same t u) : t.value = u.value := alikeValue (sameAlike h)

theorem sameTag {t u : Token} (h : m.Same t u) : t.tag = u.tag := h.1

end Passage

theorem splitAlong {α β : Type} {R : α → β → Prop} {a b : List α} {c : List β}
    (h : List.Forall₂ R (a ++ b) c) :
    ∃ d e, c = d ++ e ∧ List.Forall₂ R a d ∧ List.Forall₂ R b e := by
  induction a generalizing c with
  | nil => exact ⟨[],c,rfl,.nil,h⟩
  | cons x a ih =>
    obtain ⟨y,c,first,rest,rfl⟩ := List.forall₂_cons_left_iff.mp h
    obtain ⟨d,e,rfl,left,right⟩ := ih rest
    exact ⟨y :: d,e,rfl,.cons first left,right⟩

theorem soleMate {α β : Type} {R : α → β → Prop} {x : α} {b : List β} (h : List.Forall₂ R [x] b) :
    ∃ y, R x y ∧ b = [y] := by
  obtain ⟨y,_,mate,none,rfl⟩ := List.forall₂_cons_left_iff.mp h
  cases none
  exact ⟨y,mate,rfl⟩

theorem mateOf {α β : Type} {R : α → β → Prop} {a : List α} {b : List β} (h : List.Forall₂ R a b)
    {y : β} (member : y ∈ b) : ∃ x ∈ a, R x y := by
  induction h with
  | nil => contradiction
  | cons first rest ih =>
    rcases List.mem_cons.mp member with rfl | inside
    · exact ⟨_,List.mem_cons_self,first⟩
    · obtain ⟨x,hx,mate⟩ := ih inside
      exact ⟨x,List.mem_cons_of_mem _ hx,mate⟩

theorem firstMate {α β : Type} {R : α → β → Prop} {a rest as : List α} {b more bs : List β} {x : α}
    {y : β} (h : List.Forall₂ R a b) (some : a ≠ []) (left : a ++ rest = x :: as)
    (right : b ++ more = y :: bs) : R x y := by
  cases h with
  | nil => contradiction
  | cons first _ =>
    cases left
    cases right
    exact first

/-- The last of these tokens ends at `stop`. -/
def Closes (ts : List Token) (stop : Nat) : Prop := ts.getLast?.map Token.stop = some stop

theorem closesBehind {us : List Token} {stop : Nat} (ts : List Token) (h : Closes us stop) :
    Closes (ts ++ us) stop := by
  unfold Closes at h ⊢
  obtain ⟨t,last,same⟩ := Option.map_eq_some_iff.mp h
  rw [List.getLast?_append,last]
  simpa using same

theorem closesUnique {ts : List Token} {a b : Nat} (left : Closes ts a) (right : Closes ts b) :
    a = b :=
  Option.some.inj (left.symm.trans right)

theorem closesAcross {us : List Token} {stop : Nat} (ts : List Token) (t : Token)
    (h : Closes us stop) : Closes (ts ++ t :: us) stop := by
  rw [← List.singleton_append,← List.append_assoc]
  exact closesBehind _ h

theorem Passage.closesAt {m : Passage} {ts us : List Token} {stop : Nat} (h : Closes ts stop)
    (same : m.Sames ts us) : ∃ stop', Closes us stop' ∧ m.At stop stop' := by
  obtain ⟨t,last,rfl⟩ := Option.map_eq_some_iff.mp h
  obtain ⟨front,rfl⟩ := List.getLast?_eq_some_iff.mp last
  obtain ⟨d,e,rfl,_,right⟩ := splitAlong same
  obtain ⟨u,first,rfl⟩ := soleMate right
  exact ⟨u.stop,closesBehind d rfl,Passage.sameStop first⟩

end Declaration
end ColumnDecl
