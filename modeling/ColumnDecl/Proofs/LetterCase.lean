import ColumnDecl.Proofs.Declaration.Likeness.Declaration
import ColumnDecl.Proofs.Token.Case
import Mathlib.Data.List.Pairwise

/-! Letter case. Keywords are recognised in either case, and so are modifiers, clauses and all else that
is written as a bare word: a text whose names change case is read as before, with names in the new case. -/
namespace ColumnDecl

/-- All of a column but its aggregate function, where no letter's case counts. -/
def Column.View.caseless : View := ⟨Char.toLower,true,false⟩

theorem Column.View.lettersFolded (c d : Char) (same : caseless.letter c = caseless.letter d) :
    Text.upperChar c = Text.upperChar d := by
  change c.toLower = d.toLower at same
  rw [← Text.upperLower c,same,Text.upperLower]

namespace Token
open Text

/-- A text of which only letters in its names have changed between upper and lower case. -/
structure NamesRecased (ts : List Token) (t t' : Text) : Prop where
  length : t'.length = t.length
  letters : ∀ i c c', t[i]? = some c → t'[i]? = some c' → c' = c ∨
    c'.toLower = c.toLower ∧ ∃ x ∈ ts, x.tag = .identifier ∧ x.start ≤ i ∧ i < x.stop

variable {t t' : Text} {ts : List Token}

theorem recasedAt (h : NamesRecased ts t t') (i : Nat) :
    (t[i]? = none ∧ t'[i]? = none) ∨ ∃ c c', t[i]? = some c ∧ t'[i]? = some c' := by
  by_cases inside : i < t.length
  · exact .inr ⟨_,_,List.getElem?_eq_getElem inside,List.getElem?_eq_getElem (h.length ▸ inside)⟩
  · exact .inl ⟨List.getElem?_eq_none (by omega),List.getElem?_eq_none (by rw [h.length]; omega)⟩

theorem recasedLower (h : NamesRecased ts t t') : lower t = lower t' := by
  apply List.ext_getElem?
  intro i
  unfold lower
  rw [List.getElem?_map,List.getElem?_map]
  rcases recasedAt h i with ⟨here,there⟩ | ⟨c,c',here,there⟩
  · rw [here,there]
  · rw [here,there]
    rcases h.letters i c c' here there with rfl | ⟨same,_⟩
    · rfl
    · exact congrArg some same.symm

theorem lexesApart {p : Nat} (h : Lexes p t ts) {x y : Token} (hx : x ∈ ts) (hy : y ∈ ts)
    (other : x ≠ y) : x.stop ≤ y.start ∨ y.stop ≤ x.start := by
  have symmetric : Std.Symm fun a b : Token => a.stop ≤ b.start ∨ b.stop ≤ a.start :=
    ⟨fun _ _ => Or.symm⟩
  have apart : ts.Pairwise fun a b : Token => a.stop ≤ b.start ∨ b.stop ≤ a.start :=
    (lexesOrdered h).imp Or.inl
  exact apart.forall hx hy other

/- Outside of names every character stays. -/
theorem recasedOther (lexed : Lexes 0 t ts) (h : NamesRecased ts t t') {x : Token} (member : x ∈ ts)
    (other : x.tag ≠ .identifier) : t.slice x.start x.stop = t'.slice x.start x.stop := by
  apply List.ext_getElem?
  intro i
  unfold Text.slice
  rw [List.getElem?_take,List.getElem?_take]
  split
  next inside =>
    rw [List.getElem?_drop,List.getElem?_drop]
    rcases recasedAt h (x.start + i) with ⟨here,there⟩ | ⟨c,c',here,there⟩
    · rw [here,there]
    · rw [here,there]
      rcases h.letters _ c c' here there with rfl | ⟨_,y,hy,name,low,high⟩
      · rfl
      · have apart := lexesApart lexed member hy (by rintro rfl; exact other name)
        omega
  next => rfl

theorem recasedExcerpts (h : NamesRecased ts t t') {a b c d : Nat} (first : a = b) (last : c = d) :
    Column.View.caseless.excerpt (t.slice a c) = Column.View.caseless.excerpt (t'.slice b d) := by
  subst first last
  change Text.lower (t.slice a c) = Text.lower (t'.slice a c)
  unfold Text.slice Text.lower
  rw [List.map_take,List.map_drop,List.map_take,List.map_drop]
  exact congrArg (fun u => (u.drop a).take (c - a)) (recasedLower h)

theorem withMembers {α β : Type} {R : α → β → Prop} {xs : List α} {ys : List β}
    (h : List.Forall₂ R xs ys) : List.Forall₂ (fun x y => R x y ∧ x ∈ xs ∧ y ∈ ys) xs ys := by
  induction h with
  | nil => exact .nil
  | cons head tail ih =>
    refine .cons ⟨head,List.mem_cons_self,List.mem_cons_self⟩ (ih.imp fun x y both => ?_)
    exact ⟨both.1,List.mem_cons_of_mem _ both.2.1,List.mem_cons_of_mem _ both.2.2⟩

theorem recasedTokens (lexed : Lexes 0 t ts) (h : NamesRecased ts t t') :
    ∃ ts', Lexes 0 t' ts' ∧ List.Forall₂ (fun x y => Recased x y ∧ x.stop = y.stop ∧
      (x.tag ≠ .identifier → x.raw = y.raw)) ts ts' := by
  obtain ⟨ts',lexed',each⟩ := lexesRecased lexed (recasedLower h)
  refine ⟨ts',lexed',(withMembers each).imp fun x y both => ?_⟩
  obtain ⟨same,left,right⟩ := both
  have sizes : x.raw.length = y.raw.length := by
    simpa [lower] using congrArg List.length same.raw
  have stops : x.stop = y.stop := by rw [stop,stop,same.start,sizes]
  refine ⟨same,stops,fun other => ?_⟩
  calc x.raw = t.slice x.start x.stop := lexesRaw lexed left
    _ = t'.slice x.start x.stop := recasedOther lexed h left other
    _ = t'.slice y.start y.stop := by rw [same.start,stops]
    _ = y.raw := (lexesRaw lexed' right).symm

end Token

namespace Dialect
open Token Declaration Column

variable {d : Dialect} {t t' : Text} {ts ts' : List Token}

def recased (d : Dialect) (h : NamesRecased ts t t') (left : Token.stream t = .ok ts)
    (right : Token.stream t' = .ok ts') : Likeness :=
  .ofTexts d left right .caseless Eq View.lettersFolded nofun h.length.symm (recasedExcerpts h)

theorem caseIndependent (d : Dialect) (name t t' : Text) (ts : List Token)
    (tokens : Token.stream t = .ok ts) (names : NamesRecased ts t t') :
    (∃ ts', Token.stream t' = .ok ts' ∧ List.Forall₂ (fun x y => x.tag = y.tag ∧
      x.start = y.start ∧ x.stop = y.stop) ts ts') ∧
    Agree (Failure.Paired fun f g => f.category = g.category ∧ f.start = g.start ∧ f.stop = g.stop)
      (fun cs cs' => cs.map (seen .caseless) = cs'.map (seen .caseless)) (d.parse t) (d.parse t') ∧
    Agree (Failure.Paired fun f g => f.category = g.category ∧ f.start = g.start ∧ f.stop = g.stop)
      (fun c c' => c.seen .caseless = c'.seen .caseless) (d.columnOf name t) (d.columnOf name t') := by
  obtain ⟨ts',lexed',each⟩ := recasedTokens (streamExact.mp tokens) names
  have tokens' := streamExact.mpr lexed'
  have alike : (recased d names tokens tokens').Likes ts ts' :=
    ⟨each.imp fun x y both => ⟨both.1.tag,both.1.raw,both.2.2,both.1.start,both.2.1⟩,
      List.suffix_rfl,List.suffix_rfl⟩
  have place : ∀ {a b : Option Nat}, Option.Rel Eq a b → a = b := by
    intro a b same
    cases same with
    | none => rfl
    | some equal => rw [equal]
  have fails : ∀ f g, (recased d names tokens tokens').Failed f g → Failure.Paired
      (fun f g => f.category = g.category ∧ f.start = g.start ∧ f.stop = g.stop) f g :=
    fun _ _ failed => failed.weaker fun _ _ fault =>
      ⟨fault.cause.1,place fault.start,place fault.stop⟩
  have partly : (recased d names tokens tokens').view ≠ .whole := by
    intro equal
    have functions := congrArg View.function equal
    contradiction
  refine ⟨⟨ts',tokens',?_⟩,?_,?_⟩
  · exact each.imp fun x y both => ⟨both.1.tag,both.1.start,both.2.1⟩
  · exact (Likeness.parseLike rfl rfl tokens tokens' alike).weaker fails fun _ _ => id
  · exact (Likeness.columnOfLike partly rfl rfl tokens tokens' alike name).weaker fails fun _ _ => id

theorem caseIndependentInteger :
    let d : Dialect := ⟨⟨[("INT8".toList,.int8)],1⟩,0⟩
    let t : Text := "a Int8".toList
    let t' : Text := "A iNT8".toList
    let c : Column := ⟨"a".toList,"int8".toList,.int8,false,false,true,1,[],none,none,none,none,none,
      none⟩
    (d.parse t).map (List.map (seen .caseless)) = .ok [c] ∧
      (d.parse t').map (List.map (seen .caseless)) = .ok [c] := by
  intro d t t' c
  have read : (d.parse t).map (List.map (seen .caseless)) = .ok [c] := by decide +kernel
  refine ⟨read,?_⟩
  have tokens : Token.stream t = .ok [⟨.identifier,"a".toList,0⟩,⟨.identifier,"Int8".toList,2⟩] := by
    decide +kernel
  have names : NamesRecased [⟨.identifier,"a".toList,0⟩,⟨.identifier,"Int8".toList,2⟩] t t' := by
    refine ⟨by decide +kernel,fun i c c' here there => ?_⟩
    have inside : i < 6 := (List.getElem?_eq_some_iff.mp here).1
    have letters : ∀ i < 6, t'[i]? = t[i]? ∨ t'[i]?.map Char.toLower = t[i]?.map Char.toLower ∧
        ∃ x ∈ [(⟨.identifier,"a".toList,0⟩ : Token),⟨.identifier,"Int8".toList,2⟩],
          x.tag = .identifier ∧ x.start ≤ i ∧ i < x.stop := by decide +kernel
    have letter := letters i inside
    rw [here,there] at letter
    simpa using letter
  have same := (caseIndependent d [] t t' _ tokens names).2.1
  generalize d.parse t = x, d.parse t' = y at same read ⊢
  cases same with
  | failed => contradiction
  | read alike => exact (congrArg Except.ok alike).symm.trans read

end Dialect
end ColumnDecl
