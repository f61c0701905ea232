import ColumnDecl.Proofs.Declaration.Series
import ColumnDecl.Proofs.Declaration.Span

/-! The type texts of all that is read from a text, verbatim, one behind the other and one in another. -/
namespace ColumnDecl.Dialect
open Token Declaration

theorem seriesPlaced {s : Scope} {all ts : List Token} {cs : List Column} {a : Nat}
    (lexed : Lexes 0 s.text all) (h : Series s ts cs) (suffix : ts <:+ all) (along : Along s.text.length a ts) :
    ∃ spans, List.Forall₂ (Stands s.text all) spans cs ∧ Span.Row a s.text.length spans := by
  induction h generalizing a with
  | none => exact ⟨[],.nil,along,nofun,.nil⟩
  | @last t ts c read =>
    obtain ⟨p,stands,order,behind⟩ := outermostPlaced lexed read suffix along
    exact ⟨[p],.cons stands .nil,
      Span.rowCons order (standsWritten stands).some ⟨behind,nofun,.nil⟩⟩
  | @more t ts c d rest cs read comma some shorter next ih =>
    obtain ⟨p,stands,order,behind⟩ := outermostPlaced lexed read suffix along
    obtain ⟨used,whole,_⟩ := outermostCarries read
    have inside : rest <:+ t :: ts := ⟨used ++ [d],by rw [whole]; simp⟩
    have later := alongEarlier behind.2 (Nat.le_trans behind.1 (extent d))
    obtain ⟨spans,stand,row⟩ := ih (inside.trans suffix) later
    exact ⟨p :: spans,.cons stands stand,Span.rowCons order (standsWritten stands).some row⟩

theorem typeTextsNested {d : Dialect} {text : Text} {cs : List Column}
    (read : d.parse text = .ok cs) :
    ∃ ts spans, stream text = .ok ts ∧ List.Forall₂ (Stands text ts) spans cs ∧
      spans.Pairwise Span.Before := by
  obtain ⟨ts,lexed,series⟩ := parseExact.mp read
  have along := lexesAlong lexed (Nat.le_of_eq (Nat.zero_add text.length))
  obtain ⟨spans,stand,row⟩ := seriesPlaced lexed series List.suffix_rfl along
  exact ⟨ts,spans,streamExact.mpr lexed,stand,row.ordered⟩

/- The column that the wrapper took is gone, but not the one nested in it. -/
theorem typeTextsNestedWrapped :
    let d : Dialect := ⟨⟨[("ARRAY".toList,.array),("NULLABLE".toList,.nullable),
      ("INT8".toList,.int8)],1⟩,2⟩
    let x : Column := ⟨[],"Int8".toList,.int8,false,false,true,1,[],none,none,none,none,none,none⟩
    let c : Column := ⟨"a".toList,"Nullable( Array( Int8 ))".toList,.array,true,false,false,1,[x],none,
      none,none,none,none,none⟩
    let e : Column := ⟨"b".toList,"Int8 NULL".toList,.int8,true,false,true,1,[],none,none,none,none,
      none,none⟩
    let text := " a Nullable( Array( Int8 )) , b Int8 NULL TTL 1".toList
    d.parse text = .ok [c,e] ∧ ∃ ts p q r, stream text = .ok ts ∧ Stands text ts p c ∧
      Stands text ts q e ∧ Stands text ts r x ∧ p.Before q ∧ r.Inside p := by
  intro d x c e text
  have read : d.parse text = .ok [c,e] := by decide +kernel
  refine ⟨read,?_⟩
  obtain ⟨ts,spans,lexed,stand,ordered⟩ := typeTextsNested read
  obtain ⟨p,_,first,rest,rfl⟩ := List.forall₂_cons_right_iff.mp stand
  obtain ⟨q,_,second,_,rfl⟩ := List.forall₂_cons_right_iff.mp rest
  have apart := List.rel_of_pairwise_cons ordered List.mem_cons_self
  refine ⟨ts,p,q,?_⟩
  cases first with
  | intro written nested inside _ =>
    obtain ⟨r,_,third,_,rfl⟩ := List.forall₂_cons_right_iff.mp nested
    exact ⟨r,lexed,.intro written nested inside ‹_›,second,third,apart,inside r List.mem_cons_self⟩

end ColumnDecl.Dialect
