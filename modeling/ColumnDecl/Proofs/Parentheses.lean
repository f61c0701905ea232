import ColumnDecl.Proofs.Declaration.Course
import ColumnDecl.Proofs.Declaration.Series
import ColumnDecl.Proofs.KeywordTable

/-! What an accepted text says about its parentheses. Where no bracket is closed by one of another
kind they are balanced, up to the last clause of the text: a clause that leaves some open is read to
the end, with every declaration that stands behind it. -/
namespace ColumnDecl
open Token

namespace Declaration

/-- These tokens end in a clause that leaves `k` parentheses open and runs out; in front of it as many
are open as there are lists around it. -/
def RunsOut (n : Nat) (used : List Token) (m k : Nat) : Prop :=
  ∃ front t body, used = front ++ t :: body ∧ openBehind n front = some m ∧
    modifier? t = some .clause ∧ cut body = (body,[]) ∧ openBehind m body = some (k + m)

/-- The open parentheses behind a course are those of its lists, or it runs out in a clause. -/
def Settles (behind : List Token) (n : Nat) (used : List Token) (m : Nat) (final : List Char) : Prop :=
  (final = lists m ∧ openBehind n used = some m) ∨ (behind = [] ∧ ∃ k, RunsOut n used m k)

theorem settlesBehind {behind a used : List Token} {n middle m : Nat} {final : List Char}
    (first : openBehind n a = some middle) (h : Settles behind middle used m final) :
    Settles behind n (a ++ used) m final := by
  rcases h with ⟨same,count⟩ | ⟨last,k,⟨front,t,body,rfl,count,clause⟩⟩
  · exact .inl ⟨same,foldAppend.mpr ⟨middle,first,count⟩⟩
  · exact .inr ⟨last,k,⟨a ++ front,t,body,by simp,foldAppend.mpr ⟨middle,first,count⟩,clause⟩⟩

theorem settlesToken {behind used : List Token} {t : Token} {n middle m : Nat} {final : List Char}
    (first : openAfter n t = some middle) (h : Settles behind middle used m final) :
    Settles behind n (t :: used) m final :=
  settlesBehind (a := [t]) (foldCons.mpr ⟨middle,first,rfl⟩) h

theorem openQuiet {t : Token} (quiet : t.bracket? = none) (n : Nat) : openAfter n t = some n :=
  openOther n (by simp [quiet]) (by simp [quiet])

theorem courseSettles {behind used : List Token} {n m : Nat} {final : List Char}
    (h : Course behind n used m) (unmixed : awaitedBehind (lists n) used = some final) :
    Settles behind n used m final := by
  induction h with
  | done n => cases unmixed; exact .inl ⟨rfl,rfl⟩
  | @plain n t ts m quiet inside next ih =>
    obtain ⟨_,step,rest⟩ := foldCons.mp unmixed
    cases (awaitedQuiet (lists n) quiet).symm.trans step
    exact settlesToken (openQuiet quiet n) (ih rest)
  | @opens n t ts m opening next ih =>
    obtain ⟨_,step,rest⟩ := foldCons.mp unmixed
    cases (awaitedOpening (lists n) opening).symm.trans step
    exact settlesToken (openOpening n opening) (ih rest)
  | @comma n t ts m comma next ih =>
    have quiet : t.bracket? = none := by simp [bracket?,comma]
    obtain ⟨_,step,rest⟩ := foldCons.mp unmixed
    cases (awaitedQuiet (lists (n + 1)) quiet).symm.trans step
    exact settlesToken (openQuiet quiet (n + 1)) (ih rest)
  | @closes n t ts m closing next ih =>
    obtain ⟨_,step,rest⟩ := foldCons.mp unmixed
    cases (awaitedClosing (lists n) closing).symm.trans step
    exact settlesToken (openClosing n closing) (ih rest)
  | @stretch n a ts m here stops next ih =>
    obtain ⟨middle,first,rest⟩ := foldAppend.mp unmixed
    obtain ⟨rfl,count⟩ := stretchSettled here stops first
    exact settlesBehind count (ih rest)
  | @runsOut n t body word last here =>
    obtain ⟨_,step,rest⟩ := foldCons.mp unmixed
    cases (awaitedQuiet (lists n) (nameQuiet (.inl (modifierWord word))).1).symm.trans step
    have own := show cutFrom ([] : List Char).length body = (body,[]) from here
    obtain ⟨awaited,rfl,_,count⟩ := insideCut own rest
    rw [List.nil_append,List.count_append,listsCount] at count
    exact .inr ⟨last,awaited.count ')',[],t,body,rfl,rfl,word,here,count⟩

/-- The last clause leaves parentheses open, and all in front of it is balanced. -/
def Unclosed (ts : List Token) : Prop := ∃ k, RunsOut 0 ts 0 (k + 1)

theorem settledEnd {used : List Token} {final : List Char} (h : Settles [] 0 used 0 final) :
    Balanced used ∨ Unclosed used := by
  rcases h with ⟨_,count⟩ | ⟨_,k,⟨front,t,body,rfl,before,word,here,count⟩⟩
  · exact .inl count
  rcases k with _ | k
  · refine .inl (foldAppend.mpr ⟨0,before,foldCons.mpr ⟨0,?_,count⟩⟩)
    exact openQuiet (nameQuiet (.inl (modifierWord word))).1 0
  · exact .inr ⟨k,front,t,body,rfl,before,word,here,count⟩

theorem seriesSettles {s : Scope} {ts : List Token} {cs : List Column} {final : List Char}
    (series : Series s ts cs) (unmixed : awaitedBehind [] ts = some final) :
    Balanced ts ∨ Unclosed ts := by
  induction series with
  | none => exact .inl rfl
  | @last t ts c read =>
    obtain ⟨used,whole,_,course⟩ := declarationCourse (nestedReaderRuns s.maxDepth) read
    rw [List.append_nil] at whole
    rw [whole] at unmixed ⊢
    exact settledEnd (courseSettles course unmixed)
  | @more t ts c d rest cs read comma some shorter next ih =>
    obtain ⟨used,whole,_,course⟩ := declarationCourse (nestedReaderRuns s.maxDepth) read
    rw [whole] at unmixed ⊢
    have quiet : d.bracket? = none := by simp [bracket?,comma]
    obtain ⟨middle,first,unmixed⟩ := foldAppend.mp unmixed
    -- A clause runs out only at the end of the text, and here a comma stands behind it.
    obtain ⟨rfl,count⟩ := (courseSettles course first).resolve_right fun h => List.cons_ne_nil d rest h.1
    obtain ⟨_,step,behind⟩ := foldCons.mp unmixed
    cases (awaitedQuiet [] quiet).symm.trans step
    have front : Balanced (used ++ [d]) :=
      foldAppend.mpr ⟨0,count,foldCons.mpr ⟨0,openQuiet quiet 0,rfl⟩⟩
    rw [← List.singleton_append,← List.append_assoc]
    rcases ih behind with balanced | ⟨k,front',u,body,rfl,balanced,clause⟩
    · exact .inl (foldAppend.mpr ⟨0,front,balanced⟩)
    · refine .inr ⟨k,used ++ [d] ++ front',u,body,by simp,?_,clause⟩
      exact foldAppend.mpr ⟨0,front,balanced⟩

end Declaration

namespace Dialect
open Declaration

theorem parenthesesClosed {d : Dialect} {text : Text} {ts : List Token} {cs : List Column}
    (h : d.parse text = .ok cs) (lexed : stream text = .ok ts) (unmixed : Unmixed ts) :
    Balanced ts ∨ Unclosed ts := by
  obtain ⟨us,lexed',series⟩ := parseExact.mp h
  cases lexesUnique (streamExact.mp lexed) lexed'
  obtain ⟨final,behind⟩ := Option.isSome_iff_exists.mp unmixed
  exact seriesSettles series behind

theorem parenthesesClosedClause :
    let d : Dialect := ⟨⟨[("UINT8".toList,.uint8),("STRING".toList,.string)],1⟩,0⟩
    let text := "a UInt8 DEFAULT f(1, b String".toList
    ∃ cs ts, d.parse text = .ok cs ∧ stream text = .ok ts ∧ Unmixed ts ∧ Unclosed ts := by
  intro d text
  have read : ∃ cs, d.parse text = .ok cs :=
    ⟨[⟨"a".toList,"UInt8".toList,.uint8,false,false,true,1,[],none,none,none,none,none,none⟩],
      by decide +kernel⟩
  obtain ⟨cs,read⟩ := read
  have found : ∃ ts, stream text = .ok ts ∧ Unmixed ts ∧ ¬Balanced ts := by decide +kernel
  obtain ⟨ts,lexed,unmixed,unbalanced⟩ := found
  have closed := parenthesesClosed read lexed unmixed
  exact ⟨cs,ts,read,lexed,unmixed,closed.resolve_left unbalanced⟩

/- An open parenthesis in a clause takes the second column away, and in a list of arguments a square
bracket passes for the closing parenthesis that is missing. -/
theorem unbalancedRead :
    let swallowed := "a UInt8 DEFAULT f(1, b String".toList
    let mixed := "a VARCHAR((]), b String".toList
    let column (name type : String) (kind : Kind) (length : Bool × Int) : Column :=
      ⟨name.toList,type.toList,kind,false,false,length.1,length.2,[],none,none,none,none,none,none⟩
    (standard.parse swallowed = .ok [column "a" "UInt8" .uint8 (true,1)] ∧
      ∃ ts, stream swallowed = .ok ts ∧ ¬Balanced ts) ∧
    (standard.parse mixed = .ok [column "a" "VARCHAR((])" .string (false,1),
        column "b" "String" .string (false,1)] ∧
      ∃ ts, stream mixed = .ok ts ∧ ¬Balanced ts) := by
  rw [standard,Keywords.builtinTable]
  decide +kernel

end Dialect
end ColumnDecl
