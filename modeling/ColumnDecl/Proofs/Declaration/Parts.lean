import ColumnDecl.Proofs.Declaration.Literal
import ColumnDecl.Proofs.Declaration.Suffix
import ColumnDecl.Declaration.Reader

/-! Lists of nested declarations, over any reader of them. A reader is carried along when what it
reads from some tokens does not depend on what stands behind them, nor on the text around them. -/
namespace ColumnDecl.Declaration
open Token

inductive Listed (inner : Reader) (kind : Kind) : Nat → List Token → Parts → Prop where
  | last {start ts c d rest} (read : inner kind.namesItsParts start ts = .ok (c, d :: rest))
      (closing : d.tag = .closing) : Listed inner kind start ts ⟨[c],d.stop,rest⟩
  | more {start ts c d rest p} (read : inner kind.namesItsParts start ts = .ok (c, d :: rest))
      (between : d.tag ≠ .closing) (shorter : rest.length < ts.length)
      (next : Listed inner kind d.stop rest p) :
      Listed inner kind start ts ⟨c :: p.columns,p.stop,p.rest⟩

theorem listedSound {s : Scope} {inner : Reader} {kind : Kind} {opening : Token} {start : Nat}
    {ts : List Token} {p : Parts} (h : parts s inner kind opening start ts = .ok p) :
    Listed inner kind start ts p := by
  fun_induction parts s inner kind opening start ts generalizing p with
  | case1 => contradiction
  | case2 => contradiction
  | case3 start ts c d rest read closing => cases h; exact .last read closing
  | case4 => contradiction
  | case5 start ts c d rest read between shorter more next ih =>
    cases h
    exact .more read between shorter (ih next)
  | case6 => contradiction

theorem listedComplete {s : Scope} {inner : Reader} {kind : Kind} {opening : Token} {start : Nat}
    {ts : List Token} {p : Parts} (h : Listed inner kind start ts p) :
    parts s inner kind opening start ts = .ok p := by
  induction h with
  | last read closing =>
    unfold parts
    rw [read]
    exact if_pos closing
  | more read between shorter next ih =>
    unfold parts
    rw [read]
    dsimp only
    rw [if_neg between,dif_pos shorter,ih]

/- Every column of the list was read from some of its tokens. -/
theorem listedMember {inner : Reader} {kind : Kind} {start : Nat} {ts : List Token} {p : Parts}
    (h : Listed inner kind start ts p) {c : Column} (member : c ∈ p.columns)
    (suffix : ∀ names start us c rest, inner names start us = .ok (c, rest) → rest <:+ us) :
    ∃ start us rest, us <:+ ts ∧ inner kind.namesItsParts start us = .ok (c, rest) := by
  induction h with
  | @last start ts c d rest read closing =>
    cases List.mem_singleton.mp member
    exact ⟨start,ts,d :: rest,List.suffix_rfl,read⟩
  | @more start ts c d rest p read between shorter next ih =>
    rcases List.mem_cons.mp member with rfl | behind
    · exact ⟨start,ts,d :: rest,List.suffix_rfl,read⟩
    · obtain ⟨start',us,rest',inside,read'⟩ := ih behind
      exact ⟨start',us,rest',inside.trans ((List.suffix_cons d rest).trans (suffix _ _ _ _ _ read)),
        read'⟩

def Carries (inner inner' : Scope → Reader) : Prop :=
  ∀ s names start ts c rest, inner s names start ts = .ok (c, rest) →
    ∃ used, ts = used ++ rest ∧ Ended rest ∧
      ∀ (m : Passage) us start' more, m.source = s → m.Sames used us → Replaces used rest more →
        inner' m.target names start' (us ++ more) = .ok (c, more)

theorem carriesSuffix {inner inner' : Scope → Reader} (h : Carries inner inner') (s : Scope)
    (names : Bool) (start : Nat) (ts : List Token) (c : Column) (rest : List Token)
    (read : inner s names start ts = .ok (c, rest)) : rest <:+ ts := by
  obtain ⟨used,whole,_⟩ := h s names start ts c rest read
  exact ⟨used,whole.symm⟩

theorem delimiterAfter {m : Passage} {d e : Token} {rest more used : List Token}
    (same : m.Same d e) (ended : Ended (d :: rest)) : Replaces used (d :: rest) (e :: more) where
  ended := endedAlike (Passage.sameAlike same) ended
  level := .inr (.inl (List.cons_ne_nil d rest))

theorem listedCarried {inner inner' : Scope → Reader} (carries : Carries inner inner') {s : Scope}
    {kind : Kind} {start : Nat} {ts : List Token} {p : Parts}
    (h : Listed (inner s) kind start ts p) :
    ∃ used, ts = used ++ p.rest ∧ Closes used p.stop ∧
      ∀ (m : Passage) us start' more, m.source = s → m.Sames used us → ∃ stop',
        Closes us stop' ∧ m.At p.stop stop' ∧
        Listed (inner' m.target) kind start' (us ++ more) ⟨p.columns,stop',more⟩ := by
  induction h with
  | @last start ts c d rest read closing =>
    obtain ⟨used,whole,ended,carry⟩ := carries s _ start ts c (d :: rest) read
    refine ⟨used ++ [d],by rw [whole]; simp,closesBehind used rfl,?_⟩
    intro m us start' more source same
    obtain ⟨v,_,rfl,first,second⟩ := splitAlong same
    obtain ⟨e,mate,rfl⟩ := soleMate second
    have again := carry m v start' (e :: more) source first (delimiterAfter mate ended)
    rw [List.append_assoc]
    exact ⟨e.stop,closesBehind v rfl,Passage.sameStop mate,.last again (mate.1 ▸ closing)⟩
  | @more start ts c d rest p read between shorter next ih =>
    obtain ⟨used,whole,ended,carry⟩ := carries s _ start ts c (d :: rest) read
    obtain ⟨used',whole',closes,carry'⟩ := ih
    refine ⟨used ++ d :: used',by rw [whole,whole']; simp,closesAcross used d closes,?_⟩
    intro m us start' more source same
    obtain ⟨v,_,rfl,first,second⟩ := splitAlong same
    obtain ⟨e,w,mate,third,rfl⟩ := List.forall₂_cons_left_iff.mp second
    obtain ⟨stop',closes',position,tail⟩ := carry' m w e.stop more source third
    have again := carry m v start' (e :: (w ++ more)) source first (delimiterAfter mate ended)
    refine ⟨stop',closesAcross v e closes',position,?_⟩
    rw [List.append_assoc]
    refine .more again (mate.1 ▸ between) ?_ tail
    simp only [List.length_append,List.length_cons]
    omega

end ColumnDecl.Declaration
