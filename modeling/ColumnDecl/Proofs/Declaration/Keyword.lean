import ColumnDecl.Proofs.Declaration.Passage
import Mathlib.Data.List.TakeWhile

/-! The longest keyword at the head of a token list depends on the words there and on nothing behind
them. What is put in place of the tokens behind it must not offer other words. -/
namespace ColumnDecl

namespace Keywords

theorem matchFromExact {k : Keywords} {words : List Text} {n count : Nat} {kind : Kind} :
    k.matchFrom words n = some (kind, count) ↔
      0 < count ∧ count ≤ n ∧ k.find? (key (words.take count)) = some kind ∧
      ∀ i, count < i → i ≤ n → k.find? (key (words.take i)) = none := by
  induction n with
  | zero =>
    constructor
    · intro h; contradiction
    · intro h
      obtain ⟨positive,small,_⟩ := h
      omega
  | succ n ih =>
    unfold matchFrom
    cases found : k.find? (key (words.take (n + 1))) with
    | some other =>
      constructor
      · intro h
        cases h
        exact ⟨by omega,by omega,found,fun i _ _ => by omega⟩
      · intro h
        obtain ⟨positive,small,here,longer⟩ := h
        have last : count = n + 1 := by
          by_contra less
          have none := longer (n + 1) (by omega) (by omega)
          rw [found] at none; contradiction
        subst last
        rw [found] at here
        rw [Option.some.inj here]
    | none =>
      rw [ih]
      constructor
      · intro h
        obtain ⟨positive,small,here,longer⟩ := h
        refine ⟨positive,by omega,here,fun i more less => ?_⟩
        rcases Nat.lt_or_ge n i with last | inside
        · rwa [show i = n + 1 by omega]
        · exact longer i more inside
      · intro h
        obtain ⟨positive,small,here,longer⟩ := h
        have less : count ≠ n + 1 := by
          intro same
          subst same
          rw [found] at here; contradiction
        exact ⟨positive,by omega,here,fun i more inside => longer i more (by omega)⟩

theorem longestExact {k : Keywords} {words : List Text} {count : Nat} {kind : Kind} :
    k.longest? words = some (kind, count) ↔
      0 < count ∧ count ≤ min words.length k.maxWords ∧
      k.find? (key (words.take count)) = some kind ∧
      ∀ i, count < i → i ≤ min words.length k.maxWords → k.find? (key (words.take i)) = none :=
  matchFromExact

theorem longestShorter {k : Keywords} {a b : List Text} {count : Nat} {kind : Kind}
    (h : k.longest? b = some (kind, count)) (shorter : a <+: b) (fits : count ≤ a.length) :
    k.longest? a = some (kind, count) := by
  obtain ⟨c,rfl⟩ := shorter
  obtain ⟨positive,small,here,longer⟩ := longestExact.mp h
  rw [List.length_append] at small longer
  refine longestExact.mpr ⟨positive,by omega,?_,fun i more less => ?_⟩
  · rwa [List.take_append_of_le_length fits] at here
  · have none := longer i more (by omega)
    rwa [List.take_append_of_le_length (by omega)] at none

theorem longestTake (k : Keywords) (words : List Text) :
    k.longest? (words.take k.maxWords) = k.longest? words := by
  have taken : ∀ n, n ≤ k.maxWords →
      k.matchFrom (words.take k.maxWords) n = k.matchFrom words n := by
    intro n small
    induction n with
    | zero => rfl
    | succ n ih =>
      unfold matchFrom
      rw [List.take_take,Nat.min_eq_left small,ih (by omega)]
  unfold longest?
  rw [List.length_take,taken _ (Nat.min_le_right _ _)]
  congr 1
  omega

end Keywords

namespace Declaration
open Token

def leading (ts : List Token) : List Text :=
  (ts.takeWhile (·.tag == .identifier)).map Token.value

theorem leadingCons {t : Token} (h : t.tag = .identifier) (ts : List Token) :
    leading (t :: ts) = t.value :: leading ts := by
  simp [leading,h]

theorem leadingNone {t : Token} (h : t.tag ≠ .identifier) (ts : List Token) :
    leading (t :: ts) = [] := by
  simp [leading,h]

theorem leadingAppend {ts : List Token} (all : ∀ t ∈ ts, t.tag = .identifier) (us : List Token) :
    leading (ts ++ us) = ts.map Token.value ++ leading us := by
  induction ts with
  | nil => rfl
  | cons t ts ih =>
    rw [List.cons_append,leadingCons (all t List.mem_cons_self),
      ih fun x hx => all x (List.mem_cons_of_mem _ hx)]
    rfl

theorem leadingEnded {ts : List Token} (h : Ended ts) : leading ts = [] := by
  rcases ts with _ | ⟨t,ts⟩
  · rfl
  · apply leadingNone
    rcases endedTag h with comma | closing
    · simp [comma]
    · simp [closing]

theorem leadingAlike {ts us : List Token} (h : List.Forall₂ Alike ts us) {x y : List Token}
    (rest : leading y <+: leading x) : leading (us ++ y) <+: leading (ts ++ x) := by
  induction h with
  | nil => exact rest
  | @cons t u ts us head tail ih =>
    by_cases word : t.tag = .identifier
    · rw [List.cons_append,List.cons_append,leadingCons word,leadingCons (head.1 ▸ word),
        alikeValue head]
      exact List.prefix_cons_inj _ |>.mpr ih
    · rw [List.cons_append,leadingNone (head.1 ▸ word)]
      exact List.nil_prefix

theorem keywordLeading (s : Scope) (ts : List Token) : s.keyword? ts =
    match s.keywords.longest? (leading ts) with
    | none => none
    | some (kind, count) =>
      (ts.take count).getLast?.map fun last => ⟨kind,last.stop,ts.drop count⟩ := by
  rw [← Keywords.longestTake,leading,← List.map_take]
  rfl

/-- A keyword at the head of a list: its words, and nothing longer. -/
structure Led (s : Scope) (ts : List Token) (hit : Scope.Hit) (used : List Token) : Prop where
  whole : ts = used ++ hit.rest
  words : ∀ t ∈ used, t.tag = .identifier
  stop : Closes used hit.stop
  longest : s.keywords.longest? (leading ts) = some (hit.kind, used.length)

theorem keywordSound {s : Scope} {ts : List Token} {hit : Scope.Hit}
    (h : s.keyword? ts = some hit) : ∃ used, Led s ts hit used := by
  rw [keywordLeading] at h
  split at h
  next => contradiction
  next kind count found =>
    obtain ⟨last,atEnd,rfl⟩ := Option.map_eq_some_iff.mp h
    obtain ⟨_,small,_,_⟩ := Keywords.longestExact.mp found
    have run : leading ts = (ts.takeWhile (·.tag == .identifier)).map Token.value := rfl
    have size : count ≤ (ts.takeWhile (·.tag == .identifier)).length := by
      rw [run,List.length_map] at small; omega
    have inside : ts.take count = (ts.takeWhile (·.tag == .identifier)).take count := by
      obtain ⟨rest,same⟩ := List.takeWhile_prefix (l := ts) (·.tag == .identifier)
      conv_lhs => rw [← same]
      exact List.take_append_of_le_length size
    refine ⟨ts.take count,(List.take_append_drop count ts).symm,?_,?_,?_⟩
    · intro t ht
      rw [inside] at ht
      simpa using List.mem_takeWhile_imp (List.mem_of_mem_take ht)
    · exact Option.map_eq_some_iff.mpr ⟨last,atEnd,rfl⟩
    · rw [found,inside,List.length_take,Nat.min_eq_left size]

theorem keywordComplete {s : Scope} {ts : List Token} {hit : Scope.Hit} {used : List Token}
    (h : Led s ts hit used) : s.keyword? ts = some hit := by
  obtain ⟨last,atEnd,stop⟩ := Option.map_eq_some_iff.mp h.stop
  rw [keywordLeading,h.longest]
  dsimp only
  rw [h.whole,List.take_left,List.drop_left,atEnd,Option.map_some,stop]

theorem keywordNone {s : Scope} {ts : List Token} :
    s.keyword? ts = none ↔ s.keywords.longest? (leading ts) = none := by
  rw [keywordLeading]
  cases found : s.keywords.longest? (leading ts) with
  | none => simp
  | some hit =>
    obtain ⟨positive,small,_,_⟩ := Keywords.longestExact.mp found
    have shorter : (leading ts).length ≤ ts.length := by
      rw [leading,List.length_map]
      exact (List.takeWhile_prefix _).length_le
    have some : ts.take hit.2 ≠ [] := by
      rw [ne_eq,List.take_eq_nil_iff]
      intro none
      rcases none with zero | empty
      · omega
      · have := congrArg List.length empty
        rw [List.length_nil] at this; omega
    simp [List.getLast?_eq_some_getLast some]

theorem keywordCarried {m : Passage} {ts used us more : List Token} {hit : Scope.Hit}
    (h : Led m.source ts hit used) (same : m.Sames used us)
    (behind : leading more <+: leading hit.rest) :
    ∃ stop, m.At hit.stop stop ∧ Led m.target (us ++ more) ⟨hit.kind,stop,more⟩ us := by
  obtain ⟨stop,closes,position⟩ := Passage.closesAt h.stop same
  have words : ∀ u ∈ us, u.tag = .identifier := by
    intro u hu
    obtain ⟨t,ht,alike⟩ := mateOf same hu
    rw [← alike.1]
    exact h.words t ht
  have size : used.length = us.length := same.length_eq
  refine ⟨stop,position,rfl,words,closes,?_⟩
  rw [← m.keywords,← size]
  refine Keywords.longestShorter h.longest ?_ ?_
  · rw [h.whole]
    exact leadingAlike (Passage.samesAlike same) behind
  · rw [leadingAppend words,List.length_append,List.length_map]
    omega

end Declaration
end ColumnDecl
