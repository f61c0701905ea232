import ColumnDecl.Proofs.Declaration.Local
import ColumnDecl.Declaration

/-! Whole texts: a series of declarations between commas, or the one type of a column. -/
namespace ColumnDecl
open Token Declaration

namespace Declaration

inductive Series (s : Scope) : List Token → List Column → Prop where
  | none : Series s [] []
  | last {t ts c} (read : outermost s true t.start (t :: ts) = .ok (c, [])) : Series s (t :: ts) [c]
  | more {t ts c d rest cs} (read : outermost s true t.start (t :: ts) = .ok (c, d :: rest))
      (comma : d.tag = .comma) (some : rest ≠ []) (shorter : rest.length ≤ ts.length)
      (next : Series s rest cs) : Series s (t :: ts) (c :: cs)

theorem seriesSound {s : Scope} {ts : List Token} {cs : List Column}
    (h : columns s ts = .ok cs) : Series s ts cs := by
  fun_induction columns s ts generalizing cs with
  | case1 => cases h; exact .none
  | case2 => contradiction
  | case3 t ts c read => cases h; exact .last read
  | case4 => contradiction
  | case5 => contradiction
  | case6 => contradiction
  | case7 t ts c d rest read comma some shorter more next ih =>
    cases h
    exact .more read (by simpa using comma) some shorter (ih next)
  | case8 => contradiction

theorem seriesComplete {s : Scope} {ts : List Token} {cs : List Column}
    (h : Series s ts cs) : columns s ts = .ok cs := by
  induction h with
  | none => unfold columns; rfl
  | last read =>
    unfold columns
    rw [read]
  | more read comma some shorter next ih =>
    unfold columns
    rw [read]
    dsimp only
    rw [if_neg (by simp [comma]),if_neg some,dif_pos shorter,ih]

theorem outermostCarries {s : Scope} {names : Bool} {t : Token} {ts rest : List Token} {c : Column}
    (h : outermost s names t.start (t :: ts) = .ok (c, rest)) :
    ∃ used, t :: ts = used ++ rest ∧ Ended rest ∧
      ∀ (m : Passage) us more, m.source = s → m.target.maxDepth = s.maxDepth → m.Sames used us →
        Replaces used rest more → ∃ u us', us ++ more = u :: us' ∧
          outermost m.target names u.start (u :: us') = .ok (c, more) := by
  obtain ⟨used,whole,ended,carry⟩ :=
    declarationCarried (nestedReaderCarries (Nat.le_refl s.maxDepth)) h
  refine ⟨used,whole,ended,fun m us more source deep same replaces => ?_⟩
  unfold outermost
  rw [deep]
  exact carry m us more source same replaces

theorem seriesMore {s : Scope} {t d : Token} {ts rest : List Token} {c : Column} {cs : List Column}
    (read : outermost s true t.start (t :: ts) = .ok (c, d :: rest)) (comma : d.tag = .comma)
    (some : rest ≠ []) (next : Series s rest cs) : Series s (t :: ts) (c :: cs) := by
  obtain ⟨used,whole,_⟩ := outermostCarries read
  refine .more read comma some ?_ next
  have sizes := congrArg List.length whole
  simp only [List.length_cons,List.length_append] at sizes
  omega

/- A series in a passage, with what may come behind its last declaration. -/
theorem seriesCarried {m : Passage} {ts us tail : List Token} {cs ms : List Column}
    (deep : m.target.maxDepth = m.source.maxDepth) (h : Series m.source ts cs)
    (same : m.Sames ts us) (ended : Ended tail) (level : tail = [] ∨ Level ts)
    (joins : ∀ t ts c, outermost m.target true t.start (t :: ts) = .ok (c, tail) →
      Series m.target (t :: ts) (c :: ms)) (some : cs ≠ []) :
    Series m.target (us ++ tail) (cs ++ ms) := by
  induction h generalizing us with
  | none => contradiction
  | @last t ts c read =>
    obtain ⟨used,whole,_,carry⟩ := outermostCarries read
    rw [List.append_nil] at whole
    rw [whole] at same level
    obtain ⟨u,us',shape,read'⟩ := carry m us tail rfl deep same ⟨ended,level.imp_right .inr⟩
    rw [shape]
    -- Only the last declaration sees what was put behind the series.
    exact joins u us' c read'
  | @more t ts c d rest cs read comma behind shorter next ih =>
    obtain ⟨used,whole,ended',carry⟩ := outermostCarries read
    rw [whole] at same
    obtain ⟨v,_,rfl,first,second⟩ := splitAlong same
    obtain ⟨e,w,mate,third,rfl⟩ := List.forall₂_cons_left_iff.mp second
    obtain ⟨u,us',shape,read'⟩ :=
      carry m v (e :: (w ++ tail)) rfl deep first (delimiterAfter mate ended')
    have later : Series m.target (w ++ tail) (cs ++ ms) := by
      refine ih third (level.imp_right fun level => levelSuffix level ?_) ?_
      · exact ⟨used ++ [d],by rw [whole]; simp⟩
      · intro none
        cases next with
        | none => exact behind rfl
        | last | more => contradiction
    rw [List.append_assoc,List.cons_append,shape]
    refine seriesMore read' (mate.1 ▸ comma) ?_ later
    intro none
    have sizes := third.length_eq
    rw [(List.append_eq_nil_iff.mp none).1] at sizes
    exact behind (List.length_eq_zero_iff.mp sizes)

end Declaration

namespace Dialect

theorem tokensExact {text : Text} {ts : List Token} :
    tokens text = .ok ts ↔ Lexes 0 text ts := by
  rw [← streamExact]
  unfold tokens
  cases stream text with
  | error fault => exact ⟨nofun,nofun⟩
  | ok us => simp [Except.mapError]

theorem parseExact {d : Dialect} {text : Text} {cs : List Column} :
    d.parse text = .ok cs ↔
      ∃ ts, Lexes 0 text ts ∧ Series (d.scope text text.length) ts cs := by
  constructor
  · intro h
    obtain ⟨ts,lexed,h⟩ := bindOk.mp h
    exact ⟨ts,tokensExact.mp lexed,seriesSound h⟩
  · intro h
    obtain ⟨ts,lexed,series⟩ := h
    exact bindOk.mpr ⟨ts,tokensExact.mpr lexed,seriesComplete series⟩

theorem onlyExact {s : Scope} {ts : List Token} {c : Column} :
    only s ts = .ok c ↔ ∃ t tail, ts = t :: tail ∧
      outermost s false t.start (t :: tail) = .ok (c, []) := by
  unfold only
  constructor
  · intro h
    obtain ⟨start,arrived,h⟩ := bindOk.mp h
    obtain ⟨⟨column,rest⟩,read,h⟩ := bindOk.mp h
    rcases ts with _ | ⟨t,tail⟩
    · contradiction
    cases arrived
    rcases rest with _ | ⟨u,rest⟩
    · cases h
      exact ⟨t,tail,rfl,read⟩
    · contradiction
  · intro h
    obtain ⟨t,tail,rfl,read⟩ := h
    exact bindOk.mpr ⟨t.start,rfl,bindOk.mpr ⟨_,read,rfl⟩⟩

theorem columnOfExact {d : Dialect} {name text : Text} {c : Column} :
    d.columnOf name text = .ok c ↔ ∃ t tail column, Lexes 0 text (t :: tail) ∧
      outermost (d.scope text text.length) false t.start (t :: tail) = .ok (column, []) ∧
      c = { column with name := name } := by
  constructor
  · intro h
    obtain ⟨ts,lexed,rest⟩ := bindOk.mp h
    obtain ⟨column,single,same⟩ := bindOk.mp rest
    obtain ⟨t,tail,whole,read⟩ := onlyExact.mp single
    cases same
    rw [whole] at lexed
    exact ⟨t,tail,column,tokensExact.mp lexed,read,rfl⟩
  · intro h
    obtain ⟨t,tail,column,lexed,read,rfl⟩ := h
    exact bindOk.mpr ⟨_,tokensExact.mpr lexed,
      bindOk.mpr ⟨column,onlyExact.mpr ⟨t,tail,rfl,read⟩,rfl⟩⟩

theorem columnOfRefused {d : Dialect} {name text : Text} {t : Token} {ts : List Token}
    {failure : Failure} (lexed : Lexes 0 text (t :: ts))
    (h : outermost (d.scope text text.length) false t.start (t :: ts) = .error failure) :
    d.columnOf name text = .error failure := by
  unfold columnOf only
  rw [tokensExact.mpr lexed]
  simp only [bind,Except.bind,Scope.arrive,h]

end Dialect
end ColumnDecl
