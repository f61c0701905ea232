import ColumnDecl.Proofs.Token.SinglePass

/-! Where a quoted text without an end is reported. The search for the end goes back to the first half
of the last doubled quote and takes what stands before it for a token, so that the second half opens
the text that is reported. Only without a doubled quote it is the quote that the text begins with. -/
namespace ColumnDecl

namespace Text

/-- Nothing in this text closes the quote in front of it, read from left to right: a backslash escapes
the next character, and a doubled quote stands for the quote. -/
inductive Unclosed (q : Char) : Text → Prop where
  | done : Unclosed q []
  | backslash : Unclosed q ['\\']
  | plain {c t} (other : c ≠ q) (plain : c ≠ '\\') (rest : Unclosed q t) : Unclosed q (c :: t)
  | escaped {d t} (rest : Unclosed q t) : Unclosed q ('\\' :: d :: t)
  | doubled {t} (rest : Unclosed q t) : Unclosed q (q :: q :: t)

/-- Text that the search for a closing quote passes over. -/
inductive Inner (q : Char) : Text → Prop where
  | done : Inner q []
  | plain {c t} (other : c ≠ q) (plain : c ≠ '\\') (rest : Inner q t) : Inner q (c :: t)
  | escaped {d t} (line : d ≠ '\n') (rest : Inner q t) : Inner q ('\\' :: d :: t)
  | doubled {t} (rest : Inner q t) : Inner q (q :: q :: t)

/-- Text in which the search finds no quote, because there is none or an escaped newline comes first. -/
inductive Stuck (q : Char) : Text → Prop where
  | done : Stuck q []
  | backslash : Stuck q ['\\']
  | newline {t} : Stuck q ('\\' :: '\n' :: t)
  | plain {c t} (other : c ≠ q) (plain : c ≠ '\\') (rest : Stuck q t) : Stuck q (c :: t)
  | escaped {d t} (line : d ≠ '\n') (rest : Stuck q t) : Stuck q ('\\' :: d :: t)

/-- How far behind an opening quote the text that follows it is reported: at that quote, or at the
second half of the last doubled quote that the search passes over. -/
inductive Blames (q : Char) : Text → Nat → Prop where
  | opening {t} (stuck : Stuck q t) : Blames q t 0
  | doubled {a r} (inner : Inner q a) (stuck : Stuck q r) : Blames q (a ++ q :: q :: r) (a.length + 2)

theorem unclosedBlames {q : Char} {t : Text} (h : Unclosed q t) : ∃ n, Blames q t n := by
  induction h with
  | done => exact ⟨0,.opening .done⟩
  | backslash => exact ⟨0,.opening .backslash⟩
  | @plain c t other plain rest ih =>
    obtain ⟨n,blames⟩ := ih
    cases blames with
    | opening stuck => exact ⟨0,.opening (.plain other plain stuck)⟩
    | doubled inner stuck => exact ⟨_,.doubled (.plain other plain inner) stuck⟩
  | @escaped d t rest ih =>
    by_cases line : d = '\n'
    · subst line
      exact ⟨0,.opening .newline⟩
    obtain ⟨n,blames⟩ := ih
    cases blames with
    | opening stuck => exact ⟨0,.opening (.escaped line stuck)⟩
    | doubled inner stuck => exact ⟨_,.doubled (.escaped line inner) stuck⟩
  | @doubled t rest ih =>
    obtain ⟨n,blames⟩ := ih
    cases blames with
    | opening stuck => exact ⟨2,.doubled .done stuck⟩
    | doubled inner stuck => exact ⟨_,.doubled (.doubled inner) stuck⟩

section
variable {q : Char} (other : '\\' ≠ q)
include other

theorem stuckExact {t : Text} : quotedTail q t = none ↔ Stuck q t := by
  constructor
  · intro h
    fun_induction quotedTail q t with
    | case1 => exact .done
    | case2 => contradiction
    | case3 c single =>
      by_cases escape : c = '\\'
      · subst escape
        exact .backslash
      · exact .plain single escape .done
    | case4 => contradiction
    | case5 => contradiction
    | case6 => contradiction
    | case7 => exact .newline
    | case8 d rest line escape ih => exact .escaped line (ih (Option.map_eq_none_iff.mp h))
    | case9 c d rest single plain ih => exact .plain single plain (ih (Option.map_eq_none_iff.mp h))
  · intro h
    induction h with
    | done => rfl
    | backslash => simp [quotedTail,other]
    | newline => simp [quotedTail,other]
    | plain apart plain rest ih => rw [quotedPlain _ apart plain,ih]; rfl
    | escaped line rest ih => rw [quotedEscape _ other line,ih]; rfl

theorem innerQuoted {a r : Text} (h : Inner q a) (stuck : Stuck q r) :
    quotedTail q (a ++ q :: q :: r) = some (a.length + 1) := by
  induction h with
  | done => rw [List.nil_append,quotedPair,(stuckExact other).mpr stuck]; rfl
  | plain apart plain rest ih => rw [List.cons_append,quotedPlain _ apart plain,ih]; rfl
  | escaped line rest ih =>
    rw [List.cons_append,List.cons_append,quotedEscape _ other line,ih]
    rfl
  | doubled rest ih => rw [List.cons_append,List.cons_append,quotedPair,ih]; rfl

theorem blamesOpening {t : Text} {n : Nat} (h : Blames q t n) : n = 0 ↔ Stuck q t := by
  cases h with
  | opening stuck => exact ⟨fun _ => stuck,fun _ => rfl⟩
  | doubled inner stuck =>
    refine ⟨nofun,fun whole => ?_⟩
    have found := innerQuoted other inner stuck
    rw [(stuckExact other).mpr whole] at found
    exact nomatch found

end

/- An end that leaves a quote behind it is the first half of a doubled quote. -/
theorem quotedHalved {q : Char} {t r : Text} {n : Nat} (h : quotedTail q t = some n)
    (behind : t.drop n = q :: r) :
    ∃ a, t = a ++ q :: q :: r ∧ Inner q a ∧ n = a.length + 1 := by
  fun_induction quotedTail q t generalizing n with
  | case1 => contradiction
  | case2 => cases h; cases behind
  | case3 => contradiction
  | case4 rest m found ih =>
    cases h
    obtain ⟨a,rfl,inner,rfl⟩ := ih found behind
    exact ⟨q :: q :: a,rfl,.doubled inner,rfl⟩
  | case5 rest unclosed ih =>
    cases h
    cases behind
    exact ⟨[],rfl,.done,rfl⟩
  | case6 d rest single =>
    cases h
    cases behind
    contradiction
  | case7 => contradiction
  | case8 d rest line escape ih =>
    obtain ⟨k,found,rfl⟩ := Option.map_eq_some_iff.mp h
    obtain ⟨a,rfl,inner,rfl⟩ := ih found behind
    exact ⟨'\\' :: d :: a,rfl,.escaped line inner,rfl⟩
  | case9 c d rest single plain ih =>
    obtain ⟨k,found,rfl⟩ := Option.map_eq_some_iff.mp h
    obtain ⟨a,same,inner,rfl⟩ := ih found behind
    exact ⟨c :: a,congrArg (c :: ·) same,.plain single plain inner,rfl⟩

end Text

namespace Token
open Text

/-- The pass that does not go back over a quoted text comes, from an offset, a line and the text there,
to offset `p`, line `line` and `rest`. -/
inductive Reaches (p line : Nat) (rest : Text) : Nat → Nat → Text → Prop where
  | here : Reaches p line rest p line rest
  | newline {s l t} (next : Reaches p line rest (s + 1) (l + 1) t) : Reaches p line rest s l ('\n' :: t)
  | layout {s l c t} (inside : c ≠ '\n') (layout : isLayout c = true)
      (next : Reaches p line rest (s + 1) l t) : Reaches p line rest s l (c :: t)
  | token {s l c t tag n} (visible : isLayout c = false)
      (found : scan? (c :: t) = some (tag, n + 1))
      (next : Reaches p line rest (s + 1 + n) l (t.drop n)) : Reaches p line rest s l (c :: t)

section
variable {source t : Text} {s l n : Nat} {c : Char} {tag : Tag} {fault : Fault}

theorem visibleLine (visible : isLayout c = false) : c ≠ '\n' := by
  rintro rfl
  contradiction

theorem streamStuck (visible : isLayout c = false) (unfound : lexeme? c t = none) :
    streamFrom source s l (c :: t) = .error (lexFault source s l c) := by
  unfold streamFrom
  rw [if_neg (visibleLine visible),if_neg (by simp [visible]),unfound]

theorem streamBehind (visible : isLayout c = false) (found : lexeme? c t = some (tag,n))
    (h : streamFrom source (s + 1 + n) l (t.drop n) = .error fault) :
    streamFrom source s l (c :: t) = .error fault := by
  unfold streamFrom
  rw [if_neg (visibleLine visible),if_neg (by simp [visible]),found]
  dsimp only
  rw [h]

end

theorem quoteVisibly {q : Char} (quote : quoteTag? q ≠ none) : '\\' ≠ q ∧ isLayout q = false := by
  obtain ⟨tag,quote⟩ := Option.ne_none_iff_exists'.mp quote
  rcases quoteCases quote with rfl | rfl | rfl <;> decide

/-- The fault of a quoted text without an end, reported at offset `s`. -/
def unterminated (source : Text) (q : Char) (line s : Nat) : Fault :=
  ⟨.unterminatedQuote q line,some source,some s,none⟩

theorem lexFaultQuote {q : Char} (quote : quoteTag? q ≠ none) (source : Text) (s line : Nat) :
    lexFault source s line q = unterminated source q line s := by
  obtain ⟨tag,quote⟩ := Option.ne_none_iff_exists'.mp quote
  unfold lexFault unterminated
  rw [quote]

theorem lexemeStuck {q : Char} {t : Text} (quote : quoteTag? q ≠ none) :
    lexeme? q t = none ↔ Stuck q t := by
  obtain ⟨tag,tagged⟩ := Option.ne_none_iff_exists'.mp quote
  rw [lexemeQuoted tagged,Option.map_eq_none_iff]
  exact stuckExact (quoteVisibly quote).1

theorem blamesFault {source body : Text} {q : Char} {p line n : Nat} (quote : quoteTag? q ≠ none)
    (blames : Blames q body n) :
    streamFrom source p line (q :: body) = .error (unterminated source q line (p + n)) := by
  obtain ⟨other,visible⟩ := quoteVisibly quote
  obtain ⟨tag,tagged⟩ := Option.ne_none_iff_exists'.mp quote
  cases blames with
  | opening stuck =>
    rw [streamStuck visible ((lexemeStuck quote).mpr stuck),lexFaultQuote quote]
    rfl
  | @doubled a r inner stuck =>
    have found : lexeme? q (a ++ q :: q :: r) = some (tag,a.length + 1) := by
      rw [lexemeQuoted tagged,innerQuoted other inner stuck]
      rfl
    refine streamBehind visible found ?_
    have behind : (a ++ q :: q :: r).drop (a.length + 1) = q :: r := by
      rw [← List.drop_drop,List.drop_left]
      rfl
    rw [behind,streamStuck visible ((lexemeStuck quote).mpr stuck),lexFaultQuote quote,
      show p + 1 + (a.length + 1) = p + (a.length + 2) by omega]

theorem reachedFault {source rest t : Text} {p line s l : Nat} {fault : Fault}
    (reached : Reaches p line rest s l t)
    (h : streamFrom source p line rest = .error fault) : streamFrom source s l t = .error fault := by
  induction reached with
  | here => exact h
  | newline next ih =>
    unfold streamFrom
    rw [if_pos rfl]
    exact ih
  | layout inside layout next ih =>
    unfold streamFrom
    rw [if_neg inside,if_pos layout]
    exact ih
  | token visible found next ih =>
    obtain ⟨k,same,lexed⟩ := scanLexeme found
    cases same
    exact streamBehind visible lexed ih

/- The pass stays where it finds no token. -/
theorem reachedHere {c : Char} {rest t : Text} {p line s l : Nat} (visible : isLayout c = false)
    (unfound : scan? (c :: t) = none) (reached : Reaches p line rest s l (c :: t)) :
    p = s ∧ line = l ∧ rest = c :: t := by
  cases reached with
  | here => exact ⟨rfl,rfl,rfl⟩
  | newline => contradiction
  | layout _ layout => rw [visible] at layout; contradiction
  | token _ found => rw [unfound] at found; contradiction

theorem scanNone {c : Char} {t : Text} (unfound : lexeme? c t = none) : scan? (c :: t) = none := by
  cases scanned : scan? (c :: t) with
  | none => rfl
  | some hit =>
    obtain ⟨tag,n⟩ := hit
    obtain ⟨_,_,found⟩ := scanLexeme scanned
    rw [unfound] at found
    exact nomatch found

theorem lexFaultUnterminated {source : Text} {q c : Char} {s l line k : Nat}
    (h : lexFault source s l c = unterminated source q line k) :
    c = q ∧ quoteTag? q ≠ none ∧ l = line ∧ s = k := by
  unfold lexFault unterminated at h
  cases quote : quoteTag? c with
  | none => rw [quote] at h; cases h
  | some tag =>
    rw [quote] at h
    cases h
    exact ⟨rfl,by rw [quote]; exact nofun,rfl,rfl⟩

theorem faultReached {source t : Text} {q : Char} {s l line k : Nat}
    (h : streamFrom source s l t = .error (unterminated source q line k)) :
    ∃ p body n, Reaches p line (q :: body) s l t ∧ quoteTag? q ≠ none ∧ Blames q body n ∧
      k = p + n := by
  fun_induction streamFrom source s l t with
  | case1 => contradiction
  | case2 s l rest ih =>
    obtain ⟨p,body,n,reached,found⟩ := ih h
    exact ⟨p,body,n,.newline reached,found⟩
  | case3 s l c rest inside layout ih =>
    obtain ⟨p,body,n,reached,found⟩ := ih h
    exact ⟨p,body,n,.layout inside layout reached,found⟩
  | case4 s l c rest inside visible none =>
    obtain ⟨rfl,quote,rfl,rfl⟩ := lexFaultUnterminated (Except.error.inj h)
    exact ⟨s,rest,0,.here,quote,.opening ((lexemeStuck quote).mp none),rfl⟩
  | case5 s l c rest inside layout tag n found fault behind ih =>
    cases h
    have visible : isLayout c = false := by simpa using layout
    obtain ⟨p,body,m,reached,quote,blames,rfl⟩ := ih behind
    cases scanned : scan? (c :: rest) with
    | some hit =>
      obtain ⟨tag',size⟩ := hit
      obtain ⟨j,rfl,lexed⟩ := scanLexeme scanned
      cases found.symm.trans lexed
      exact ⟨p,body,m,.token visible scanned reached,quote,blames,rfl⟩
    | none =>
      -- The reader went back to the first half of a doubled quote: the second half is the quote
      -- that is reported, and the pass still stands at the opening one.
      have halved : ∃ r, rest.drop n = c :: r ∧ lexeme? c r = none := by
        by_contra proper
        rw [lexemeScan found fun r same none => proper ⟨r,same,none⟩] at scanned
        contradiction
      obtain ⟨r,here,none⟩ := halved
      rw [here] at reached
      obtain ⟨rfl,rfl,same⟩ := reachedHere visible (scanNone none) reached
      cases same
      obtain ⟨tag',tagged⟩ := Option.ne_none_iff_exists'.mp quote
      rw [lexemeQuoted tagged] at found
      obtain ⟨j,closed,same⟩ := Option.map_eq_some_iff.mp found
      cases same
      obtain ⟨a,rfl,inner,rfl⟩ := quotedHalved closed here
      have stuck := (lexemeStuck quote).mp none
      rw [(blamesOpening (quoteVisibly quote).1 blames).mpr stuck]
      exact ⟨s,_,a.length + 2,.here,quote,.doubled inner stuck,by omega⟩
  | case6 => contradiction

theorem unterminatedExact {text : Text} {q : Char} {line k : Nat} :
    stream text = .error (unterminated text q line k) ↔
      ∃ p body n, Reaches p line (q :: body) 0 1 text ∧ quoteTag? q ≠ none ∧ Blames q body n ∧
        k = p + n := by
  refine ⟨faultReached,?_⟩
  rintro ⟨p,body,n,reached,quote,blames,rfl⟩
  exact reachedFault reached (blamesFault quote blames)

/- A quoted text that nothing closes is reported at its opening quote exactly if the search passes over
no doubled quote in it, and every report is of this kind. -/
theorem unterminatedBlamed (text : Text) :
    (∀ p line q body, Reaches p line (q :: body) 0 1 text → quoteTag? q ≠ none → Unclosed q body →
      ∃ n, stream text = .error (unterminated text q line (p + n)) ∧ Blames q body n ∧
        (n = 0 ↔ Stuck q body)) ∧
    ∀ q line k, stream text = .error (unterminated text q line k) ↔
      ∃ p body n, Reaches p line (q :: body) 0 1 text ∧ quoteTag? q ≠ none ∧ Blames q body n ∧
        k = p + n := by
  refine ⟨fun p line q body reached quote unclosed => ?_,fun q line k => unterminatedExact⟩
  obtain ⟨n,blames⟩ := unclosedBlames unclosed
  exact ⟨n,unterminatedExact.mpr ⟨p,body,n,reached,quote,blames,rfl⟩,blames,
    blamesOpening (quoteVisibly quote).1 blames⟩

theorem unterminatedBlamedEscape :
    let body : Text := ['b','\\','\'']
    let text : Text := 'a' :: '\n' :: '\'' :: body
    Reaches 2 2 ('\'' :: body) 0 1 text ∧ stream text = .error (unterminated text '\'' 2 2) := by
  intro body text
  have name : scan? text = some (.identifier,0 + 1) := by decide +kernel
  have reached : Reaches 2 2 ('\'' :: body) 0 1 text := .token rfl name (.newline .here)
  have unclosed : Unclosed '\'' body := .plain (by decide) (by decide) (.escaped .done)
  have stuck : Stuck '\'' body := .plain (by decide) (by decide) (.escaped (by decide) .done)
  obtain ⟨n,refused,-,opening⟩ := (unterminatedBlamed text).1 2 2 '\'' _ reached (by decide) unclosed
  cases opening.mpr stuck
  exact ⟨reached,refused⟩

/- Nothing closes the quote at offset 0; the fault is at offset 3, behind a token that ends within the
doubled quote. -/
theorem openingMissed :
    let text := "'a''".toList
    Reaches 0 1 text 0 1 text ∧ Unclosed '\'' "a''".toList ∧
      stream text = .error (unterminated text '\'' 1 3) ∧
      stream text ≠ .error (unterminated text '\'' 1 0) := by
  intro text
  exact ⟨.here,.plain (by decide) (by decide) (.doubled .done),by decide +kernel,by decide +kernel⟩

end Token
end ColumnDecl
