import ColumnDecl.Proofs.Token.Pattern
import ColumnDecl.Proofs.Token.Words

/-! Tokens in one pass. A quoted text that is closed by the first half of a doubled quote leaves a quote
behind that nothing closes, so such an end never helps: a pass that does not go back finds the same
tokens, or fails with the search that does. -/
namespace ColumnDecl

namespace Text

/-- Characters up to and including the closing quote, where a doubled quote never closes. -/
def closing? (q : Char) : Text → Option Nat
  | [] => none
  | [c] => if c = q then some 1 else none
  | c :: d :: rest =>
    if c = q then
      if d = q then (closing? q rest).map (· + 2) else some 1
    else if c = '\\' then
      if d = '\n' then none else (closing? q rest).map (· + 2)
    else (closing? q (d :: rest)).map (· + 1)

theorem closingLast (q c : Char) : closing? q [c] = if c = q then some 1 else none := rfl

theorem closingCons (q c d : Char) (t : Text) :
    closing? q (c :: d :: t) =
      if c = q then if d = q then (closing? q t).map (· + 2) else some 1
      else if c = '\\' then if d = '\n' then none else (closing? q t).map (· + 2)
      else (closing? q (d :: t)).map (· + 1) := rfl

theorem closingPair (q : Char) (t : Text) : closing? q (q :: q :: t) = (closing? q t).map (· + 2) := by
  rw [closingCons,if_pos rfl,if_pos rfl]

theorem closingEnd (q : Char) {t : Text} (h : t.head? ≠ some q) : closing? q (q :: t) = some 1 := by
  cases t with
  | nil => rw [closingLast,if_pos rfl]
  | cons d t =>
    have other : d ≠ q := by simpa using h
    rw [closingCons,if_pos rfl,if_neg other]

theorem closingEscape {q d : Char} (t : Text) (other : '\\' ≠ q) (line : d ≠ '\n') :
    closing? q ('\\' :: d :: t) = (closing? q t).map (· + 2) := by
  rw [closingCons,if_neg other,if_pos rfl,if_neg line]

theorem closingPlain {q c : Char} (t : Text) (other : c ≠ q) (plain : c ≠ '\\') :
    closing? q (c :: t) = (closing? q t).map (· + 1) := by
  cases t with
  | nil =>
    rw [closingLast,if_neg other]
    rfl
  | cons d t => rw [closingCons,if_neg other,if_neg plain]

theorem closingQuoted {q : Char} {t : Text} {n : Nat} (h : closing? q t = some n) :
    quotedTail q t = some n := by
  fun_induction closing? q t generalizing n with
  | case1 => contradiction
  | case2 => cases h; exact quotedEnd q (by simp)
  | case3 => contradiction
  | case4 rest ih =>
    obtain ⟨k,found,rfl⟩ := Option.map_eq_some_iff.mp h
    rw [quotedPair,ih found]
    rfl
  | case5 d rest single => cases h; exact quotedEnd q (by simpa using single)
  | case6 => contradiction
  | case7 d rest line escape ih =>
    obtain ⟨k,found,rfl⟩ := Option.map_eq_some_iff.mp h
    rw [quotedEscape rest escape line,ih found]
    rfl
  | case8 c d rest single plain ih =>
    obtain ⟨k,found,rfl⟩ := Option.map_eq_some_iff.mp h
    rw [quotedPlain (d :: rest) single plain,ih found]
    rfl

/- The search goes back only to leave a quote that nothing closes. -/
theorem quotedClosing {q : Char} {t : Text} {n : Nat} (h : quotedTail q t = some n)
    (proper : ∀ r, t.drop n = q :: r → quotedTail q r ≠ none) : closing? q t = some n := by
  fun_induction quotedTail q t generalizing n with
  | case1 => contradiction
  | case2 => cases h; exact closingEnd q (by simp)
  | case3 => contradiction
  | case4 rest m found ih =>
    cases h
    rw [closingPair,ih found proper]
    rfl
  | case5 rest unclosed ih => cases h; exact absurd unclosed (proper rest rfl)
  | case6 d rest single => cases h; exact closingEnd q (by simpa using single)
  | case7 => contradiction
  | case8 d rest line escape ih =>
    obtain ⟨k,found,rfl⟩ := Option.map_eq_some_iff.mp h
    rw [closingEscape rest escape line,ih found proper]
    rfl
  | case9 c d rest single plain ih =>
    obtain ⟨k,found,rfl⟩ := Option.map_eq_some_iff.mp h
    rw [closingPlain (d :: rest) single plain,ih found proper]
    rfl

/- No quote of its own kind follows a quoted text. -/
theorem closingAlone {q : Char} {t : Text} {n : Nat} (h : closing? q t = some n) :
    (t.drop n).head? ≠ some q := by
  fun_induction closing? q t generalizing n with
  | case1 => contradiction
  | case2 => cases h; simp
  | case3 => contradiction
  | case4 rest ih =>
    obtain ⟨k,found,rfl⟩ := Option.map_eq_some_iff.mp h
    exact ih found
  | case5 d rest single => cases h; simpa using single
  | case6 => contradiction
  | case7 d rest line escape ih =>
    obtain ⟨k,found,rfl⟩ := Option.map_eq_some_iff.mp h
    exact ih found
  | case8 c d rest single plain ih =>
    obtain ⟨k,found,rfl⟩ := Option.map_eq_some_iff.mp h
    exact ih found

theorem digitAboveNone {n : Nat} {zs : List Nat} (h : ∀ z ∈ zs, n < z ∨ z + 10 ≤ n) :
    digitAbove n zs = none := by
  fun_induction digitAbove n zs with
  | case1 => rfl
  | case2 z zs within => have apart := h z List.mem_cons_self; omega
  | case3 z zs outside ih => exact ih fun x hx => h x (List.mem_cons_of_mem z hx)

/- No decimal digit is a blank. -/
theorem blankDigit {c : Char} (blank : isBlank c = true) : isDigit c = false := by
  have apart : ∀ r ∈ blankRanges, ∀ z ∈ digitZeros, r.2 < z ∨ z + 10 ≤ r.1 := by decide
  obtain ⟨r,member,within⟩ := List.any_eq_true.mp blank
  simp only [Bool.and_eq_true,decide_eq_true_eq] at within
  have none : digitAbove c.toNat digitZeros = none := by
    refine digitAboveNone fun z hz => ?_
    have := apart r member z hz
    omega
  simp [isDigit,digit?,none]

end Text

namespace Token

/-! Two ways to find the next token. -/

/-- A character that is a token by itself and has no tag of its own. -/
def isPlain (c : Char) : Bool :=
  !Text.isBlank c && !(['\'', '\x60', '"', '(', ')', ',', '='].contains c)

/-- The patterns of tokens in the order in which they are tried. -/
def rules : List (Tag × Pattern) := [
  (.quotedIdentifier, .quoted '\x60'), (.quotedIdentifier, .quoted '"'), (.string, .quoted '\''),
  (.number, .number), (.identifier, .name), (.other, .char isPlain),
  (.opening, .char (· == '(')), (.closing, .char (· == ')')), (.comma, .char (· == ',')),
  (.equals, .char (· == '='))]

/-- The token that a text begins with, by the first rule that matches after whatever backtracking. -/
def search? (t : Text) : Option (Tag × Nat) :=
  rules.findSome? fun rule => (rule.2.first? t).map (rule.1, ·)

/-- The tag of a character that is a token by itself. -/
def singleTag (c : Char) : Tag :=
  if c = '(' then .opening
  else if c = ')' then .closing
  else if c = ',' then .comma
  else if c = '=' then .equals
  else .other

/-- The token that a text begins with, found without going back over a quoted text. -/
def scan? : Text → Option (Tag × Nat)
  | [] => none
  | c :: rest =>
    match quoteTag? c with
    | some tag => (Text.closing? c rest).map fun n => (tag, n + 1)
    | none =>
      match Pattern.number.first? (c :: rest) with
      | some n => some (.number, n)
      | none =>
        match Pattern.name.first? (c :: rest) with
        | some n => some (.identifier, n)
        | none => if Text.isBlank c then none else some (singleTag c, 1)

theorem numberNone {c : Char} (t : Text) (sign : ¬(c = '+' ∨ c = '-')) (point : c ≠ '.')
    (digit : Text.isDigit c = false) : numberLength (c :: t) = 0 := by
  have zero : c ≠ '0' := by
    rintro rfl
    contradiction
  have whole : hexLength (c :: t) = 0 := by
    cases t <;> simp [hexLength,zero]
  have part : decimalLength (c :: t) = 0 := by
    simp [decimalMantissa,mantissaLength,runCons,digit,fractionLength,point]
  simp [numberBody,signLength,sign,whole,part]

theorem singleBlank (c : Char) :
    singleTag? c = if Text.isBlank c then none else some (singleTag c) := by
  unfold singleTag? singleTag
  split
  next here => rw [here]; rfl
  split
  next here => rw [here]; rfl
  split
  next here => rw [here]; rfl
  split
  next here => rw [here]; rfl
  rfl

theorem quoteNone {c : Char} (h : quoteTag? c = none) : c ≠ '\x60' ∧ c ≠ '"' ∧ c ≠ '\'' := by
  refine ⟨?_,?_,?_⟩ <;> (rintro rfl; contradiction)

theorem quoteApart {c : Char} {tag : Tag} (h : quoteTag? c = some tag) :
    (¬(c = '+' ∨ c = '-') ∧ c ≠ '.' ∧ Text.isDigit c = false) ∧ isNameStart c = false ∧
      isPlain c = false := by
  rcases quoteCases h with rfl | rfl | rfl <;> decide

/- A quote that nothing closes is no other token. -/
theorem searchQuoted {c : Char} {tag : Tag} (h : quoteTag? c = some tag) (t : Text) :
    search? (c :: t) = (Text.quotedTail c t).map fun n => (tag, n + 1) := by
  obtain ⟨⟨sign,point,digit⟩,start,plain⟩ := quoteApart h
  have number := numberNone t sign point digit
  have quotes := fun q (apart : q ≠ '\\') => Pattern.firstQuoted apart c t
  simp only [search?,rules,List.findSome?_cons,List.findSome?_nil,Pattern.firstNumber,number,
    Pattern.positive,Pattern.firstName,start,Pattern.firstChar,plain,quotes '\x60' (by decide),
    quotes '"' (by decide),quotes '\'' (by decide)]
  rcases quoteCases h with rfl | rfl | rfl <;> cases h
  · cases Text.quotedTail '\x60' t <;> simp [Nat.add_comm]
  · cases Text.quotedTail '"' t <;> simp [Nat.add_comm]
  · cases Text.quotedTail '\'' t <;> simp [Nat.add_comm]

theorem searchOther {c : Char} (other : quoteTag? c = none) (t : Text) :
    search? (c :: t) = (lexeme? c t).map fun found => (found.1, found.2 + 1) := by
  obtain ⟨first,second,third⟩ := quoteNone other
  have quotes := fun q (apart : q ≠ '\\') => Pattern.firstQuoted apart c t
  simp only [search?,rules,List.findSome?_cons,List.findSome?_nil,Pattern.firstNumber,
    Pattern.firstName,Pattern.firstChar,quotes '\x60' (by decide),quotes '"' (by decide),
    quotes '\'' (by decide),if_neg first,if_neg second,if_neg third,Option.map_none,lexeme?,other]
  cases numberLength (c :: t) with
  | succ n => rfl
  | zero =>
    simp only [Pattern.positive,if_true]
    cases isNameStart c with
    | true => simp [Nat.add_comm]
    | false =>
      by_cases opening : c = '('
      · subst opening; rfl
      by_cases closing : c = ')'
      · subst closing; rfl
      by_cases comma : c = ','
      · subst comma; rfl
      by_cases equals : c = '='
      · subst equals; rfl
      have plain : isPlain c = !Text.isBlank c := by
        simp [isPlain,first,second,third,opening,closing,comma,equals]
      rw [plain,singleTag?,if_neg opening,if_neg closing,if_neg comma,if_neg equals]
      cases Text.isBlank c <;> simp [opening,closing,comma,equals]

theorem lexemeQuoted {c : Char} {tag : Tag} (quote : quoteTag? c = some tag) (t : Text) :
    lexeme? c t = (Text.quotedTail c t).map (tag, ·) := by
  unfold lexeme?
  rw [quote]

theorem scanOther {c : Char} (other : quoteTag? c = none) (t : Text) :
    scan? (c :: t) = (lexeme? c t).map fun found => (found.1, found.2 + 1) := by
  simp only [scan?,lexeme?,other,singleBlank,Pattern.firstNumber,Pattern.firstName]
  cases numberLength (c :: t) with
  | succ n => rfl
  | zero =>
    simp only [Pattern.positive,if_true]
    cases isNameStart c with
    | true => simp [Nat.add_comm]
    | false => cases Text.isBlank c <;> rfl

theorem searchLexeme (c : Char) (t : Text) :
    search? (c :: t) = (lexeme? c t).map fun found => (found.1, found.2 + 1) := by
  cases quote : quoteTag? c with
  | none => exact searchOther quote t
  | some tag =>
    rw [searchQuoted quote,lexemeQuoted quote,Option.map_map]
    rfl

theorem scanQuoted {c : Char} {tag : Tag} (quote : quoteTag? c = some tag) (t : Text) :
    scan? (c :: t) = (Text.closing? c t).map fun n => (tag, n + 1) := by
  unfold scan?
  dsimp only
  rw [quote]

theorem scanLexeme {c : Char} {t : Text} {tag : Tag} {n : Nat} (h : scan? (c :: t) = some (tag, n)) :
    ∃ k, n = k + 1 ∧ lexeme? c t = some (tag, k) := by
  cases quote : quoteTag? c with
  | none =>
    rw [scanOther quote] at h
    obtain ⟨found,here,same⟩ := Option.map_eq_some_iff.mp h
    cases same
    exact ⟨found.2,rfl,here⟩
  | some tag' =>
    rw [scanQuoted quote] at h
    obtain ⟨k,found,same⟩ := Option.map_eq_some_iff.mp h
    cases same
    exact ⟨k,rfl,by rw [lexemeQuoted quote,Text.closingQuoted found]; rfl⟩

theorem lexemeScan {c : Char} {t : Text} {tag : Tag} {n : Nat} (h : lexeme? c t = some (tag, n))
    (proper : ∀ r, t.drop n = c :: r → lexeme? c r ≠ none) : scan? (c :: t) = some (tag, n + 1) := by
  cases quote : quoteTag? c with
  | none => rw [scanOther quote,h]; rfl
  | some tag' =>
    rw [lexemeQuoted quote] at h
    obtain ⟨k,found,same⟩ := Option.map_eq_some_iff.mp h
    cases same
    have closes : ∀ r, t.drop n = c :: r → Text.quotedTail c r ≠ none := by
      intro r behind none
      exact proper r behind (by rw [lexemeQuoted quote,none]; rfl)
    rw [scanQuoted quote,Text.quotedClosing found closes]
    rfl

/-! Whole texts. -/

/-- The tokens that `find` takes one behind the other from offset `p` on, apart from layout. -/
def taken (find : Text → Option (Tag × Nat)) (p : Nat) : Text → Option (List Token)
  | [] => some []
  | c :: rest =>
    if Text.isLayout c then taken find (p + 1) rest
    else match find (c :: rest) with
      | none => none
      | some (tag, n) =>
        (taken find (p + n) (rest.drop (n - 1))).map (⟨tag, c :: rest.take (n - 1), p⟩ :: ·)
termination_by t => t.length
decreasing_by all_goals simp [List.length_drop]; try omega

/-- The tokens of a text by the search of each one's pattern. -/
def searched (t : Text) : Option (List Token) := taken search? 0 t

/-- The tokens of a text in one pass from left to right. -/
def singlePass (t : Text) : Option (List Token) := taken scan? 0 t

variable {find : Text → Option (Tag × Nat)} {p : Nat} {t : Text} {ts : List Token}

theorem takenSound (sound : ∀ {c t tag n}, find (c :: t) = some (tag, n) →
    ∃ k, n = k + 1 ∧ lexeme? c t = some (tag, k)) (h : taken find p t = some ts) : Lexes p t ts := by
  fun_induction taken find p t generalizing ts with
  | case1 p => cases h; exact .done p
  | case2 p c rest layout ih => exact .gap layout (ih h)
  | case3 => contradiction
  | case4 p c rest visible tag n found ih =>
    obtain ⟨more,read,rfl⟩ := Option.map_eq_some_iff.mp h
    obtain ⟨k,rfl,lexed⟩ := sound found
    refine .token (by simpa using visible) lexed ?_
    rw [Nat.add_assoc,Nat.add_comm 1]
    exact ih read

theorem lexesProper {n : Nat} {c : Char} (visible : Text.isLayout c = false)
    (rest : Lexes p (t.drop n) ts) : ∀ r, t.drop n = c :: r → lexeme? c r ≠ none := by
  intro r behind none
  rw [behind] at rest
  cases rest with
  | gap layout => rw [visible] at layout; contradiction
  | token _ found => rw [none] at found; contradiction

theorem takenComplete (complete : ∀ {c t tag n}, lexeme? c t = some (tag, n) →
    (∀ r, t.drop n = c :: r → lexeme? c r ≠ none) → find (c :: t) = some (tag, n + 1))
    (h : Lexes p t ts) : taken find p t = some ts := by
  induction h with
  | done p => simp [taken]
  | gap layout rest ih =>
    unfold taken
    rw [if_pos layout,ih]
  | @token p c t tag n ts visible found rest ih =>
    unfold taken
    rw [if_neg (by simp [visible]),complete found (lexesProper visible rest)]
    dsimp only
    rw [Nat.add_sub_cancel,Nat.add_comm n,← Nat.add_assoc,ih]
    rfl

theorem singlePassExact : singlePass t = some ts ↔ Lexes 0 t ts :=
  ⟨takenSound scanLexeme,takenComplete lexemeScan⟩

theorem searchedExact : searched t = some ts ↔ Lexes 0 t ts := by
  refine ⟨takenSound fun h => ?_,takenComplete fun h _ => ?_⟩
  · rw [searchLexeme] at h
    obtain ⟨found,here,same⟩ := Option.map_eq_some_iff.mp h
    cases same
    exact ⟨found.2,rfl,here⟩
  · rw [searchLexeme,h]
    rfl

theorem lexemeQuote {c : Char} {tag : Tag} {n : Nat} (h : lexeme? c t = some (tag, n))
    (quoted : tag = .string ∨ tag = .quotedIdentifier) : quoteTag? c = some tag := by
  cases lexemeRule h with
  | quoted quote => exact quote
  | number => simp at quoted
  | name => simp at quoted
  | single alone =>
    have other := singleTags alone
    rcases quoted with rfl | rfl <;> simp at other

/- No quoted token ends within a doubled quote. -/
theorem lexesUncut (h : Lexes p t ts) {x : Token} (member : x ∈ ts)
    (quoted : x.tag = .string ∨ x.tag = .quotedIdentifier) : t[x.stop - p]? ≠ x.raw.head? := by
  induction h with
  | done p => contradiction
  | @gap p c t ts layout rest ih =>
    have bound := lexesBounds rest x member
    rw [show x.stop - p = x.stop - (p + 1) + 1 by omega,List.getElem?_cons_succ]
    exact ih member
  | @token p c t tag n ts visible found rest ih =>
    rcases List.mem_cons.mp member with rfl | member
    · have scanned := lexemeScan found (lexesProper visible rest)
      rw [scanQuoted (lexemeQuote found quoted)] at scanned
      obtain ⟨k,closes,same⟩ := Option.map_eq_some_iff.mp scanned
      cases same
      have size : (t.take n).length = n := by
        rw [List.length_take]
        exact Nat.min_eq_left (lexemeBound found)
      have behind : Token.stop ⟨tag,c :: t.take n,p⟩ - p = n + 1 := by
        simp only [stop,List.length_cons,size]
        omega
      rw [behind,List.getElem?_cons_succ,← List.head?_drop]
      exact Text.closingAlone closes
    · have bound := lexesBounds rest x member
      rw [show x.stop - p = n + (x.stop - (p + 1 + n)) + 1 by omega,List.getElem?_cons_succ,
        ← List.getElem?_drop]
      exact ih member

/- Outside of quoted texts a token can begin with whatever is no blank. -/
theorem scanRejects {c : Char} (other : quoteTag? c = none) (t : Text) :
    scan? (c :: t) = none ↔ Text.isBlank c = true := by
  constructor
  · intro rejected
    rw [scanOther other,Option.map_eq_none_iff] at rejected
    unfold lexeme? at rejected
    rw [other] at rejected
    dsimp only at rejected
    split at rejected
    · contradiction
    split at rejected
    · contradiction
    · rw [singleBlank] at rejected
      simpa using rejected
  · intro blank
    have sign : ¬(c = '+' ∨ c = '-') := by
      rintro (rfl | rfl) <;> contradiction
    have point : c ≠ '.' := by
      rintro rfl
      contradiction
    have start : isNameStart c = false := by
      rw [Bool.eq_false_iff]
      intro start
      rw [nameVisible (by simp [isNameChar,start])] at blank
      contradiction
    rw [scanOther other]
    simp [lexeme?,other,numberNone t sign point (Text.blankDigit blank),start,singleBlank,blank]

/- The reader, the search and the pass find the same tokens or fail together. No quoted token is cut
off within a doubled quote, and where no quote stands the pass stops at blanks only. -/
theorem passAgrees (t : Text) :
    (∀ ts, stream t = .ok ts ↔ singlePass t = some ts) ∧ searched t = singlePass t ∧
    (∀ ts, stream t = .ok ts → ∀ x ∈ ts, x.tag = .string ∨ x.tag = .quotedIdentifier →
      t[x.stop]? ≠ x.raw.head?) ∧
    ∀ c rest, quoteTag? c = none → (scan? (c :: rest) = none ↔ Text.isBlank c = true) := by
  refine ⟨fun ts => streamExact.trans singlePassExact.symm,?_,?_,fun c rest => (scanRejects · rest)⟩
  · exact Option.ext fun ts => searchedExact.trans singlePassExact.symm
  · exact fun ts lexed x member quoted => lexesUncut (streamExact.mp lexed) member quoted

/- In `cut` the search for the string comes back to the first of the two quotes at the end. -/
theorem passAgreesDoubled :
    let t := "a 'b''c' d".toList
    let cut := "'b''".toList
    let s : Token := ⟨.string,"'b''c'".toList,2⟩
    singlePass t = some [⟨.identifier,['a'],0⟩,s,⟨.identifier,['d'],9⟩] ∧
      t[s.stop]? ≠ some '\'' ∧ search? cut = some (.string, 3) ∧ searched cut = none := by
  intro t cut s
  have lexed : stream t = .ok [⟨.identifier,['a'],0⟩,s,⟨.identifier,['d'],9⟩] := by decide +kernel
  refine ⟨((passAgrees t).1 _).mp lexed,?_,by decide +kernel,?_⟩
  · exact (passAgrees t).2.2.1 _ lexed s (by simp) (.inl rfl)
  · exact (passAgrees cut).2.1.trans (by decide +kernel)

end Token
end ColumnDecl
