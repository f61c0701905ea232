import ColumnDecl.Proofs.Token.SinglePass

/-! Texts without layout between their tokens, character by character. Whether a character stands in quotes
does not depend on where one token ends and the next begins, so tokens put side by side are read as
tokens again, made of the same characters in the same quotes. -/
namespace ColumnDecl

namespace Pattern

/-- All classes of characters in the pattern lie in this one. -/
def Only (p : Char → Prop) : Pattern → Prop
  | char q => ∀ c, q c = true → p c
  | both a b => a.Only p ∧ b.Only p
  | either a b => a.Only p ∧ b.Only p
  | maybe a => a.Only p
  | many a => a.Only p

variable {p : Char → Prop}

theorem takenBoth {t : Text} {n m : Nat} (first : ∀ c ∈ t.take n, p c)
    (second : ∀ c ∈ (t.drop n).take m, p c) : ∀ c ∈ t.take (n + m), p c := by
  rw [List.take_add]
  exact fun c hc => (List.mem_append.mp hc).elim (first c) (second c)

theorem onlyTakes {a : Pattern} (h : a.Only p) {t : Text} {n : Nat} (way : n ∈ a.lengths t) :
    ∀ c ∈ t.take n, p c := by
  induction a generalizing t n with
  | char q =>
    rcases t with _ | ⟨c,t⟩
    · contradiction
    unfold lengths at way
    split at way
    next holds =>
      cases List.mem_singleton.mp way
      simpa using h c holds
    next => contradiction
  | both a b first second =>
    obtain ⟨k,ways,member⟩ := List.mem_flatMap.mp way
    obtain ⟨m,ways',rfl⟩ := List.mem_map.mp member
    exact takenBoth (first h.1 ways) (second h.2 ways')
  | either a b first second =>
    rcases List.mem_append.mp way with ways | ways
    · exact first h.1 ways
    · exact second h.2 ways
  | maybe a ih =>
    rcases List.mem_append.mp way with ways | none
    · exact ih h ways
    · cases List.mem_singleton.mp none
      simp
  | many a ih =>
    unfold lengths at way
    generalize t.length = limit at way
    induction limit generalizing t n with
    | zero =>
      cases List.mem_singleton.mp way
      simp
    | succ limit more =>
      rcases List.mem_append.mp way with ways | none
      · obtain ⟨k,first,member⟩ := List.mem_flatMap.mp ways
        obtain ⟨m,second,rfl⟩ := List.mem_map.mp member
        exact takenBoth (ih h (List.mem_filter.mp first).1) (more second)
      · cases List.mem_singleton.mp none
        simp

theorem firstTakes {a : Pattern} (h : a.Only p) {t : Text} {n : Nat} (found : a.first? t = some n) :
    ∀ c ∈ t.take n, p c :=
  onlyTakes h (List.mem_of_mem_head? found)

end Pattern

namespace Token

/-! Characters of numbers and names. -/

/-- The quotes, the brackets and the comma. -/
def specials : List Char := ['\'','"','\x60','(',')','[',']','\x7b','\x7d',',']

structure Solid (c : Char) : Prop where
  visible : Text.isBlank c = false
  special : c ∉ specials

theorem solidClass {q : Char → Bool} (visible : ∀ c, q c = true → Text.isBlank c = false)
    (apart : specials.any q = false) (c : Char) (h : q c = true) : Solid c :=
  ⟨visible c h,fun special => List.any_eq_false.mp apart c special h⟩

theorem solidDigit : ∀ c, Text.isDigit c = true → Solid c := by
  refine solidClass (fun c digit => ?_) (by decide)
  rw [Bool.eq_false_iff]
  intro blank
  rw [Text.blankDigit blank] at digit
  contradiction

theorem solidName : ∀ c, isNameChar c = true → Solid c :=
  solidClass (fun _ => nameVisible) (by decide)

theorem solidStart (c : Char) (h : isNameStart c = true) : Solid c :=
  solidName c (by simp [isNameChar,h])

theorem solidHex (c : Char) (h : isHexDigit c = true) : Solid c := by
  refine solidName c ?_
  simp only [isHexDigit,Bool.or_eq_true,Bool.and_eq_true,decide_eq_true_eq] at h
  simp only [isNameChar,isNameStart,Bool.or_eq_true,Bool.and_eq_true,decide_eq_true_eq]
  rcases h with (⟨low,high⟩ | ⟨low,high⟩) | ⟨low,high⟩
  · exact .inr ⟨low,high⟩
  · exact .inl (.inl (.inl ⟨low,Char.le_trans high (by decide)⟩))
  · exact .inl (.inl (.inr ⟨low,Char.le_trans high (by decide)⟩))

theorem solidMark {c : Char} (h : c ∈ ['+','-','.','0','x','X','e','E']) : Solid c := by
  have visible : ['+','-','.','0','x','X','e','E'].any Text.isBlank = false := by decide
  have apart : ['+','-','.','0','x','X','e','E'].any specials.contains = false := by decide
  refine ⟨Bool.eq_false_iff.mpr (List.any_eq_false.mp visible c h),fun special => ?_⟩
  exact List.any_eq_false.mp apart c h (List.contains_iff_mem.mpr special)

theorem solidEither {a b : Char} (first : Solid a) (second : Solid b) (c : Char)
    (h : (c == a || c == b) = true) : Solid c := by
  rcases Bool.or_eq_true_iff.mp h with same | same
  · exact beq_iff_eq.mp same ▸ first
  · exact beq_iff_eq.mp same ▸ second

theorem solidPoint (c : Char) (h : (c == '.') = true) : Solid c :=
  beq_iff_eq.mp h ▸ solidMark (by decide)

theorem solidNumber : Pattern.number.Only Solid := by
  have sign := solidEither (solidMark (c := '+') (by decide)) (solidMark (c := '-') (by decide))
  have power := solidEither (solidMark (c := 'e') (by decide)) (solidMark (c := 'E') (by decide))
  have letter := solidEither (solidMark (c := 'x') (by decide)) (solidMark (c := 'X') (by decide))
  have zero : ∀ c : Char, (c == '0') = true → Solid c := fun c h =>
    beq_iff_eq.mp h ▸ solidMark (by decide)
  have digits : (Pattern.class_ Text.isDigit).Only Solid := ⟨solidDigit,solidDigit⟩
  have exponent : Pattern.exponent.Only Solid := ⟨power,sign,digits⟩
  exact ⟨sign,⟨zero,letter,solidHex,solidHex⟩,⟨digits,⟨solidPoint,solidDigit⟩,exponent⟩,
    solidPoint,digits,exponent⟩

theorem solidNames : Pattern.name.Only Solid :=
  ⟨solidStart,solidName,solidPoint,solidName,solidName⟩

/-! Glyphs. -/

/-- A character in quotes, as a token by itself. -/
def quotedGlyph (c : Char) : Token := ⟨.string,[c],0⟩

/-- A character that stands in no quotes, as a token by itself. -/
def plainGlyph (c : Char) : Token := ⟨singleTag c,[c],0⟩

def Quoted (t : Token) : Prop := t.tag = .string ∨ t.tag = .quotedIdentifier

instance (t : Token) : Decidable t.Quoted := inferInstanceAs (Decidable (_ ∨ _))

/-- The characters of a token, each as a token by itself. -/
def glyphs (t : Token) : List Token := t.raw.map (if t.Quoted then quotedGlyph else plainGlyph)

theorem glyphsQuoted {x : Token} (tag : x.Quoted) : x.glyphs = x.raw.map quotedGlyph := by
  rw [glyphs,if_pos tag]

theorem glyphsSolid {x : Token} (tag : x.tag = .number ∨ x.tag = .identifier) :
    x.glyphs = x.raw.map plainGlyph := by
  have plain : ¬x.Quoted := by rcases tag with tag | tag <;> simp [Quoted,tag]
  rw [glyphs,if_neg plain]

theorem singleUnquoted (c : Char) : ¬(plainGlyph c).Quoted := by
  unfold Quoted plainGlyph singleTag
  grind

theorem glyphsSingle {x : Token} {c : Char} (tag : x.tag = singleTag c) (raw : x.raw = [c]) :
    x.glyphs = [plainGlyph c] := by
  have plain : ¬x.Quoted := by
    unfold Quoted
    rw [tag]
    exact singleUnquoted c
  rw [glyphs,if_neg plain,raw]
  rfl

/-- The glyphs of a text, from inside the quotes given or from outside of all; it ends outside, and no
blank stands there. -/
inductive Walks : Option Char → Text → List Token → Prop where
  | done : Walks none [] []
  | single {c t gs} (other : quoteTag? c = none) (visible : Text.isBlank c = false)
      (rest : Walks none t gs) : Walks none (c :: t) (plainGlyph c :: gs)
  | opens {q tag t gs} (quote : quoteTag? q = some tag) (rest : Walks (some q) t gs) :
      Walks none (q :: t) (quotedGlyph q :: gs)
  | closes {q t gs} (rest : Walks none t gs) : Walks (some q) (q :: t) (quotedGlyph q :: gs)
  | escape {q d t gs} (other : '\\' ≠ q) (line : d ≠ '\n') (rest : Walks (some q) t gs) :
      Walks (some q) ('\\' :: d :: t) (quotedGlyph '\\' :: quotedGlyph d :: gs)
  | inner {q c t gs} (other : c ≠ q) (plain : c ≠ '\\') (rest : Walks (some q) t gs) :
      Walks (some q) (c :: t) (quotedGlyph c :: gs)

theorem solidQuote {c : Char} (h : Solid c) : quoteTag? c = none := by
  cases quote : quoteTag? c with
  | none => rfl
  | some tag =>
    have marked : c ∈ specials := by rcases quoteCases quote with rfl | rfl | rfl <;> decide
    exact absurd marked h.special

theorem walksSingles {a u : Text} {gs : List Token}
    (plain : ∀ c ∈ a, quoteTag? c = none ∧ Text.isBlank c = false) (rest : Walks none u gs) :
    Walks none (a ++ u) (a.map plainGlyph ++ gs) := by
  induction a with
  | nil => exact rest
  | cons c a ih =>
    obtain ⟨other,visible⟩ := plain c List.mem_cons_self
    exact .single other visible (ih fun d hd => plain d (List.mem_cons_of_mem c hd))

/- A quote written twice leaves the quotes and comes back at once. -/
theorem walksQuoted {q : Char} {tag : Tag} (quote : quoteTag? q = some tag) {t u : Text} {n : Nat}
    (h : Text.quotedTail q t = some n) {gs : List Token} (rest : Walks none u gs) :
    Walks (some q) (t.take n ++ u) ((t.take n).map quotedGlyph ++ gs) := by
  fun_induction Text.quotedTail q t generalizing n with
  | case1 => contradiction
  | case2 => cases h; exact .closes rest
  | case3 => contradiction
  | case4 t m found ih => cases h; exact .closes (.opens quote (ih found))
  | case5 => cases h; exact .closes rest
  | case6 => cases h; exact .closes rest
  | case7 => contradiction
  | case8 d t line other ih =>
    obtain ⟨k,found,rfl⟩ := Option.map_eq_some_iff.mp h
    exact .escape other line (ih found)
  | case9 c d t other plain ih =>
    obtain ⟨k,found,rfl⟩ := Option.map_eq_some_iff.mp h
    exact .inner other plain (ih found)

/-- What the text of a token was found to begin with. -/
def Spelled (x : Token) : Prop := ∃ c t n, lexeme? c t = some (x.tag,n) ∧ x.raw = c :: t.take n

/-- What a token consists of. -/
inductive Made (x : Token) : Prop where
  | quoted {q tag t n} (quote : quoteTag? q = some tag) (ends : Text.quotedTail q t = some n)
      (tag : x.Quoted) (raw : x.raw = q :: t.take n)
  | solid (tag : x.tag = .number ∨ x.tag = .identifier) (chars : ∀ c ∈ x.raw, Solid c)
  | single {c} (other : quoteTag? c = none) (visible : Text.isBlank c = false)
      (tag : x.tag = singleTag c) (raw : x.raw = [c])

theorem spelledMade {x : Token} (h : x.Spelled) : x.Made := by
  obtain ⟨c,t,n,found,raw⟩ := h
  cases quote : quoteTag? c with
  | some tag =>
    rw [lexemeQuoted quote] at found
    obtain ⟨k,ends,same⟩ := Option.map_eq_some_iff.mp found
    obtain ⟨rfl,rfl⟩ := Prod.mk.inj same
    exact .quoted quote ends (quoteTags quote).symm raw
  | none =>
    generalize same : x.tag = tag at found
    cases lexemeRule found with
    | quoted some => rw [quote] at some; contradiction
    | number digits =>
      refine .solid (.inl same) ?_
      have first := Pattern.firstNumber (c :: t)
      rw [digits] at first
      rw [raw]
      exact Pattern.firstTakes solidNumber first
    | name start =>
      refine .solid (.inr same) ?_
      have first := Pattern.firstName c t
      rw [if_pos start,Nat.add_comm] at first
      rw [raw]
      exact Pattern.firstTakes solidNames first
    | single alone =>
      rw [singleBlank] at alone
      split at alone
      next => contradiction
      next visible =>
        cases alone
        exact .single quote (Bool.eq_false_iff.mpr visible) same raw

theorem madeWalks {x : Token} (h : x.Made) {u : Text} {gs : List Token} (rest : Walks none u gs) :
    Walks none (x.raw ++ u) (x.glyphs ++ gs) := by
  cases h with
  | quoted quote ends tag raw =>
    rw [glyphsQuoted tag,raw]
    exact .opens quote (walksQuoted quote ends rest)
  | solid tag chars =>
    rw [glyphsSolid tag]
    exact walksSingles (fun c hc => ⟨solidQuote (chars c hc),(chars c hc).visible⟩) rest
  | single other visible tag raw =>
    rw [glyphsSingle tag raw,raw]
    exact .single other visible rest

/- Blanks stand in quotes only. -/
theorem madeVisible {x : Token} (h : x.Made) : x.Quoted ∨ ∀ c ∈ x.raw, Text.isBlank c = false := by
  cases h with
  | quoted _ _ tag => exact .inl tag
  | solid _ chars => exact .inr fun c hc => (chars c hc).visible
  | single _ visible _ raw =>
    rw [raw]
    exact .inr (List.forall_mem_singleton.mpr visible)

theorem spelledWalks {ts : List Token} (h : ∀ x ∈ ts, x.Spelled) :
    Walks none (ts.flatMap raw) (ts.flatMap glyphs) := by
  induction ts with
  | nil => exact .done
  | cons x ts ih =>
    rw [List.flatMap_cons,List.flatMap_cons]
    exact madeWalks (spelledMade (h x List.mem_cons_self))
      (ih fun y hy => h y (List.mem_cons_of_mem x hy))

/-! Tokens again. -/

theorem walksTail {q : Char} {tag : Tag} (quote : quoteTag? q = some tag) {t : Text}
    {gs : List Token} (h : Walks (some q) t gs) : ∃ n more, Text.quotedTail q t = some n ∧
      gs = (t.take n).map quotedGlyph ++ more ∧ Walks none (t.drop n) more := by
  induction size : t.length using Nat.strongRecOn generalizing t gs with
  | ind length ih =>
    subst size
    cases h with
    | @closes _ t gs rest =>
      by_cases twice : t.head? = some q
      · obtain ⟨t,rfl⟩ := List.head?_eq_some_iff.mp twice
        cases rest with
        | single other => rw [quote] at other; contradiction
        | opens _ rest =>
          obtain ⟨n,more,ends,rfl,behind⟩ := ih t.length (by simp only [List.length_cons]; omega) rest rfl
          exact ⟨n + 2,more,by rw [Text.quotedPair,ends]; rfl,rfl,behind⟩
      · exact ⟨1,gs,Text.quotedEnd q twice,rfl,rest⟩
    | @escape _ d t gs other line rest =>
      obtain ⟨n,more,ends,rfl,behind⟩ := ih t.length (by simp only [List.length_cons]; omega) rest rfl
      exact ⟨n + 2,more,by rw [Text.quotedEscape t other line,ends]; rfl,rfl,behind⟩
    | @inner _ c t gs other plain rest =>
      obtain ⟨n,more,ends,rfl,behind⟩ := ih t.length (Nat.lt_add_one _) rest rfl
      exact ⟨n + 1,more,by rw [Text.quotedPlain t other plain,ends]; rfl,rfl,behind⟩

theorem walksPlain {a u : Text} {gs : List Token} (h : Walks none (a ++ u) gs)
    (plain : ∀ c ∈ a, quoteTag? c = none) :
    ∃ more, gs = a.map plainGlyph ++ more ∧ Walks none u more := by
  induction a generalizing gs with
  | nil => exact ⟨gs,rfl,h⟩
  | cons c a ih =>
    have other := plain c List.mem_cons_self
    cases h with
    | single _ _ rest =>
      obtain ⟨more,rfl,behind⟩ := ih rest fun d hd => plain d (List.mem_cons_of_mem c hd)
      exact ⟨more,rfl,behind⟩
    | opens quote => rw [quote] at other; contradiction

theorem visibleLayout {c : Char} (h : Text.isBlank c = false) : Text.isLayout c = false := by
  rw [Bool.eq_false_iff] at h ⊢
  exact fun layout => h (Text.layoutIsBlank layout)

theorem singleLexes {c : Char} {t : Text} (other : quoteTag? c = none)
    (visible : Text.isBlank c = false) : ∃ tag n, lexeme? c t = some (tag,n) ∧
      ∀ p, ¬(Token.mk tag (c :: t.take n) p).Quoted ∧ ∀ d ∈ c :: t.take n, quoteTag? d = none := by
  cases found : lexeme? c t with
  | none =>
    have rejected : scan? (c :: t) = none := by rw [scanOther other,found]; rfl
    rw [(scanRejects other t).mp rejected] at visible
    contradiction
  | some pair =>
    obtain ⟨tag,n⟩ := pair
    refine ⟨tag,n,rfl,fun p => ?_⟩
    cases spelledMade (x := ⟨tag,c :: t.take n,p⟩) ⟨c,t,n,found,rfl⟩ with
    | quoted quote _ _ raw =>
      obtain ⟨rfl,_⟩ := List.cons.inj raw
      rw [quote] at other
      contradiction
    | solid tag chars =>
      refine ⟨?_,fun d hd => solidQuote (chars d hd)⟩
      rcases tag with rfl | rfl <;> simp [Quoted]
    | single alone _ tag raw =>
      refine ⟨?_,fun d hd => ?_⟩
      · rw [Quoted,tag]
        exact singleUnquoted _
      · rw [show c :: t.take n = _ from raw] at hd
        cases List.mem_singleton.mp hd
        exact alone

/-- The text is lexed from this offset on without any layout, into tokens with these glyphs. -/
def Regained (p : Nat) (t : Text) (gs : List Token) : Prop :=
  ∃ us, Lexes p t us ∧ us.flatMap raw = t ∧ us.flatMap glyphs = gs

theorem regainedOnward {c : Char} {t : Text} {tag : Tag} {n p : Nat} {gs : List Token}
    (visible : Text.isLayout c = false) (found : lexeme? c t = some (tag,n))
    (rest : Regained (p + 1 + n) (t.drop n) gs) :
    Regained p (c :: t) (glyphs ⟨tag,c :: t.take n,p⟩ ++ gs) := by
  obtain ⟨us,lexed,raws,walked⟩ := rest
  refine ⟨⟨tag,c :: t.take n,p⟩ :: us,.token visible found lexed,?_,?_⟩
  · rw [List.flatMap_cons,raws,List.cons_append,List.take_append_drop]
  · rw [List.flatMap_cons,walked]

theorem walksLexes {t : Text} {gs : List Token} (h : Walks none t gs) (p : Nat) :
    Regained p t gs := by
  induction size : t.length using Nat.strongRecOn generalizing t gs p with
  | ind length ih =>
    subst size
    have shorter : ∀ (c : Char) (t : Text) n, (t.drop n).length < (c :: t).length := by
      intro c t n
      rw [List.length_drop,List.length_cons]
      omega
    rcases t with _ | ⟨c,t⟩
    · cases h
      exact ⟨[],.done p,rfl,rfl⟩
    cases quote : quoteTag? c with
    | none =>
      have visible : Text.isBlank c = false := by
        cases h with
        | single _ visible => exact visible
        | opens some => rw [quote] at some; contradiction
      obtain ⟨tag,n,found,plain⟩ := singleLexes (t := t) quote visible
      have parts : c :: t = (c :: t.take n) ++ t.drop n := by
        rw [List.cons_append,List.take_append_drop]
      rw [parts] at h
      obtain ⟨more,rfl,behind⟩ := walksPlain h (plain p).2
      have rest := ih _ (shorter c t n) behind (p + 1 + n) rfl
      have onward := regainedOnward (visibleLayout visible) found rest
      rwa [glyphs,if_neg (plain p).1] at onward
    | some tag =>
      cases h with
      | single other => rw [quote] at other; contradiction
      | opens _ inside =>
        obtain ⟨n,more,ends,rfl,behind⟩ := walksTail quote inside
        have found : lexeme? c t = some (tag,n) := by rw [lexemeQuoted quote,ends]; rfl
        have visible : Text.isLayout c = false := by rcases quoteCases quote with rfl | rfl | rfl <;> rfl
        have rest := ih _ (shorter c t n) behind (p + 1 + n) rfl
        have onward := regainedOnward visible found rest
        rwa [glyphs,if_pos (show Quoted ⟨tag,_,p⟩ from (quoteTags quote).symm)] at onward

/- Tokens put side by side are tokens of the same glyphs, if not always the same tokens. -/
theorem gluedLexes {ts : List Token} (spelled : ∀ x ∈ ts, x.Spelled) (p : Nat) :
    Regained p (ts.flatMap raw) (ts.flatMap glyphs) :=
  walksLexes (spelledWalks spelled) p

end Token
end ColumnDecl
