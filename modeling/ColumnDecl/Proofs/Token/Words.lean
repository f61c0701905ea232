import ColumnDecl.Keywords
import ColumnDecl.Proofs.Token.Along

/-! A text of names alone. Its words are the names, so a keyword has the same key with whatever layout
it was written. -/
namespace ColumnDecl

namespace Text

theorem wordsBlank {c : Char} {t : Text} (blank : isBlank c = true) : words (c :: t) = words t := by
  simp [words,wordsFrom,blank]

theorem wordsPlain (word : Text) {a : Text} (plain : ∀ c ∈ a, isBlank c = false) (t : Text) :
    wordsFrom word (a ++ t) = wordsFrom (word ++ a) t := by
  induction a generalizing word with
  | nil => simp
  | cons c a ih =>
    have first := plain c List.mem_cons_self
    simp [wordsFrom,first,ih _ fun d hd => plain d (List.mem_cons_of_mem c hd)]

theorem wordsEnded {word t : Text} (some : word ≠ [])
    (ended : ∀ c ∈ t.head?, isBlank c = true) : wordsFrom word t = word :: words t := by
  rcases t with _ | ⟨c,t⟩
  · simp [words,wordsFrom,some]
  · have blank := ended c rfl
    simp [words,wordsFrom,blank,some]

end Text

namespace Token

theorem nameRange {c : Char} (h : isNameChar c = true) :
    (48 ≤ c.toNat ∧ c.toNat ≤ 57) ∨ (65 ≤ c.toNat ∧ c.toNat ≤ 90) ∨ c.toNat = 95 ∨
      (97 ≤ c.toNat ∧ c.toNat ≤ 122) := by
  simp only [isNameChar,isNameStart,Bool.or_eq_true,Bool.and_eq_true,decide_eq_true_eq,
    beq_iff_eq] at h
  rcases h with ((⟨low,high⟩ | ⟨low,high⟩) | rfl) | ⟨low,high⟩
  · exact .inr (.inr (.inr ⟨low,high⟩))
  · exact .inr (.inl ⟨low,high⟩)
  · exact .inr (.inr (.inl rfl))
  · exact .inl ⟨low,high⟩

theorem nameVisible {c : Char} (h : isNameChar c = true) : Text.isBlank c = false := by
  have range := nameRange h
  simp only [Text.isBlank,Text.blankRanges,List.any_cons,List.any_nil,Bool.or_false,
    Bool.or_eq_false_iff,Bool.and_eq_false_iff,decide_eq_false_iff_not]
  omega

theorem nameTailNames (t : Text) :
    ∀ c ∈ t.take (nameTail t), isNameChar c = true ∨ c = '.' := by
  fun_induction nameTail t with
  | case1 => simp
  | case2 c name => simpa using Or.inl name
  | case3 => simp
  | case4 c d rest joined ih =>
    intro x hx
    rcases List.mem_cons.mp hx with rfl | inside
    · rcases Bool.or_eq_true_iff.mp joined with name | point
      · exact .inl name
      · exact .inr (by simpa using (Bool.and_eq_true_iff.mp point).1)
    · exact ih x inside
  | case5 => simp

theorem nameTailPlain (t : Text) : ∀ c ∈ t.take (nameTail t), Text.isBlank c = false := by
  intro c hc
  rcases nameTailNames t c hc with name | rfl
  · exact nameVisible name
  · decide

/- A name is taken as far as it goes. -/
theorem nameTailEnds {t : Text} : ∀ c ∈ (t.drop (nameTail t)).head?, isNameStart c = false := by
  fun_induction nameTail t with
  | case1 => simp
  | case2 => simp
  | case3 c other =>
    simp only [isNameChar,Bool.or_eq_true,not_or] at other
    simpa using other.1
  | case4 c d rest joined ih => simpa using ih
  | case5 c d rest other =>
    simp only [isNameChar,Bool.or_eq_true,not_or] at other
    simpa using other.1.1

/- The rule by which a token was found. -/
inductive Rule (c : Char) (t : Text) : Tag → Nat → Prop where
  | quoted {tag n} (quote : quoteTag? c = some tag) (ends : Text.quotedTail c t = some n) :
      Rule c t tag n
  | number {n} (digits : numberLength (c :: t) = n + 1) : Rule c t .number n
  | name (start : isNameStart c = true) : Rule c t .identifier (nameTail t)
  | single {tag} (alone : singleTag? c = some tag) : Rule c t tag 0

theorem lexemeRule {c : Char} {t : Text} {tag : Tag} {n : Nat} (h : lexeme? c t = some (tag,n)) :
    Rule c t tag n := by
  unfold lexeme? at h
  split at h
  next quote =>
    obtain ⟨_,ends,same⟩ := Option.map_eq_some_iff.mp h
    cases same
    exact .quoted quote ends
  next =>
    split at h
    next digits => cases h; exact .number digits
    next =>
      split at h
      next start => cases h; exact .name start
      next =>
        obtain ⟨_,alone,same⟩ := Option.map_eq_some_iff.mp h
        cases same
        exact .single alone

theorem quoteTags {c : Char} {tag : Tag} (h : quoteTag? c = some tag) :
    tag = .quotedIdentifier ∨ tag = .string := by
  rcases quoteCases h with rfl | rfl | rfl <;> cases h
  · exact .inl rfl
  · exact .inl rfl
  · exact .inr rfl

theorem singleTags {c : Char} {tag : Tag} (h : singleTag? c = some tag) :
    tag ∈ [Tag.opening,.closing,.comma,.equals,.other] := by
  unfold singleTag? at h
  split at h
  · cases h; decide
  split at h
  · cases h; decide
  split at h
  · cases h; decide
  split at h
  · cases h; decide
  split at h <;> cases h
  decide

theorem lexemeName {c : Char} {t : Text} {n : Nat} (h : lexeme? c t = some (.identifier,n)) :
    isNameStart c = true ∧ n = nameTail t := by
  cases lexemeRule h with
  | quoted quote => rcases quoteTags quote with tag | tag <;> cases tag
  | name start => exact ⟨start,rfl⟩
  | single alone => simpa using singleTags alone

theorem wordNames {p : Nat} {t : Text} {ts : List Token} (h : Lexes p t ts) {x : Token}
    (member : x ∈ ts) (name : x.tag = .identifier) :
    ∀ c ∈ x.raw, isNameChar c = true ∨ c = '.' := by
  obtain ⟨c,t,n,found,raw⟩ := lexesTags h member
  rw [name] at found
  obtain ⟨start,rfl⟩ := lexemeName found
  rw [raw]
  intro d hd
  rcases List.mem_cons.mp hd with rfl | inside
  · exact .inl (Bool.or_eq_true_iff.mpr (.inl start))
  · exact nameTailNames t d inside

theorem wordAscii {p : Nat} {t : Text} {ts : List Token} (lexed : Lexes p t ts) {x : Token}
    (member : x ∈ ts) (word : x.tag = .identifier) : ∀ c ∈ x.raw, c.toNat < 128 := by
  intro c hc
  rcases wordNames lexed member word c hc with name | rfl
  · have range := nameRange name
    omega
  · decide

theorem lexesWords {p : Nat} {t : Text} {ts : List Token} (h : Lexes p t ts)
    (names : ∀ x ∈ ts, x.tag = .identifier) : Text.words t = ts.map raw := by
  induction h with
  | done p => rfl
  | gap layout rest ih => rw [Text.wordsBlank (Text.layoutIsBlank layout),ih names]
  | @token p c t tag n ts visible found rest ih =>
    have name : tag = .identifier := names _ List.mem_cons_self
    subst name
    obtain ⟨start,rfl⟩ := lexemeName found
    have behind := ih fun x hx => names x (List.mem_cons_of_mem _ hx)
    have plain : ∀ d ∈ c :: t.take (nameTail t), Text.isBlank d = false := by
      intro d hd
      rcases List.mem_cons.mp hd with rfl | inside
      · exact nameVisible (Bool.or_eq_true_iff.mpr (.inl start))
      · exact nameTailPlain t d inside
    have ended : ∀ d ∈ (t.drop (nameTail t)).head?, Text.isBlank d = true := by
      intro d hd
      obtain ⟨u,whole⟩ := List.head?_eq_some_iff.mp hd
      rw [whole] at rest
      cases rest with
      | gap layout _ => exact Text.layoutIsBlank layout
      | token _ next _ =>
        have word := names _ (List.mem_cons_of_mem _ List.mem_cons_self)
        dsimp only at word
        subst word
        have again := nameTailEnds d hd
        rw [(lexemeName next).1] at again
        contradiction
    calc Text.words (c :: t)
        = Text.wordsFrom [] (c :: t.take (nameTail t) ++ t.drop (nameTail t)) := by simp [Text.words]
      _ = Text.wordsFrom (c :: t.take (nameTail t)) (t.drop (nameTail t)) := by
          rw [Text.wordsPlain [] plain,List.nil_append]
      _ = _ := by rw [Text.wordsEnded (by simp) ended,behind]; rfl

end Token
end ColumnDecl
