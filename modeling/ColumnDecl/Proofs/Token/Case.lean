import ColumnDecl.Proofs.Token.Along
import ColumnDecl.Text.Upper

/-! Upper and lower case. No rule by which tokens are found tells the two cases of an ASCII letter
apart, so a text has its tokens at the same places whatever the case of its letters. -/
namespace ColumnDecl

namespace Text

def lower (t : Text) : Text := t.map Char.toLower

theorem letterCase (c : Char) : c.toLower = c ∨ ∃ n, n < 26 ∧ c = Char.ofNat (n + 65) := by
  by_cases capital : 'A' ≤ c ∧ c ≤ 'Z'
  · have low : 65 ≤ c.toNat := capital.1
    have high : c.toNat ≤ 90 := capital.2
    refine .inr ⟨c.toNat - 65,by omega,?_⟩
    rw [Nat.sub_add_cancel low,Char.ofNat_toNat]
  · left
    unfold Char.toLower
    split
    next inside => exact absurd inside (by simpa [Char.le_def] using capital)
    next => rfl

/- What holds of every capital letter as it does of its small letter does not depend on the case. -/
theorem caseless {p : Char → Prop}
    (letters : ∀ n < 26, p (Char.ofNat (n + 65)).toLower ↔ p (Char.ofNat (n + 65))) (c : Char) :
    p c.toLower ↔ p c := by
  rcases letterCase c with same | ⟨n,small,rfl⟩
  · rw [same]
  · exact letters n small

theorem caselessValue {α : Type} {f : Char → α}
    (letters : ∀ n < 26, f (Char.ofNat (n + 65)).toLower = f (Char.ofNat (n + 65))) (c : Char) :
    f c.toLower = f c := by
  rcases letterCase c with same | ⟨n,small,rfl⟩
  · rw [same]
  · exact letters n small

theorem layoutLower : ∀ c : Char, isLayout c.toLower = isLayout c := caselessValue (by decide)

theorem digitLower : ∀ c : Char, isDigit c.toLower = isDigit c := caselessValue (by decide)

theorem upperLower : ∀ c : Char, upperChar c.toLower = upperChar c := caselessValue (by decide)

theorem lowerUpper {t : Text} (ascii : ∀ c ∈ t, c.toNat < 128) :
    lower (upper t) = lower t := by
  have checked : ∀ n < 128, (upperChar (Char.ofNat n)).map Char.toLower =
      [(Char.ofNat n).toLower] := by decide
  induction t with
  | nil => rfl
  | cons c t ih =>
    have first := checked c.toNat (ascii c List.mem_cons_self)
    rw [Char.ofNat_toNat] at first
    have rest := ih fun d hd => ascii d (List.mem_cons_of_mem c hd)
    rw [upperCons,lower,List.map_append,first]
    exact congrArg (c.toLower :: ·) rest

end Text

namespace Token
open Text

theorem hexDigitLower : ∀ c : Char, isHexDigit c.toLower = isHexDigit c := caselessValue (by decide)

theorem nameStartLower : ∀ c : Char, isNameStart c.toLower = isNameStart c := caselessValue (by decide)

theorem nameCharLower : ∀ c : Char, isNameChar c.toLower = isNameChar c := caselessValue (by decide)

theorem quoteTagLower : ∀ c : Char, quoteTag? c.toLower = quoteTag? c := caselessValue (by decide)

theorem singleTagLower : ∀ c : Char, singleTag? c.toLower = singleTag? c := caselessValue (by decide)

theorem lowerCons (c : Char) (t : Text) : lower (c :: t) = c.toLower :: lower t := rfl

theorem lowerDrop (t : Text) (n : Nat) : (lower t).drop n = lower (t.drop n) := List.map_drop.symm

theorem runLower {p : Char → Bool} (same : ∀ c : Char, p c.toLower = p c) (t : Text) :
    run p (lower t) = run p t := by
  induction t with
  | nil => rfl
  | cons c t ih => rw [lowerCons,runCons,runCons,same,ih]

theorem signLower (t : Text) : signLength (lower t) = signLength t := by
  cases t with
  | nil => rfl
  | cons c t =>
    have sign : (c.toLower = '+' ∨ c.toLower = '-') ↔ (c = '+' ∨ c = '-') :=
      caseless (p := fun c => c = '+' ∨ c = '-') (by decide) c
    simp only [lowerCons,signLength,sign]

theorem exponentLower (t : Text) : exponentLength (lower t) = exponentLength t := by
  cases t with
  | nil => rfl
  | cons c t =>
    have letter : (c.toLower = 'e' ∨ c.toLower = 'E') ↔ (c = 'e' ∨ c = 'E') :=
      caseless (p := fun c => c = 'e' ∨ c = 'E') (by decide) c
    rw [lowerCons,exponentCons,exponentCons]
    simp only [signLower,lowerDrop,runLower digitLower,letter]

theorem fractionLower (t : Text) : fractionLength (lower t) = fractionLength t := by
  cases t with
  | nil => rfl
  | cons c t =>
    have point : c.toLower = '.' ↔ c = '.' := caseless (p := (· = '.')) (by decide) c
    by_cases here : c = '.'
    · subst here
      exact congrArg (1 + ·) (runLower digitLower t)
    · simp [lowerCons,fractionLength,here,mt point.mp here]

theorem hexLower (t : Text) : hexLength (lower t) = hexLength t := by
  rcases t with _ | ⟨c,_ | ⟨x,t⟩⟩
  · rfl
  · simp [lower,hexLength]
  · have zero : c.toLower = '0' ↔ c = '0' := caseless (p := (· = '0')) (by decide) c
    have letter : (x.toLower = 'x' ∨ x.toLower = 'X') ↔ (x = 'x' ∨ x = 'X') :=
      caseless (p := fun x => x = 'x' ∨ x = 'X') (by decide) x
    rw [lowerCons,lowerCons,hexCons,hexCons]
    simp only [runLower hexDigitLower,zero,letter]

theorem mantissaLower (t : Text) : mantissaLength (lower t) = mantissaLength t := by
  simp only [mantissaLength,runLower digitLower,lowerDrop,fractionLower]

theorem decimalLower (t : Text) : decimalLength (lower t) = decimalLength t := by
  simp only [decimalMantissa,runLower digitLower,mantissaLower,lowerDrop,exponentLower]

theorem numberLower (t : Text) : numberLength (lower t) = numberLength t := by
  simp only [numberBody,signLower,lowerDrop,hexLower,decimalLower]

theorem nameLower (t : Text) : nameTail (lower t) = nameTail t := by
  have point : ∀ c : Char, (c.toLower == '.') = (c == '.') :=
    caselessValue (f := (· == '.')) (by decide)
  induction t with
  | nil => rfl
  | cons c t ih =>
    rcases t with _ | ⟨d,t⟩
    · exact congrArg (if · then 1 else 0) (nameCharLower c)
    · rw [lowerCons] at ih
      rw [lowerCons,lowerCons,nameChars,nameChars,nameCharLower,nameCharLower,point,ih]

theorem quotedLower {q : Char} (quote : ∀ c : Char, c.toLower = q ↔ c = q) (t : Text) :
    quotedTail q (lower t) = quotedTail q t := by
  have escape : ∀ c : Char, c.toLower = '\\' ↔ c = '\\' := caseless (p := (· = '\\')) (by decide)
  have line : ∀ c : Char, c.toLower = '\n' ↔ c = '\n' := caseless (p := (· = '\n')) (by decide)
  fun_induction quotedTail q t <;> simp_all [lower,quotedTail]

/- A quote has no case. -/
theorem quoteCase {q : Char} {tag : Tag} (h : quoteTag? q = some tag) (c : Char) :
    c.toLower = q ↔ c = q := by
  rcases quoteCases h with rfl | rfl | rfl
  · exact caseless (p := (· = '\x60')) (by decide) c
  · exact caseless (p := (· = '"')) (by decide) c
  · exact caseless (p := (· = '\'')) (by decide) c

theorem lexemeLower (c : Char) (t : Text) : lexeme? c.toLower (lower t) = lexeme? c t := by
  unfold lexeme?
  rw [quoteTagLower,← lowerCons,numberLower,nameStartLower,nameLower,singleTagLower]
  split
  next quote =>
    rw [(quoteCase quote c).mpr rfl,quotedLower (quoteCase quote)]
  next => rfl

/- The same token with other letters. -/
structure Recased (x y : Token) : Prop where
  tag : x.tag = y.tag
  raw : lower x.raw = lower y.raw
  start : x.start = y.start

theorem lexesRecased {p : Nat} {t t' : Text} {ts : List Token} (h : Lexes p t ts)
    (same : lower t = lower t') : ∃ ts', Lexes p t' ts' ∧ List.Forall₂ Recased ts ts' := by
  induction h generalizing t' with
  | done p =>
    have none : t' = [] := by simpa [lower] using same.symm
    rw [none]
    exact ⟨[],.done p,.nil⟩
  | @gap p c t ts layout rest ih =>
    rcases t' with _ | ⟨c',t'⟩
    · simp [lower] at same
    obtain ⟨first,tail⟩ := List.cons.inj same
    obtain ⟨ts',lexed,each⟩ := ih tail
    refine ⟨ts',.gap ?_ lexed,each⟩
    rw [← layoutLower,← first,layoutLower,layout]
  | @token p c t tag n ts visible found rest ih =>
    rcases t' with _ | ⟨c',t'⟩
    · simp [lower] at same
    obtain ⟨first,tail⟩ : c.toLower = c'.toLower ∧ lower t = lower t' := List.cons.inj same
    have behind : lower (t.drop n) = lower (t'.drop n) := by rw [← lowerDrop,← lowerDrop,tail]
    obtain ⟨ts',lexed,each⟩ := ih behind
    refine ⟨⟨tag,c' :: t'.take n,p⟩ :: ts',.token ?_ ?_ lexed,.cons ⟨rfl,?_,rfl⟩ each⟩
    · rw [← layoutLower,← first,layoutLower,visible]
    · rw [← lexemeLower,← first,← tail,lexemeLower,found]
    · have taken : lower (t.take n) = lower (t'.take n) := by
        unfold lower at tail ⊢
        rw [List.map_take,List.map_take,tail]
      rw [lowerCons,lowerCons,first,taken]

end Token
end ColumnDecl
