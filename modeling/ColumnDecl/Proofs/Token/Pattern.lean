import ColumnDecl.Proofs.Token.Extent

/-! Patterns of text and the search for them. A search tries alternatives in order and repeats as often
as it can, and goes back to its last choice when it gets stuck; here all its ways are listed, in the
order in which it comes to them. Numbers, names and quoted texts are what it finds first. -/
namespace ColumnDecl

inductive Pattern where
  | char (p : Char → Bool)
  | both (a b : Pattern)
  | either (a b : Pattern)
  | maybe (a : Pattern)
  | many (a : Pattern)

namespace Pattern

/-- As many repetitions as `limit` allows, then fewer; each takes at least one character. -/
def repeated (lengths : Text → List Nat) : Nat → Text → List Nat
  | 0, _ => [0]
  | limit + 1, t =>
    ((lengths t).filter (0 < ·)).flatMap
      (fun n => (repeated lengths limit (t.drop n)).map (n + ·)) ++ [0]

/-- How many characters the pattern can take from the front of a text, in the order of the search. -/
def lengths : Pattern → Text → List Nat
  | char _, [] => []
  | char p, c :: _ => if p c then [1] else []
  | both a b, t => (lengths a t).flatMap fun n => (lengths b (t.drop n)).map (n + ·)
  | either a b, t => lengths a t ++ lengths b t
  | maybe a, t => lengths a t ++ [0]
  | many a, t => repeated (lengths a) t.length t

/-- What the search finds first. -/
def first? (a : Pattern) (t : Text) : Option Nat := (a.lengths t).head?

section
variable {a b : Pattern} {t : Text} {p : Char → Bool}

@[simp] theorem repeatedZero (f : Text → List Nat) (t : Text) : repeated f 0 t = [0] := rfl

@[simp] theorem repeatedSucc (f : Text → List Nat) (limit : Nat) (t : Text) :
    repeated f (limit + 1) t =
      ((f t).filter (0 < ·)).flatMap (fun n => (repeated f limit (t.drop n)).map (n + ·)) ++ [0] := rfl

@[simp] theorem charNil (p : Char → Bool) : (char p).lengths [] = [] := rfl

@[simp] theorem charCons (p : Char → Bool) (c : Char) (t : Text) :
    (char p).lengths (c :: t) = if p c then [1] else [] := rfl

@[simp] theorem bothLengths (a b : Pattern) (t : Text) : (both a b).lengths t =
    (a.lengths t).flatMap fun n => (b.lengths (t.drop n)).map (n + ·) := rfl

@[simp] theorem eitherLengths (a b : Pattern) (t : Text) :
    (either a b).lengths t = a.lengths t ++ b.lengths t := rfl

@[simp] theorem maybeLengths (a : Pattern) (t : Text) : (maybe a).lengths t = a.lengths t ++ [0] := rfl

theorem firstBoth (a b : Pattern) (t : Text) : (both a b).first? t =
    (a.lengths t).findSome? fun n => (b.first? (t.drop n)).map (n + ·) := by
  simp only [first?,bothLengths,List.head?_flatMap,List.head?_map]

theorem firstEither (a b : Pattern) (t : Text) :
    (either a b).first? t = (a.first? t).or (b.first? t) := List.head?_append

theorem firstMaybe (a : Pattern) (t : Text) : (maybe a).first? t = (a.first? t).or (some 0) :=
  List.head?_append

theorem firstChar (p : Char → Bool) (c : Char) (t : Text) :
    (char p).first? (c :: t) = if p c then some 1 else none := by
  rw [first?,charCons]
  split <;> rfl

/- What cannot fail is never a reason to go back. -/
theorem firstBothAlways (always : ∀ u, ∃ n, b.first? u = some n) :
    (both a b).first? t = (a.first? t).bind fun n => (b.first? (t.drop n)).map (n + ·) := by
  rw [firstBoth,first?]
  cases a.lengths t with
  | nil => rfl
  | cons n more =>
    obtain ⟨m,found⟩ := always (t.drop n)
    simp [found]

theorem firstBothChar (p : Char → Bool) (c : Char) (t : Text) :
    (both (char p) b).first? (c :: t) = if p c then (b.first? t).map (1 + ·) else none := by
  rw [firstBoth,charCons]
  split <;> simp

theorem firstBothNone (p : Char → Bool) : (both (char p) b).first? [] = none := rfl

/-! Repetitions. -/

theorem repeatedAlways (f : Text → List Nat) (limit : Nat) (t : Text) :
    ∃ n, (repeated f limit t).head? = some n := by
  cases limit with
  | zero => exact ⟨0,rfl⟩
  | succ limit =>
    rw [repeatedSucc,List.head?_append]
    cases (((f t).filter (0 < ·)).flatMap _).head? with
    | none => exact ⟨0,rfl⟩
    | some n => exact ⟨n,rfl⟩

theorem manyAlways (a : Pattern) (t : Text) : ∃ n, (many a).first? t = some n :=
  repeatedAlways _ _ _

theorem maybeAlways (a : Pattern) (t : Text) : ∃ n, (maybe a).first? t = some n := by
  rw [firstMaybe]
  cases a.first? t with
  | none => exact ⟨0,rfl⟩
  | some n => exact ⟨n,rfl⟩

theorem repeatedNone (none : a.first? t = none) (limit : Nat) :
    (repeated a.lengths limit t).head? = some 0 := by
  have empty : a.lengths t = [] := List.head?_eq_none_iff.mp none
  cases limit with
  | zero => rfl
  | succ limit => simp [empty]

theorem repeatedMore {n : Nat} (found : a.first? t = some n) (some : 0 < n) (limit : Nat) :
    (repeated a.lengths (limit + 1) t).head? =
      (repeated a.lengths limit (t.drop n)).head?.map (n + ·) := by
  obtain ⟨more,whole⟩ := List.head?_eq_some_iff.mp found
  obtain ⟨m,behind⟩ := repeatedAlways a.lengths limit (t.drop n)
  simp [whole,some,behind]

theorem runRepeated (p : Char → Bool) {limit : Nat} (t : Text) (enough : t.length ≤ limit) :
    (repeated (char p).lengths limit t).head? = some (Token.run p t) := by
  induction t generalizing limit with
  | nil => exact repeatedNone rfl limit
  | cons c t ih =>
    rw [Token.runCons]
    cases holds : p c with
    | false => exact repeatedNone (by simp [firstChar,holds]) limit
    | true =>
      rcases limit with _ | limit
      · simp at enough
      rw [List.length_cons] at enough
      rw [repeatedMore (by rw [firstChar,holds]; rfl) Nat.one_pos,List.drop_one,List.tail_cons,
        ih (by omega)]
      simp [Nat.add_comm]

theorem firstMany (p : Char → Bool) (t : Text) : (many (char p)).first? t = some (Token.run p t) :=
  runRepeated p t (Nat.le_refl _)

/-- One or more characters of a class. -/
def class_ (p : Char → Bool) : Pattern := both (char p) (many (char p))

def positive (n : Nat) : Option Nat := if n = 0 then none else some n

theorem firstClass (p : Char → Bool) (t : Text) : (class_ p).first? t = positive (Token.run p t) := by
  rcases t with _ | ⟨c,t⟩
  · rfl
  rw [class_,firstBothChar,firstMany,Token.runCons]
  split
  · simp [positive,Nat.add_comm]
  · rfl

end

/-! Numbers. -/
section
open Token

def isSign (c : Char) : Bool := c == '+' || c == '-'

def exponent : Pattern :=
  both (char fun c => c == 'e' || c == 'E') (both (maybe (char isSign)) (class_ Text.isDigit))

def hex : Pattern :=
  both (char (· == '0')) (both (char fun c => c == 'x' || c == 'X') (class_ isHexDigit))

def decimal : Pattern :=
  both (class_ Text.isDigit)
    (both (maybe (both (char (· == '.')) (many (char Text.isDigit)))) (maybe exponent))

def fraction : Pattern :=
  both (char (· == '.')) (both (class_ Text.isDigit) (maybe exponent))

def number : Pattern := both (maybe (char isSign)) (either hex (either decimal fraction))

/- A sign is left out again only where it leads nowhere. -/
theorem firstSigned {a : Pattern} (unsigned : ∀ c t, isSign c = true → a.first? (c :: t) = none)
    (t : Text) : (both (maybe (char isSign)) a).first? t =
      (a.first? (t.drop (signLength t))).map (signLength t + ·) := by
  rw [firstBoth]
  rcases t with _ | ⟨c,t⟩
  · simp [signLength]
  have sign : signLength (c :: t) = if isSign c then 1 else 0 := by simp [signLength,isSign]
  rw [sign]
  cases holds : isSign c with
  | false => simp [holds]
  | true =>
    have alone := unsigned c t holds
    cases behind : a.first? t <;> simp [holds,alone,behind]

theorem classUnsigned {p : Char → Bool} (apart : ∀ c, isSign c = true → p c = false) (c : Char)
    (t : Text) (sign : isSign c = true) : (class_ p).first? (c :: t) = none := by
  rw [class_,firstBothChar,apart c sign]
  rfl

theorem signCases {c : Char} (sign : isSign c = true) : c = '+' ∨ c = '-' := by
  simpa [isSign] using sign

theorem signDigit (c : Char) (sign : isSign c = true) : Text.isDigit c = false := by
  rcases signCases sign with rfl | rfl <;> decide

theorem positiveMap (k n : Nat) : (positive n).map (k + ·) = if n = 0 then none else some (k + n) := by
  unfold positive
  split <;> rfl

theorem firstExponent (t : Text) : exponent.first? t = positive (exponentLength t) := by
  rcases t with _ | ⟨c,t⟩
  · rfl
  rw [exponent,firstBothChar,firstSigned (classUnsigned signDigit),firstClass,positiveMap,exponentCons]
  dsimp only
  by_cases letter : c = 'e' ∨ c = 'E'
  · by_cases none : run Text.isDigit (t.drop (signLength t)) = 0
    · simp [positive,none]
    · simp [positive,letter,none,Nat.add_assoc]
  · simp [positive,letter]

theorem firstHex (t : Text) : hex.first? t = positive (hexLength t) := by
  rcases t with _ | ⟨c,t⟩
  · rfl
  rw [hex,firstBothChar]
  rcases t with _ | ⟨x,t⟩
  · simp [firstBothNone,hexLength,positive]
  rw [firstBothChar,firstClass,positiveMap,hexCons]
  by_cases zero : c = '0'
  · by_cases letter : x = 'x' ∨ x = 'X'
    · by_cases none : run isHexDigit t = 0
      · simp [positive,none]
      · simp [positive,zero,letter,none,← Nat.add_assoc]
    · simp [positive,letter]
  · simp [positive,zero]

theorem firstPoint (t : Text) :
    (maybe (both (char (· == '.')) (many (char Text.isDigit)))).first? t = some (fractionLength t) := by
  rw [firstMaybe]
  rcases t with _ | ⟨c,t⟩
  · rfl
  rw [firstBothChar,firstMany]
  by_cases point : c = '.'
  · simp [point,fractionLength]
  · simp [point,fractionLength]

theorem firstPower (t : Text) : (maybe exponent).first? t = some (exponentLength t) := by
  rw [firstMaybe,firstExponent]
  unfold positive
  split
  next none => rw [none]; rfl
  next => rfl

theorem bothAlways {a b : Pattern} (first : ∀ u, ∃ n, a.first? u = some n)
    (second : ∀ u, ∃ n, b.first? u = some n) (t : Text) : ∃ n, (both a b).first? t = some n := by
  obtain ⟨n,found⟩ := first t
  obtain ⟨m,behind⟩ := second (t.drop n)
  exact ⟨n + m,by rw [firstBothAlways second,found,Option.bind_some,behind]; rfl⟩

theorem firstWhole (t : Text) : decimal.first? t = if run Text.isDigit t = 0 then none else
    some (mantissaLength t + exponentLength (t.drop (mantissaLength t))) := by
  rw [decimal,firstBothAlways (bothAlways (maybeAlways _) (maybeAlways _)),firstClass]
  unfold positive
  split
  next => rfl
  next =>
    rw [Option.bind_some,firstBothAlways (maybeAlways _),firstPoint,Option.bind_some,firstPower]
    simp [mantissaLength,Nat.add_assoc]

theorem firstFraction (t : Text) (digitless : run Text.isDigit t = 0) : fraction.first? t =
    if mantissaLength t ≤ 1 then none else
      some (mantissaLength t + exponentLength (t.drop (mantissaLength t))) := by
  rcases t with _ | ⟨c,t⟩
  · rfl
  rw [fraction,firstBothChar,firstBothAlways (maybeAlways _),firstClass,mantissaLength,digitless]
  by_cases point : c = '.'
  · subst point
    by_cases digits : run Text.isDigit t = 0
    · simp [positive,digits,fractionLength]
    · simp [positive,digits,fractionLength,firstPower,Nat.add_comm 1,Nat.add_assoc]
  · simp [point,fractionLength]

theorem firstDecimal (t : Text) : (either decimal fraction).first? t = positive (decimalLength t) := by
  rw [firstEither,firstWhole,decimalMantissa]
  by_cases digits : run Text.isDigit t = 0
  · rw [firstFraction t digits,if_pos digits,Option.none_or]
    by_cases small : mantissaLength t ≤ 1
    · simp [positive,small,digits]
    · have more : mantissaLength t ≠ 0 := by omega
      simp [positive,small,more]
  · have more : mantissaLength t ≠ 0 := by
      unfold mantissaLength
      omega
    simp [positive,digits,more]

theorem numberUnsigned (c : Char) (t : Text) (sign : isSign c = true) :
    (either hex (either decimal fraction)).first? (c :: t) = none := by
  have digit := classUnsigned signDigit c t sign
  have marks : c ≠ '0' ∧ c ≠ '.' := by rcases signCases sign with rfl | rfl <;> decide
  rw [firstEither,firstEither,hex,firstBothChar,decimal,
    firstBothAlways (bothAlways (maybeAlways _) (maybeAlways _)),digit,fraction,firstBothChar]
  simp [marks]

theorem firstNumber (t : Text) : number.first? t = positive (numberLength t) := by
  rw [number,firstSigned numberUnsigned,firstEither,firstHex,firstDecimal,numberBody]
  dsimp only
  generalize t.drop (signLength t) = body
  by_cases hexadecimal : hexLength body = 0
  · by_cases none : decimalLength body = 0
    · simp [positive,hexadecimal,none]
    · simp [positive,hexadecimal,none]
  · simp [positive,hexadecimal]

end

/-! Names. -/
section
open Token

def dotted : Pattern := both (char (· == '.')) (class_ isNameChar)

def name : Pattern := both (char isNameStart) (both (many (char isNameChar)) (many dotted))

theorem firstDotted (c : Char) (t : Text) : dotted.first? (c :: t) =
    if c = '.' ∧ run isNameChar t ≠ 0 then some (1 + run isNameChar t) else none := by
  rw [dotted,firstBothChar,firstClass,positiveMap]
  by_cases point : c = '.' <;> simp [point]

theorem nameCons (c : Char) (t : Text) : nameTail (c :: t) =
    if isNameChar c = true ∨ c = '.' ∧ run isNameChar t ≠ 0 then nameTail t + 1 else 0 := by
  rcases t with _ | ⟨d,t⟩
  · simp [nameTail,run]
  · rw [nameChars,runCons]
    cases isNameChar d <;> simp

theorem dottedRepeated {limit : Nat} (t : Text) (enough : (t.drop (run isNameChar t)).length ≤ limit) :
    ∃ m, (repeated dotted.lengths limit (t.drop (run isNameChar t))).head? = some m ∧
      run isNameChar t + m = nameTail t := by
  induction t generalizing limit with
  | nil => exact ⟨0,repeatedNone rfl limit,rfl⟩
  | cons c t ih =>
    rw [nameCons]
    rw [runCons] at enough ⊢
    by_cases plain : isNameChar c = true
    · rw [if_pos plain,List.drop_succ_cons] at enough
      obtain ⟨m,found,sum⟩ := ih enough
      rw [if_pos plain,if_pos (.inl plain),List.drop_succ_cons]
      exact ⟨m,found,by omega⟩
    rw [if_neg plain,List.drop_zero] at enough ⊢
    by_cases joined : c = '.' ∧ run isNameChar t ≠ 0
    · rcases limit with _ | limit
      · simp at enough
      rw [List.length_cons] at enough
      have left : (t.drop (run isNameChar t)).length ≤ limit := by rw [List.length_drop]; omega
      obtain ⟨m,found,sum⟩ := ih left
      have first : dotted.first? (c :: t) = some (run isNameChar t + 1) := by
        rw [firstDotted,if_pos joined,Nat.add_comm]
      rw [if_pos (.inr joined),repeatedMore first (Nat.succ_pos _),List.drop_succ_cons,found]
      exact ⟨run isNameChar t + 1 + m,rfl,by omega⟩
    · rw [if_neg (not_or.mpr ⟨plain,joined⟩)]
      exact ⟨0,repeatedNone (by rw [firstDotted,if_neg joined]) limit,rfl⟩

theorem firstName (c : Char) (t : Text) :
    name.first? (c :: t) = if isNameStart c then some (1 + nameTail t) else none := by
  obtain ⟨m,found,sum⟩ := dottedRepeated t (Nat.le_refl _)
  have rest : (many dotted).first? (t.drop (run isNameChar t)) = some m := found
  rw [name,firstBothChar,firstBothAlways (manyAlways _),firstMany,Option.bind_some,rest,← sum]
  rfl

end

/-! Quoted texts. -/
section

def inside (q : Char) : Pattern :=
  either (char fun c => c != q && c != '\\')
    (either (both (char (· == '\\')) (char (· != '\n'))) (both (char (· == q)) (char (· == q))))

def quoted (q : Char) : Pattern :=
  both (char (· == q)) (both (many (inside q)) (char (· == q)))

/-- Where the quoted text ends, looked for after all that can stand in it, then after less. -/
def closed (q : Char) (limit : Nat) (t : Text) : Option Nat :=
  (repeated (inside q).lengths limit t).findSome? fun n =>
    ((char (· == q)).first? (t.drop n)).map (n + ·)

variable {q c d : Char} {t : Text} {limit : Nat}

theorem closedStuck (stuck : (inside q).lengths t = []) :
    closed q limit t = (char (· == q)).first? t := by
  unfold closed
  cases limit <;> simp [stuck]

theorem closedBack {m : Nat} {rest : Option Nat} (found : (inside q).lengths t = [m]) (more : 0 < m)
    (enough : t.length ≤ limit)
    (behind : ∀ limit, (t.drop m).length ≤ limit → closed q limit (t.drop m) = rest) :
    closed q limit t = (rest.map (m + ·)).or ((char (· == q)).first? t) := by
  rcases t with _ | ⟨c,t⟩
  · contradiction
  rcases limit with _ | limit
  · simp at enough
  have later : closed q limit ((c :: t).drop m) = rest := by
    apply behind
    simp only [List.length_drop,List.length_cons] at enough ⊢
    omega
  have shifted : ((fun n => ((char (· == q)).first? ((c :: t).drop n)).map (n + ·)) ∘ (m + ·)) =
      (Option.map (m + ·)) ∘
        fun n => ((char (· == q)).first? (((c :: t).drop m).drop n)).map (n + ·) := by
    funext n
    simp [Function.comp_def,Nat.add_assoc]
  rw [← later]
  simp only [closed,repeatedSucc,found,List.findSome?_append,List.filter_cons,more]
  simp [List.findSome?_map,shifted]

theorem insidePlain (t : Text) (other : c ≠ q) (plain : c ≠ '\\') :
    (inside q).lengths (c :: t) = [1] := by
  simp [inside,other,plain]

theorem insideEscape (t : Text) (other : '\\' ≠ q) (line : d ≠ '\n') :
    (inside q).lengths ('\\' :: d :: t) = [2] := by
  simp [inside,other,line]

theorem insidePair (t : Text) (apart : q ≠ '\\') : (inside q).lengths (q :: q :: t) = [2] := by
  simp [inside,apart]

theorem closedQuoted (apart : q ≠ '\\') (t : Text) (enough : t.length ≤ limit) :
    closed q limit t = Text.quotedTail q t := by
  fun_induction Text.quotedTail q t generalizing limit with
  | case1 => exact closedStuck rfl
  | case2 =>
    rw [closedStuck (by simp [inside])]
    simp [firstChar]
  | case3 c other =>
    by_cases escape : c = '\\'
    · rw [closedStuck (by simp [inside,escape])]
      simp [firstChar,other]
    · rw [closedBack (insidePlain [] other escape) Nat.one_pos enough fun _ _ => closedStuck rfl]
      simp [other,first?]
  | case4 rest m found ih =>
    rw [closedBack (insidePair rest apart) Nat.two_pos enough fun _ => ih,found]
    simp [Nat.add_comm]
  | case5 rest unclosed ih =>
    rw [closedBack (insidePair rest apart) Nat.two_pos enough fun _ => ih,
      unclosed]
    simp [firstChar]
  | case6 d rest single =>
    rw [closedStuck (by simp [inside,apart,single])]
    simp [firstChar]
  | case7 rest other =>
    rw [closedStuck (by simp [inside,other])]
    simp [firstChar,other]
  | case8 d rest line escape ih =>
    rw [closedBack (insideEscape rest escape line) Nat.two_pos enough fun _ => ih]
    simp [firstChar,escape,Nat.add_comm]
  | case9 c d rest single plain ih =>
    rw [closedBack (insidePlain _ single plain) Nat.one_pos enough fun _ => ih]
    simp [firstChar,single,Nat.add_comm]

theorem firstQuoted (apart : q ≠ '\\') (c : Char) (t : Text) : (quoted q).first? (c :: t) =
    if c = q then (Text.quotedTail q t).map (1 + ·) else none := by
  have closes : (both (many (inside q)) (char (· == q))).first? t = closed q t.length t :=
    firstBoth _ _ t
  rw [quoted,firstBothChar,closes,closedQuoted apart t (Nat.le_refl _)]
  simp

end
end Pattern
end ColumnDecl
