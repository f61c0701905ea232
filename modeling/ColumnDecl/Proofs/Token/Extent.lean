import ColumnDecl.Proofs.Text.Quotation
import ColumnDecl.Token.Lexeme

/-! How far a token reaches. A token is found again when the text is cut anywhere behind it, and
when a break is put behind the text. Only a quoted token needs more: a doubled quote that nothing
closes ends it early, and what remains is then no text of tokens. -/
namespace ColumnDecl.Token

/-- A character that no name and no number runs over. -/
def isBreak (c : Char) : Bool :=
  Text.isLayout c || c == '(' || c == ')' || c == ',' || c == '='

def Broken : Text → Prop
  | [] => True
  | c :: _ => isBreak c = true

/-- Characters other than digits and letters that a number or a quoted text can begin with or
hold, and the letters that have a meaning in a number. -/
def marks : List Char := ['+', '-', '.', '0', 'e', 'E', 'x', 'X', '\'', '"', '\x60', '\\']

theorem breakCases {c : Char} (h : isBreak c = true) :
    c = ' ' ∨ c = '\t' ∨ c = '\n' ∨ c = '\r' ∨ c = '\x0b' ∨ c = '\x0c' ∨ c = '(' ∨ c = ')' ∨
      c = ',' ∨ c = '=' := by
  simpa only [isBreak,Text.isLayout,Bool.or_eq_true,beq_iff_eq,or_assoc] using h

theorem breakStops {c : Char} (h : isBreak c = true) :
    Text.isDigit c = false ∧ isHexDigit c = false ∧ isNameChar c = false ∧ c ∉ marks := by
  rcases breakCases h with h | h | h | h | h | h | h | h | h | h
  all_goals subst c; decide

theorem breakApart {c d : Char} (h : isBreak c = true) (mark : d ∈ marks) : c ≠ d := by
  intro same
  exact (breakStops h).2.2.2 (same ▸ mark)

/-! Runs of one class of characters. -/

theorem runCons (p : Char → Bool) (c : Char) (t : Text) :
    run p (c :: t) = if p c then run p t + 1 else 0 := by
  cases h : p c <;> simp [run,h]

theorem runCut {p : Char → Bool} {a u : Text} (h : run p (a ++ u) ≤ a.length) :
    run p a = run p (a ++ u) := by
  induction a with
  | nil =>
    rw [List.nil_append] at h ⊢
    exact (Nat.le_zero.mp h).symm
  | cons c a ih =>
    rw [List.cons_append,runCons] at h
    rw [List.cons_append,runCons,runCons]
    cases hc : p c with
    | false => rfl
    | true =>
      simp only [hc,if_true,List.length_cons] at h ⊢
      rw [ih (by omega)]

theorem runShorter (p : Char → Bool) (a u : Text) : run p a ≤ run p (a ++ u) := by
  induction a with
  | nil => simp [run]
  | cons c a ih =>
    rw [List.cons_append,runCons,runCons]
    cases p c with
    | false => simp
    | true => simpa using ih

theorem runBound (p : Char → Bool) (t : Text) : run p t ≤ t.length :=
  (List.takeWhile_prefix p).length_le

/-! Numbers. -/

theorem signBound (t : Text) : signLength t ≤ t.length := by
  cases t with
  | nil => simp [signLength]
  | cons c t => simp only [signLength]; split <;> simp

theorem dropAppend {a : Text} (u : Text) {n : Nat} (h : n ≤ a.length) :
    (a ++ u).drop n = a.drop n ++ u := List.drop_append_of_le_length h

theorem exponentCons (c : Char) (t : Text) : exponentLength (c :: t) =
    let digits := run Text.isDigit (t.drop (signLength t))
    if (c = 'e' ∨ c = 'E') ∧ digits ≠ 0 then 1 + signLength t + digits else 0 := by
  simp only [exponentLength]
  cases run Text.isDigit (t.drop (signLength t)) <;> simp

theorem exponentCut {a u : Text} (h : exponentLength (a ++ u) ≤ a.length) :
    exponentLength a = exponentLength (a ++ u) := by
  rcases a with _ | ⟨c,a⟩
  · exact (Nat.le_zero.mp h).symm
  rw [List.cons_append,exponentCons] at h
  rw [List.cons_append,exponentCons,exponentCons]
  dsimp only at h ⊢
  rcases a with _ | ⟨d,a⟩
  · rw [if_neg (by simp [run])]
    split at h
    next some => rw [List.length_cons,List.length_nil] at h; omega
    next none => exact (if_neg none).symm
  · have same : signLength (d :: a ++ u) = signLength (d :: a) := rfl
    rw [same,dropAppend u (signBound _)] at h ⊢
    have digits : run Text.isDigit ((d :: a).drop (signLength (d :: a))) =
        run Text.isDigit ((d :: a).drop (signLength (d :: a)) ++ u) ∨ ¬(c = 'e' ∨ c = 'E') := by
      by_cases letter : c = 'e' ∨ c = 'E'
      · refine .inl (runCut ?_)
        split at h
        · simp only [List.length_cons,List.length_drop] at h ⊢; omega
        · simp_all
      · exact .inr letter
    rcases digits with digits | letter
    · rw [digits]
    · simp [letter]

theorem fractionCut {a u : Text} (h : fractionLength (a ++ u) ≤ a.length) :
    fractionLength a = fractionLength (a ++ u) := by
  rcases a with _ | ⟨c,a⟩
  · exact (Nat.le_zero.mp h).symm
  by_cases point : c = '.'
  · subst c
    simp only [List.cons_append,fractionLength,List.length_cons] at h ⊢
    rw [runCut (u := u) (by omega)]
  · simp [fractionLength,point]

theorem fractionShorter (a u : Text) : fractionLength a ≤ fractionLength (a ++ u) := by
  rcases a with _ | ⟨c,a⟩
  · simp [fractionLength]
  by_cases point : c = '.'
  · subst c
    simpa only [List.cons_append,fractionLength,Nat.add_le_add_iff_left] using runShorter _ a u
  · simp [fractionLength,point]

theorem hexCons (c x : Char) (t : Text) : hexLength (c :: x :: t) =
    if c = '0' ∧ (x = 'x' ∨ x = 'X') ∧ run isHexDigit t ≠ 0 then 2 + run isHexDigit t else 0 := by
  by_cases zero : c = '0'
  · subst c
    simp only [hexLength]
    cases run isHexDigit t <;> simp
  · simp [hexLength,zero]

theorem hexCut {a u : Text} (h : hexLength (a ++ u) ≤ a.length) :
    hexLength a = hexLength (a ++ u) := by
  rcases a with _ | ⟨c,_ | ⟨x,a⟩⟩
  · exact (Nat.le_zero.mp h).symm
  · rcases u with _ | ⟨x,u⟩
    · rfl
    · rw [List.cons_append,List.nil_append,hexCons] at h ⊢
      split at h
      next => simp at h; omega
      next none => rw [if_neg none]; simp [hexLength]
  · rw [List.cons_append,List.cons_append,hexCons] at h
    rw [List.cons_append,List.cons_append,hexCons,hexCons]
    split at h
    next => rw [runCut (u := u) (by simp at h; omega)]
    next none =>
      rw [if_neg none]
      have := runShorter isHexDigit a u
      refine if_neg fun some => none ⟨some.1,some.2.1,by omega⟩

def mantissaLength (t : Text) : Nat :=
  run Text.isDigit t + fractionLength (t.drop (run Text.isDigit t))

theorem decimalMantissa (t : Text) : decimalLength t =
    if run Text.isDigit t = 0 ∧ mantissaLength t ≤ 1 then 0
    else mantissaLength t + exponentLength (t.drop (mantissaLength t)) := by
  unfold decimalLength mantissaLength
  split
  next none => rcases hf : fractionLength t with _ | _ | n <;> simp [none,hf]
  next n some => simp [some]

theorem mantissaCut {a u : Text} (h : mantissaLength (a ++ u) ≤ a.length) :
    run Text.isDigit a = run Text.isDigit (a ++ u) ∧
      mantissaLength a = mantissaLength (a ++ u) := by
  unfold mantissaLength at h ⊢
  have digits : run Text.isDigit a = run Text.isDigit (a ++ u) := runCut (by omega)
  rw [← digits,dropAppend u (runBound Text.isDigit a)] at h ⊢
  refine ⟨rfl,?_⟩
  rw [fractionCut (u := u) (by rw [List.length_drop]; omega)]

theorem decimalCut {a u : Text} (h : decimalLength (a ++ u) ≤ a.length) :
    decimalLength a = decimalLength (a ++ u) := by
  rw [decimalMantissa (a ++ u)] at h
  rw [decimalMantissa a,decimalMantissa (a ++ u)]
  split at h
  next none =>
    -- A lone point is no number, whatever follows it.
    have digits : run Text.isDigit a = 0 := by have := runShorter Text.isDigit a u; omega
    have fraction := fractionShorter a u
    have small : mantissaLength a ≤ 1 := by
      have := none.2
      simp only [mantissaLength,digits,none.1,List.drop_zero] at this ⊢
      omega
    rw [if_pos none,if_pos ⟨digits,small⟩]
  next some =>
    obtain ⟨digits,mantissa⟩ := mantissaCut (a := a) (u := u) (by omega)
    have fits : mantissaLength a ≤ a.length := by omega
    rw [← mantissa,dropAppend u fits] at h
    rw [← digits,← mantissa,dropAppend u fits]
    rw [exponentCut (u := u) (by rw [List.length_drop]; omega)]

theorem numberBody (t : Text) : numberLength t =
    let body := t.drop (signLength t)
    let length := if hexLength body = 0 then decimalLength body else hexLength body
    if length = 0 then 0 else signLength t + length := by
  simp only [numberLength]
  cases hexLength (t.drop (signLength t)) with
  | succ n => simp
  | zero => cases decimalLength (t.drop (signLength t)) <;> simp

theorem numberCut {a u : Text} (h : numberLength (a ++ u) ≤ a.length) :
    numberLength a = numberLength (a ++ u) := by
  rcases a with _ | ⟨c,a⟩
  · exact (Nat.le_zero.mp h).symm
  rw [numberBody (c :: a ++ u)] at h
  rw [numberBody (c :: a),numberBody (c :: a ++ u)]
  have same : signLength (c :: a ++ u) = signLength (c :: a) := rfl
  have sign := signBound (c :: a)
  rw [same,dropAppend u sign] at h ⊢
  have rest : ((c :: a).drop (signLength (c :: a))).length = (c :: a).length - signLength (c :: a) :=
    List.length_drop
  generalize (c :: a).drop (signLength (c :: a)) = body at h rest ⊢
  dsimp only at h ⊢
  have hex : hexLength body = hexLength (body ++ u) := by
    apply hexCut
    by_cases none : hexLength (body ++ u) = 0
    · omega
    · rw [if_neg none,if_neg none] at h; omega
  rw [hex]
  split
  next none =>
    rw [if_pos none] at h
    rw [decimalCut (u := u) (by split at h <;> omega)]
  next => rfl

/-! Names. -/

theorem nameChars {t : Text} (c d : Char) : nameTail (c :: d :: t) =
    if isNameChar c || (c == '.' && isNameChar d) then nameTail (d :: t) + 1 else 0 := rfl

theorem nameAlone (c : Char) : nameTail [c] = if isNameChar c then 1 else 0 := rfl

theorem nameCut {a u : Text} (h : nameTail (a ++ u) ≤ a.length) :
    nameTail a = nameTail (a ++ u) := by
  induction a with
  | nil => exact (Nat.le_zero.mp h).symm
  | cons c a ih =>
    rcases a with _ | ⟨d,a⟩
    · rcases u with _ | ⟨d,u⟩
      · rfl
      rw [List.cons_append,List.nil_append,nameChars] at h ⊢
      rw [nameAlone]
      by_cases hc : isNameChar c = true
      · simp [hc] at h ⊢
        omega
      · split at h
        next joined =>
          -- Here the last character of `a` is a point, and the name goes on in `u`.
          have later : isNameChar d = true := by simp_all
          have one : 0 < nameTail (d :: u) := by
            rcases u with _ | ⟨e,u⟩ <;> simp [nameTail,later]
          simp at h; omega
        next alone => rw [if_neg alone,if_neg hc]
    · rw [List.cons_append,List.cons_append,nameChars] at h
      rw [List.cons_append,List.cons_append,nameChars,nameChars]
      split
      next inside => rw [if_pos inside] at h; rw [ih (by simpa using h)]; rfl
      next => rfl

/-! Nothing runs over a break. -/

section
variable {u : Text} (broken : Broken u)
include broken

theorem runBroken {p : Char → Bool} (stops : ∀ c, isBreak c = true → p c = false) (a : Text) :
    run p (a ++ u) ≤ a.length := by
  induction a with
  | nil =>
    rcases u with _ | ⟨c,u⟩
    · exact Nat.le_refl _
    · rw [List.nil_append,runCons,stops c broken]; simp
  | cons c a ih =>
    rw [List.cons_append,runCons,List.length_cons]
    split <;> omega

theorem digitsBroken (a : Text) : run Text.isDigit (a ++ u) ≤ a.length :=
  runBroken broken (fun _ h => (breakStops h).1) a

theorem signBroken (a : Text) : signLength (a ++ u) ≤ a.length := by
  rcases a with _ | ⟨c,a⟩
  · rcases u with _ | ⟨d,u⟩
    · exact Nat.le_refl _
    · have plus : d ≠ '+' := breakApart broken (by decide)
      have minus : d ≠ '-' := breakApart broken (by decide)
      simp [signLength,plus,minus]
  · exact signBound (c :: a)

theorem fractionBroken (a : Text) : fractionLength (a ++ u) ≤ a.length := by
  rcases a with _ | ⟨c,a⟩
  · rcases u with _ | ⟨d,u⟩
    · exact Nat.le_refl _
    · have point : d ≠ '.' := breakApart broken (by decide)
      simp [fractionLength,point]
  · by_cases point : c = '.'
    · subst c
      have := digitsBroken broken a
      simp only [List.cons_append,fractionLength,List.length_cons]; omega
    · simp [fractionLength,point]

theorem exponentBroken (a : Text) : exponentLength (a ++ u) ≤ a.length := by
  rcases a with _ | ⟨c,a⟩
  · rcases u with _ | ⟨d,u⟩
    · exact Nat.le_refl _
    · have small : d ≠ 'e' := breakApart broken (by decide)
      have large : d ≠ 'E' := breakApart broken (by decide)
      simp [exponentLength,small,large]
  · have sign := signBroken broken a
    have digits := digitsBroken broken (a.drop (signLength (a ++ u)))
    rw [← dropAppend u sign,List.length_drop] at digits
    rw [List.cons_append,exponentCons,List.length_cons]
    dsimp only
    split <;> omega

theorem hexBroken (a : Text) : hexLength (a ++ u) ≤ a.length := by
  rcases a with _ | ⟨c,_ | ⟨x,a⟩⟩
  · rcases u with _ | ⟨d,u⟩
    · exact Nat.le_refl _
    · have zero : d ≠ '0' := breakApart broken (by decide)
      simp [hexLength,zero]
  · rcases u with _ | ⟨d,u⟩
    · simp [hexLength]
    · have small : d ≠ 'x' := breakApart broken (by decide)
      have large : d ≠ 'X' := breakApart broken (by decide)
      rw [List.cons_append,List.nil_append,hexCons,if_neg (by simp [small,large])]
      exact Nat.zero_le _
  · have := runBroken broken (p := isHexDigit) (fun _ h => (breakStops h).2.1) a
    rw [List.cons_append,List.cons_append,hexCons,List.length_cons,List.length_cons]
    split <;> omega

theorem decimalBroken (a : Text) : decimalLength (a ++ u) ≤ a.length := by
  have digits := digitsBroken broken a
  have fraction := fractionBroken broken (a.drop (run Text.isDigit (a ++ u)))
  rw [← dropAppend u digits,List.length_drop] at fraction
  have mantissa : mantissaLength (a ++ u) ≤ a.length := by unfold mantissaLength; omega
  have exponent := exponentBroken broken (a.drop (mantissaLength (a ++ u)))
  rw [← dropAppend u mantissa,List.length_drop] at exponent
  rw [decimalMantissa]
  split <;> omega

theorem numberBroken (a : Text) : numberLength (a ++ u) ≤ a.length := by
  have sign := signBroken broken a
  have hex := hexBroken broken (a.drop (signLength (a ++ u)))
  have decimal := decimalBroken broken (a.drop (signLength (a ++ u)))
  rw [← dropAppend u sign,List.length_drop] at hex decimal
  rw [numberBody]
  generalize (a ++ u).drop (signLength (a ++ u)) = body at hex decimal ⊢
  have length : (if hexLength body = 0 then decimalLength body else hexLength body) ≤
      a.length - signLength (a ++ u) := by split <;> assumption
  dsimp only
  generalize (if hexLength body = 0 then decimalLength body else hexLength body) = k at length ⊢
  split <;> omega

theorem nameBroken (a : Text) : nameTail (a ++ u) ≤ a.length := by
  induction a with
  | nil =>
    rcases u with _ | ⟨d,_ | ⟨e,u⟩⟩
    · exact Nat.le_refl _
    · simp [nameTail,(breakStops broken).2.2.1]
    · have point : d ≠ '.' := breakApart broken (by decide)
      simp [nameTail,(breakStops broken).2.2.1,point]
  | cons c a ih =>
    rcases a with _ | ⟨d,a⟩
    · rcases u with _ | ⟨d,u⟩
      · rw [List.append_nil,nameAlone]; split <;> simp
      · rw [List.nil_append,List.length_nil] at ih
        rw [List.cons_append,List.nil_append,nameChars,List.length_singleton]
        split <;> omega
    · rw [List.cons_append,List.cons_append,nameChars,List.length_cons]
      rw [List.cons_append] at ih
      split <;> omega

end

/-! Tokens. -/

theorem numberBound (t : Text) : numberLength t ≤ t.length := by
  simpa using numberBroken (u := []) trivial t

theorem nameBound (t : Text) : nameTail t ≤ t.length := by
  simpa using nameBroken (u := []) trivial t

theorem quoteCases {c : Char} {tag : Tag} (h : quoteTag? c = some tag) :
    c = '\x60' ∨ c = '"' ∨ c = '\'' := by
  unfold quoteTag? at h
  split at h
  next quote => exact quote.imp_right .inl
  next =>
    split at h
    next quote => exact .inr (.inr quote)
    next => contradiction

theorem quoteTagMark {c : Char} {tag : Tag} (h : quoteTag? c = some tag) : c ∈ marks := by
  rcases quoteCases h with rfl | rfl | rfl <;> decide

theorem lexemeBound {c : Char} {t : Text} {tag : Tag} {n : Nat}
    (h : lexeme? c t = some (tag, n)) : n ≤ t.length := by
  unfold lexeme? at h
  split at h
  next quote hq =>
    obtain ⟨m,hm,same⟩ := Option.map_eq_some_iff.mp h
    cases same
    exact (Text.quotedTailBounds hm).2
  next =>
    split at h
    next k hk =>
      have := numberBound (c :: t)
      cases Option.some.inj h
      simp only [List.length_cons] at this; omega
    next =>
      split at h
      · cases Option.some.inj h; exact nameBound t
      · obtain ⟨m,hm,same⟩ := Option.map_eq_some_iff.mp h
        cases same; exact Nat.zero_le _

theorem lexemeCut {c : Char} {a u : Text} {tag : Tag} {n : Nat}
    (h : lexeme? c (a ++ u) = some (tag, n)) (fits : n ≤ a.length) :
    lexeme? c a = some (tag, n) := by
  unfold lexeme? at h ⊢
  cases hq : quoteTag? c with
  | some quote =>
    rw [hq] at h
    obtain ⟨m,hm,same⟩ := Option.map_eq_some_iff.mp h
    cases same
    simp [Text.quotedCut hm fits]
  | none =>
    rw [hq] at h
    dsimp only at h ⊢
    have number : numberLength (c :: a) = numberLength (c :: a ++ u) := by
      apply numberCut
      cases hn : numberLength (c :: (a ++ u)) with
      | zero => rw [List.cons_append,hn]; exact Nat.zero_le _
      | succ k => simp [hn] at h; simp [hn]; omega
    rw [List.cons_append] at number
    rw [number]
    split
    next k hk => rw [hk] at h; exact h
    next none =>
      rw [none] at h
      dsimp only at h
      split
      next name =>
        rw [if_pos name] at h
        cases Option.some.inj h
        rw [nameCut fits]
      next other => rwa [if_neg other] at h

theorem lexemeExtended {c : Char} {a u : Text} {tag : Tag} {n : Nat}
    (h : lexeme? c a = some (tag, n)) (broken : Broken u)
    (proper : ∀ r, a.drop n = c :: r → lexeme? c r ≠ none) :
    lexeme? c (a ++ u) = some (tag, n) := by
  unfold lexeme? at h ⊢
  cases hq : quoteTag? c with
  | some quote =>
    rw [hq] at h
    obtain ⟨m,hm,same⟩ := Option.map_eq_some_iff.mp h
    cases same
    have other : u.head? ≠ some c := by
      intro same
      obtain ⟨v,rfl⟩ := List.head?_eq_some_iff.mp same
      exact (breakStops broken).2.2.2 (quoteTagMark hq)
    have closes : ∀ r, a.drop n = c :: r → Text.quotedTail c r ≠ none := by
      intro r hr none
      exact proper r hr (by simp [lexeme?,hq,none])
    simp [Text.quotedExtended hm closes other]
  | none =>
    rw [hq] at h
    dsimp only at h ⊢
    rw [← List.cons_append,← numberCut (numberBroken broken _),← nameCut (nameBroken broken _)]
    exact h

theorem lexemeBreak {c : Char} (h : isBreak c = true) (t : Text) :
    lexeme? c t = (singleTag? c).map (·, 0) := by
  obtain ⟨_,_,name,mark⟩ := breakStops h
  have quote : quoteTag? c = none := by
    cases hq : quoteTag? c with
    | none => rfl
    | some tag => exact absurd (quoteTagMark hq) mark
  have number : numberLength (c :: t) = 0 := Nat.le_zero.mp (numberBroken (u := c :: t) h [])
  have start : isNameStart c = false := (Bool.or_eq_false_iff.mp name).1
  unfold lexeme?
  rw [quote,number]
  dsimp only
  rw [start]
  rfl

theorem singleComma {c : Char} (h : singleTag? c = some .comma) : c = ',' := by
  unfold singleTag? at h
  split at h
  · cases h
  split at h
  · cases h
  split at h
  next comma => exact comma
  next =>
    split at h
    · cases h
    split at h
    · cases h
    · cases h

theorem lexemeComma {c : Char} {t : Text} {n : Nat} (h : lexeme? c t = some (.comma, n)) :
    c = ',' ∧ n = 0 := by
  unfold lexeme? at h
  split at h
  next tag quote =>
    obtain ⟨_,_,same⟩ := Option.map_eq_some_iff.mp h
    cases same
    unfold quoteTag? at quote
    split at quote
    · cases quote
    · split at quote <;> cases quote
  next =>
    split at h
    next => cases h
    next =>
      split at h
      next => cases h
      next =>
        obtain ⟨tag,single,same⟩ := Option.map_eq_some_iff.mp h
        cases same
        exact ⟨singleComma single,rfl⟩

end ColumnDecl.Token
