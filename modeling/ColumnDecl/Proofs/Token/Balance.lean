import ColumnDecl.Proofs.Token.Nesting

/-! Which closers are awaited, how many parentheses are open, and where the flat count of a cut
passes on. As long as no bracket is closed by one of another kind, the three agree. -/
namespace ColumnDecl.Token

/-- The closers awaited behind a token, the innermost first, and `none` where a bracket is closed by
one of another kind. A closer that nothing awaits changes nothing. -/
def awaitedAfter (awaited : List Char) (t : Token) : Option (List Char) :=
  match t.bracket? with
  | none => some awaited
  | some c =>
    match closer? c with
    | some d => some (d :: awaited)
    | none =>
      match awaited with
      | [] => some []
      | d :: outer => if c = d then some outer else none

def awaitedBehind (awaited : List Char) (ts : List Token) : Option (List Char) :=
  ts.foldlM awaitedAfter awaited

/-- No bracket is closed by one of another kind. -/
def Unmixed (ts : List Token) : Prop := (awaitedBehind [] ts).isSome = true

instance (ts : List Token) : Decidable (Unmixed ts) := inferInstanceAs (Decidable (_ = true))

/-- How many parentheses are open behind a token, `none` if it closes one that is not there. -/
def openAfter (count : Nat) (t : Token) : Option Nat :=
  if t.tag = .opening then some (count + 1)
  else if t.tag = .closing then (if count = 0 then none else some (count - 1))
  else some count

def openBehind (count : Nat) (ts : List Token) : Option Nat := ts.foldlM openAfter count

/-- Every closing parenthesis closes one in front of it, and none is left open. -/
def Balanced (ts : List Token) : Prop := openBehind 0 ts = some 0

instance (ts : List Token) : Decidable (Balanced ts) := inferInstanceAs (Decidable (_ = _))

instance {p : List Token → Prop} [DecidablePred p] (t : Text) :
    Decidable (∃ ts, stream t = .ok ts ∧ p ts) :=
  match stream t with
  | .error _ => .isFalse fun ⟨_,found,_⟩ => nomatch found
  | .ok ts =>
    if good : p ts then .isTrue ⟨ts,rfl,good⟩
    else .isFalse fun ⟨_,found,other⟩ => by cases found; exact good other

theorem foldCons {α β : Type} {f : β → α → Option β} {s r : β} {t : α} {ts : List α} :
    (t :: ts).foldlM f s = some r ↔ ∃ next, f s t = some next ∧ ts.foldlM f next = some r := by
  rw [List.foldlM_cons]
  exact Option.bind_eq_some_iff

theorem foldAppend {α β : Type} {f : β → α → Option β} {s r : β} {a b : List α} :
    (a ++ b).foldlM f s = some r ↔ ∃ next, a.foldlM f s = some next ∧ b.foldlM f next = some r := by
  rw [List.foldlM_append]
  exact Option.bind_eq_some_iff

/-! One token. -/

theorem bracketTag (t : Token) :
    (t.bracket? = some '(' ↔ t.tag = .opening) ∧ (t.bracket? = some ')' ↔ t.tag = .closing) := by
  cases h : t.tag with
  | other =>
    simp only [bracket?,h]
    split
    · simp
    split
    · simp
    split
    · simp
    split <;> simp
  | _ => simp [bracket?,h]

theorem awaitedQuiet {t : Token} (awaited : List Char) (quiet : t.bracket? = none) :
    awaitedAfter awaited t = some awaited := by
  simp only [awaitedAfter,quiet]

theorem awaitedOpening {t : Token} (awaited : List Char) (opening : t.tag = .opening) :
    awaitedAfter awaited t = some (')' :: awaited) := by
  simp [awaitedAfter,(bracketTag t).1.mpr opening,closer?]

theorem awaitedClosing {t : Token} (awaited : List Char) (closing : t.tag = .closing) :
    awaitedAfter (')' :: awaited) t = some awaited := by
  simp [awaitedAfter,(bracketTag t).2.mpr closing,closer?]

theorem openOpening {t : Token} (count : Nat) (opening : t.tag = .opening) :
    openAfter count t = some (count + 1) := if_pos opening

theorem openClosing {t : Token} (count : Nat) (closing : t.tag = .closing) :
    openAfter (count + 1) t = some count := by
  simp [openAfter,closing]

theorem openOther {t : Token} (count : Nat) (opening : t.bracket? ≠ some '(')
    (closing : t.bracket? ≠ some ')') : openAfter count t = some count := by
  rw [openAfter,if_neg (fun tag => opening ((bracketTag t).1.mpr tag)),
    if_neg (fun tag => closing ((bracketTag t).2.mpr tag))]

theorem awaitedDepth {awaited next : List Char} {t : Token} (h : awaitedAfter awaited t = some next) :
    t.depthAfter awaited.length = next.length := by
  rw [depthAfterBracket]
  unfold awaitedAfter at h
  cases hb : t.bracket? with
  | none => rw [hb] at h; cases h; rfl
  | some c =>
    rw [hb] at h
    dsimp only at h ⊢
    cases hc : closer? c with
    | some d => rw [hc] at h; cases h; rfl
    | none =>
      rw [hc] at h
      rcases awaited with _ | ⟨d,outer⟩
      · cases h; rfl
      · dsimp only at h
        split at h
        · cases h; rfl
        · contradiction

theorem behindDepth {awaited final : List Char} {ts : List Token}
    (h : awaitedBehind awaited ts = some final) : depth awaited.length ts = final.length := by
  induction ts generalizing awaited with
  | nil => cases h; rfl
  | cons t ts ih =>
    obtain ⟨next,first,rest⟩ := foldCons.mp h
    change depth (t.depthAfter awaited.length) ts = _
    rw [awaitedDepth first]
    exact ih rest

theorem nestedAwaited {awaited : List Char} {ts : List Token} (h : nestedFrom awaited ts = true) :
    awaitedBehind awaited ts = some [] := by
  induction ts generalizing awaited with
  | nil =>
    rw [List.isEmpty_iff.mp h]
    rfl
  | cons t ts ih =>
    unfold nestedFrom at h
    refine foldCons.mpr ?_
    unfold awaitedAfter
    cases hb : t.bracket? with
    | none => rw [hb] at h; exact ⟨_,rfl,ih h⟩
    | some c =>
      rw [hb] at h
      dsimp only at h ⊢
      cases hc : closer? c with
      | some d => rw [hc] at h; exact ⟨_,rfl,ih h⟩
      | none =>
        rw [hc] at h
        rcases awaited with _ | ⟨d,outer⟩
        · contradiction
        · obtain ⟨same,rest⟩ := Bool.and_eq_true_iff.mp h
          exact ⟨outer,if_pos (by simpa using same),ih rest⟩

/-! Where a count passes on. -/

/-- A cut that comes to these tokens at depth `k` does not end among them. -/
def Passed (k : Nat) (a : List Token) : Prop :=
  ∀ x, cutFrom k (a ++ x) = (a ++ (cutFrom (depth k a) x).1,(cutFrom (depth k a) x).2)

theorem passedNone (k : Nat) : Passed k [] := fun _ => rfl

theorem passedToken {k : Nat} {t : Token} {a : List Token}
    (inside : ¬(k = 0 ∧ t.isDelimiter = true)) (rest : Passed (t.depthAfter k) a) :
    Passed k (t :: a) := by
  intro x
  rw [List.cons_append,cutFromCons,if_neg inside,rest x]
  rfl

theorem passedAppend {k : Nat} {a b : List Token} (first : Passed k a) (second : Passed (depth k a) b) :
    Passed k (a ++ b) := by
  intro x
  have along : depth k (a ++ b) = depth (depth k a) b := List.foldl_append
  rw [List.append_assoc,first,second x,along,List.append_assoc]

/- What one count passes, every count that stands higher passes too. -/
theorem passedCut {k n : Nat} {ts a rest : List Token} (h : cutFrom k ts = (a,rest)) (higher : k ≤ n) :
    Passed n a := by
  induction ts generalizing k n a with
  | nil => cases h; exact passedNone n
  | cons t ts ih =>
    rw [cutFromCons] at h
    split at h
    next => cases h; exact passedNone n
    next inside =>
      cases h
      refine passedToken (fun ⟨zero,delimiter⟩ => inside ⟨by omega,delimiter⟩) ?_
      exact ih rfl (depthAfterMono higher t)

theorem passedEnds {a rest : List Token} (passed : Passed 0 a) (level : depth 0 a = 0)
    (ended : Ended rest) : cut (a ++ rest) = (a,rest) := by
  change cutFrom 0 (a ++ rest) = _
  rw [passed rest,level]
  rcases rest with _ | ⟨d,rest⟩
  · simp [cutFrom,cutAt]
  · rw [cutFromCons,if_pos ⟨rfl,ended⟩,List.append_nil]

/-! What a cut takes, inside `n` lists. -/

/-- The closers awaited inside `n` lists in parentheses. -/
def lists (n : Nat) : List Char := List.replicate n ')'

theorem listsDeeper (n : Nat) : lists (n + 1) = ')' :: lists n := rfl

theorem closerRound {c d : Char} (h : closer? c = some d) : d = ')' ↔ c = '(' := by
  unfold closer? at h
  split at h
  next round => cases h; simp [round]
  next other =>
    split at h
    · cases h; simp [other]
    · split at h
      · cases h; simp [other]
      · contradiction

theorem insideToken {n : Nat} {own next : List Char} {t : Token}
    (inside : ¬(own.length = 0 ∧ t.isDelimiter = true))
    (h : awaitedAfter (own ++ lists n) t = some next) :
    ∃ own', next = own' ++ lists n ∧ own'.length = t.depthAfter own.length ∧
      openAfter ((own ++ lists n).count ')') t = some (next.count ')') := by
  rw [depthAfterBracket]
  unfold awaitedAfter at h
  cases hb : t.bracket? with
  | none =>
    rw [hb] at h
    cases h
    exact ⟨own,rfl,rfl,openOther _ (by simp [hb]) (by simp [hb])⟩
  | some c =>
    rw [hb] at h
    dsimp only at h ⊢
    cases hc : closer? c with
    | some d =>
      rw [hc] at h
      cases h
      refine ⟨d :: own,rfl,rfl,?_⟩
      by_cases round : c = '('
      · rw [(closerRound hc).mpr round,List.count_cons_self]
        exact openOpening _ ((bracketTag t).1.mp (by rw [hb,round]))
      · have other : d ≠ ')' := fun same => round ((closerRound hc).mp same)
        have last : c ≠ ')' := by
          intro same
          rw [same] at hc
          contradiction
        rw [List.count_cons_of_ne other]
        exact openOther _ (by simp [hb,round]) (by simp [hb,last])
    | none =>
      rw [hc] at h
      have first : c ≠ '(' := by
        intro same
        rw [same] at hc
        contradiction
      rcases own with _ | ⟨e,own⟩
      · -- A round closer would be a delimiter here, and no other one fits a list in parentheses.
        have last : c ≠ ')' := by
          intro same
          have tag : t.tag = .closing := (bracketTag t).2.mp (by rw [hb,same])
          exact inside ⟨rfl,by simp [isDelimiter,tag]⟩
        cases n with
        | zero =>
          cases h
          exact ⟨[],rfl,rfl,openOther _ (by simp [hb,first]) (by simp [hb,last])⟩
        | succ n =>
          dsimp only [List.nil_append,listsDeeper] at h
          rw [if_neg last] at h
          contradiction
      · dsimp only [List.cons_append] at h
        split at h
        next same =>
          cases h
          refine ⟨own,rfl,rfl,?_⟩
          by_cases round : e = ')'
          · rw [round,List.cons_append,List.count_cons_self]
            exact openClosing _ ((bracketTag t).2.mp (by rw [hb,same,round]))
          · rw [List.cons_append,List.count_cons_of_ne round]
            exact openOther _ (by simp [hb,first]) (by simp [hb,same,round])
        next => contradiction

/- A cut sees its own brackets only, however many lists are open around it. -/
theorem insideCut {n : Nat} {own final : List Char} {ts a rest : List Token}
    (h : cutFrom own.length ts = (a,rest)) (behind : awaitedBehind (own ++ lists n) a = some final) :
    ∃ own', final = own' ++ lists n ∧ own'.length = depth own.length a ∧
      openBehind ((own ++ lists n).count ')') a = some (final.count ')') := by
  induction ts generalizing own a with
  | nil => cases h; cases behind; exact ⟨own,rfl,rfl,rfl⟩
  | cons t ts ih =>
    rw [cutFromCons] at h
    split at h
    next => cases h; cases behind; exact ⟨own,rfl,rfl,rfl⟩
    next inside =>
      cases h
      obtain ⟨next,first,rest⟩ := foldCons.mp behind
      obtain ⟨own₁,rfl,size,step⟩ := insideToken inside first
      obtain ⟨own₂,same,size',steps⟩ := ih (by rw [size]) rest
      refine ⟨own₂,same,?_,foldCons.mpr ⟨_,step,steps⟩⟩
      change _ = depth (t.depthAfter own.length) _
      rw [size',size]

theorem listsCount (n : Nat) : (lists n).count ')' = n := by simp [lists]

theorem listsLength (n : Nat) : (lists n).length = n := by simp [lists]

/-- Tokens cut off in front of a delimiter leave the lists around them as they were. -/
theorem stretchSettled {n : Nat} {final : List Char} {a rest : List Token}
    (h : cut (a ++ rest) = (a,rest)) (stops : rest ≠ [])
    (behind : awaitedBehind (lists n) a = some final) :
    final = lists n ∧ openBehind n a = some n := by
  have own := show cutFrom ([] : List Char).length (a ++ rest) = (a,rest) from h
  obtain ⟨own,same,size,steps⟩ := insideCut own behind
  have level : depth 0 a = 0 := (cutEnded h).2.2 stops
  have none : own = [] := List.length_eq_zero_iff.mp (size.trans level)
  subst none
  cases same
  rw [List.nil_append,listsCount] at steps
  exact ⟨rfl,steps⟩

end ColumnDecl.Token
