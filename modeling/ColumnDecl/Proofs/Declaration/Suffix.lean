import ColumnDecl.Proofs.Declaration.Passage

/-! What follows a type, taken apart: modifiers, then at most one clause, then what stands behind
the declaration. -/
namespace ColumnDecl.Declaration
open Token

inductive Modifiers : Bool → Nat → List Token → Bool → Nat → Prop where
  | none (nullable : Bool) (stop : Nat) : Modifiers nullable stop [] nullable stop
  | null {nullable stop t ts last final} (here : modifier? t = some .null)
      (rest : Modifiers true t.stop ts last final) : Modifiers nullable stop (t :: ts) last final
  | notNull {nullable stop t u ts last final} (here : modifier? t = some .not)
      (next : modifier? u = some .null) (rest : Modifiers false u.stop ts last final) :
      Modifiers nullable stop (t :: u :: ts) last final

/-- A clause runs to the first delimiter outside its brackets; without a clause there is nothing. -/
def Clause : List Token → List Token → Prop
  | [], _ => True
  | t :: body, rest => modifier? t = some .clause ∧ cut (body ++ rest) = (body, rest)

structure Suffixed (nullable : Bool) (stop : Nat) (ts : List Token) (r : Suffix)
    (mods clause : List Token) : Prop where
  whole : ts = mods ++ clause ++ r.rest
  ended : Ended r.rest
  modifiers : Modifiers nullable stop mods r.nullable r.stop
  clause : Clause clause r.rest

theorem modifierWord {t : Token} {k : Modifier} (h : modifier? t = some k) :
    t.tag = .identifier := by
  unfold modifier? at h
  split at h
  next word => exact word
  next => contradiction

theorem modifierInside {t : Token} {k : Modifier} (h : modifier? t = some k) :
    t.isDelimiter = false := by
  simp [isDelimiter,modifierWord h]

theorem suffixSound {s : Scope} {nullable : Bool} {stop : Nat} {ts : List Token} {r : Suffix}
    (h : suffix s nullable stop ts = .ok r) :
    ∃ mods clause, Suffixed nullable stop ts r mods clause := by
  fun_induction suffix s nullable stop ts with
  | case1 nullable stop => cases h; exact ⟨[],[],rfl,trivial,.none _ _,trivial⟩
  | case2 nullable stop t ts delimiter =>
    cases h; exact ⟨[],[],rfl,delimiter,.none _ _,trivial⟩
  | case3 nullable stop t ts inside here ih =>
    obtain ⟨mods,clause,done⟩ := ih h
    exact ⟨t :: mods,clause,congrArg (t :: ·) done.whole,done.ended,.null here done.modifiers,
      done.clause⟩
  | case4 => contradiction
  | case5 nullable stop t inside here n rest next ih =>
    obtain ⟨mods,clause,done⟩ := ih h
    exact ⟨t :: n :: mods,clause,congrArg (t :: n :: ·) done.whole,done.ended,
      .notNull here next done.modifiers,done.clause⟩
  | case6 => contradiction
  | case7 nullable stop t ts inside here =>
    cases h
    obtain ⟨_,ended,_⟩ := cutEnded (show cutFrom 0 ts = ((cut ts).1,(cut ts).2) from rfl)
    refine ⟨[],t :: (cut ts).1,congrArg (t :: ·) (cutRejoins ts).symm,ended,.none _ _,here,?_⟩
    change cut ((cut ts).1 ++ (cut ts).2) = _
    rw [cutRejoins]
  | case8 => contradiction

theorem clauseComplete {s : Scope} {nullable : Bool} {stop : Nat} {clause rest : List Token}
    (h : Clause clause rest) (ended : Ended rest) :
    suffix s nullable stop (clause ++ rest) = .ok ⟨nullable,stop,rest⟩ := by
  rcases clause with _ | ⟨t,body⟩
  · rcases rest with _ | ⟨d,rest⟩
    · rfl
    · unfold suffix
      exact if_pos ended
  · rw [List.cons_append]
    unfold suffix
    rw [modifierInside h.1,h.1,h.2]
    rfl

theorem modifiersComplete {s : Scope} {nullable last : Bool} {stop final : Nat}
    {mods ts : List Token} (h : Modifiers nullable stop mods last final) :
    suffix s nullable stop (mods ++ ts) = suffix s last final ts := by
  induction h with
  | none => rfl
  | null here rest ih =>
    rw [List.cons_append]
    conv_lhs => unfold suffix
    rw [modifierInside here,here]
    exact ih
  | notNull here next rest ih =>
    rw [List.cons_append,List.cons_append]
    conv_lhs => unfold suffix
    rw [modifierInside here,here]
    simpa [next] using ih

theorem suffixComplete {s : Scope} {nullable : Bool} {stop : Nat} {ts : List Token} {r : Suffix}
    {mods clause : List Token} (h : Suffixed nullable stop ts r mods clause) :
    suffix s nullable stop ts = .ok r := by
  rw [h.whole,List.append_assoc,modifiersComplete h.modifiers]
  exact clauseComplete h.clause h.ended

theorem modifiersClose {nullable last : Bool} {stop final : Nat} {mods used : List Token}
    (h : Modifiers nullable stop mods last final) (closes : Closes used stop) :
    Closes (used ++ mods) final := by
  induction h generalizing used with
  | none => rwa [List.append_nil]
  | @null nullable stop t ts last final here rest ih =>
    rw [← List.singleton_append,← List.append_assoc]
    exact ih (closesBehind used rfl)
  | @notNull nullable stop t u ts last final here next rest ih =>
    rw [← List.singleton_append,← List.singleton_append (x := u),← List.append_assoc,
      ← List.append_assoc]
    exact ih (closesBehind (used ++ [t]) rfl)

section
variable {m : Passage}

theorem sameModifier {t u : Token} (h : m.Same t u) : modifier? t = modifier? u := by
  unfold modifier?
  rw [Passage.sameTag h,Passage.sameValue h]

theorem modifiersCarried {nullable last : Bool} {stop stop' final : Nat} {mods us : List Token}
    (h : Modifiers nullable stop mods last final) (same : m.Sames mods us) (at_ : m.At stop stop') :
    ∃ final', m.At final final' ∧ Modifiers nullable stop' us last final' := by
  induction h generalizing us stop' with
  | none nullable stop => cases same; exact ⟨stop',at_,.none _ _⟩
  | null here rest ih =>
    obtain ⟨u,us,first,tail,rfl⟩ := List.forall₂_cons_left_iff.mp same
    obtain ⟨final',position,done⟩ := ih tail (Passage.sameStop first)
    exact ⟨final',position,.null (sameModifier first ▸ here) done⟩
  | notNull here next rest ih =>
    obtain ⟨u,us,first,others,rfl⟩ := List.forall₂_cons_left_iff.mp same
    obtain ⟨v,us,second,tail,rfl⟩ := List.forall₂_cons_left_iff.mp others
    obtain ⟨final',position,done⟩ := ih tail (Passage.sameStop second)
    exact ⟨final',position,.notNull (sameModifier first ▸ here) (sameModifier second ▸ next) done⟩

/-- What may be put in the place of `rest` behind `used`: the end, or a delimiter unless a clause
reads up to the end of text and leaves brackets open. -/
structure Replaces (used rest more : List Token) : Prop where
  ended : Ended more
  level : more = [] ∨ rest ≠ [] ∨ Level used

theorem replacesSuffix {used v rest more : List Token} (h : Replaces used rest more)
    (suffix : v <:+ used) : Replaces v rest more :=
  ⟨h.ended,h.level.imp_right (Or.imp_right fun level => levelSuffix level suffix)⟩

theorem clauseCarried {clause us rest more : List Token} (h : Clause clause rest)
    (same : m.Sames clause us) (replaces : Replaces clause rest more) : Clause us more := by
  rcases clause with _ | ⟨t,body⟩
  · cases same; trivial
  · obtain ⟨u,us,first,tail,rfl⟩ := List.forall₂_cons_left_iff.mp same
    refine ⟨sameModifier first ▸ h.1,cutAgain h.2 (Passage.samesAlike tail) replaces.ended ?_ rfl⟩
    rcases replaces.level with none | some | level
    · exact .inl none
    · exact .inr ((cutEnded h.2).2.2 some)
    · exact .inr (level body (List.suffix_cons t body))

end
end ColumnDecl.Declaration
