import ColumnDecl.Proofs.Token.Lexing
import ColumnDecl.Token.Bracket

/-! Proper nesting of brackets, each closed by its own kind, beside the single depth that a cut
counts. At the end of properly nested tokens the depth is zero, wherever among them the count
began. -/
namespace ColumnDecl.Token

def bracket? (t : Token) : Option Char :=
  match t.tag with
  | .opening => some '('
  | .closing => some ')'
  | .other =>
    if t.raw = ['['] then some '[' else if t.raw = [']'] then some ']'
    else if t.raw = ['\x7b'] then some '\x7b' else if t.raw = ['\x7d'] then some '\x7d' else none
  | _ => none

def closer? (c : Char) : Option Char :=
  if c = '(' then some ')' else if c = '[' then some ']' else if c = '\x7b' then some '\x7d' else none

/-- Whether the brackets are properly nested; `awaited` are the closers of those open so far, the
innermost first. -/
def nestedFrom (awaited : List Char) : List Token → Bool
  | [] => awaited.isEmpty
  | t :: ts =>
    match t.bracket? with
    | none => nestedFrom awaited ts
    | some c =>
      match closer? c with
      | some d => nestedFrom (d :: awaited) ts
      | none =>
        match awaited with
        | [] => false
        | d :: outer => c == d && nestedFrom outer ts

def nested (ts : List Token) : Bool := nestedFrom [] ts

def depth (start : Nat) (ts : List Token) : Nat := ts.foldl depthAfter start

theorem depthAfterBracket (start : Nat) (t : Token) : t.depthAfter start =
    match t.bracket? with
    | none => start
    | some c => if (closer? c).isSome then start + 1 else start - 1 := by
  cases h : t.tag
  case other =>
    unfold depthAfter opensBracket closesBracket bracket?
    by_cases square : t.raw = ['[']
    · simp [h,square,closer?]
    by_cases squared : t.raw = [']']
    · simp [h,squared,closer?]
    by_cases curly : t.raw = ['\x7b']
    · simp [h,curly,closer?]
    by_cases curled : t.raw = ['\x7d']
    · simp [h,curled,closer?]
    simp [h,square,squared,curly,curled]
  all_goals simp [depthAfter,opensBracket,closesBracket,bracket?,closer?,h]

theorem depthNested {awaited : List Char} {ts : List Token} (h : nestedFrom awaited ts = true) :
    depth awaited.length ts = 0 := by
  induction ts generalizing awaited with
  | nil => simpa [nestedFrom,depth] using h
  | cons t ts ih =>
    have first := depthAfterBracket awaited.length t
    unfold nestedFrom at h
    change depth (t.depthAfter awaited.length) ts = 0
    rw [first]
    cases hb : t.bracket? with
    | none => rw [hb] at h; exact ih h
    | some c =>
      rw [hb] at h
      dsimp only at h ⊢
      cases hc : closer? c with
      | some d => rw [hc] at h; exact ih h
      | none =>
        rw [hc] at h
        rcases awaited with _ | ⟨d,outer⟩
        · contradiction
        · exact ih (Bool.and_eq_true_iff.mp h).2

theorem depthAfterMono {a b : Nat} (h : a ≤ b) (t : Token) : t.depthAfter a ≤ t.depthAfter b := by
  unfold depthAfter
  split
  · omega
  · split <;> omega

theorem depthMono {a b : Nat} (h : a ≤ b) (ts : List Token) : depth a ts ≤ depth b ts := by
  induction ts generalizing a b with
  | nil => exact h
  | cons t ts ih => exact ih (depthAfterMono h t)

/-- A count begun anywhere among these tokens ends at zero. -/
def Level (ts : List Token) : Prop := ∀ v, v <:+ ts → depth 0 v = 0

theorem levelSuffix {ts v : List Token} (h : Level ts) (suffix : v <:+ ts) : Level v :=
  fun _ inner => h _ (inner.trans suffix)

theorem nestedLevel {ts : List Token} (h : nested ts = true) : Level ts := by
  intro v h
  obtain ⟨u,rfl⟩ := h
  have whole : depth 0 (u ++ v) = 0 := depthNested h
  have split : depth 0 (u ++ v) = depth (depth 0 u) v := List.foldl_append
  have := depthMono (Nat.zero_le (depth 0 u)) v
  omega

def NestedText (t : Text) : Prop := ∃ ts, stream t = .ok ts ∧ nested ts = true

instance (t : Text) : Decidable (NestedText t) :=
  match h : stream t with
  | .error _ => .isFalse fun ⟨_,found,_⟩ => by rw [h] at found; contradiction
  | .ok ts =>
    if good : nested ts = true then .isTrue ⟨ts,h,good⟩
    else .isFalse fun ⟨us,found,other⟩ => by rw [h] at found; cases found; exact good other

/-! Cuts. -/

def Ended : List Token → Prop
  | [] => True
  | t :: _ => t.isDelimiter = true

/-- The same token, wherever it stands. -/
def Alike (t u : Token) : Prop := t.tag = u.tag ∧ t.raw = u.raw

theorem alikeDelimiter {t u : Token} (h : Alike t u) : t.isDelimiter = u.isDelimiter := by
  simp only [isDelimiter,h.1]

theorem endedAlike {t u : Token} {ts us : List Token} (h : Alike t u) (ended : Ended (t :: ts)) :
    Ended (u :: us) :=
  (alikeDelimiter h).symm.trans ended

theorem endedTag {t : Token} {ts : List Token} (h : Ended (t :: ts)) :
    t.tag = .comma ∨ t.tag = .closing := by
  simpa [Ended,isDelimiter] using h

theorem alikeDepth {t u : Token} (h : Alike t u) (start : Nat) :
    t.depthAfter start = u.depthAfter start := by
  unfold depthAfter opensBracket closesBracket
  rw [h.1,h.2]

theorem alikeValue {t u : Token} (h : Alike t u) : t.value = u.value := by
  simp only [value,h.1,h.2]

theorem alikeBracket {t u : Token} (h : Alike t u) : t.bracket? = u.bracket? := by
  unfold bracket?
  rw [h.1,h.2]

/- Properly nested tokens, wherever they stand, leave the brackets around them as they are. -/
theorem nestedAround {awaited outer : List Char} {ts us rest : List Token}
    (h : nestedFrom awaited ts = true) (same : List.Forall₂ Alike ts us) :
    nestedFrom (awaited ++ outer) (us ++ rest) = nestedFrom outer rest := by
  induction same generalizing awaited with
  | nil =>
    rw [List.isEmpty_iff.mp h]
    rfl
  | @cons t u ts us alike same ih =>
    unfold nestedFrom at h
    rw [List.cons_append,nestedFrom,← alikeBracket alike]
    cases hb : t.bracket? with
    | none => rw [hb] at h; exact ih h
    | some c =>
      rw [hb] at h
      dsimp only at h ⊢
      cases hc : closer? c with
      | some d => rw [hc] at h; exact @ih (d :: awaited) h
      | none =>
        rw [hc] at h
        rcases awaited with _ | ⟨d,awaited⟩
        · contradiction
        · obtain ⟨closes,inside⟩ := Bool.and_eq_true_iff.mp h
          dsimp only [List.cons_append]
          rw [closes,Bool.true_and]
          exact ih inside

theorem nestedAlike {ts us : List Token} (h : nested ts = true) (same : List.Forall₂ Alike ts us) :
    nested us = true := by
  have around := @nestedAround [] [] ts us [] h same
  rw [List.append_nil,List.append_nil] at around
  exact around

def cutFrom : Nat → List Token → List Token × List Token := cutAt (fun _ => true)

theorem cutFromCons (k : Nat) (t : Token) (ts : List Token) : cutFrom k (t :: ts) =
    if k = 0 ∧ t.isDelimiter = true then ([], t :: ts)
    else (t :: (cutFrom (t.depthAfter k) ts).1, (cutFrom (t.depthAfter k) ts).2) := by
  simp only [cutFrom,cutAt,and_true]

theorem cutEnded {k : Nat} {ts a rest : List Token} (h : cutFrom k ts = (a, rest)) :
    ts = a ++ rest ∧ Ended rest ∧ (rest ≠ [] → depth k a = 0) := by
  induction ts generalizing k a with
  | nil => cases h; exact ⟨rfl,trivial,fun some => absurd rfl some⟩
  | cons t ts ih =>
    rw [cutFromCons] at h
    split at h
    next here => cases h; exact ⟨rfl,here.2,fun _ => here.1⟩
    next =>
      cases h
      obtain ⟨same,ended,level⟩ := ih rfl
      exact ⟨congrArg (t :: ·) same,ended,level⟩

/- The tokens in front of a cut are cut off again in front of any other end. Only at a delimiter
must the depth have come back to zero. -/
theorem cutAgain {k : Nat} {ts us a b rest more : List Token} (h : cutFrom k ts = (a, rest))
    (same : List.Forall₂ Alike a b) (ended : Ended more) (level : more = [] ∨ depth k a = 0)
    (all : us = b ++ more) : cutFrom k us = (b, more) := by
  subst all
  induction ts generalizing k a b with
  | nil =>
    cases h
    cases same
    rcases more with _ | ⟨d,more⟩
    · rfl
    · have zero : k = 0 := by simpa [depth] using level
      rw [List.nil_append,cutFromCons,if_pos ⟨zero,ended⟩]
  | cons t ts ih =>
    rw [cutFromCons] at h
    split at h
    next here =>
      cases h
      cases same
      rcases more with _ | ⟨d,more⟩
      · rfl
      · rw [List.nil_append,cutFromCons,if_pos ⟨here.1,ended⟩]
    next inside =>
      cases h
      obtain ⟨u,b,alike,tail,rfl⟩ := List.forall₂_cons_left_iff.mp same
      rw [List.cons_append,cutFromCons,← alikeDelimiter alike,if_neg inside,← alikeDepth alike,
        ih rfl tail level]

/- The count of open brackets is exact in properly nested tokens, so a delimiter at which it is zero
stands outside of all of them. -/
theorem cutNested {awaited : List Char} {ts a rest : List Token} {t : Token}
    (h : nestedFrom awaited ts = true) (here : cutFrom awaited.length ts = (a,t :: rest)) :
    t.tag = .comma ∧ nested rest = true := by
  induction ts generalizing awaited a with
  | nil => exact nomatch here
  | cons u ts ih =>
    have count := depthAfterBracket awaited.length u
    rw [cutFromCons] at here
    unfold nestedFrom at h
    split at here
    next ends =>
      cases here
      have none : awaited = [] := List.length_eq_zero_iff.mp ends.1
      subst none
      have delimits : Ended (t :: rest) := ends.2
      rcases endedTag delimits with comma | closing
      · refine ⟨comma,?_⟩
        have quiet : t.bracket? = none := by rw [bracket?,comma]
        rwa [quiet] at h
      · have closes : t.bracket? = some ')' := by rw [bracket?,closing]
        rw [closes] at h
        exact nomatch h
    next =>
      obtain ⟨inside,behind⟩ := Prod.mk.inj here
      have further : cutFrom (u.depthAfter awaited.length) ts =
          ((cutFrom (u.depthAfter awaited.length) ts).1,t :: rest) := Prod.ext rfl behind
      cases hb : u.bracket? with
      | none =>
        rw [hb] at h count
        rw [count] at further
        exact ih h further
      | some c =>
        rw [hb] at h count
        dsimp only at h count
        cases hc : closer? c with
        | some d =>
          rw [hc] at h count
          rw [count] at further
          exact @ih (d :: awaited) _ h further
        | none =>
          rw [hc] at h count
          rw [count] at further
          rcases awaited with _ | ⟨d,awaited⟩
          · contradiction
          · exact ih (Bool.and_eq_true_iff.mp h).2 further

end ColumnDecl.Token
