import ColumnDecl.Proofs.Column.View
import ColumnDecl.Proofs.Declaration.Agreement
import ColumnDecl.Proofs.Declaration.Excerpt
import ColumnDecl.Proofs.Token.Words

/-! Two scopes of one language whose tokens correspond, with a view that tells what may differ between
them: letters of names, offsets, type texts. A token that is no name is written the same in both. -/
namespace ColumnDecl
open Token Declaration

structure Likeness where
  view : Column.View
  source : Scope
  target : Scope
  left : List Token
  right : List Token
  At : Nat → Nat → Prop
  letters : ∀ c d, view.letter c = view.letter d → Text.upperChar c = Text.upperChar d
  functions : view.function = true → ∀ c, view.letter c = c
  keywords : source.keywords = target.keywords
  maxDepth : source.maxDepth = target.maxDepth
  lexedLeft : Lexes 0 (source.text.take source.stop) left
  lexedRight : Lexes 0 (target.text.take target.stop) right
  fitsLeft : source.stop ≤ source.text.length
  fitsRight : target.stop ≤ target.text.length
  ends : At source.stop target.stop
  excerpts : ∀ {a b c d}, At a b → At c d →
    view.excerpt (source.text.slice a c) = view.excerpt (target.text.slice b d)

namespace Likeness

structure Like (m : Likeness) (t u : Token) : Prop where
  tag : t.tag = u.tag
  word : m.view.word t.raw = m.view.word u.raw
  written : t.tag ≠ .identifier → t.raw = u.raw
  start : m.At t.start u.start
  stop : m.At t.stop u.stop

/-- Tokens up to the end of either scope. -/
structure Likes (m : Likeness) (ts us : List Token) : Prop where
  each : List.Forall₂ m.Like ts us
  left : ts <:+ m.left
  right : us <:+ m.right

/-- The same fault at corresponding places. -/
structure LikeFault (m : Likeness) (f g : Fault) : Prop where
  cause : m.view.SameCause f.cause g.cause
  start : Option.Rel m.At f.start g.start
  stop : Option.Rel m.At f.stop g.stop

abbrev Failed (m : Likeness) : Failure → Failure → Prop := Failure.Paired m.LikeFault

section
variable {m : Likeness} {t u : Token} {ts us : List Token} {α β : Type} {read : α → β → Prop}
  {c d : Cause} {a b a' b' : Nat}

theorem likesNil (same : m.Likes [] us) : us = [] := by
  cases same.each
  rfl

theorem likesCons (same : m.Likes (t :: ts) us) :
    ∃ u us', us = u :: us' ∧ m.Like t u ∧ m.Likes ts us' := by
  obtain ⟨u,us',first,rest,rfl⟩ := List.forall₂_cons_left_iff.mp same.each
  exact ⟨u,us',rfl,first,rest,(List.suffix_cons t ts).trans same.left,
    (List.suffix_cons u us').trans same.right⟩

theorem likesEmpty (same : m.Likes ts us) : ts = [] ↔ us = [] := by
  have sizes := same.each.length_eq
  cases ts <;> cases us <;> simp_all

/-! Words. -/

theorem upperLike {v w : Text} (same : m.view.word v = m.view.word w) :
    Text.upper v = Text.upper w := by
  induction v generalizing w with
  | nil =>
    have none : w = [] := by simpa [Column.View.word] using same.symm
    rw [none]
  | cons c v ih =>
    rcases w with _ | ⟨d,w⟩
    · simp [Column.View.word] at same
    simp only [Column.View.word,List.map_cons,List.cons.injEq] at same
    simp [m.letters c d same.1,ih same.2]

theorem likeValue (same : m.Like t u) : m.view.word t.value = m.view.word u.value := by
  by_cases name : t.tag = .identifier
  · have name' : u.tag = .identifier := same.tag ▸ name
    simpa [Token.value,name,name'] using same.word
  · simp only [Token.value,same.tag,same.written name]

theorem likeWritten (same : m.Like t u) (other : t.tag ≠ .identifier) : Alike t u :=
  ⟨same.tag,same.written other⟩

theorem likeDelimiter (same : m.Like t u) : t.isDelimiter = u.isDelimiter := by
  simp only [isDelimiter,same.tag]

theorem likeDepth (same : m.Like t u) (k : Nat) : t.depthAfter k = u.depthAfter k := by
  by_cases name : t.tag = .identifier
  · have name' : u.tag = .identifier := same.tag ▸ name
    simp [depthAfter,opensBracket,closesBracket,name,name']
  · exact alikeDepth (likeWritten same name) k

theorem likeModifier (same : m.Like t u) : modifier? t = modifier? u := by
  unfold modifier? Modifier.ofWord?
  rw [same.tag,upperLike (likeValue same)]

/-! Cuts. -/

theorem cutFromLike (k : Nat) (same : List.Forall₂ m.Like ts us) :
    List.Forall₂ m.Like (cutFrom k ts).1 (cutFrom k us).1 ∧
      List.Forall₂ m.Like (cutFrom k ts).2 (cutFrom k us).2 := by
  induction same generalizing k with
  | nil => exact ⟨.nil,.nil⟩
  | @cons t u ts us head tail ih =>
    simp only [cutFromCons,likeDelimiter head,likeDepth head]
    split
    · exact ⟨.nil,.cons head tail⟩
    · obtain ⟨first,second⟩ := ih (u.depthAfter k)
      exact ⟨.cons head first,second⟩

theorem cutSuffix (ts : List Token) : (cut ts).2 <:+ ts := ⟨_,cutRejoins ts⟩

theorem cutLike (same : m.Likes ts us) :
    List.Forall₂ m.Like (cut ts).1 (cut us).1 ∧ m.Likes (cut ts).2 (cut us).2 := by
  obtain ⟨first,second⟩ := cutFromLike 0 same.each
  exact ⟨first,second,(cutSuffix ts).trans same.left,(cutSuffix us).trans same.right⟩

/-! Faults. -/

theorem overLike (cause : m.view.SameCause c d) (start : m.At a b) (stop : m.At a' b') :
    Agree m.Failed read (m.source.faultOver c a a') (m.target.faultOver d b b') :=
  .failed (.fault ⟨cause,.some start,.some stop⟩)

theorem atLike (cause : m.view.SameCause c d) (start : m.At a b) :
    Agree m.Failed read (m.source.faultAt c a) (m.target.faultAt d b) :=
  .failed (.fault ⟨cause,.some start,.none⟩)

theorem onLike (cause : m.view.SameCause c d) (same : m.Like t u) :
    Agree m.Failed read (m.source.faultOn c t) (m.target.faultOn d u) :=
  overLike cause same.start same.stop

/-- A cause that names a word. -/
theorem wordCause {v w : Text} (f : Text → Cause) (same : m.view.word v = m.view.word w)
    (category : ∀ v w, (f v).category = (f w).category) : m.view.SameCause (f v) (f w) := by
  refine ⟨category v w,fun whole => ?_⟩
  rw [whole,Column.View.wholeWord,Column.View.wholeWord] at same
  rw [same]

end

/-! What follows a type. -/

structure LikeSuffix (m : Likeness) (r r' : Suffix) : Prop where
  nullable : r.nullable = r'.nullable
  stop : m.At r.stop r'.stop
  rest : m.Likes r.rest r'.rest

theorem suffixCons (s : Scope) (nullable : Bool) (stop : Nat) (t : Token) (ts : List Token) :
    suffix s nullable stop (t :: ts) =
      if t.isDelimiter then .ok ⟨nullable,stop,t :: ts⟩
      else match modifier? t with
        | some .null => suffix s true t.stop ts
        | some .not =>
          match ts with
          | [] => s.faultOn .nullExpectedAfterNot t
          | n :: rest =>
            if modifier? n = some .null then suffix s false n.stop rest
            else s.faultOn .nullExpectedAfterNot t
        | some .clause => .ok ⟨nullable,stop,(cut ts).2⟩
        | none => s.faultOn (.unexpectedInDeclaration t.raw) t :=
  suffix.eq_def s nullable stop (t :: ts)

theorem suffixLike {m : Likeness} {nullable : Bool} {stop stop' : Nat} {ts us : List Token}
    (at_ : m.At stop stop') (same : m.Likes ts us) :
    Agree m.Failed m.LikeSuffix (suffix m.source nullable stop ts)
      (suffix m.target nullable stop' us) := by
  fun_induction suffix m.source nullable stop ts generalizing us stop' with
  | case1 nullable stop =>
    cases likesNil same
    exact .read ⟨rfl,at_,same⟩
  | case2 nullable stop t ts delimiter =>
    obtain ⟨u,us,rfl,first,_⟩ := likesCons same
    have delimiter' : u.isDelimiter = true := likeDelimiter first ▸ delimiter
    rw [suffixCons,if_pos delimiter']
    exact .read ⟨rfl,at_,same⟩
  | case3 nullable stop t ts inside here ih =>
    obtain ⟨u,us,rfl,first,rest⟩ := likesCons same
    rw [suffixCons,if_neg (likeDelimiter first ▸ inside),← likeModifier first,here]
    exact ih first.stop rest
  | case4 nullable stop t inside here =>
    obtain ⟨u,us,rfl,first,rest⟩ := likesCons same
    cases likesNil rest
    rw [suffixCons,if_neg (likeDelimiter first ▸ inside),← likeModifier first,here]
    exact onLike (m.view.sameCause _) first
  | case5 nullable stop t inside here n ts next ih =>
    obtain ⟨u,_,rfl,first,rest⟩ := likesCons same
    obtain ⟨n',us,rfl,second,rest⟩ := likesCons rest
    rw [suffixCons,if_neg (likeDelimiter first ▸ inside),← likeModifier first,here]
    dsimp only
    rw [if_pos (likeModifier second ▸ next)]
    exact ih second.stop rest
  | case6 nullable stop t inside here n ts other =>
    obtain ⟨u,_,rfl,first,rest⟩ := likesCons same
    obtain ⟨n',us,rfl,second,_⟩ := likesCons rest
    rw [suffixCons,if_neg (likeDelimiter first ▸ inside),← likeModifier first,here]
    dsimp only
    rw [if_neg (likeModifier second ▸ other)]
    exact onLike (m.view.sameCause _) first
  | case7 nullable stop t ts inside here =>
    obtain ⟨u,us,rfl,first,rest⟩ := likesCons same
    rw [suffixCons,if_neg (likeDelimiter first ▸ inside),← likeModifier first,here]
    exact .read ⟨rfl,at_,(cutLike rest).2⟩
  | case8 nullable stop t ts inside here =>
    obtain ⟨u,us,rfl,first,_⟩ := likesCons same
    rw [suffixCons,if_neg (likeDelimiter first ▸ inside),← likeModifier first,here]
    exact onLike (wordCause _ first.word fun _ _ => rfl) first

end Likeness
end ColumnDecl
