import ColumnDecl.Proofs.Declaration.Likeness
import ColumnDecl.Proofs.Declaration.Literal

/-! Literal parameters in scopes that are alike. Numbers, strings and signs are written the same in
both, so they stand for the same values, and what is refused is refused in both. -/
namespace ColumnDecl

namespace Declaration
open Token

theorem argumentsStep (start : Nat) (ts : List Token) : arguments? start ts =
    match (cut ts).2 with
    | [] => none
    | d :: rest =>
      if d.tag = .closing then some ⟨[⟨start,d.start,(cut ts).1⟩],d,rest⟩
      else (arguments? d.stop rest).map fun more =>
        { more with items := ⟨start,d.start,(cut ts).1⟩ :: more.items } := by
  rw [arguments?.eq_def]
  split
  next none => rw [none]
  next here => rw [here]

end Declaration

namespace Likeness
open Token Declaration

structure LikeArgument (m : Likeness) (a b : Argument) : Prop where
  start : m.At a.start b.start
  stop : m.At a.stop b.stop
  tokens : List.Forall₂ m.Like a.tokens b.tokens

/-- Arguments of two lists, of which there is at least one. -/
structure LikeItems (m : Likeness) (as bs : List Argument) : Prop where
  each : List.Forall₂ m.LikeArgument as bs
  some : as ≠ []

structure LikeArguments (m : Likeness) (x y : Arguments) : Prop where
  items : m.LikeItems x.items y.items
  close : m.Like x.close y.close
  rest : m.Likes x.rest y.rest

section
variable {m : Likeness} {ts us : List Token} {a b : Argument} {as bs : List Argument}
  {start start' : Nat}

theorem itemsLike (at_ : m.At start start') (same : m.Likes ts us) :
    Option.Rel m.LikeArguments (arguments? start ts) (arguments? start' us) := by
  fun_induction arguments? start ts generalizing us start' with
  | case1 start ts found =>
    have rest := (cutLike same).2
    rw [found] at rest
    rw [argumentsStep start' us,likesNil rest]
    exact .none
  | case2 start ts d rest found item =>
    rename_i closing
    obtain ⟨taken,left⟩ := cutLike same
    rw [found] at left
    obtain ⟨e,rest',shape,mate,tail⟩ := likesCons left
    rw [argumentsStep start' us,shape]
    dsimp only
    rw [if_pos (mate.tag ▸ closing)]
    have one : m.LikeArgument item ⟨start',e.start,(cut us).1⟩ := ⟨at_,mate.start,taken⟩
    exact .some ⟨⟨.cons one .nil,List.cons_ne_nil _ _⟩,mate,tail⟩
  | case3 start ts d rest found item inner =>
    rename_i ih
    obtain ⟨taken,left⟩ := cutLike same
    rw [found] at left
    obtain ⟨e,rest',shape,mate,tail⟩ := likesCons left
    rw [argumentsStep start' us,shape]
    dsimp only
    rw [if_neg (mate.tag ▸ inner)]
    have one : m.LikeArgument item ⟨start',e.start,(cut us).1⟩ := ⟨at_,mate.start,taken⟩
    have more := ih mate.stop tail
    generalize arguments? d.stop rest = x, arguments? e.stop rest' = y at more ⊢
    cases more with
    | none => exact .none
    | some more =>
      exact .some ⟨⟨.cons one more.items.each,List.cons_ne_nil _ _⟩,more.close,more.rest⟩

theorem argumentsLike {o p : Token} (opening : m.Like o p) (same : m.Likes ts us) :
    Agree m.Failed m.LikeArguments (arguments m.source o ts) (arguments m.target p us) := by
  have found := itemsLike opening.stop same
  unfold arguments
  generalize arguments? o.stop ts = x, arguments? p.stop us = y at found ⊢
  cases found with
  | none => exact atLike (m.view.sameCause _) opening.start
  | some args => exact .read args

/-! One argument. -/

theorem singleLike (what : String) (same : m.LikeArgument a b) :
    Agree m.Failed m.Like (single m.source what a) (single m.target what b) := by
  unfold single
  have each := same.tokens
  generalize a.tokens = ts, b.tokens = us at each ⊢
  cases each with
  | nil => exact overLike (m.view.sameCause _) same.start same.stop
  | cons first rest =>
    cases rest with
    | nil => exact .read first
    | cons => exact overLike (m.view.sameCause _) same.start same.stop

theorem integerLike (what : String) {x y : Option Token} (same : Option.Rel m.Like x y) :
    Agree m.Failed (· = ·) (integer m.source what x) (integer m.target what y) := by
  cases same with
  | none => exact .failed (.fault ⟨m.view.sameCause _,.none,.none⟩)
  | @some t u mate =>
    have value : (if t.tag = .number then Integer.read? t.raw else none) =
        if u.tag = .number then Integer.read? u.raw else none := by
      rw [← mate.tag]
      split
      next number => rw [mate.written (by simp [number])]
      next => rfl
    simp only [integer,value]
    split
    · exact .read rfl
    · exact onLike (wordCause (fun w => .notAnInteger what (some w)) mate.word fun _ _ => rfl) mate

theorem boundedLike (what : String) (low high : Int) (same : m.LikeArgument a b) :
    Agree m.Failed (· = ·) (bounded m.source what low high a) (bounded m.target what low high b) := by
  refine (singleLike what same).followed fun t u mate => ?_
  refine (integerLike what (.some mate)).onward fun value => ?_
  split
  · exact .read rfl
  split
  · exact overLike (m.view.sameCause _) same.start same.stop
  · exact .failed (.other fun _ h => nomatch h)

theorem quotedStringLike {x y : Option Token} (at_ : m.At start start') (same : Option.Rel m.Like x y) :
    Agree m.Failed (· = ·) (quotedString m.source start x) (quotedString m.target start' y) := by
  cases same with
  | none => exact atLike (m.view.sameCause _) at_
  | some mate =>
    simp only [quotedString,← mate.tag]
    split
    next string => exact .read (alikeValue (likeWritten mate (by simp [string])))
    next =>
      exact onLike (wordCause (fun w => .expected "quoted string" (some w)) mate.word fun _ _ => rfl)
        mate

theorem timeZoneLike (same : m.LikeArgument a b) :
    Agree m.Failed (· = ·) (timeZone m.source a) (timeZone m.target b) :=
  (singleLike "quoted time zone" same).followed fun _ _ mate =>
    quotedStringLike mate.start (.some mate)

theorem headLike (same : List.Forall₂ m.Like ts us) : Option.Rel m.Like ts.head? us.head? := by
  cases same with
  | nil => exact .none
  | cons head tail => exact .some head

theorem tailLike (same : List.Forall₂ m.Like ts us) : List.Forall₂ m.Like ts.tail us.tail := by
  cases same with
  | nil => exact .nil
  | cons head tail => exact tail

theorem constantLike (same : m.LikeArgument a b) :
    Agree m.Failed (· = ·) (constant m.source a) (constant m.target b) := by
  refine (quotedStringLike same.start (headLike same.tokens)).onward fun label => ?_
  have equals : ∀ {α : Type}, Agree m.Failed (α := α) (· = ·)
      (m.source.faultOver (.equalsExpected label) a.start a.stop)
      (m.target.faultOver (.equalsExpected label) b.start b.stop) :=
    overLike (m.view.sameCause _) same.start same.stop
  have behind := tailLike same.tokens
  generalize a.tokens.tail = ts, b.tokens.tail = us at behind ⊢
  cases behind with
  | nil => exact equals
  | cons mate rest =>
    dsimp only
    rw [← mate.tag]
    split
    next =>
      refine (integerLike _ (headLike rest)).onward fun code => ?_
      have last := tailLike rest
      split
      next none =>
        rw [none] at last
        rw [List.forall₂_nil_left_iff.mp last]
        exact .read rfl
      next some =>
        rw [some] at last
        obtain ⟨u,us,extra,_,whole⟩ := List.forall₂_cons_left_iff.mp last
        rw [whole]
        exact onLike (wordCause _ extra.word fun _ _ => rfl) extra
    next => exact equals

theorem writtenLike (same : m.LikeArgument a b) :
    Agree m.Failed (fun v w => m.view.word v = m.view.word w) (a.written m.source)
      (b.written m.target) := by
  have raws : ∀ {ts us : List Token}, List.Forall₂ m.Like ts us →
      m.view.word (ts.flatMap Token.raw) = m.view.word (us.flatMap Token.raw) := by
    intro ts us each
    induction each with
    | nil => rfl
    | cons head tail ih => simp only [List.flatMap_cons,Column.View.wordAppend,head.word,ih]
  unfold Argument.written
  have each := same.tokens
  generalize a.tokens = ts, b.tokens = us at each ⊢
  cases each with
  | nil => exact atLike (m.view.sameCause _) same.start
  | cons head tail => exact .read (raws (.cons head tail))

/-! Lists of arguments. -/

theorem overAllLike {cause : Cause} {α β : Type} {read : α → β → Prop} (same : m.LikeItems as bs) :
    Agree m.Failed read (faultOverAll m.source cause as) (faultOverAll m.target cause bs) := by
  have last : ∃ x y, as.getLast? = some x ∧ bs.getLast? = some y ∧ m.LikeArgument x y := by
    cases here : as.getLast? with
    | none => exact absurd (List.getLast?_eq_none_iff.mp here) same.some
    | some x =>
      obtain ⟨front,rfl⟩ := List.getLast?_eq_some_iff.mp here
      obtain ⟨front',_,rfl,_,back⟩ := splitAlong same.each
      obtain ⟨y,mate,rfl⟩ := soleMate back
      exact ⟨x,y,rfl,by simp,mate⟩
  obtain ⟨x,y,here,there,mate⟩ := last
  unfold faultOverAll
  rw [here,there]
  cases same.each with
  | nil => exact absurd rfl same.some
  | cons first _ => exact overLike (m.view.sameCause _) first.start mate.stop

theorem countLike {kind : Kind} {low high : Nat} {α β : Type} {read : α → β → Prop}
    (same : m.LikeItems as bs) : Agree m.Failed read (wrongCount m.source kind low high as)
      (wrongCount m.target kind low high bs) := by
  unfold wrongCount
  rw [same.each.length_eq]
  exact overAllLike same

theorem decimalLike (same : m.LikeItems as bs) :
    Agree m.Failed (· = ·) (decimal m.source as) (decimal m.target bs) := by
  unfold decimal
  cases same.each with
  | nil => exact countLike same
  | cons one rest =>
    cases rest with
    | nil =>
      exact (boundedLike _ 1 76 one).onward fun _ => .read rfl
    | cons two rest =>
      cases rest with
      | nil =>
        refine (boundedLike _ 1 76 one).onward fun p => ?_
        exact (boundedLike _ 0 p two).onward fun _ => .read rfl
      | cons => exact countLike same

theorem fractionalTimeLike (same : m.LikeItems as bs) :
    Agree m.Failed (· = ·) (fractionalTime m.source as) (fractionalTime m.target bs) := by
  unfold fractionalTime
  cases same.each with
  | nil => exact countLike same
  | cons one rest =>
    cases rest with
    | nil =>
      exact (boundedLike _ 0 9 one).onward fun _ => .read rfl
    | cons two rest =>
      cases rest with
      | nil =>
        refine (boundedLike _ 0 9 one).onward fun p => ?_
        exact (timeZoneLike two).onward fun _ => .read rfl
      | cons => exact countLike same

theorem parametersLike (kind : Kind) (same : m.LikeItems as bs) :
    Agree m.Failed (· = ·) (parameters m.source kind as) (parameters m.target kind bs) := by
  unfold parameters
  split
  next => exact decimalLike same
  next => exact fractionalTimeLike same
  cases same.each with
  | nil => exact countLike same
  | cons one rest =>
    cases rest with
    | cons => exact countLike same
    | nil =>
      dsimp only
      split
      next =>
        exact (boundedLike _ 1 maxLength one).onward fun _ => .read rfl
      split
      next precision _ =>
        exact (boundedLike _ 0 precision one).onward fun _ => .read rfl
      next =>
        exact (timeZoneLike one).onward fun _ => .read rfl

theorem enumerationLike (kind : Kind) (same : m.LikeItems as bs) :
    Agree m.Failed (· = ·) (enumeration m.source kind as) (enumeration m.target kind bs) := by
  refine (Agree.eachItem same.each fun a b => constantLike).followed fun pairs _ equal => ?_
  rw [List.forall₂_eq_eq_eq] at equal
  subst equal
  dsimp only
  split
  next => exact .read rfl
  next => exact overAllLike same
  next failure other _ => exact .failed (.other fun fault rejected => other fault (by rw [rejected]))

end
end Likeness
end ColumnDecl
