import ColumnDecl.Proofs.Declaration.Likeness

/-! Keywords and names in scopes that are alike. A keyword is found in both or in neither, and its text
has the same key in both, however its words are spaced. -/
namespace ColumnDecl

namespace Keywords

theorem keyUpper {a b : List Text} (same : a.map Text.upper = b.map Text.upper) : key a = key b :=
  congrArg (Text.join [' ']) same

theorem longestUpper {k : Keywords} {a b : List Text} (same : a.map Text.upper = b.map Text.upper) :
    k.longest? a = k.longest? b := by
  have taken : ∀ n, key (a.take n) = key (b.take n) := by
    intro n
    apply keyUpper
    rw [List.map_take,List.map_take,same]
  have matched : ∀ n, k.matchFrom a n = k.matchFrom b n := by
    intro n
    induction n with
    | zero => rfl
    | succ n ih => simp only [matchFrom,taken,ih]
  have sizes : a.length = b.length := by simpa using congrArg List.length same
  simp only [longest?,matched,sizes]

end Keywords

namespace Declaration
open Token

theorem sliceTaken (text : Text) {a b stop : Nat} (inside : b ≤ stop) :
    Text.slice (text.take stop) a b = text.slice a b := by
  simp only [Text.slice,List.drop_take,List.take_take]
  congr 1
  omega

theorem keywordWords {s : Scope} {all used ts : List Token} {t : Token} {hit : Scope.Hit}
    (lexed : Lexes 0 (s.text.take s.stop) all) (suffix : t :: ts <:+ all)
    (led : Led s (t :: ts) hit used) :
    Text.words (s.text.slice t.start hit.stop) = used.map Token.raw := by
  rcases used with _ | ⟨u,used⟩
  · exact nomatch led.stop
  obtain ⟨front,rfl⟩ := suffix
  have whole := led.whole
  rw [whole] at lexed
  rw [List.cons_append,List.cons.injEq] at whole
  obtain ⟨rfl,_⟩ := whole
  obtain ⟨_,inside,words⟩ := lexesExcerpt lexed led.stop
  rw [List.length_take] at inside
  rw [sliceTaken s.text (by omega)] at words
  exact lexesWords words led.words

end Declaration

namespace Likeness
open Token Declaration

structure LikeHit (m : Likeness) (t u : Token) (hit hit' : Scope.Hit) : Prop where
  kind : hit.kind = hit'.kind
  stop : m.At hit.stop hit'.stop
  rest : m.Likes hit.rest hit'.rest
  key : Keywords.keyOf (m.source.text.slice t.start hit.stop) =
    Keywords.keyOf (m.target.text.slice u.start hit'.stop)

structure LikeNamed (m : Likeness) (n n' : Named) : Prop where
  name : m.view.word n.name = m.view.word n'.name
  tokens : m.Likes (n.head :: n.rest) (n'.head :: n'.rest)

section
variable {m : Likeness} {t u : Token} {ts us used used' : List Token}

theorem uppersLike (same : List.Forall₂ m.Like ts us) :
    ts.map (Text.upper ∘ Token.value) = us.map (Text.upper ∘ Token.value) := by
  induction same with
  | nil => rfl
  | cons head tail ih => simp [upperLike (likeValue head),ih]

theorem leadingLike (same : List.Forall₂ m.Like ts us) :
    (leading ts).map Text.upper = (leading us).map Text.upper := by
  induction same with
  | nil => rfl
  | @cons t u ts us head tail ih =>
    by_cases name : t.tag = .identifier
    · have name' : u.tag = .identifier := head.tag ▸ name
      simp [leadingCons name,leadingCons name',upperLike (likeValue head),ih]
    · have name' : u.tag ≠ .identifier := head.tag ▸ name
      simp [leadingNone name,leadingNone name']

theorem closesLike {stop : Nat} (closes : Closes used stop) (same : List.Forall₂ m.Like used used') :
    ∃ stop', Closes used' stop' ∧ m.At stop stop' := by
  obtain ⟨front,t,rfl,rfl⟩ := closesLast closes
  obtain ⟨front',_,rfl,_,last⟩ := splitAlong same
  obtain ⟨u,mate,rfl⟩ := soleMate last
  exact ⟨u.stop,closesBehind front' rfl,mate.stop⟩

theorem ledLike {hit : Scope.Hit} (same : m.Likes (t :: ts) (u :: us))
    (led : Led m.source (t :: ts) hit used) :
    ∃ hit' used', Led m.target (u :: us) hit' used' ∧ m.LikeHit t u hit hit' := by
  have each := same.each
  rw [led.whole] at each
  obtain ⟨used',rest',split,first,second⟩ := splitAlong each
  obtain ⟨stop',closes,position⟩ := closesLike led.stop first
  have tags : ∀ x ∈ used', x.tag = .identifier := by
    intro x hx
    obtain ⟨y,hy,mate⟩ := mateOf first hx
    exact mate.tag ▸ led.words y hy
  have longest := Keywords.longestUpper (k := m.source.keywords) (leadingLike same.each)
  rw [led.longest,m.keywords,first.length_eq] at longest
  have led' : Led m.target (u :: us) ⟨hit.kind,stop',rest'⟩ used' := ⟨split,tags,closes,longest.symm⟩
  refine ⟨_,used',led',rfl,position,⟨second,?_,?_⟩,?_⟩
  · exact (show hit.rest <:+ t :: ts from ⟨used,led.whole.symm⟩).trans same.left
  · exact (show rest' <:+ u :: us from ⟨used',split.symm⟩).trans same.right
  · unfold Keywords.keyOf
    rw [keywordWords m.lexedLeft same.left led,keywordWords m.lexedRight same.right led']
    have values : ∀ {ws : List Token}, (∀ x ∈ ws, x.tag = .identifier) →
        ws.map Token.raw = ws.map Token.value := by
      intro ws names
      refine List.map_congr_left fun x hx => ?_
      simp [Token.value,names x hx]
    rw [values led.words,values tags]
    apply Keywords.keyUpper
    simpa using uppersLike first

theorem keywordLike (same : m.Likes (t :: ts) (u :: us)) :
    Option.Rel (m.LikeHit t u) (m.source.keyword? (t :: ts)) (m.target.keyword? (u :: us)) := by
  cases found : m.source.keyword? (t :: ts) with
  | none =>
    have none : m.target.keyword? (u :: us) = none := by
      rw [keywordNone] at found ⊢
      rw [← found,m.keywords]
      exact (Keywords.longestUpper (leadingLike same.each)).symm
    rw [none]
    exact .none
  | some hit =>
    obtain ⟨used,led⟩ := keywordSound found
    obtain ⟨hit',used',led',alike⟩ := ledLike same led
    rw [keywordComplete led']
    exact .some alike

/-! Names. -/

theorem typeOnlyLike (same : m.Likes ts us) : followsTypeOnly ts = followsTypeOnly us := by
  cases same.each with
  | nil => rfl
  | cons head tail => simp only [followsTypeOnly,head.tag,likeDelimiter head,likeModifier head]

theorem knownOnlyLike (same : m.Likes ts us) : followsKnownOnly ts = followsKnownOnly us := by
  cases same.each with
  | nil => rfl
  | cons head tail => simp only [followsKnownOnly,head.tag,likeDelimiter head]

theorem givenLike (first : m.Like t u) (same : m.Likes ts us) :
    Agree m.Failed m.LikeNamed (givenName m.source t ts) (givenName m.target u us) := by
  have missing : m.view.SameCause (.missingType t.value) (.missingType u.value) :=
    wordCause _ (likeValue first) fun _ _ => rfl
  rcases ts with _ | ⟨head,ts⟩
  · cases likesNil same
    exact onLike missing first
  obtain ⟨head',us,rfl,second,rest⟩ := likesCons same
  simp only [givenName,likeDelimiter second]
  split
  · exact onLike missing first
  · exact .read ⟨likeValue first,same⟩

theorem namedLike (same : m.Likes (t :: ts) (u :: us)) :
    Agree m.Failed m.LikeNamed (named m.source t ts) (named m.target u us) := by
  obtain ⟨_,_,whole,first,rest⟩ := likesCons same
  cases whole
  have keyword := keywordLike same
  unfold named
  rw [← first.tag]
  split
  next => exact givenLike first rest
  next =>
    generalize m.source.keyword? (t :: ts) = known, m.target.keyword? (u :: us) = known' at keyword ⊢
    cases keyword with
    | none =>
      dsimp only
      rw [← knownOnlyLike rest]
      split
      · exact onLike (wordCause _ (likeValue first) fun _ _ => rfl) first
      · exact givenLike first rest
    | some alike =>
      dsimp only
      rw [← typeOnlyLike alike.rest]
      split
      · exact .read ⟨rfl,same⟩
      · exact givenLike first rest
  next => exact onLike (wordCause _ first.word fun _ _ => rfl) first

end
end Likeness
end ColumnDecl
