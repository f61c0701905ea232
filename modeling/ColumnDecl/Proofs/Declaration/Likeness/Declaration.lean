import ColumnDecl.Declaration
import ColumnDecl.Proofs.Declaration.Likeness.Type

/-! Declarations in scopes that are alike, by induction on the levels that are left: as many columns are
read from one as from the other, with the same data at every depth, or both are refused. -/
namespace ColumnDecl

namespace Token

/-- Where the first of the tokens starts, or the end when there is none. -/
def reach (stop : Nat) : List Token → Nat
  | [] => stop
  | t :: _ => t.start

theorem arriveReach {s : Scope} (fits : s.stop ≤ s.text.length) (ts : List Token) :
    s.arrive ts = .ok (reach s.stop ts) := by
  cases ts with
  | nil => exact if_pos fits
  | cons => rfl

end Token

namespace Likeness
open Token Declaration Column

section
variable {m : Likeness} {ts us : List Token} {start start' : Nat}
  {inner inner' : Reader}

theorem finishLike {r r' : Typed} (at_ : m.At start start') (same : m.LikeTyped r r') :
    Agree m.Failed m.LikeRead (finish m.source start r) (finish m.target start' r') := by
  refine (suffixLike same.stop same.rest).followed fun after after' alike => .read ⟨?_,alike.rest⟩
  have text := m.excerpts at_ alike.stop
  have traits := congrArg (fun x : Column => { x with
    typeText := m.view.excerpt (m.source.text.slice start after.stop)
    nullable := x.nullable || after.nullable }) same.column
  simp only [LikeColumn,seenColumn] at traits ⊢
  rw [← text,← alike.nullable]
  exact traits

theorem reachLike {a b : Nat} (ends : m.At a b) (same : m.Likes ts us) :
    m.At (reach a ts) (reach b us) := by
  rcases ts with _ | ⟨t,ts⟩
  · cases likesNil same
    exact ends
  obtain ⟨u,us,rfl,first,_⟩ := likesCons same
  exact first.start

theorem declarationLike (mirrors : m.Mirrors inner inner') (names : Bool) (same : m.Likes ts us) :
    Agree m.Failed m.LikeRead (declaration m.source inner names (reach m.source.stop ts) ts)
      (declaration m.target inner' names (reach m.target.stop us) us) := by
  rcases ts with _ | ⟨t,ts⟩
  · cases likesNil same
    exact atLike (m.view.sameCause _) m.ends
  obtain ⟨u,us,rfl,first,_⟩ := likesCons same
  unfold declaration
  dsimp only
  rw [← likeDelimiter first]
  split
  · exact atLike (m.view.sameCause _) first.start
  split
  · refine (namedLike same).followed fun n n' alike => ?_
    obtain ⟨_,_,whole,head,_⟩ := likesCons alike.tokens
    cases whole
    exact (typeLike mirrors alike.name alike.tokens).followed fun _ _ typed =>
      finishLike head.start typed
  · exact (typeLike mirrors rfl same).followed fun _ _ typed => finishLike first.start typed

theorem nestedReaderLike (level : Nat) :
    m.Mirrors (nestedReader m.source level) (nestedReader m.target level) := by
  induction level with
  | zero =>
    intro names start start' ts us at_ _
    unfold nestedReader
    rw [m.maxDepth]
    exact atLike (m.view.sameCause _) at_
  | succ level ih =>
    intro names start start' ts us _ same
    unfold nestedReader
    rw [arriveReach m.fitsLeft,arriveReach m.fitsRight]
    exact declarationLike ih names same

theorem outermostLike (names : Bool) (same : m.Likes ts us) :
    Agree m.Failed m.LikeRead (outermost m.source names (reach m.source.stop ts) ts)
      (outermost m.target names (reach m.target.stop us) us) := by
  unfold outermost
  rw [← m.maxDepth]
  exact declarationLike (nestedReaderLike _) names same

/-! Whole texts. -/

/- By induction on the tokens that are left. -/
theorem columnsLike (same : m.Likes ts us) :
    Agree m.Failed (fun cs ds => cs.map (seen m.view) = ds.map (seen m.view))
      (columns m.source ts) (columns m.target us) := by
  induction size : ts.length using Nat.strong_induction_on generalizing ts us with
  | _ n ih =>
    subst size
    unfold columns
    rcases ts with _ | ⟨t,ts⟩
    · cases likesNil same
      exact .read rfl
    obtain ⟨u,us,rfl,_,behind⟩ := likesCons same
    have read : Agree m.Failed m.LikeRead (outermost m.source true t.start (t :: ts))
        (outermost m.target true u.start (u :: us)) := outermostLike true same
    have sizes := behind.each.length_eq
    dsimp only
    generalize outermost m.source true t.start (t :: ts) = x,
      outermost m.target true u.start (u :: us) = y at read ⊢
    cases read with
    | failed failure => exact .failed failure
    | @read one one' alike =>
      obtain ⟨c,rest⟩ := one
      obtain ⟨c',rest'⟩ := one'
      have column : c.seen m.view = c'.seen m.view := alike.column
      rcases rest with _ | ⟨d,rest⟩
      · cases likesNil alike.rest
        exact .read (by simp [column])
      obtain ⟨d',rest',rfl,delimiter,tail⟩ := likesCons alike.rest
      dsimp only
      rw [← delimiter.tag,← tail.each.length_eq,← sizes]
      split
      · exact onLike (wordCause _ delimiter.word fun _ _ => rfl) delimiter
      simp only [likesEmpty tail]
      split
      · exact atLike (m.view.sameCause _) delimiter.start
      split
      next shorter =>
        have more := ih rest.length (Nat.lt_succ_of_le shorter) tail rfl
        generalize columns m.source rest = x, columns m.target rest' = y at more ⊢
        cases more with
        | failed failure => exact .failed failure
        | read list => exact .read (by simp [column,list])
      next => exact .failed (.stalled _)

/- What stands behind the type is quoted with its layout, so only a partial view looks past it. -/
theorem onlyLike (partly : m.view ≠ .whole) (same : m.Likes ts us) :
    Agree m.Failed m.LikeColumn (only m.source ts) (only m.target us) := by
  have last : ∀ r r', m.LikeRead r r' → Agree m.Failed m.LikeColumn
      (match r.2 with
        | [] => .ok r.1
        | t :: _ => m.source.faultOver (.unexpectedAfterType (Text.trim (m.source.text.drop t.start)))
            t.start m.source.stop)
      (match r'.2 with
        | [] => .ok r'.1
        | t :: _ => m.target.faultOver (.unexpectedAfterType (Text.trim (m.target.text.drop t.start)))
            t.start m.target.stop) := by
    rintro ⟨c,rest⟩ ⟨c',rest'⟩ alike
    rcases rest with _ | ⟨t,rest⟩
    · cases likesNil alike.rest
      exact .read alike.column
    obtain ⟨u,us,whole,first,_⟩ := likesCons alike.rest
    dsimp only at whole
    subst whole
    exact overLike ⟨rfl,fun whole => absurd whole partly⟩ first.start m.ends
  unfold only
  rw [arriveReach m.fitsLeft,arriveReach m.fitsRight]
  exact (outermostLike false same).followed last

theorem parseLexed {d : Dialect} {t : Text} (lexed : Token.stream t = .ok ts) :
    d.parse t = columns (d.scope t t.length) ts := by
  unfold Dialect.parse Dialect.tokens
  rw [lexed]
  rfl

theorem columnOfLexed {d : Dialect} {name t : Text} (lexed : Token.stream t = .ok ts) :
    d.columnOf name t = (only (d.scope t t.length) ts >>= fun c => .ok { c with name := name }) := by
  unfold Dialect.columnOf Dialect.tokens
  rw [lexed]
  rfl

variable {d : Dialect} {t t' : Text}

/-- Two whole texts, place by place. -/
def ofTexts (d : Dialect) (left : Token.stream t = .ok ts) (right : Token.stream t' = .ok us)
    (view : Column.View) (At : Nat → Nat → Prop)
    (letters : ∀ c d, view.letter c = view.letter d → Text.upperChar c = Text.upperChar d)
    (functions : view.function = true → ∀ c, view.letter c = c) (ends : At t.length t'.length)
    (excerpts : ∀ {a b c d}, At a b → At c d →
      view.excerpt (t.slice a c) = view.excerpt (t'.slice b d)) : Likeness where
  view := view
  source := d.scope t t.length
  target := d.scope t' t'.length
  left := ts
  right := us
  At := At
  letters := letters
  functions := functions
  keywords := rfl
  maxDepth := rfl
  lexedLeft := streamExact.mp ((List.take_length (l := t)).symm ▸ left)
  lexedRight := streamExact.mp ((List.take_length (l := t')).symm ▸ right)
  fitsLeft := Nat.le_refl _
  fitsRight := Nat.le_refl _
  ends := ends
  excerpts := excerpts

theorem parseLike (source : m.source = d.scope t t.length) (target : m.target = d.scope t' t'.length)
    (left : Token.stream t = .ok ts) (right : Token.stream t' = .ok us) (same : m.Likes ts us) :
    Agree m.Failed (fun cs ds => cs.map (seen m.view) = ds.map (seen m.view)) (d.parse t)
      (d.parse t') := by
  rw [parseLexed left,parseLexed right,← source,← target]
  exact columnsLike same

theorem columnOfLike (partly : m.view ≠ .whole) (source : m.source = d.scope t t.length)
    (target : m.target = d.scope t' t'.length) (left : Token.stream t = .ok ts)
    (right : Token.stream t' = .ok us) (same : m.Likes ts us) (name : Text) :
    Agree m.Failed m.LikeColumn (d.columnOf name t) (d.columnOf name t') := by
  rw [columnOfLexed left,columnOfLexed right,← source,← target]
  refine (onlyLike partly same).followed fun c c' alike => .read ?_
  have named := congrArg (fun x : Column => { x with name := m.view.word name }) alike
  simp only [LikeColumn,seenColumn] at named ⊢
  exact named

end
end Likeness
end ColumnDecl
