import ColumnDecl.Proofs.Declaration.Likeness.Literal
import ColumnDecl.Proofs.Declaration.Likeness.Name
import ColumnDecl.Declaration.Reader

/-! Types in scopes that are alike, form by form, over readers of nested declarations that go on
alike. -/
namespace ColumnDecl.Likeness
open Token Declaration Column

def LikeColumn (m : Likeness) (c d : Column) : Prop := c.seen m.view = d.seen m.view

structure LikeRead (m : Likeness) (r r' : Column × List Token) : Prop where
  column : m.LikeColumn r.1 r'.1
  rest : m.Likes r.2 r'.2

structure LikeTyped (m : Likeness) (r r' : Typed) : Prop where
  column : m.LikeColumn r.column r'.column
  stop : m.At r.stop r'.stop
  rest : m.Likes r.rest r'.rest

structure LikeParts (m : Likeness) (p p' : Parts) : Prop where
  columns : p.columns.map (seen m.view) = p'.columns.map (seen m.view)
  stop : m.At p.stop p'.stop
  rest : m.Likes p.rest p'.rest

structure LikeHead (m : Likeness) (h h' : Head) : Prop where
  name : m.view.word h.name = m.view.word h'.name
  start : m.At h.start h'.start
  kind : h.kind = h'.kind
  stop : m.At h.stop h'.stop
  key : Keywords.keyOf (h.text m.source h.stop) = Keywords.keyOf (h'.text m.target h'.stop)

structure LikeCall (m : Likeness) (c c' : Call) : Prop where
  function : m.view.word c.function = m.view.word c'.function
  signature : m.view.word c.signature = m.view.word c'.signature
  rest : m.Likes c.rest c'.rest

/-- Two readers that go on alike, each in its own scope. -/
def Mirrors (m : Likeness) (inner inner' : Reader) : Prop :=
  ∀ names start start' ts us, m.At start start' → m.Likes ts us →
    Agree m.Failed m.LikeRead (inner names start ts) (inner' names start' us)

section
variable {m : Likeness} {a b : Draft} {h h' : Head} {o p : Token} {ts us : List Token}
  {start start' stop stop' : Nat}

/-! Columns from drafts. -/

theorem buildLike (same : a.seen m.view = b.seen m.view) :
    Agree m.Failed m.LikeColumn (build a) (build b) := by
  have fault := draftFault same
  have size := draftSize same
  unfold build ofDraft
  rw [← size]
  generalize a.fault? = x, b.fault? = y at fault ⊢
  cases fault with
  | some cause => exact .failed (.fault ⟨cause,.none,.none⟩)
  | none =>
    cases a.length with
    | error cause => exact .failed (.fault ⟨m.view.sameCause cause,.none,.none⟩)
    | ok length =>
      refine .read ?_
      unfold LikeColumn
      rw [draftColumn,draftColumn,same]

theorem buildOverLike (start_ : m.At start start') (stop_ : m.At stop stop')
    (same : a.seen m.view = b.seen m.view) :
    Agree m.Failed m.LikeColumn (buildOver m.source start stop a)
      (buildOver m.target start' stop' b) := by
  have built := buildLike same
  unfold build at built
  unfold buildOver
  generalize ofDraft a = x, ofDraft b = y at built ⊢
  rcases x with f | c <;> rcases y with g | d <;> simp only [Except.mapError] at built
  · cases built with
    | failed fault =>
      cases fault with
      | fault alike => exact overLike alike.cause start_ stop_
      | other plain => exact absurd rfl (plain _)
  · cases built
  · cases built
  · cases built with
    | read column => exact .read column

theorem draftLike (same : m.LikeHead h h') (stop_ : m.At stop stop') :
    (h.draft m.source stop).seen m.view = (h'.draft m.target stop').seen m.view := by
  simp only [Draft.seen,Head.draft,Head.text,same.name,same.kind,m.excerpts same.start stop_]

theorem nestedLike {cs ds : List Column} {f g : Option Aggregate} {v w : Option Text}
    (same : m.LikeHead h h') (stop_ : m.At stop stop')
    (columns : cs.map (seen m.view) = ds.map (seen m.view))
    (function : m.view.aggregate f = m.view.aggregate g)
    (signature : v.map m.view.word = w.map m.view.word) :
    { h.draft m.source stop with nested := cs, aggregate := f, signature := v }.seen m.view =
      { h'.draft m.target stop' with nested := ds, aggregate := g, signature := w }.seen m.view := by
  have draft := draftLike same stop_
  simp only [Draft.seen,Draft.mk.injEq] at draft ⊢
  simp only [draft,columns,function,signature,and_self]

theorem functionLike {v w : Text} (same : m.view.word v = m.view.word w) :
    m.view.aggregate (Aggregate.resolve? v) = m.view.aggregate (Aggregate.resolve? w) := by
  unfold View.aggregate
  split
  next counts =>
    have letters : m.view.letter = id := funext (m.functions counts)
    have words : v = w := by simpa [View.word,letters] using same
    rw [words]
  next => rfl

/-! Lists of nested types. -/

/- By induction on the tokens that are left. -/
theorem partsLike {inner inner' : Reader} (mirrors : m.Mirrors inner inner') (kind : Kind)
    (opening : m.Like o p) (at_ : m.At start start') (same : m.Likes ts us) :
    Agree m.Failed m.LikeParts (parts m.source inner kind o start ts)
      (parts m.target inner' kind p start' us) := by
  induction size : ts.length using Nat.strong_induction_on generalizing start start' ts us with
  | _ n ih =>
    subst size
    have first := mirrors kind.namesItsParts start start' ts us at_ same
    have sizes := same.each.length_eq
    unfold parts
    generalize inner kind.namesItsParts start ts = x,
      inner' kind.namesItsParts start' us = y at first ⊢
    cases first with
    | failed failure => exact .failed failure
    | @read one one' alike =>
      obtain ⟨c,rest⟩ := one
      obtain ⟨c',rest'⟩ := one'
      have column : c.seen m.view = c'.seen m.view := alike.column
      rcases rest with _ | ⟨d,rest⟩
      · cases likesNil alike.rest
        exact atLike (m.view.sameCause _) opening.start
      obtain ⟨d',rest',rfl,delimiter,tail⟩ := likesCons alike.rest
      dsimp only
      rw [← delimiter.tag,← tail.each.length_eq,← sizes]
      split
      · exact .read ⟨by simp [column],delimiter.stop,tail⟩
      split
      next shorter =>
        have more := ih rest.length shorter delimiter.stop tail rfl
        generalize parts m.source inner kind o d.stop rest = x,
          parts m.target inner' kind p d'.stop rest' = y at more ⊢
        cases more with
        | failed failure => exact .failed failure
        | read list => exact .read ⟨by simp [column,list.columns],list.stop,list.rest⟩
      next => exact .failed (.stalled _)

theorem openedLike (same : m.Likes ts us) :
    Option.Rel (fun x y => m.Like x.1 y.1 ∧ m.Likes x.2 y.2) (opened? ts) (opened? us) := by
  rcases ts with _ | ⟨t,ts⟩
  · cases likesNil same
    exact .none
  obtain ⟨u,us,rfl,first,rest⟩ := likesCons same
  simp only [opened?,← first.tag]
  split
  · exact .some ⟨first,rest⟩
  · exact .none

theorem callLike (opening : m.Like o p) (same : m.Likes ts us) :
    Agree m.Failed m.LikeCall (call m.source o ts) (call m.target p us) := by
  rcases ts with _ | ⟨t,ts⟩
  · cases likesNil same
    exact atLike (m.view.sameCause _) opening.stop
  obtain ⟨u,us,rfl,first,rest⟩ := likesCons same
  have name := likeValue first
  unfold call
  dsimp only
  rw [← first.tag]
  split
  next =>
    rcases ts with _ | ⟨o',ts⟩
    · cases likesNil rest
      exact .read ⟨name,name,rest⟩
    obtain ⟨p',us,rfl,second,behind⟩ := likesCons rest
    dsimp only
    rw [← second.tag]
    split
    next =>
      refine (argumentsLike second behind).followed fun args args' alike => ?_
      refine (Agree.eachItem alike.items.each fun _ _ => writtenLike).followed fun ws ws' each => ?_
      refine .read ⟨name,?_,alike.rest⟩
      have joined : m.view.word (Text.join [','] ws) = m.view.word (Text.join [','] ws') :=
        Column.View.wordJoined each
      have opened : ∀ w, m.view.word ('(' :: w) = m.view.letter '(' :: m.view.word w := fun _ => rfl
      simp only [Column.View.wordAppend,opened,name,joined]
    next => exact .read ⟨name,name,rest⟩
  next => exact onLike (wordCause (fun w => .expected "identifier" (some w)) first.word fun _ _ => rfl) first

theorem callPartsLike {inner inner' : Reader} (mirrors : m.Mirrors inner inner') (kind : Kind)
    (opening : m.Like o p) {c c' : Call} (same : m.LikeCall c c') :
    Agree m.Failed m.LikeParts (callParts m.source inner kind o c)
      (callParts m.target inner' kind p c') := by
  unfold callParts
  have rest := same.rest
  generalize c.rest = ts, c'.rest = us at rest ⊢
  rcases ts with _ | ⟨t,ts⟩
  · cases likesNil rest
    exact atLike (m.view.sameCause _) opening.start
  obtain ⟨u,us,rfl,first,tail⟩ := likesCons rest
  dsimp only
  rw [← first.tag]
  split
  · exact partsLike mirrors kind opening first.stop tail
  · exact .read ⟨rfl,first.stop,tail⟩
  · exact onLike (wordCause _ same.signature fun _ _ => rfl) first

/-! Forms of types. -/

theorem bareLike (same : m.LikeHead h h') (rest : m.Likes ts us) :
    Agree m.Failed m.LikeTyped (bare m.source h ts) (bare m.target h' us) := by
  unfold bare
  rw [← same.kind]
  split
  · exact overLike (m.view.sameCause _) same.start same.stop
  · exact (buildLike (draftLike same same.stop)).followed fun _ _ column =>
      .read ⟨column,same.stop,rest⟩

theorem ignoredLike (same : m.LikeHead h h') (opening : m.Like o p) (rest : m.Likes ts us) :
    Agree m.Failed m.LikeTyped (ignored m.source h o ts) (ignored m.target h' p us) := by
  unfold ignored
  rw [← same.key,← same.kind]
  split
  · exact onLike (m.view.sameCause _) opening
  · refine (argumentsLike opening rest).followed fun args args' alike => ?_
    exact (buildLike (draftLike same alike.close.stop)).followed fun _ _ column =>
      .read ⟨column,alike.close.stop,alike.rest⟩

theorem parameterisedLike (same : m.LikeHead h h') (opening : m.Like o p) (rest : m.Likes ts us) :
    Agree m.Failed m.LikeTyped (parameterised m.source h o ts) (parameterised m.target h' p us) := by
  refine (argumentsLike opening rest).followed fun args args' alike => ?_
  have draft := draftLike same alike.close.stop
  dsimp only
  rw [← same.kind]
  split
  · refine (enumerationLike h.kind alike.items).onward fun found => ?_
    refine (buildLike ?_).followed fun _ _ column => .read ⟨column,alike.close.stop,alike.rest⟩
    exact congrArg (fun d : Draft => { d with kind := found.1, enumTable := some found.2 }) draft
  · refine (parametersLike h.kind alike.items).onward fun found => ?_
    refine (buildLike ?_).followed fun _ _ column => .read ⟨column,alike.close.stop,alike.rest⟩
    exact congrArg (fun d : Draft => { d with
      precision := found.precision
      scale := found.scale
      timeZone := found.timeZone }) draft

section
variable {inner inner' : Reader}

theorem wrappedLike (mirrors : m.Mirrors inner inner') (same : m.LikeHead h h')
    (opening : m.Like o p) (rest : m.Likes ts us) :
    Agree m.Failed m.LikeTyped (wrapped m.source inner h o ts) (wrapped m.target inner' h' p us) := by
  unfold wrapped
  rw [← same.kind]
  refine (partsLike mirrors h.kind opening opening.stop rest).followed fun list list' alike => ?_
  have columns := alike.columns
  dsimp only
  generalize list.columns = cs, list'.columns = ds at columns ⊢
  rcases cs with _ | ⟨c,_ | ⟨c',cs⟩⟩ <;> rcases ds with _ | ⟨d,_ | ⟨d',ds⟩⟩ <;>
    simp only [List.map_cons,List.map_nil,List.cons.injEq,reduceCtorEq,and_true,and_false] at columns
  · exact overLike (m.view.sameCause _) same.start alike.stop
  · refine .read ⟨?_,alike.stop,alike.rest⟩
    have text : m.view.excerpt (h.text m.source list.stop) =
        m.view.excerpt (h'.text m.target list'.stop) := m.excerpts same.start alike.stop
    have traits := congrArg (fun x : Column => { x with
      name := m.view.word h.name
      typeText := m.view.excerpt (h.text m.source list.stop)
      nullable := x.nullable || h.kind == Kind.nullable
      lowCardinality := x.lowCardinality || h.kind == Kind.lowCardinality
      fixedLength := false
      estimatedLength := 1 }) columns
    simp only [LikeColumn,seenColumn] at traits ⊢
    rw [← same.name,← text]
    exact traits
  · have sizes : cs.length = ds.length := by simpa using congrArg List.length columns.2.2
    dsimp only
    rw [List.length_cons,List.length_cons,List.length_cons,List.length_cons,sizes]
    exact overLike (m.view.sameCause _) same.start alike.stop

theorem composedLike (mirrors : m.Mirrors inner inner') (same : m.LikeHead h h')
    (opening : m.Like o p) (rest : m.Likes ts us) :
    Agree m.Failed m.LikeTyped (composed m.source inner h o ts)
      (composed m.target inner' h' p us) := by
  unfold composed
  rw [← same.kind]
  refine (partsLike mirrors h.kind opening opening.stop rest).followed fun list list' alike => ?_
  refine (buildOverLike same.start alike.stop ?_).followed fun _ _ column =>
    .read ⟨column,alike.stop,alike.rest⟩
  exact nestedLike same alike.stop alike.columns rfl rfl

theorem aggregatedLike (mirrors : m.Mirrors inner inner') (same : m.LikeHead h h')
    (opening : m.Like o p) (rest : m.Likes ts us) :
    Agree m.Failed m.LikeTyped (aggregated m.source inner h o ts)
      (aggregated m.target inner' h' p us) := by
  unfold aggregated
  rw [← same.kind]
  refine (callLike opening rest).followed fun c c' called => ?_
  refine (callPartsLike mirrors h.kind opening called).followed fun list list' alike => ?_
  refine (buildOverLike same.start alike.stop ?_).followed fun _ _ column =>
    .read ⟨column,alike.stop,alike.rest⟩
  refine nestedLike same alike.stop alike.columns (functionLike called.function) ?_
  exact congrArg some called.signature

theorem typeLike (mirrors : m.Mirrors inner inner') {name name' : Text}
    (named : m.view.word name = m.view.word name') {t u : Token}
    (same : m.Likes (t :: ts) (u :: us)) :
    Agree m.Failed m.LikeTyped (type m.source inner name t.start t ts)
      (type m.target inner' name' u.start u us) := by
  obtain ⟨_,_,whole,first,_⟩ := likesCons same
  cases whole
  have keyword := keywordLike same
  unfold type
  generalize m.source.keyword? (t :: ts) = x, m.target.keyword? (u :: us) = y at keyword ⊢
  cases keyword with
  | none => exact onLike (wordCause _ first.word fun _ _ => rfl) first
  | @some hit hit' alike =>
    have head : m.LikeHead ⟨name,t.start,hit.kind,hit.stop⟩ ⟨name',u.start,hit'.kind,hit'.stop⟩ :=
      ⟨named,first.start,alike.kind,alike.stop,alike.key⟩
    have opened := openedLike alike.rest
    dsimp only
    generalize opened? hit.rest = x, opened? hit'.rest = y at opened ⊢
    cases opened with
    | none => exact bareLike head alike.rest
    | @some pair pair' behind =>
      obtain ⟨o,rest⟩ := pair
      obtain ⟨p,rest'⟩ := pair'
      obtain ⟨opening,tail⟩ := behind
      dsimp only
      rw [← alike.kind] at head ⊢
      split
      · exact wrappedLike mirrors head opening tail
      split
      · exact aggregatedLike mirrors head opening tail
      split
      · exact ignoredLike head opening tail
      · exact composedLike mirrors head opening tail
      · exact parameterisedLike head opening tail

end
end
end ColumnDecl.Likeness
