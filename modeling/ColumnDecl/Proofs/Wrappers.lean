import ColumnDecl.Proofs.Declaration.Span
import ColumnDecl.Proofs.Declaration.Trailing

/-! Wrapping types around a type, and marks behind it. Whatever their number and order, each wrapping
type leaves its flag and takes the length away, while a mark only adds that values may be null. -/
namespace ColumnDecl
open Token Declaration

/-- A wrapping type, its name written in any case. -/
structure Wrapper where
  kind : Kind
  text : Text
  wraps : kind.isWrapper = true
  spelled : Text.lower text = Text.lower kind.name.toList

namespace Wrapper

def around (w : Wrapper) (inner : Text) : Text := w.text ++ '(' :: (inner ++ [')'])

/-- A type in wrappers, the first of them outermost. -/
def enclosed (ws : List Wrapper) (text : Text) : Text := ws.foldr around text

/-- What wrappers make of a column. -/
def fold (ws : List Wrapper) (c : Column) : Column :=
  { c with
    nullable := c.nullable || ws.any (·.kind == .nullable)
    lowCardinality := c.lowCardinality || ws.any (·.kind == .lowCardinality)
    fixedLength := ws.isEmpty && c.fixedLength
    estimatedLength := if ws.isEmpty then c.estimatedLength else 1 }

theorem foldWrapper (w : Wrapper) (ws : List Wrapper) (c : Column) :
    fold (w :: ws) c = { fold ws c with
      nullable := (fold ws c).nullable || w.kind == .nullable
      lowCardinality := (fold ws c).lowCardinality || w.kind == .lowCardinality
      fixedLength := false
      estimatedLength := 1 } := by
  simp [fold,Bool.or_assoc,Bool.or_comm (ws.any _)]

end Wrapper

namespace Dialect

/-- A text that is read as this column without a name, and holds nothing but its type: no clause, as
the type text is the whole text, and no mark at its end. -/
structure Plain (d : Dialect) (text : Text) (c : Column) : Prop where
  read : d.columnOf [] text = .ok c
  unclaused : c.typeText = Text.trim text
  unmarked : ∀ front t, stream text = .ok (front ++ [t]) → modifier? t ≠ some .null

theorem plainRead {d : Dialect} {text : Text} {c : Column} (h : d.Plain text c) :
    ∃ t ts typed, Lexes 0 text (t :: ts) ∧ typed.rest = [] ∧
      type (d.scope text text.length) (nestedReader (d.scope text text.length) d.maxDepth) [] t.start
        t ts = .ok typed ∧ c = { typed.column with name := [], typeText := c.typeText } := by
  obtain ⟨t,ts,column,lexed,outer,rfl⟩ := columnOfExact.mp h.read
  obtain ⟨_,_,begins,read⟩ := declarationExact.mp outer
  cases begins
  obtain ⟨typed,after,mods,clause,typedRead,done,same⟩ := bodyExact.mp read
  obtain ⟨rfl,none⟩ := Prod.mk.inj same
  obtain ⟨_,used,whole,closes,_⟩ := typeCarried (nestedReaderCarries (Nat.le_refl _)) typedRead
  have parts : t :: ts = used ++ mods ++ clause := by
    rw [whole,done.whole,← none]; simp
  have unclaused : clause = [] := by
    rcases clause with _ | ⟨w,body⟩
    · rfl
    have along : Along text.length t.start (t :: ts) :=
      ⟨Nat.le_refl _,(lexesAlong lexed (Nat.le_of_eq (Nat.zero_add text.length))).2⟩
    rw [parts] at along
    obtain ⟨order,behind⟩ := closesAlong along (modifiersClose done.modifiers closes)
    have member : w ∈ t :: ts := by rw [parts]; simp
    have inside := trimKeeps lexed member (.inl (modifierWord done.clause.1)) order h.unclaused
    exact absurd behind.1 (Nat.not_le_of_lt inside)
  have unmarked : mods = [] := by
    by_contra some
    obtain ⟨front,z,shape,null⟩ := modifiersLast done.modifiers some
    refine h.unmarked (used ++ front) z ?_ null
    rw [streamExact,List.append_assoc,← shape,← List.append_nil (used ++ mods),← unclaused,← parts]
    exact lexed
  have modifiers := done.modifiers
  rw [unmarked] at modifiers
  have plain : after.nullable = false := by
    generalize after.nullable = last, after.stop = final at modifiers
    cases modifiers
    rfl
  refine ⟨t,ts,typed,lexed,?_,typedRead,?_⟩
  · rw [done.whole,unmarked,unclaused,← none]
    rfl
  · rw [plain,Bool.or_false]

/-! Wrappers, from the inside out. -/

theorem wrapperRead {s : Scope} (builtin : s.keywords = Keywords.builtin) {kind : Kind}
    (wraps : kind.isWrapper = true) {t o u z : Token} {us more : List Token}
    (word : t.tag = .identifier) (spelled : Text.upper t.value = Text.upper kind.name.toList)
    (opening : o.tag = .opening) (closing : z.tag = .closing) {level stop : Nat} {c : Column}
    (read : type s (nestedReader s level) [] u.start u (us ++ z :: more) = .ok ⟨c,stop,z :: more⟩)
    (name : Text) :
    type s (nestedReader s (level + 1)) name t.start t (o :: u :: (us ++ z :: more)) =
      .ok ⟨{ c with
        name := name
        typeText := s.text.slice t.start z.stop
        nullable := c.nullable || kind == .nullable
        lowCardinality := c.lowCardinality || kind == .lowCardinality
        fixedLength := false
        estimatedLength := 1 },z.stop,more⟩ := by
  let part : Column := { c with
    typeText := s.text.slice u.start stop
    nullable := c.nullable || false }
  have ended : Ended (z :: more) := by simp [Ended,isDelimiter,closing]
  have inside : body s (nestedReader s level) [] u.start u (us ++ z :: more) =
      .ok (part,z :: more) :=
    bodyExact.mpr ⟨_,⟨false,stop,z :: more⟩,[],[],read,⟨rfl,ended,.none _ _,trivial⟩,rfl⟩
  have visible : u.isDelimiter = false := by simp [isDelimiter,bodyWord inside]
  have nested : nestedReader s (level + 1) kind.namesItsParts o.stop (u :: (us ++ z :: more)) =
      .ok (part,z :: more) :=
    nestedReaderExact.mpr
      ⟨level,u,_,rfl,rfl,declarationExact.mpr ⟨visible,_,bodyBegins inside _,inside⟩⟩
  have known : s.keyword? (t :: o :: u :: (us ++ z :: more)) =
      some ⟨kind,t.stop,o :: u :: (us ++ z :: more)⟩ :=
    Keywords.wordKnown builtin word spelled (by simp [opening])
  let inner : Scope → Reader := fun s => nestedReader s (level + 1)
  have opened : type s (inner s) name t.start t (o :: u :: (us ++ z :: more)) =
      formOf inner kind s ⟨name,t.start,kind,t.stop⟩ o (u :: (us ++ z :: more)) :=
    typeOpened known (openedExact.mpr ⟨rfl,opening⟩)
  rw [formOf,if_pos wraps] at opened
  refine opened.trans (bindOk.mpr ⟨_,listedComplete (.last nested closing),?_⟩)
  simp only [part,Bool.or_false]
  rfl

section
variable {d d' : Dialect} {text : Text} {c : Column}

theorem enclosedRead (builtin : d.keywords = Keywords.builtin) (words : d.keywords = d'.keywords)
    (plain : d.Plain text c) (ws : List Wrapper) {whole before after : Text}
    (parts : whole = before ++ (Wrapper.enclosed ws text ++ after)) : ∃ u us,
      Lexes before.length (Wrapper.enclosed ws text) (u :: us) ∧ ∀ level name more,
        d.maxDepth + ws.length ≤ level → Separate d.keywords more → ∃ stop typeText,
          Closes (u :: us) stop ∧
          type (d'.scope whole whole.length) (nestedReader (d'.scope whole whole.length) level) name
            u.start u (us ++ more) =
              .ok ⟨{ Wrapper.fold ws c with name := name, typeText := typeText },stop,more⟩ := by
  induction ws generalizing before after with
  | nil =>
    obtain ⟨t,ts,typed,lexed,alone,read,same⟩ := plainRead plain
    obtain ⟨_,lexed',mates⟩ := insertionTokens words parts lexed
    obtain ⟨u,us,mate,_,rfl⟩ := List.forall₂_cons_left_iff.mp mates
    refine ⟨u,us,lexed',fun level name more deep separate => ?_⟩
    obtain ⟨stop,closes,read'⟩ := typeSeparate (nestedReaderCarries deep) read alone rfl mates name
      (Passage.sameStart mate) separate
    refine ⟨stop,typed.column.typeText,closes,?_⟩
    rw [same]
    have folded : { Wrapper.fold [] { typed.column with name := [], typeText := c.typeText } with
        name := name, typeText := typed.column.typeText } = { typed.column with name := name } := by
      simp [Wrapper.fold]
    rw [folded]
    exact read' u (us ++ more) rfl
  | cons w ws ih =>
    have parts' : whole = (before ++ w.text ++ ['(']) ++
        (Wrapper.enclosed ws text ++ (')' :: after)) := by
      rw [parts]; simp [Wrapper.enclosed,Wrapper.around]
    obtain ⟨u,us,lexed,carry⟩ := ih parts'
    have word := streamExact.mp (Keywords.nameLexed w.kind)
    obtain ⟨_,first,same⟩ := lexesRespelled word w.spelled.symm before.length
    obtain ⟨t,mate,rfl⟩ := soleMate same
    obtain ⟨tag,upper⟩ := respelledUpper mate rfl
    let o : Token := ⟨.opening,['('],before.length + w.text.length⟩
    let z : Token := ⟨.closing,[')'],before.length + w.text.length + 1 +
      (Wrapper.enclosed ws text).length⟩
    have lexed' : Lexes before.length (Wrapper.enclosed (w :: ws) text) (t :: o :: (u :: us ++ [z])) := by
      refine lexesJoined first (lexesBreak rfl rfl rfl (lexesJoined ?_ ?_ rfl)) rfl
      · rwa [List.length_append,List.length_append] at lexed
      · exact lexesBreak rfl rfl rfl (.done _)
    refine ⟨t,_,lexed',fun level name more deep separate => ?_⟩
    obtain ⟨below,rfl⟩ : ∃ below, level = below + 1 := ⟨level - 1,by simp at deep; omega⟩
    have closed : Separate d.keywords (z :: more) := endedSeparate _ rfl
    obtain ⟨stop,typeText,_,read⟩ := carry below [] (z :: more) (by simp at deep; omega) closed
    have outer := wrapperRead (words.symm.trans builtin) w.wraps tag upper (rfl : o.tag = .opening)
      (rfl : z.tag = .closing) read name
    refine ⟨z.stop,whole.slice t.start z.stop,closesBehind (t :: o :: u :: us) rfl,?_⟩
    have tokens : o :: (u :: us ++ [z]) ++ more = o :: u :: (us ++ z :: more) := by simp
    rw [Wrapper.foldWrapper,tokens]
    exact outer

end

theorem wrappersFolded {d : Dialect} {text : Text} {c : Column}
    (builtin : d.keywords = Keywords.builtin) (plain : d.Plain text c) (ws : List Wrapper)
    (marks : List NullMark) (name : Text) {limit : Nat} (deep : d.maxDepth + ws.length ≤ limit) :
    let whole := Wrapper.enclosed ws text ++ marked marks
    ({ d with maxDepth := limit } : Dialect).columnOf name whole = .ok { c with
      name := name
      typeText := Text.trim whole
      nullable := c.nullable || ws.any (·.kind == .nullable) ||
        (marks.getLast?.map NullMark.null).getD false
      lowCardinality := c.lowCardinality || ws.any (·.kind == .lowCardinality)
      fixedLength := ws.isEmpty && c.fixedLength
      estimatedLength := if ws.isEmpty then c.estimatedLength else 1 } := by
  intro whole
  let d' : Dialect := { d with maxDepth := limit }
  let s := d'.scope whole whole.length
  have words : d.keywords = d'.keywords := rfl
  have parts : whole = [] ++ (Wrapper.enclosed ws text ++ marked marks) := rfl
  obtain ⟨u,us,lexed,carry⟩ := enclosedRead builtin words plain ws parts
  obtain ⟨mods,behind,done⟩ := marksRead marks (0 + (Wrapper.enclosed ws text).length)
  have broken : Broken (marked marks) := by cases marks <;> trivial
  have lexed' : Lexes 0 whole (u :: (us ++ mods)) := lexesJoined lexed behind broken
  obtain ⟨_,marks'⟩ := done false 0
  have separate : Separate d.keywords (mods ++ []) :=
    modifiersSeparate builtin marks' (endedSeparate d.keywords trivial)
  rw [List.append_nil] at separate
  obtain ⟨stop,typeText,closes,read⟩ := carry limit [] mods deep separate
  obtain ⟨final,modifiers⟩ := done false stop
  obtain ⟨front,y,shape,last⟩ := closesLast (modifiersClose modifiers closes)
  let column : Column := { Wrapper.fold ws c with
    name := []
    typeText := whole.slice u.start final
    nullable := (Wrapper.fold ws c).nullable || (marks.getLast?.map NullMark.null).getD false }
  have suffixed : Suffixed false stop mods ⟨_,final,[]⟩ mods [] :=
    ⟨by simp,trivial,modifiers,trivial⟩
  have inside : body s (nestedReader s limit) [] u.start u (us ++ mods) = .ok (column,[]) :=
    bodyExact.mpr ⟨_,_,_,_,read,suffixed,rfl⟩
  have visible : u.isDelimiter = false := by simp [isDelimiter,bodyWord inside]
  have outer : outermost s false u.start (u :: (us ++ mods)) = .ok (column,[]) :=
    declarationExact.mpr ⟨visible,_,bodyBegins inside false,inside⟩
  have along := lexesAlong lexed' (Nat.le_of_eq (Nat.zero_add whole.length))
  obtain ⟨_,stands,_⟩ := outermostPlaced (s := s) lexed' outer List.suffix_rfl along
  have trimmed : Text.trim whole = whole.slice u.start final :=
    last ▸ trimSpan lexed' shape (last ▸ (standsWritten stands).tight)
  refine columnOfExact.mpr ⟨u,us ++ mods,column,lexed',outer,?_⟩
  rw [trimmed]
  rfl

theorem wrappersFoldedTwice :
    let d : Dialect := ⟨Keywords.builtin,0⟩
    let c : Column := ⟨[],"double Precision".toList,.float64,false,false,true,8,[],none,none,none,none,
      none,none⟩
    let wrapped := "LOWCARDINALITY(nullable( double Precision )) not null".toList
    let marked := " double Precision  NOT null Null".toList
    ({ d with maxDepth := 2 } : Dialect).columnOf "n".toList wrapped = .ok { c with
      name := "n".toList, typeText := wrapped, nullable := true, lowCardinality := true,
      fixedLength := false, estimatedLength := 1 } ∧
    ({ d with maxDepth := 0 } : Dialect).columnOf "n".toList marked = .ok { c with
      name := "n".toList, typeText := "double Precision  NOT null Null".toList, nullable := true } := by
  intro d c wrapped marked
  have tabled : d = ⟨Keywords.table,0⟩ := congrArg (Dialect.mk · 0) Keywords.builtinTable
  have read : d.columnOf [] " double Precision ".toList = .ok c := by
    rw [tabled]
    decide +kernel
  have lexed : stream " double Precision ".toList =
      .ok [⟨.identifier,"double".toList,1⟩,⟨.identifier,"Precision".toList,8⟩] := by decide +kernel
  have plain : d.Plain " double Precision ".toList c := by
    refine ⟨read,by decide +kernel,fun front t tokens => ?_⟩
    rw [lexed] at tokens
    have last := congrArg List.getLast? (Except.ok.inj tokens)
    rw [List.getLast?_append] at last
    cases last
    decide +kernel
  have builtin : d.keywords = Keywords.builtin := by simp only [d]
  let low : Wrapper := ⟨.lowCardinality,"LOWCARDINALITY".toList,rfl,by decide +kernel⟩
  let nullable : Wrapper := ⟨.nullable,"nullable".toList,rfl,by decide +kernel⟩
  let not : NullMark := ⟨false,"not null".toList,by decide +kernel⟩
  let not' : NullMark := ⟨false,"NOT null".toList,by decide +kernel⟩
  let null : NullMark := ⟨true,"Null".toList,by decide +kernel⟩
  have text : Wrapper.enclosed [low,nullable] " double Precision ".toList ++ ColumnDecl.marked [not] =
      wrapped := by decide +kernel
  have text' : Wrapper.enclosed [] " double Precision ".toList ++ ColumnDecl.marked [not',null] =
      marked := by decide +kernel
  have first := wrappersFolded builtin plain [low,nullable] [not] "n".toList (Nat.le_refl 2)
  have second := wrappersFolded builtin plain [] [not',null] "n".toList (Nat.le_refl 0)
  dsimp only at first second
  rw [text,show Text.trim wrapped = wrapped by decide +kernel] at first
  rw [text',show Text.trim marked = "double Precision  NOT null Null".toList by
    decide +kernel] at second
  exact ⟨first.trans (by decide +kernel),second.trans (by decide +kernel)⟩

end Dialect
end ColumnDecl
