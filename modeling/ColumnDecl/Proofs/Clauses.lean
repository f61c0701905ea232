import ColumnDecl.Proofs.DeclarationEnd
import ColumnDecl.Proofs.Declaration.Embedded
import ColumnDecl.Proofs.Declaration.Trailing
import ColumnDecl.Proofs.Token.Window

/-! Clauses behind a type. A clause runs to the end of its declaration, so another one behind it is a
part of it, and the type in front of them is the same with all of them and with none. -/
namespace ColumnDecl
open Token

/-- A word with which a clause begins, in any case. -/
structure ClauseWord where
  text : Text
  spelled : ∃ word ∈ Declaration.clauseWords, Text.lower text = Text.lower word.toList

/-- No comma and no closing parenthesis in the text stands outside of its brackets. -/
def Undelimited (text : Text) : Prop :=
  ∃ w, Window.ofText text text.length = .ok w ∧ w.delimiter [',',')'] 0 text.length = text.length

instance (text : Text) : Decidable (Undelimited text) :=
  match window : Window.ofText text text.length with
  | .error _ => .isFalse fun ⟨_,found,_⟩ => by rw [window] at found; contradiction
  | .ok w =>
    if ends : w.delimiter [',',')'] 0 text.length = text.length then .isTrue ⟨w,window,ends⟩
    else .isFalse fun ⟨_,found,other⟩ => by rw [window] at found; cases found; exact ends other

theorem undelimitedCut {text : Text} (h : Undelimited text) :
    ∃ ts, Lexes 0 text ts ∧ cut ts = (ts,[]) := by
  obtain ⟨w,window,ends⟩ := h
  obtain ⟨ts,rfl,lexed⟩ := Window.wholeExact.mp window
  have bounds := lexesBounds lexed
  have before : ∀ x ∈ ([] : List Token), x.start < 0 := nofun
  have shown : (Window.mk text ts).between 0 text.length = ts := by
    refine Window.betweenBehind before fun x hx => ?_
    have := bounds x hx
    omega
  have parts := cutRejoins ts
  refine ⟨ts,lexed,?_⟩
  cases here : cut ts with
  | mk used rest =>
    rw [here] at parts
    rw [Dialect.delimiterCut ((congrArg cut shown).trans here)] at ends
    rcases rest with _ | ⟨d,rest⟩
    · rw [← parts,List.append_nil]
    · -- A delimiter would stand in front of the end.
      have bound := bounds d (by rw [← parts]; simp)
      have last : d.start = text.length := ends
      omega

namespace Declaration

theorem clauseRead (word : ClauseWord) (p : Nat) :
    ∃ t, Lexes p word.text [t] ∧ modifier? t = some .clause := by
  have checked : ∀ w ∈ clauseWords, stream w.toList = .ok [⟨.identifier,w.toList,0⟩] ∧
      modifier? ⟨.identifier,w.toList,0⟩ = some .clause := by decide +kernel
  obtain ⟨w,member,same⟩ := word.spelled
  obtain ⟨lexed,clause⟩ := checked w member
  obtain ⟨_,moved,mates⟩ := lexesRespelled (streamExact.mp lexed) same.symm p
  obtain ⟨t,mate,rfl⟩ := soleMate mates
  exact ⟨t,moved,(respelledModifier mate rfl).trans clause⟩

/- The bracket count of the outer clause stands wherever that one left it, never below the count that
the inner clause would begin by itself. -/
theorem clauseAppended {clause body : List Token} {t : Token} (h : Clause clause [])
    (here : modifier? t = some .clause) (closed : cut body = (body,[])) :
    Clause (clause ++ t :: body) [] := by
  rcases clause with _ | ⟨u,before⟩
  · exact ⟨here,by rwa [List.append_nil]⟩
  · have first : Passed 0 before := passedCut h.2 (Nat.le_refl 0)
    have second : Passed (depth 0 before) (t :: body) :=
      passedToken (by simp [modifierInside here]) (passedCut closed (Nat.zero_le _))
    have whole := passedAppend first second []
    rw [show cutFrom (depth 0 (before ++ t :: body)) [] = ([],[]) from rfl] at whole
    exact ⟨h.1,by rw [List.append_nil] at whole ⊢; exact whole⟩

theorem clauseSeparate {k : Keywords} (builtin : k = Keywords.builtin) {clause rest : List Token}
    (h : Clause clause rest) (ended : Ended rest) : Separate k (clause ++ rest) := by
  rcases clause with _ | ⟨t,body⟩
  · exact endedSeparate k ended
  · exact wordSeparate builtin h.1 (body ++ rest)

section
variable {inner inner' : Scope → Reader} {s : Scope} {name : Text} {start : Nat} {t : Token}
  {ts : List Token}

/- A body that takes all tokens takes them with a clause behind them. -/
theorem bodyClaused (carries : Carries inner inner') (builtin : s.keywords = Keywords.builtin)
    {c : Column} (h : body s (inner s) name start t ts = .ok (c,[])) {m : Passage}
    (source : m.source = s) {us : List Token} (same : m.Sames (t :: ts) us) {start' : Nat}
    (begin_ : m.At start start') {w : Token} {es : List Token} (here : modifier? w = some .clause)
    (closed : cut es = (es,[])) : ∀ u us', us ++ w :: es = u :: us' →
      body m.target (inner' m.target) name start' u us' = .ok (c,[]) := by
  obtain ⟨typed,after,mods,clause,read,done,made⟩ := bodyExact.mp h
  obtain ⟨rfl,none⟩ := Prod.mk.inj made
  obtain ⟨named_,used,whole,closes,carry⟩ := typeOnward carries read
  have parts : t :: ts = used ++ (mods ++ clause) := by rw [whole,done.whole,← none]; simp
  have ends := done.clause
  rw [← none] at ends
  rw [parts] at same
  obtain ⟨v,_,rfl,first,others⟩ := splitAlong same
  obtain ⟨marks,cl,rfl,second,third⟩ := splitAlong others
  obtain ⟨stop',closes',position⟩ := Passage.closesAt closes first
  obtain ⟨final,position',modifiers⟩ := modifiersCarried done.modifiers second position
  have again : Clause cl [] := clauseCarried ends third ⟨trivial,.inl rfl⟩
  have longer := clauseAppended again here closed
  let more := marks ++ (cl ++ w :: es)
  have suffixed : Suffixed false stop' more ⟨after.nullable,final,[]⟩ marks (cl ++ w :: es) :=
    ⟨by simp [more],trivial,modifiers,longer⟩
  subst source
  have separate : Separate m.source.keywords more := by
    have behind : Separate m.source.keywords (cl ++ w :: es ++ []) :=
      clauseSeparate builtin longer trivial
    rw [List.append_nil] at behind
    exact modifiersSeparate builtin modifiers behind
  obtain ⟨stop'',closes'',_,read'⟩ := carry m v name start' more rfl first begin_
    (fun _ led _ => keywordSeparate led first separate) separate.closed
  cases closesUnique closes' closes''
  intro u us' shape
  have shape' : v ++ more = u :: us' := by rw [← shape]; simp [more]
  refine bodyExact.mpr ⟨_,_,_,_,read' u us' shape',suffixed,?_⟩
  rw [Passage.sliceAt begin_ position',← named_]

end
end Declaration

namespace Dialect
open Declaration

theorem clausesInvisible {d : Dialect} (builtin : d.keywords = Keywords.builtin) {name text : Text}
    {c : Column} (read : d.columnOf name text = .ok c) (word : ClauseWord) {body : Text}
    (undelimited : Undelimited body) :
    d.columnOf name (text ++ ' ' :: (word.text ++ ' ' :: body)) = .ok c := by
  let whole := text ++ ' ' :: (word.text ++ ' ' :: body)
  have parts : whole = [] ++ (text ++ ' ' :: (word.text ++ ' ' :: body)) := rfl
  obtain ⟨t,ts,column,lexed,outer,rfl⟩ := columnOfExact.mp read
  obtain ⟨_,_,begins,inside⟩ := declarationExact.mp outer
  cases begins
  have words : d.keywords = d.keywords := rfl
  obtain ⟨_,first,same⟩ := insertionTokens words parts lexed
  obtain ⟨u,us,mate,_,rfl⟩ := List.forall₂_cons_left_iff.mp same
  obtain ⟨w,second,here⟩ := clauseRead word (0 + text.length + 1)
  obtain ⟨es,third,closed⟩ := undelimitedCut undelimited
  obtain ⟨fs,moved,shifted⟩ := lexesMoved third (0 + text.length + 1 + word.text.length + 1)
  have closed' : cut fs = (fs,[]) :=
    cutAgain closed (shifted.imp fun _ _ alike => ⟨alike.1,alike.2.1⟩) trivial (.inl rfl) (by simp)
  have lexed' : Lexes 0 whole (u :: us ++ w :: fs) :=
    lexesJoined first (.gap rfl (lexesJoined second (.gap rfl moved) rfl)) rfl
  have inside' := bodyClaused (nestedReaderCarries (Nat.le_refl d.maxDepth)) builtin inside rfl same
    (Passage.sameStart mate) here closed' u (us ++ w :: fs) rfl
  have visible : u.isDelimiter = false := by simp [isDelimiter,bodyWord inside']
  have outer' := declarationExact.mpr ⟨visible,_,bodyBegins inside' false,inside'⟩
  exact columnOfExact.mpr ⟨u,us ++ w :: fs,column,lexed',outer',rfl⟩

theorem clausesInvisibleTwice :
    let d : Dialect := ⟨Keywords.builtin,2⟩
    let c : Column := ⟨"n".toList,"Array(Nullable(Int8)) not null".toList,.array,false,false,false,1,
      [⟨[],"Nullable(Int8)".toList,.int8,true,false,false,1,[],none,none,none,none,none,none⟩],
      none,none,none,none,none,none⟩
    d.columnOf "n".toList "Array(Nullable(Int8)) not null Default f([1, ')'] (".toList = .ok c ∧
      d.columnOf "n".toList ("Array(Nullable(Int8)) not null Default f([1, ')'] (" ++
        " cOmment x] \x7d 'a, b)' :: Array(Int8, NULL) in [1, \x7b2\x7d]").toList = .ok c := by
  intro d c
  have tabled : d = ⟨Keywords.table,2⟩ := congrArg (Dialect.mk · 2) Keywords.builtinTable
  have read : d.columnOf "n".toList "Array(Nullable(Int8)) not null Default f([1, ')'] (".toList =
      .ok c := by
    rw [tabled]
    decide +kernel
  have builtin : d.keywords = Keywords.builtin := by simp only [d]
  let word : ClauseWord := ⟨"cOmment".toList,"COMMENT",by decide,by decide +kernel⟩
  have appended : " cOmment x] \x7d 'a, b)' :: Array(Int8, NULL) in [1, \x7b2\x7d]".toList =
      ' ' :: (word.text ++ ' ' :: "x] \x7d 'a, b)' :: Array(Int8, NULL) in [1, \x7b2\x7d]".toList) := by
    decide +kernel
  have undelimited : Undelimited "x] \x7d 'a, b)' :: Array(Int8, NULL) in [1, \x7b2\x7d]".toList := by
    decide +kernel
  rw [String.toList_append,appended]
  exact ⟨read,clausesInvisible builtin read word undelimited⟩

end Dialect
end ColumnDecl
