import ColumnDecl.Proofs.KeywordHistory
import ColumnDecl.Proofs.Column.WellFormed
import ColumnDecl.Proofs.Declaration.Series
import ColumnDecl.Proofs.Declaration.Trailing
import ColumnDecl.Proofs.Declaration.Trim
import ColumnDecl.Proofs.Declaration.Written

/-! Parameter lists that a kind has no use for. Behind an alias any list of properly nested tokens is
passed over, and only the type text shows it; behind the name of the kind itself none may stand. -/
namespace ColumnDecl
open Token Declaration

/-- The words of a text that is nothing else: names, the first at its start and the last at its end. -/
structure WordsOf (kw : Text) (t : Token) (ts : List Token) : Prop where
  lexed : Lexes 0 kw (t :: ts)
  names : ∀ x ∈ t :: ts, x.tag = .identifier
  start : t.start = 0
  stop : Closes (t :: ts) kw.length

/-- A keyword of this kind, in any case and with any layout between its words. -/
structure Keywords.Spelled (k : Keywords) (kind : Kind) (kw : Text) : Prop where
  words : ∃ t ts, stream kw = .ok (t :: ts) ∧ ∀ x ∈ t :: ts, x.tag = .identifier
  tight : kw.Tight
  known : k.get? kw = some kind

namespace Keywords
variable {k : Keywords} {kind : Kind} {kw : Text} {t : Token} {ts : List Token}

theorem wordsOf (h : k.Spelled kind kw) : ∃ t ts, WordsOf kw t ts := by
  obtain ⟨t,ts,lexed,names⟩ := h.words
  have lexed := streamExact.mp lexed
  obtain ⟨front,last,shape⟩ := (List.eq_nil_or_concat (t :: ts)).resolve_left (List.cons_ne_nil t ts)
  rw [List.concat_eq_append] at shape
  have member : last ∈ t :: ts := by rw [shape]; simp
  have bounds := lexesBounds lexed last member
  have order : t.start < last.stop := by
    rcases List.mem_cons.mp member with rfl | behind
    · exact bounds.2.1
    · have := List.rel_of_pairwise_cons (lexesOrdered lexed) behind
      have := (lexesBounds lexed t List.mem_cons_self).2.1
      omega
  have some : kw ≠ [] := by
    rintro rfl
    exact nomatch lexed
  have trimmed : Text.trim kw = kw := by
    have around := Text.trimAround (a := []) (b := []) nofun nofun h.tight some
    rwa [List.nil_append,List.append_nil] at around
  have whole := trimSpan lexed shape (sliceTight lexed List.mem_cons_self member
    (.inl (names t List.mem_cons_self)) (.inl (names last member)) order)
  have short := Text.sliceLength kw t.start last.stop
  rw [← whole,trimmed] at short
  have stop : last.stop = kw.length := by omega
  refine ⟨t,ts,lexed,names,by omega,?_⟩
  rw [shape,← stop]
  exact closesBehind front rfl

theorem wordsInside (w : WordsOf kw t ts) : t.isDelimiter = false := by
  rw [isDelimiter,w.names t List.mem_cons_self]
  rfl

theorem wordsKey (w : WordsOf kw t ts) : keyOf kw = key ((t :: ts).map Token.value) := by
  rw [keyOf,lexesWords w.lexed w.names]
  refine congrArg key (List.map_congr_left fun x hx => ?_)
  rw [Token.value,w.names x hx]

/- The words form the longest keyword in front of anything but another word. -/
theorem wordsHit (wide : k.Wide) (known : k.get? kw = some kind) (w : WordsOf kw t ts) {s : Scope}
    (words : s.keywords = k) {more : List Token} (none : leading more = []) :
    s.keyword? (t :: (ts ++ more)) = some ⟨kind,kw.length,more⟩ := by
  have head : leading (t :: ts ++ more) = (t :: ts).map Token.value := by
    rw [leadingAppend w.names,none,List.append_nil]
  have size : ((t :: ts).map Token.value).length = (t :: ts).length := List.length_map _
  have found : k.find? (key (((t :: ts).map Token.value).take (t :: ts).length)) = some kind := by
    rw [← size,List.take_length,← wordsKey w]
    exact known
  have formed : k.Formed ((t :: ts).map Token.value) (t :: ts).length :=
    ⟨Nat.succ_pos _,Nat.le_of_eq size.symm,kind,found⟩
  have led : Led s (t :: ts ++ more) ⟨kind,kw.length,more⟩ (t :: ts) := by
    refine ⟨rfl,w.names,w.stop,?_⟩
    rw [words,head]
    refine longestExact.mpr ⟨formed.1,formedWithin wide formed,found,fun i longer within => ?_⟩
    rw [size] at within
    omega
  exact keywordComplete led

theorem nameKey (kind : Kind) : keyOf kind.name.toList = Text.upper kind.name.toList := by
  have lexed := streamExact.mp (nameLexed kind)
  rw [keyOf,lexesWords lexed fun x hx => by rw [List.mem_singleton.mp hx]]
  rfl

theorem nameWord (kind : Kind) : ' ' ∉ Text.upper kind.name.toList := by
  have checked : ∀ kind ∈ Kind.all, ∀ n ∈ (letters kind).head?, ' ' ∉ Text.upper n := by
    decide +kernel
  exact checked kind (kindListed kind) _ (nameLetters kind)

/- A keyword and a name have one key exactly if they differ in letter case alone: a name is one word, so
the keyword is one too. -/
theorem keySame (w : WordsOf kw t ts) (kind : Kind) :
    keyOf kw = keyOf kind.name.toList ↔ Text.lower kw = Text.lower kind.name.toList := by
  have name := streamExact.mp (nameLexed kind)
  have word := w.names t List.mem_cons_self
  have value : t.value = t.raw := by rw [Token.value,word]
  rw [nameKey,wordsKey w]
  constructor
  · intro same
    rcases ts with _ | ⟨u,ts⟩
    · have stop : t.stop = kw.length := Option.some.inj w.stop
      have whole : t.raw = kw := by
        rw [lexesRaw w.lexed List.mem_cons_self,stop,w.start]
        exact Text.sliceWhole kw
      have upper : Text.upper kw = Text.upper kind.name.toList := by rwa [← whole,← value]
      have left := wordAscii w.lexed List.mem_cons_self word
      have right := wordAscii name List.mem_cons_self rfl
      rw [whole] at left
      rw [← Text.lowerUpper left,upper,Text.lowerUpper right]
    · have joined : ' ' ∈ key (t.value :: u.value :: ts.map Token.value) := by
        rw [keyCons]
        simp
      exact absurd (same ▸ joined) (nameWord kind)
  · intro same
    obtain ⟨us,lexed,mates⟩ := lexesRespelled name same.symm 0
    obtain ⟨u,mate,rfl⟩ := soleMate mates
    cases lexesUnique lexed w.lexed
    exact (respelledUpper mate rfl).2

end Keywords

namespace Dialect
open Keywords

theorem bareForm {kind : Kind} (bare : kind.shape = .bare) : formOf inner kind = ignored := by
  cases kind <;> first | rfl | exact nomatch bare

section
variable {d : Dialect} {kind : Kind} {kw body : Text} {t : Token} {ts : List Token}

theorem aliasAlone (wide : d.keywords.Wide) (bare : kind.shape = .bare)
    (known : d.keywords.get? kw = some kind) (w : WordsOf kw t ts) {c : Column}
    (made : Column.ofDraft { name := [], typeText := kw, kind := kind } = .ok c) (name : Text) :
    d.columnOf name kw = .ok { c with name := name } := by
  let s := d.scope kw kw.length
  have hit : s.keyword? (t :: (ts ++ [])) = some ⟨kind,kw.length,[]⟩ := wordsHit wide known w rfl rfl
  rw [List.append_nil] at hit
  have whole : s.text.slice 0 kw.length = kw := Text.sliceWhole kw
  have own : Declaration.bare s ⟨[],0,kind,kw.length⟩ [] = .ok ⟨c,kw.length,[]⟩ := by
    unfold Declaration.bare
    dsimp only
    rw [Kind.bareSimple bare,if_neg Bool.false_ne_true]
    refine bindOk.mpr ⟨c,buildExact.mpr ?_,rfl⟩
    rwa [Head.draft,Head.text,whole]
  have read : outermost s false t.start (t :: ts) = .ok (c,[]) := by
    rw [outermostUnnamed (wordsInside w),w.start,typeBare hit rfl,own]
    exact finishWhole ((Column.draftText made).trans whole.symm)
  exact columnOfExact.mpr ⟨t,ts,c,w.lexed,read,rfl⟩

theorem aliasCalled (wide : d.keywords.Wide) (bare : kind.shape = .bare)
    (known : d.keywords.get? kw = some kind) (w : WordsOf kw t ts) (nests : NestedText body) {c : Column}
    (made : Column.ofDraft { name := [], typeText := called kw body, kind := kind } = .ok c)
    (name : Text) :
    d.columnOf name (called kw body) =
      if keyOf kw = keyOf kind.name.toList then .error (.rejected ⟨.parametersRefused kind,
        some (called kw body),some kw.length,some (kw.length + 1)⟩)
      else .ok { c with name := name } := by
  obtain ⟨vs,inside,proper⟩ := nests
  obtain ⟨us,z,same,closing,stop,lexed⟩ := calledTokens w.lexed (streamExact.mp inside)
  rw [List.cons_append] at lexed
  let o : Token := ⟨.opening,['('],kw.length⟩
  let s := d.scope (called kw body) (called kw body).length
  have behind : leading (o :: (us ++ [z])) = [] := leadingNone (by simp [o]) _
  have hit : s.keyword? (t :: (ts ++ o :: (us ++ [z]))) = some ⟨kind,kw.length,o :: (us ++ [z])⟩ :=
    wordsHit wide known w rfl behind
  have opened : opened? (o :: (us ++ [z])) = some (o,us ++ [z]) := rfl
  let h : Head := ⟨[],0,kind,kw.length⟩
  have head : h.text s kw.length = kw := List.take_left
  have reads : outermost s false t.start (t :: (ts ++ o :: (us ++ [z]))) =
      ignored s h o (us ++ [z]) >>= finish s 0 := by
    rw [outermostUnnamed (wordsInside w),w.start,typeOpened hit opened,bareForm bare]
  split
  next canonical =>
    refine columnOfRefused lexed ?_
    rw [reads,ignored,head,if_pos canonical]
    rfl
  next other =>
    obtain ⟨items,split⟩ := splitNested (nestedAlike proper same) closing o.stop
    have whole : s.text.slice 0 z.stop = called kw body := by
      rw [stop]
      exact Text.sliceWhole _
    have own : ignored s h o (us ++ [z]) = .ok ⟨c,z.stop,[]⟩ := by
      unfold ignored
      rw [head,if_neg other]
      refine bindOk.mpr ⟨_,argumentsExact.mpr split,bindOk.mpr ⟨c,buildExact.mpr ?_,rfl⟩⟩
      rwa [Head.draft,Head.text,whole]
    have read : outermost s false t.start (t :: (ts ++ o :: (us ++ [z]))) = .ok (c,[]) := by
      rw [reads,own]
      exact finishWhole ((Column.draftText made).trans whole.symm)
    exact columnOfExact.mpr ⟨t,_,c,lexed,read,rfl⟩

end

/- An alias takes any properly nested list and ignores it, the name of the kind takes none. -/
theorem parametersIgnored (calls : List (Text × Kind)) (depth : Nat) {kind : Kind}
    (bare : kind.shape = .bare) {kw body : Text} (spelled : (builtin.after calls).Spelled kind kw)
    (nests : NestedText body) (name : Text) :
    let d : Dialect := ⟨builtin.after calls,depth⟩
    (Text.lower kw ≠ Text.lower kind.name.toList → ∃ c, d.columnOf name kw = .ok c ∧
      d.columnOf name (called kw body) = .ok { c with typeText := called kw body }) ∧
    (Text.lower kw = Text.lower kind.name.toList → ∃ fault,
      d.columnOf name (called kw body) = .error (.rejected fault) ∧ fault.category = .malformed) := by
  intro d
  have wide : d.keywords.Wide := wideAfter wideBuiltin calls
  obtain ⟨t,ts,w⟩ := wordsOf spelled
  obtain ⟨c,made⟩ := Column.simpleBuilt
    (d := { name := [], typeText := kw, kind := kind }) (Kind.bareSimple bare) rfl
  have alone := aliasAlone wide bare spelled.known w made name
  have read := aliasCalled wide bare spelled.known w nests (Column.draftRetold made _) name
  constructor
  · intro other
    rw [if_neg (mt (keySame w kind).mp other)] at read
    exact ⟨_,alone,read⟩
  · intro same
    rw [if_pos ((keySame w kind).mpr same)] at read
    exact ⟨_,read,rfl⟩

theorem parametersIgnoredDouble :
    let calls := [("big text".toList,.string)]
    let d : Dialect := ⟨builtin.after calls,0⟩
    let kw := "double\tPrecision".toList
    let body := "[a,'x)'], \x7b(1)\x7d,".toList
    (builtin.after calls).Spelled .float64 kw ∧ NestedText body ∧
      Text.lower kw ≠ Text.lower Kind.float64.name.toList ∧
      ∃ c, d.columnOf "n".toList kw = .ok c ∧
        d.columnOf "n".toList (called kw body) = .ok { c with typeText := called kw body } := by
  intro calls d kw body
  have lexed : stream kw = .ok [⟨.identifier,"double".toList,0⟩,⟨.identifier,"Precision".toList,7⟩] := by
    decide +kernel
  have tight : Text.Tight kw := by
    refine ⟨fun c first => ?_,fun c last => ?_⟩
    · cases first
      decide
    · cases last
      decide
  have key : keyOf kw = keyOf "DOUBLE PRECISION".toList := by decide
  have known : (builtin.after calls).get? kw = some .float64 := by
    rw [get?,key]
    exact afterKeeps (spellingKnown (by decide)) calls
  have spelled : (builtin.after calls).Spelled .float64 kw := ⟨⟨_,_,lexed,by decide⟩,tight,known⟩
  have nests : NestedText body := by decide +kernel
  have other : Text.lower kw ≠ Text.lower Kind.float64.name.toList := by decide
  exact ⟨spelled,nests,other,(parametersIgnored calls 0 rfl spelled nests "n".toList).1 other⟩

end Dialect
end ColumnDecl
