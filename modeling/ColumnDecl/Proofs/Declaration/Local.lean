import ColumnDecl.Proofs.Declaration.Name
import ColumnDecl.Proofs.Declaration.Type

/-! Declarations are read locally: what is read from a declaration is decided by its own tokens. It
is the same in another text, before another end, and with more levels left. -/
namespace ColumnDecl.Declaration
open Token

theorem bareExact {s : Scope} {h : Head} {rest : List Token} {r : Typed} :
    bare s h rest = .ok r ↔ h.kind.isComposite = false ∧
      ∃ c, Column.ofDraft (h.draft s h.stop) = .ok c ∧ r = ⟨c,h.stop,rest⟩ := by
  unfold bare
  constructor
  · intro read
    split at read
    next => contradiction
    next simple =>
      obtain ⟨c,made,read⟩ := bindOk.mp read
      cases read
      exact ⟨by simpa using simple,c,buildExact.mp made,rfl⟩
  · intro h
    obtain ⟨simple,c,made,rfl⟩ := h
    rw [if_neg (by simp [simple])]
    exact bindOk.mpr ⟨c,buildExact.mpr made,rfl⟩

theorem bareCarried {m : Passage} {h h' : Head} {rest : List Token} {r : Typed}
    (same : SameHead m h h') (read : bare m.source h rest = .ok r) (more : List Token) :
    bare m.target h' more = .ok ⟨{ r.column with name := h'.name },h'.stop,more⟩ := by
  obtain ⟨simple,c,made,rfl⟩ := bareExact.mp read
  refine bareExact.mpr ⟨same.kind ▸ simple,_,?_,rfl⟩
  rw [headDraft same same.stop]
  exact Column.draftRenamed made h'.name

theorem openedExact {ts : List Token} {o : Token} {rest : List Token} :
    opened? ts = some (o, rest) ↔ ts = o :: rest ∧ o.tag = .opening := by
  unfold opened?
  rcases ts with _ | ⟨t,ts⟩
  · exact ⟨nofun,fun h => nomatch h.1⟩
  dsimp only
  constructor
  · intro h
    split at h
    next open_ => cases h; exact ⟨rfl,open_⟩
    next => contradiction
  · intro h
    obtain ⟨same,open_⟩ := h
    cases same
    exact if_pos open_

theorem suffixedCloses {nullable : Bool} {stop : Nat} {ts mods clause : List Token} {r : Suffix}
    (h : Suffixed nullable stop ts r mods clause) : opened? ts = none := by
  have word : ∀ t rest, t.tag = .identifier → opened? (t :: rest) = none := by
    intro t rest tag
    simp [opened?,tag]
  rw [h.whole]
  cases h.modifiers with
  | null here rest => exact word _ _ (modifierWord here)
  | notNull here next rest => exact word _ _ (modifierWord here)
  | none =>
    rcases clause with _ | ⟨t,body⟩
    · exact openedEnded h.ended
    · exact word _ _ (modifierWord h.clause.1)

section
variable {inner inner' : Scope → Reader} {s : Scope} {name : Text} {start : Nat} {t : Token}
  {ts : List Token}

/- What is behind a type matters only to a keyword that no parameter list follows. -/
theorem typeOnward (carries : Carries inner inner') {r : Typed}
    (h : type s (inner s) name start t ts = .ok r) :
    r.column.name = name ∧ ∃ used, t :: ts = used ++ r.rest ∧ Closes used r.stop ∧
      ∀ (m : Passage) us name' start' more, m.source = s → m.Sames used us → m.At start start' →
        (∀ hit, Led s (t :: ts) hit used → hit.rest = r.rest → ∃ stop, m.At hit.stop stop ∧
          Led m.target (us ++ more) ⟨hit.kind,stop,more⟩ us) → opened? more = none →
        ∃ stop', Closes us stop' ∧ m.At r.stop stop' ∧ ∀ u us', us ++ more = u :: us' →
          type m.target (inner' m.target) name' start' u us' =
            .ok ⟨{ r.column with name := name' },stop',more⟩ := by
  obtain ⟨hit,known,⟨none,read⟩ | ⟨o,rest,some,read⟩⟩ := typeSound h
  · obtain ⟨words,led⟩ := keywordSound known
    obtain ⟨_,c,made,same⟩ := bareExact.mp read
    subst same
    refine ⟨Column.draftName made,words,led.whole,led.stop,?_⟩
    intro m us name' start' more source same begin_ keeps closed
    subst source
    obtain ⟨stop',position,led'⟩ := keeps hit led rfl
    refine ⟨stop',led'.stop,position,fun u us' whole => ?_⟩
    rw [typeBare (whole ▸ keywordComplete led') closed]
    have head : SameHead m ⟨name,start,hit.kind,hit.stop⟩ ⟨name',start',hit.kind,stop'⟩ :=
      ⟨rfl,begin_,position⟩
    exact bareCarried head read more
  · obtain ⟨words,led⟩ := keywordSound known
    obtain ⟨behind,open_⟩ := openedExact.mp some
    obtain ⟨named_,used,whole,closes,carry⟩ := formCarried carries hit.kind _ _ _ _ _ read
    refine ⟨named_,words ++ o :: used,?_,closesAcross words o closes,?_⟩
    · rw [led.whole,behind,whole]; simp
    intro m us name' start' more source same begin_ _ _
    subst source
    obtain ⟨w,_,rfl,first,second⟩ := splitAlong same
    obtain ⟨o',v,mate,third,rfl⟩ := List.forall₂_cons_left_iff.mp second
    have open' : o'.tag = .opening := mate.1 ▸ open_
    have prefixed : leading (o' :: (v ++ more)) <+: leading hit.rest := by
      rw [leadingNone (by simp [open'])]
      exact List.nil_prefix
    obtain ⟨stop,position,led'⟩ := keywordCarried led first prefixed
    obtain ⟨stop',closes',position',again⟩ :=
      carry m ⟨name',start',hit.kind,stop⟩ o' v more rfl ⟨rfl,begin_,position⟩ third
    refine ⟨stop',closesAcross w o' closes',position',fun u us' whole' => ?_⟩
    rw [List.append_assoc,List.cons_append] at whole'
    rw [typeOpened (whole' ▸ keywordComplete led') (openedExact.mpr ⟨rfl,open'⟩)]
    exact again

theorem typeCarried (carries : Carries inner inner') {r : Typed}
    (h : type s (inner s) name start t ts = .ok r) :
    r.column.name = name ∧ ∃ used, t :: ts = used ++ r.rest ∧ Closes used r.stop ∧
      ∀ (m : Passage) us name' start' more, m.source = s → m.Sames used us → m.At start start' →
        leading more <+: leading r.rest → opened? more = none →
        ∃ stop', Closes us stop' ∧ m.At r.stop stop' ∧ ∀ u us', us ++ more = u :: us' →
          type m.target (inner' m.target) name' start' u us' =
            .ok ⟨{ r.column with name := name' },stop',more⟩ := by
  obtain ⟨named_,used,whole,closes,carry⟩ := typeOnward carries h
  refine ⟨named_,used,whole,closes,fun m us name' start' more source same begin_ behind => ?_⟩
  refine carry m us name' start' more source same begin_ fun hit led rest => ?_
  subst source
  exact keywordCarried led same (rest ▸ behind)

/-! A declaration behind its name. -/

def body (s : Scope) (inner : Reader) (name : Text) (start : Nat) (t : Token) (ts : List Token) :
    Except Failure (Column × List Token) := do
  let typed ← type s inner name start t ts
  finish s start typed

theorem bodyExact {inner : Reader} {r : Column × List Token} :
    body s inner name start t ts = .ok r ↔
      ∃ typed after mods clause, type s inner name start t ts = .ok typed ∧
        Suffixed false typed.stop typed.rest after mods clause ∧
        r = ({ typed.column with
          typeText := s.text.slice start after.stop
          nullable := typed.column.nullable || after.nullable }, after.rest) := by
  unfold body
  constructor
  · intro h
    obtain ⟨typed,read,h⟩ := bindOk.mp h
    obtain ⟨after,behind,h⟩ := bindOk.mp h
    cases h
    obtain ⟨mods,clause,done⟩ := suffixSound behind
    exact ⟨typed,after,mods,clause,read,done,rfl⟩
  · intro h
    obtain ⟨typed,after,mods,clause,read,done,rfl⟩ := h
    exact bindOk.mpr ⟨typed,read,bindOk.mpr ⟨after,suffixComplete done,rfl⟩⟩

/-- The tokens a body takes: its type with the modifiers, and the clause behind them. -/
structure Spans (s : Scope) (start : Nat) (ts : List Token) (c : Column)
    (core clause rest : List Token) : Prop where
  whole : ts = core ++ (clause ++ rest)
  ended : Ended rest
  clause : Clause clause rest
  text : ∃ stop, Closes core stop ∧ c.typeText = s.text.slice start stop

theorem spansSome {start : Nat} {ts core clause rest : List Token} {c : Column}
    (h : Spans s start ts c core clause rest) : core ≠ [] := by
  obtain ⟨stop,closes,_⟩ := h.text
  intro same
  subst same
  contradiction

theorem bodyCarried (carries : Carries inner inner') {c : Column} {rest : List Token}
    (h : body s (inner s) name start t ts = .ok (c, rest)) :
    c.name = name ∧ ∃ core clause, Spans s start (t :: ts) c core clause rest ∧
      ∀ (m : Passage) us name' start' clause' more, m.source = s → m.Sames core us →
        m.At start start' → Clause clause' more → Ended more →
        leading (clause' ++ more) <+: leading (clause ++ rest) →
        ∀ u us', us ++ (clause' ++ more) = u :: us' →
          body m.target (inner' m.target) name' start' u us' =
            .ok ({ c with name := name' }, more) := by
  obtain ⟨typed,after,mods,clause,read,done,same⟩ := bodyExact.mp h
  cases same
  obtain ⟨named_,used,whole,closes,carry⟩ := typeCarried carries read
  refine ⟨named_,used ++ mods,clause,⟨?_,done.ended,done.clause,after.stop,?_,rfl⟩,?_⟩
  · rw [whole,done.whole]; simp
  · exact modifiersClose done.modifiers closes
  intro m us name' start' clause' more source tokens begin_ again ended behind u us' whole'
  -- The words behind the type must not make its keyword longer than it was.
  obtain ⟨v,w,rfl,first,second⟩ := splitAlong tokens
  have prefixed : leading (w ++ (clause' ++ more)) <+: leading typed.rest := by
    rw [done.whole,List.append_assoc]
    exact leadingAlike (Passage.samesAlike second) behind
  obtain ⟨stop',closes',position⟩ := Passage.closesAt closes first
  obtain ⟨final,position',modifiers⟩ := modifiersCarried done.modifiers second position
  have suffixed : Suffixed false stop' (w ++ (clause' ++ more)) ⟨after.nullable,final,more⟩ w clause' :=
    ⟨by rw [List.append_assoc],ended,modifiers,again⟩
  obtain ⟨stop'',closes'',_,read'⟩ :=
    carry m v name' start' _ source first begin_ prefixed (suffixedCloses suffixed)
  cases closesUnique closes' closes''
  rw [List.append_assoc] at whole'
  refine bodyExact.mpr ⟨_,_,w,clause',read' u us' whole',suffixed,?_⟩
  rw [← source,Passage.sliceAt begin_ position']

/-! Whole declarations. -/

inductive Begins (s : Scope) : Bool → Token → List Token → Named → Prop where
  | plain (t : Token) (ts : List Token) : Begins s false t ts ⟨[],t,ts⟩
  | named {t ts n} (name : Names s t ts n) : Begins s true t ts n

theorem beginsWhole {names : Bool} {n : Named} (h : Begins s names t ts n) :
    ∃ front, t :: ts = front ++ n.head :: n.rest := by
  cases h with
  | plain => exact ⟨[],rfl⟩
  | named name => exact namesWhole name

theorem declarationExact {inner : Reader} {names : Bool} {r : Column × List Token} :
    declaration s inner names t.start (t :: ts) = .ok r ↔ t.isDelimiter = false ∧
      ∃ n, Begins s names t ts n ∧ body s inner n.name n.head.start n.head n.rest = .ok r := by
  unfold declaration
  dsimp only
  cases delimiter : t.isDelimiter with
  | true => exact ⟨nofun,fun h => nomatch h.1⟩
  | false =>
    rw [if_neg Bool.false_ne_true]
    cases names with
    | false =>
      rw [if_neg Bool.false_ne_true]
      constructor
      · intro h; exact ⟨rfl,_,.plain t ts,h⟩
      · intro h
        obtain ⟨_,_,begins,h⟩ := h
        cases begins
        exact h
    | true =>
      rw [if_pos rfl]
      constructor
      · intro h
        obtain ⟨n,name,h⟩ := bindOk.mp h
        exact ⟨rfl,n,.named (namesSound name),h⟩
      · intro h
        obtain ⟨_,n,begins,h⟩ := h
        cases begins with
        | named name => exact bindOk.mpr ⟨n,namesComplete name,h⟩

theorem beginsCarried {m : Passage} {names : Bool} {n : Named} {core used us rest more : List Token}
    (h : Begins m.source names t ts n) (whole : t :: ts = used ++ rest)
    (inside : n.head :: n.rest = core ++ rest) (some : core ≠ []) (same : m.Sames used us)
    (ended : Ended rest) (ended' : Ended more) :
    ∃ u us' head' core', us ++ more = u :: us' ∧ m.Sames core (head' :: core') ∧
      Begins m.target names u us' ⟨n.name,head',core' ++ more⟩ := by
  cases h with
  | plain =>
    have parts : used = core := List.append_cancel_right (whole.symm.trans inside)
    subst parts
    rcases used with _ | ⟨c,used⟩
    · contradiction
    obtain ⟨u,core',_,_,rfl⟩ := List.forall₂_cons_left_iff.mp same
    exact ⟨u,core' ++ more,u,core',rfl,same,.plain u _⟩
  | named name =>
    obtain ⟨u,us',head',core',shape,cores,name'⟩ :=
      namesCarried name whole inside some same ended ended'
    exact ⟨u,us',head',core',shape,cores,.named name'⟩

theorem declarationCarried (carries : Carries inner inner') {names : Bool} {c : Column}
    {rest : List Token} (h : declaration s (inner s) names t.start (t :: ts) = .ok (c, rest)) :
    ∃ used, t :: ts = used ++ rest ∧ Ended rest ∧
      ∀ (m : Passage) us more, m.source = s → m.Sames used us → Replaces used rest more →
        ∃ u us', us ++ more = u :: us' ∧
          declaration m.target (inner' m.target) names u.start (u :: us') = .ok (c, more) := by
  obtain ⟨visible,n,begins,read⟩ := declarationExact.mp h
  obtain ⟨named_,core,clause,spans,carry⟩ := bodyCarried carries read
  obtain ⟨front,split⟩ := beginsWhole begins
  refine ⟨front ++ (core ++ clause),by rw [split,spans.whole]; simp,spans.ended,?_⟩
  intro m us more source same replaces
  subst source
  have whole : t :: ts = front ++ (core ++ clause) ++ rest := by rw [split,spans.whole]; simp
  have inside : n.head :: n.rest = core ++ clause ++ rest := by rw [spans.whole]; simp
  have some : core ++ clause ≠ [] := fun none => spansSome spans (List.append_eq_nil_iff.mp none).1
  obtain ⟨u,us',head',core',shape,cores,begins'⟩ :=
    beginsCarried begins whole inside some same spans.ended replaces.ended
  have used : front ++ (core ++ clause) ≠ [] :=
    fun none => some (List.append_eq_nil_iff.mp none).2
  have first : m.Same t u := firstMate same used whole.symm shape
  refine ⟨u,us',shape,declarationExact.mpr ⟨?_,_,begins',?_⟩⟩
  · rw [← alikeDelimiter (Passage.sameAlike first)]; exact visible
  · obtain ⟨co,cl,parts,left,right⟩ := splitAlong cores
    have again := clauseCarried spans.clause right (replacesSuffix replaces
      ((List.suffix_append core clause).trans (List.suffix_append front _)))
    have behind := leadingSame (Passage.samesAlike right) spans.ended replaces.ended
    have mate : m.Same n.head head' := 
      firstMate cores some inside.symm (show head' :: core' ++ more = head' :: (core' ++ more) from rfl)
    have read' := carry m co n.name head'.start cl more rfl left (Passage.sameStart mate) again
      replaces.ended (behind ▸ List.prefix_rfl) head' (core' ++ more) (by
        rw [← List.append_assoc,← parts]; rfl)
    rwa [Column.renamedSame named_] at read'

/-! Nested declarations. -/

theorem nestedReaderExact {level start : Nat} {names : Bool} {ts : List Token}
    {r : Column × List Token} :
    nestedReader s level names start ts = .ok r ↔ ∃ below t tail, level = below + 1 ∧
      ts = t :: tail ∧ declaration s (nestedReader s below) names t.start (t :: tail) = .ok r := by
  rcases level with _ | level
  · exact ⟨nofun,fun ⟨_,_,_,h,_⟩ => nomatch h⟩
  change (do
    let start ← s.arrive ts
    declaration s (nestedReader s level) names start ts) = .ok r ↔ _
  rcases ts with _ | ⟨t,tail⟩
  · constructor
    · intro h
      obtain ⟨start,_,h⟩ := bindOk.mp h
      contradiction
    · intro ⟨_,_,_,_,h,_⟩
      contradiction
  · constructor
    · intro h
      exact ⟨level,t,tail,rfl,rfl,h⟩
    · intro ⟨_,_,_,same,whole,h⟩
      cases same
      cases whole
      exact h

theorem nestedReaderCarries {level level' : Nat} (deep : level ≤ level') :
    Carries (fun s => nestedReader s level) (fun s => nestedReader s level') := by
  induction level generalizing level' with
  | zero => intro s names start ts c rest h; contradiction
  | succ level ih =>
    obtain ⟨below,rfl⟩ : ∃ below, level' = below + 1 := ⟨level' - 1,by omega⟩
    intro s names start ts c rest h
    obtain ⟨_,t,tail,same,rfl,read⟩ := nestedReaderExact.mp h
    cases same
    obtain ⟨used,whole,ended,carry⟩ := declarationCarried (ih (Nat.le_of_succ_le_succ deep)) read
    refine ⟨used,whole,ended,fun m us start' more source same replaces => ?_⟩
    obtain ⟨u,us',shape,read'⟩ := carry m us more source same replaces
    rw [shape]
    exact nestedReaderExact.mpr ⟨below,u,us',rfl,rfl,read'⟩

end
end ColumnDecl.Declaration
