import ColumnDecl.Proofs.Declaration.Call
import ColumnDecl.Proofs.Declaration.Separated
import ColumnDecl.Proofs.Token.Glued

/-! Signatures of aggregate functions. A list of parameters is split by its glyphs alone, so a signature,
which is made of the tokens of a call without the layout between them, is called like the call itself. -/
namespace ColumnDecl.Declaration
open Token

/-! Cuts by glyphs. -/

theorem flatAcross {a : List Token} (flat : ∀ t ∈ a, Flat t) (k : Nat) (ts : List Token) :
    cutFrom k (a ++ ts) = (a ++ (cutFrom k ts).1,(cutFrom k ts).2) ∧ depth k a = k := by
  induction a with
  | nil => exact ⟨rfl,rfl⟩
  | cons t a ih =>
    obtain ⟨bracket,delimiter⟩ := flat t List.mem_cons_self
    obtain ⟨across,level⟩ := ih fun x hx => flat x (List.mem_cons_of_mem t hx)
    have stays : t.depthAfter k = k := by rw [depthAfterBracket,bracket]
    refine ⟨?_,?_⟩
    · rw [List.cons_append,cutFromCons,if_neg (by simp [delimiter]),stays,across]
      rfl
    · change depth (t.depthAfter k) a = k
      rw [stays,level]

theorem solidFlat {c : Char} (h : Solid c) : Flat (plainGlyph c) := by
  have special := h.special
  simp only [specials,List.mem_cons,List.not_mem_nil,or_false,not_or] at special
  unfold Flat plainGlyph bracket? isDelimiter singleTag
  grind

/- A token stands in no list's way, nor do its glyphs, or it is its own glyph. -/
theorem madeShape {x : Token} (h : x.Made) :
    (Flat x ∧ ∀ g ∈ x.glyphs, Flat g) ∨ ∃ g, x.glyphs = [g] ∧ Alike x g := by
  cases h with
  | quoted _ _ tag =>
    refine .inl ⟨?_,?_⟩
    · rcases tag with tag | tag <;> simp [Flat,bracket?,isDelimiter,tag]
    · rw [glyphsQuoted tag]
      intro g hg
      obtain ⟨c,_,rfl⟩ := List.mem_map.mp hg
      exact flatTag (.inl rfl)
  | solid tag chars =>
    refine .inl ⟨?_,?_⟩
    · rcases tag with tag | tag <;> simp [Flat,bracket?,isDelimiter,tag]
    · rw [glyphsSolid tag]
      intro g hg
      obtain ⟨c,hc,rfl⟩ := List.mem_map.mp hg
      exact solidFlat (chars c hc)
  | single _ _ tag raw => exact .inr ⟨plainGlyph _,glyphsSingle tag raw,tag,raw⟩

theorem glyphsRaw (x : Token) : x.glyphs.flatMap raw = x.raw := by
  unfold glyphs
  rw [List.flatMap_map]
  split <;> exact List.flatMap_singleton' x.raw

theorem cutGlyphs {ts : List Token} (spelled : ∀ x ∈ ts, x.Spelled) (k : Nat) :
    cutFrom k (ts.flatMap glyphs) =
      ((cutFrom k ts).1.flatMap glyphs,(cutFrom k ts).2.flatMap glyphs) := by
  induction ts generalizing k with
  | nil => rfl
  | cons x ts ih =>
    have rest := ih fun y hy => spelled y (List.mem_cons_of_mem x hy)
    rw [List.flatMap_cons,cutFromCons]
    rcases madeShape (spelledMade (spelled x List.mem_cons_self)) with ⟨⟨bracket,delimiter⟩,flat⟩ | ⟨g,one,alike⟩
    · have stays : x.depthAfter k = k := by rw [depthAfterBracket,bracket]
      rw [(flatAcross flat k _).1,if_neg (by simp [delimiter]),stays,rest]
      rfl
    · rw [one,List.singleton_append,cutFromCons,← alikeDelimiter alike,← alikeDepth alike,rest]
      split
      · rw [List.flatMap_cons,one]
        rfl
      · rw [List.flatMap_cons,one]
        rfl

theorem depthGlyphs {ts : List Token} (spelled : ∀ x ∈ ts, x.Spelled) (k : Nat) :
    depth k (ts.flatMap glyphs) = depth k ts := by
  induction ts generalizing k with
  | nil => rfl
  | cons x ts ih =>
    have rest := ih (fun y hy => spelled y (List.mem_cons_of_mem x hy)) (x.depthAfter k)
    have first : depth k x.glyphs = x.depthAfter k := by
      rcases madeShape (spelledMade (spelled x List.mem_cons_self)) with ⟨⟨bracket,_⟩,flat⟩ | ⟨g,one,alike⟩
      · rw [(flatAcross flat k []).2,depthAfterBracket,bracket]
      · rw [one]
        exact (alikeDepth alike k).symm
    rw [List.flatMap_cons,depth,List.foldl_append]
    change depth (depth k x.glyphs) (ts.flatMap glyphs) = depth (x.depthAfter k) ts
    rw [first,rest]

section
variable {ts us : List Token} (same : ts.flatMap glyphs = us.flatMap glyphs)
include same

theorem rawSame : ts.flatMap raw = us.flatMap raw := by
  have again : ∀ vs : List Token, (vs.flatMap glyphs).flatMap raw = vs.flatMap raw := by
    intro vs
    rw [List.flatMap_assoc]
    simp only [glyphsRaw]
  rw [← again ts,← again us,same]

variable (spelled : ∀ x ∈ ts, x.Spelled) (spelled' : ∀ x ∈ us, x.Spelled)
include spelled spelled'

theorem cutSame : (cut ts).1.flatMap glyphs = (cut us).1.flatMap glyphs ∧
    (cut ts).2.flatMap glyphs = (cut us).2.flatMap glyphs := by
  have first := cutGlyphs spelled 0
  rw [same,cutGlyphs spelled' 0] at first
  exact ⟨(congrArg Prod.fst first).symm,(congrArg Prod.snd first).symm⟩

end

theorem rawNone {ts : List Token} (spelled : ∀ x ∈ ts, x.Spelled) (none : ts.flatMap raw = []) :
    ts = [] := by
  rcases ts with _ | ⟨x,ts⟩
  · rfl
  · obtain ⟨c,t,n,_,raw⟩ := spelled x List.mem_cons_self
    rw [List.flatMap_cons,raw] at none
    contradiction

theorem glyphsNone {ts : List Token} (spelled : ∀ x ∈ ts, x.Spelled)
    (none : ts.flatMap glyphs = []) : ts = [] := by
  have same : ts.flatMap glyphs = List.flatMap glyphs [] := none
  exact rawNone spelled (rawSame same)

/-- Nothing is cut off from these tokens, and every bracket in them is closed. -/
def Closed (ts : List Token) : Prop := Passed 0 ts ∧ depth 0 ts = 0

theorem cutClosed {ts a rest : List Token} {d : Token} (h : cut ts = (a,d :: rest)) : Closed a :=
  ⟨passedCut h (Nat.le_refl 0),(cutEnded h).2.2 (List.cons_ne_nil d rest)⟩

theorem closedCut {a rest : List Token} (h : Closed a) (ended : Ended rest) :
    cut (a ++ rest) = (a,rest) :=
  passedEnds h.1 h.2 ended

theorem closedSame {ts us : List Token} (h : Closed ts)
    (same : ts.flatMap glyphs = us.flatMap glyphs) (spelled : ∀ x ∈ ts, x.Spelled)
    (spelled' : ∀ x ∈ us, x.Spelled) : Closed us := by
  have whole : cut (ts ++ []) = (ts,[]) := closedCut h trivial
  rw [List.append_nil] at whole
  have behind := (cutSame same spelled spelled').2
  rw [whole] at behind
  have parts := cutRejoins us
  have none : (cut us).2 = [] := by
    refine glyphsNone (fun x hx => spelled' x ?_) behind.symm
    rw [← parts]
    exact List.mem_append_right _ hx
  have all : cut us = (us,[]) := by
    rw [none,List.append_nil] at parts
    exact Prod.ext parts none
  refine ⟨passedCut all (Nat.le_refl 0),?_⟩
  rw [← depthGlyphs spelled',← same,depthGlyphs spelled]
  exact h.2

theorem delimiterSame {d e : Token} {ts us : List Token} (ended : d.isDelimiter = true)
    (ended' : e.isDelimiter = true) (spelled : d.Spelled) (spelled' : e.Spelled)
    (same : (d :: ts).flatMap glyphs = (e :: us).flatMap glyphs) :
    d.tag = e.tag ∧ ts.flatMap glyphs = us.flatMap glyphs := by
  have shape : ∀ {x : Token}, x.isDelimiter = true → x.Spelled →
      ∃ g, x.glyphs = [g] ∧ Alike x g := by
    intro x delimiter spelled
    rcases madeShape (spelledMade spelled) with ⟨⟨_,inside⟩,_⟩ | own
    · rw [inside] at delimiter
      contradiction
    · exact own
  obtain ⟨g,one,alike⟩ := shape ended spelled
  obtain ⟨g',one',alike'⟩ := shape ended' spelled'
  rw [List.flatMap_cons,List.flatMap_cons,one,one'] at same
  obtain ⟨rfl,rest⟩ := List.cons.inj same
  exact ⟨alike.1.trans alike'.1.symm,rest⟩

/- Where a delimiter ends the tokens before it, one with the same tag does so among the others. -/
theorem delimiterRegained {a inside us : List Token} {d : Token} (closed : Closed a)
    (ended : d.isDelimiter = true) (spelled : ∀ x ∈ a ++ d :: inside, x.Spelled)
    (spelled' : ∀ x ∈ us, x.Spelled)
    (same : (a ++ d :: inside).flatMap glyphs = us.flatMap glyphs) :
    ∃ b e vs, us = b ++ e :: vs ∧ Closed b ∧ d.tag = e.tag ∧ a.flatMap raw = b.flatMap raw ∧
      inside.flatMap glyphs = vs.flatMap glyphs := by
  have stops : Ended (d :: inside) := ended
  obtain ⟨before,behind⟩ := cutSame same spelled spelled'
  rw [closedCut closed stops] at before behind
  cases here : cut us with
  | mk b rest =>
    rw [here] at before behind
    obtain ⟨rfl,stops',_⟩ := cutEnded here
    rcases rest with _ | ⟨e,vs⟩
    · have none := glyphsNone (fun x hx => spelled x (List.mem_append_right a hx)) behind
      contradiction
    · obtain ⟨tag,inner⟩ := delimiterSame ended stops' (spelled d (by simp)) (spelled' e (by simp)) behind
      exact ⟨b,e,vs,rfl,cutClosed here,tag,rawSame before,inner⟩

/-! Parameter lists by glyphs. -/

def Argument.source (a : Argument) : Text := a.tokens.flatMap raw

theorem commaRaw {x : Token} (spelled : x.Spelled) (comma : x.tag = .comma) : x.raw = [','] := by
  obtain ⟨c,t,n,found,raw⟩ := spelled
  rw [comma] at found
  obtain ⟨rfl,rfl⟩ := lexemeComma found
  exact raw

theorem splitGlued {start : Nat} {ts : List Token} {args : Arguments} (h : Split start ts args)
    (spelled : ∀ x ∈ ts, x.Spelled) : ∃ inside, ts = inside ++ args.close :: args.rest ∧
      Text.join [','] (args.items.map Argument.source) = inside.flatMap raw ∧
      ∀ us z more first, (∀ x ∈ us, x.Spelled) → inside.flatMap glyphs = us.flatMap glyphs →
        z.tag = .closing → ∃ items, Split first (us ++ z :: more) ⟨items,z,more⟩ ∧
          items.map Argument.source = args.items.map Argument.source := by
  induction h with
  | @last start ts a d rest here closing =>
    obtain ⟨whole,_,_⟩ := cutEnded here
    refine ⟨a,whole,rfl,fun us z more first spelled' same ends => ?_⟩
    have front : ∀ x ∈ a, x.Spelled := fun x hx => spelled x (by rw [whole]; simp [hx])
    have closed := closedSame (cutClosed here) same front spelled'
    have ended : Ended (z :: more) := by simp [Ended,isDelimiter,ends]
    exact ⟨_,.last (closedCut closed ended) ends,congrArg ([·]) (rawSame same).symm⟩
  | @more start ts a d rest args here inner next ih =>
    obtain ⟨whole,ended,_⟩ := cutEnded here
    have comma : d.tag = .comma := (endedTag ended).resolve_right inner
    obtain ⟨inside,split,joined,again⟩ := ih fun x hx => spelled x (by rw [whole]; simp [hx])
    have front : ∀ x ∈ a ++ d :: inside, x.Spelled := by
      intro x hx
      refine spelled x ?_
      rw [whole,split]
      simp only [List.mem_append,List.mem_cons] at hx ⊢
      tauto
    refine ⟨a ++ d :: inside,by rw [whole,split]; simp,?_,?_⟩
    · obtain ⟨i,items,some⟩ : ∃ i items, args.items = i :: items := by
        cases next with
        | last | more => exact ⟨_,_,rfl⟩
      have step : Text.join [','] (List.map Argument.source (⟨start,d.start,a⟩ :: args.items)) =
          a.flatMap raw ++ [','] ++ Text.join [','] (args.items.map Argument.source) := by
        rw [some]
        rfl
      rw [step,joined,List.flatMap_append,List.flatMap_cons,commaRaw (front d (by simp)) comma,
        List.append_assoc]
    · intro us z more first spelled' same ends
      obtain ⟨b,e,vs,rfl,closed,tag,before,behind⟩ :=
        delimiterRegained (cutClosed here) ended front spelled' same
      obtain ⟨items,split',sources⟩ :=
        again vs z more e.stop (fun x hx => spelled' x (by simp [hx])) behind ends
      have stops : Ended (e :: (vs ++ z :: more)) := by simp [Ended,isDelimiter,← tag,comma]
      refine ⟨⟨first,e.start,b⟩ :: items,?_,congrArg₂ List.cons before.symm sources⟩
      rw [List.append_assoc]
      exact .more (closedCut closed stops) (tag ▸ inner) split'

theorem splitTokens {start : Nat} {ts : List Token} {args : Arguments} (h : Split start ts args) :
    ∀ item ∈ args.items, ∀ x ∈ item.tokens, x ∈ ts := by
  induction h with
  | @last start ts a d rest here closing =>
    intro item member x hx
    cases List.mem_singleton.mp member
    rw [(cutEnded here).1]
    exact List.mem_append_left _ hx
  | @more start ts a d rest args here inner next ih =>
    intro item member x hx
    rw [(cutEnded here).1]
    rcases List.mem_cons.mp member with rfl | behind
    · exact List.mem_append_left _ hx
    · exact List.mem_append_right a (List.mem_cons_of_mem d (ih item behind x hx))

theorem writtenSources {s : Scope} {items : List Argument} {written : List Text} :
    items.mapM (Argument.written s) = .ok written ↔
      (∀ item ∈ items, item.tokens ≠ []) ∧ items.map Argument.source = written := by
  rw [mapOkExact]
  simp only [writtenExact]
  constructor
  · intro h
    induction h with
    | nil => exact ⟨nofun,rfl⟩
    | cons first _ ih =>
      exact ⟨List.forall_mem_cons.mpr ⟨first.1,ih.1⟩,congrArg₂ List.cons first.2 ih.2⟩
  · rintro ⟨some,rfl⟩
    rw [List.forall₂_map_right_iff,List.forall₂_same]
    exact fun item member => ⟨some item member,rfl⟩

/- Parameters of the same sources are written the same. -/
theorem writtenAgain {s : Scope} {start : Nat} {ts : List Token} {args : Arguments}
    (split : Split start ts args) (spelled : ∀ x ∈ ts, x.Spelled) {written : List Text}
    (each : args.items.mapM (Argument.written s) = .ok written) {items : List Argument}
    (sources : items.map Argument.source = args.items.map Argument.source) (s' : Scope) :
    items.mapM (Argument.written s') = .ok written := by
  obtain ⟨some,rfl⟩ := writtenSources.mp each
  refine writtenSources.mpr ⟨fun item member none => ?_,sources⟩
  have listed : item.source ∈ args.items.map Argument.source := sources ▸ List.mem_map_of_mem member
  obtain ⟨i,found,same⟩ := List.mem_map.mp listed
  have empty : i.tokens.flatMap raw = [] := by
    rw [Argument.source,Argument.source,none] at same
    exact same
  exact some i found (rawNone (fun x hx => spelled x (splitTokens split i found x hx)) empty)

/-! Calls. -/

theorem wordLexes {f : Token} (spelled : f.Spelled) (word : f.tag = .identifier) (p : Nat) :
    Lexes p f.raw [⟨.identifier,f.raw,p⟩] := by
  obtain ⟨c,t,n,found,raw⟩ := spelled
  rw [word] at found
  have start : isNameChar c = true := by simp [isNameChar,(lexemeName found).1]
  have size : (t.take n).length = n := by
    rw [List.length_take]
    exact Nat.min_eq_left (lexemeBound found)
  rw [← List.take_append_drop n t] at found
  have alone := lexemeCut found (Nat.le_of_eq size.symm)
  have lexed : Lexes p (c :: t.take n) [⟨.identifier,c :: (t.take n).take n,p⟩] := by
    refine .token (visibleLayout (nameVisible start)) alone ?_
    rw [List.drop_eq_nil_of_le (Nat.le_of_eq size)]
    exact .done _
  rw [raw]
  rwa [List.take_take,Nat.min_self] at lexed

/- A signature is lexed into tokens that are called like those it was made of, whatever type it stands in. -/
theorem calledAgain {s : Scope} {f : Token} {ts : List Token} {c : Call} (h : Calls s (f :: ts) c)
    (spelled : ∀ x ∈ f :: ts, x.Spelled) (word : f.tag = .identifier) (p : Nat) :
    ∃ us, Lexes p c.signature us ∧ us.flatMap raw = c.signature ∧
      ∀ s' more, Ended more → Calls s' (us ++ more) ⟨c.function,c.signature,more⟩ := by
  have value : f.value = f.raw := by simp [value,word]
  have first := wordLexes (spelled f List.mem_cons_self) word p
  cases h with
  | plain name plain =>
    dsimp only
    rw [value]
    exact ⟨_,first,List.append_nil _,fun s' more ended => .plain (.inl rfl) (openedEnded ended)⟩
  | @applied _ o rest args written name opening split each =>
    have inner : ∀ x ∈ rest, x.Spelled := fun x hx => spelled x (by simp [hx])
    obtain ⟨inside,whole,joined,again⟩ := splitGlued split inner
    have inner' : ∀ x ∈ inside, x.Spelled := fun x hx => inner x (by rw [whole]; simp [hx])
    let t' : Token := ⟨.identifier,f.raw,p⟩
    let o' : Token := ⟨.opening,['('],p + f.raw.length⟩
    let z : Token := ⟨.closing,[')'],p + f.raw.length + 1 + (inside.flatMap raw).length⟩
    obtain ⟨vs,lexed,raws,walked⟩ := gluedLexes inner' (p + f.raw.length + 1)
    dsimp only
    rw [← (writtenSources.mp each).2,joined,value,List.append_assoc,List.cons_append]
    refine ⟨t' :: o' :: (vs ++ [z]),?_,?_,fun s' more ended => ?_⟩
    · have closed := lexesJoined lexed (lexesBreak rfl rfl rfl (.done _)) (u := [')']) rfl
      exact lexesJoined first (lexesBreak rfl rfl rfl closed) rfl
    · simp [t',o',z,raws]
    · obtain ⟨items,split',sources⟩ :=
        again vs z more o'.stop (fun x hx => lexesTags lexed hx) walked.symm rfl
      have called : Calls s' (t' :: o' :: (vs ++ z :: more)) _ :=
        .applied (.inl rfl) rfl split' (writtenAgain split inner each sources s')
      rw [← (writtenSources.mp each).2,joined,List.append_assoc,List.cons_append] at called
      rw [List.cons_append,List.cons_append,List.append_assoc]
      exact called

end ColumnDecl.Declaration
