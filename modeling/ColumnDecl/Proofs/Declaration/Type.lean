import ColumnDecl.Proofs.Column.Draft
import ColumnDecl.Proofs.Declaration.Call

/-! Types, form by form. What a type reads behind its keyword it reads in every passage over the same
tokens, and only the name of the column comes from outside. -/
namespace ColumnDecl.Declaration
open Token

abbrev Form := Scope → Head → Token → List Token → Except Failure Typed

def formOf (inner : Scope → Reader) (kind : Kind) : Form :=
  if kind.isWrapper then fun s => wrapped s (inner s)
  else if kind.isAggregate then fun s => aggregated s (inner s)
  else match kind.shape with
    | .bare => ignored
    | .nested => fun s => composed s (inner s)
    | _ => parameterised

section
variable {inner : Scope → Reader} {s : Scope} {name : Text} {start : Nat} {t : Token}
  {ts : List Token}

theorem typeOpened {hit : Scope.Hit} {opening : Token} {rest : List Token}
    (known : s.keyword? (t :: ts) = some hit) (opens : opened? hit.rest = some (opening, rest)) :
    type s (inner s) name start t ts =
      formOf inner hit.kind s ⟨name,start,hit.kind,hit.stop⟩ opening rest := by
  unfold type formOf
  rw [known]
  dsimp only
  rw [opens]
  dsimp only
  split
  · rfl
  split
  · rfl
  cases hit.kind.shape <;> rfl

theorem typeBare {inner : Reader} {hit : Scope.Hit} (known : s.keyword? (t :: ts) = some hit)
    (opens : opened? hit.rest = none) :
    type s inner name start t ts = bare s ⟨name,start,hit.kind,hit.stop⟩ hit.rest := by
  unfold type
  rw [known]
  dsimp only
  rw [opens]

theorem typeKnown {inner : Reader} {r : Typed} (h : type s inner name start t ts = .ok r) :
    ∃ hit, s.keyword? (t :: ts) = some hit := by
  unfold type at h
  cases known : s.keyword? (t :: ts) with
  | none => rw [known] at h; contradiction
  | some hit => exact ⟨hit,rfl⟩

theorem typeSound {r : Typed} (h : type s (inner s) name start t ts = .ok r) :
    ∃ hit, s.keyword? (t :: ts) = some hit ∧
      ((opened? hit.rest = none ∧ bare s ⟨name,start,hit.kind,hit.stop⟩ hit.rest = .ok r) ∨
        ∃ opening rest, opened? hit.rest = some (opening, rest) ∧
          formOf inner hit.kind s ⟨name,start,hit.kind,hit.stop⟩ opening rest = .ok r) := by
  obtain ⟨hit,known⟩ := typeKnown h
  refine ⟨hit,known,?_⟩
  cases opens : opened? hit.rest with
  | none => rw [typeBare known opens] at h; exact .inl ⟨rfl,h⟩
  | some pair => rw [typeOpened known opens] at h; exact .inr ⟨_,_,rfl,h⟩

end

structure SameHead (m : Passage) (h h' : Head) : Prop where
  kind : h.kind = h'.kind
  start : m.At h.start h'.start
  stop : m.At h.stop h'.stop

theorem headText {m : Passage} {h h' : Head} {stop stop' : Nat} (same : SameHead m h h')
    (position : m.At stop stop') : h.text m.source stop = h'.text m.target stop' :=
  Passage.sliceAt same.start position

theorem headDraft {m : Passage} {h h' : Head} {stop stop' : Nat} (same : SameHead m h h')
    (position : m.At stop stop') :
    h'.draft m.target stop' = { h.draft m.source stop with name := h'.name } := by
  unfold Head.draft
  rw [headText same position,same.kind]

theorem buildExact {d : Column.Draft} {c : Column} :
    build d = .ok c ↔ Column.ofDraft d = .ok c := by
  unfold build
  cases Column.ofDraft d with
  | error fault => exact ⟨nofun,nofun⟩
  | ok column => simp [Except.mapError]

theorem buildOverExact {s : Scope} {start stop : Nat} {d : Column.Draft} {c : Column} :
    buildOver s start stop d = .ok c ↔ Column.ofDraft d = .ok c := by
  unfold buildOver
  cases Column.ofDraft d with
  | error fault => exact ⟨nofun,nofun⟩
  | ok column => simp

theorem buildRenamed {d : Column.Draft} {c : Column} (h : build d = .ok c) (name : Text) :
    build { d with name := name } = .ok { c with name := name } :=
  buildExact.mpr (Column.draftRenamed (buildExact.mp h) name)

theorem buildOverRenamed {s : Scope} {start stop : Nat} {d : Column.Draft} {c : Column}
    (h : buildOver s start stop d = .ok c) (s' : Scope) (start' stop' : Nat) (name : Text) :
    buildOver s' start' stop' { d with name := name } = .ok { c with name := name } :=
  buildOverExact.mpr (Column.draftRenamed (buildOverExact.mp h) name)

def Carried (form form' : Form) : Prop :=
  ∀ s h opening ts r, form s h opening ts = .ok r →
    r.column.name = h.name ∧ ∃ used, ts = used ++ r.rest ∧ Closes used r.stop ∧
      ∀ (m : Passage) h' opening' us more, m.source = s → SameHead m h h' → m.Sames used us →
        ∃ stop', Closes us stop' ∧ m.At r.stop stop' ∧
          form' m.target h' opening' (us ++ more) =
            .ok ⟨{ r.column with name := h'.name },stop',more⟩

theorem ignoredCarried : Carried ignored ignored := by
  intro s h opening ts r read
  unfold ignored at read
  split at read
  next => contradiction
  next other =>
    obtain ⟨args,split,read⟩ := bindOk.mp read
    obtain ⟨column,made,read⟩ := bindOk.mp read
    cases read
    obtain ⟨used,whole,closes,carry⟩ := splitCarried (argumentsExact.mp split)
    refine ⟨Column.draftName (buildExact.mp made),used,whole,closes,?_⟩
    intro m h' opening' us more source same tokens
    subst source
    obtain ⟨items,close,split',closes',position,_⟩ := carry m us tokens opening'.stop more
    refine ⟨close.stop,closes',position,?_⟩
    unfold ignored
    rw [← headText same same.stop,← same.kind,if_neg other]
    refine bindOk.mpr ⟨_,argumentsExact.mpr split',bindOk.mpr ⟨_,?_,rfl⟩⟩
    rw [headDraft same position]
    exact buildRenamed made h'.name

theorem parameterisedCarried : Carried parameterised parameterised := by
  intro s h opening ts r read
  obtain ⟨args,split,read⟩ := bindOk.mp read
  obtain ⟨used,whole,closes,carry⟩ := splitCarried (argumentsExact.mp split)
  dsimp only at read
  split at read
  next enum =>
    obtain ⟨⟨kind,table⟩,pairs,read⟩ := bindOk.mp read
    obtain ⟨column,made,read⟩ := bindOk.mp read
    cases read
    refine ⟨Column.draftName (buildExact.mp made),used,whole,closes,?_⟩
    intro m h' opening' us more source same tokens
    subst source
    obtain ⟨items,close,split',closes',position,alike⟩ := carry m us tokens opening'.stop more
    refine ⟨close.stop,closes',position,bindOk.mpr ⟨_,argumentsExact.mpr split',?_⟩⟩
    dsimp only
    rw [if_pos (same.kind ▸ enum),headDraft same position,← same.kind]
    refine bindOk.mpr ⟨_,enumerationAlike alike pairs,bindOk.mpr ⟨_,?_,rfl⟩⟩
    exact buildRenamed made h'.name
  next other =>
    obtain ⟨p,literals,read⟩ := bindOk.mp read
    obtain ⟨column,made,read⟩ := bindOk.mp read
    cases read
    refine ⟨Column.draftName (buildExact.mp made),used,whole,closes,?_⟩
    intro m h' opening' us more source same tokens
    subst source
    obtain ⟨items,close,split',closes',position,alike⟩ := carry m us tokens opening'.stop more
    refine ⟨close.stop,closes',position,bindOk.mpr ⟨_,argumentsExact.mpr split',?_⟩⟩
    dsimp only
    rw [if_neg (same.kind ▸ other),headDraft same position,← same.kind]
    refine bindOk.mpr ⟨_,parametersAlike alike literals,bindOk.mpr ⟨_,?_,rfl⟩⟩
    exact buildRenamed made h'.name

section
variable {inner inner' : Scope → Reader}

theorem wrappedCarried (carries : Carries inner inner') :
    Carried (fun s => wrapped s (inner s)) (fun s => wrapped s (inner' s)) := by
  intro s h opening ts r read
  obtain ⟨list,found,read⟩ := bindOk.mp read
  obtain ⟨used,whole,closes,carry⟩ := listedCarried carries (listedSound found)
  dsimp only at read
  split at read
  next c one =>
    cases read
    refine ⟨rfl,used,whole,closes,?_⟩
    intro m h' opening' us more source same tokens
    subst source
    obtain ⟨stop',closes',position,list'⟩ := carry m us opening'.stop more rfl tokens
    refine ⟨stop',closes',position,bindOk.mpr ⟨_,listedComplete (same.kind ▸ list'),?_⟩⟩
    dsimp only
    rw [one,headText same position,same.kind]
  next => contradiction

theorem composedCarried (carries : Carries inner inner') :
    Carried (fun s => composed s (inner s)) (fun s => composed s (inner' s)) := by
  intro s h opening ts r read
  obtain ⟨list,found,read⟩ := bindOk.mp read
  obtain ⟨column,made,read⟩ := bindOk.mp read
  cases read
  obtain ⟨used,whole,closes,carry⟩ := listedCarried carries (listedSound found)
  refine ⟨Column.draftName (buildOverExact.mp made),used,whole,closes,?_⟩
  intro m h' opening' us more source same tokens
  subst source
  obtain ⟨stop',closes',position,list'⟩ := carry m us opening'.stop more rfl tokens
  refine ⟨stop',closes',position,bindOk.mpr ⟨_,listedComplete (same.kind ▸ list'),?_⟩⟩
  refine bindOk.mpr ⟨_,?_,rfl⟩
  rw [headDraft same position]
  exact buildOverRenamed made _ _ _ h'.name

theorem aggregatedCarried (carries : Carries inner inner') :
    Carried (fun s => aggregated s (inner s)) (fun s => aggregated s (inner' s)) := by
  intro s h opening ts r read
  obtain ⟨c,called,read⟩ := bindOk.mp read
  obtain ⟨list,found,read⟩ := bindOk.mp read
  obtain ⟨column,made,read⟩ := bindOk.mp read
  cases read
  obtain ⟨first,whole,carryCall⟩ := callsCarried (callsSound called)
  obtain ⟨second,whole',closes,carryList⟩ := followsCarried carries (followsExact.mp found)
  refine ⟨Column.draftName (buildOverExact.mp made),first ++ second,
    by rw [whole,whole',List.append_assoc],closesBehind first closes,?_⟩
  intro m h' opening' us more source same tokens
  subst source
  obtain ⟨v,w,rfl,left,right⟩ := splitAlong tokens
  obtain ⟨stop',closes',position,list'⟩ := carryList m w more rfl right
  refine ⟨stop',closesBehind v closes',position,?_⟩
  rw [List.append_assoc]
  have called' := callsComplete (carryCall m v (w ++ more) left (followsEnded list')) opening'
  refine bindOk.mpr ⟨_,called',bindOk.mpr ⟨_,followsExact.mpr (same.kind ▸ list'),?_⟩⟩
  refine bindOk.mpr ⟨_,?_,rfl⟩
  rw [headDraft same position]
  exact buildOverRenamed made _ _ _ h'.name

theorem formCarried (carries : Carries inner inner') (kind : Kind) :
    Carried (formOf inner kind) (formOf inner' kind) := by
  unfold formOf
  split
  · exact wrappedCarried carries
  split
  · exact aggregatedCarried carries
  split
  · exact ignoredCarried
  · exact composedCarried carries
  · exact parameterisedCarried

end
end ColumnDecl.Declaration
