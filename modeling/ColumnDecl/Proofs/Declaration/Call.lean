import ColumnDecl.Proofs.Declaration.Parts

/-! The function of an aggregate type and the types of its arguments. -/
namespace ColumnDecl.Declaration
open Token

inductive Calls (s : Scope) : List Token → Call → Prop where
  | plain {t rest} (name : t.tag = .identifier ∨ t.tag = .quotedIdentifier)
      (plain : opened? rest = none) : Calls s (t :: rest) ⟨t.value,t.value,rest⟩
  | applied {t o rest args written} (name : t.tag = .identifier ∨ t.tag = .quotedIdentifier)
      (opening : o.tag = .opening) (split : Split o.stop rest args)
      (each : args.items.mapM (Argument.written s) = .ok written) :
      Calls s (t :: o :: rest)
        ⟨t.value,t.value ++ '(' :: Text.join [','] written ++ [')'],args.rest⟩

theorem callsSound {s : Scope} {opening : Token} {ts : List Token} {c : Call}
    (h : call s opening ts = .ok c) : Calls s ts c := by
  unfold call at h
  split at h
  next => contradiction
  next t ts =>
    split at h
    next name =>
      split at h
      next => cases h; exact .plain name rfl
      next o rest =>
        split at h
        next open_ =>
          obtain ⟨args,split,h⟩ := bindOk.mp h
          obtain ⟨written,each,h⟩ := bindOk.mp h
          cases h
          exact .applied name open_ (argumentsExact.mp split) each
        next other => cases h; exact .plain name (if_neg other)
    next => contradiction

theorem callsComplete {s : Scope} {ts : List Token} {c : Call} (h : Calls s ts c)
    (opening : Token) : call s opening ts = .ok c := by
  cases h with
  | @plain t rest name plain =>
    unfold call
    dsimp only
    rw [if_pos name]
    rcases rest with _ | ⟨o,rest⟩
    · rfl
    · have other : o.tag ≠ .opening := by
        intro tag
        simp [opened?,tag] at plain
      dsimp only
      rw [if_neg other]
  | applied name open_ split each =>
    unfold call
    dsimp only
    rw [if_pos name,if_pos open_]
    exact bindOk.mpr ⟨_,argumentsExact.mpr split,bindOk.mpr ⟨_,each,rfl⟩⟩

theorem openedEnded {ts : List Token} (h : Ended ts) : opened? ts = none := by
  rcases ts with _ | ⟨t,ts⟩
  · rfl
  · apply if_neg
    rcases endedTag h with comma | closing
    · simp [comma]
    · simp [closing]

theorem callsCarried {s : Scope} {ts : List Token} {c : Call} (h : Calls s ts c) :
    ∃ used, ts = used ++ c.rest ∧
      ∀ (m : Passage) us more, m.Sames used us → Ended more →
        Calls m.target (us ++ more) ⟨c.function,c.signature,more⟩ := by
  cases h with
  | @plain t rest name plain =>
    refine ⟨[t],rfl,?_⟩
    intro m us more same ended
    obtain ⟨u,mate,rfl⟩ := soleMate same
    dsimp only
    rw [Passage.sameValue mate]
    exact .plain (by rw [← mate.1]; exact name) (openedEnded ended)
  | @applied t o rest args written name open_ split each =>
    obtain ⟨used,whole,_,carry⟩ := splitCarried split
    refine ⟨t :: o :: used,by rw [whole]; rfl,?_⟩
    intro m us more same ended
    obtain ⟨u,_,mate,others,rfl⟩ := List.forall₂_cons_left_iff.mp same
    obtain ⟨o',_,mate',tail,rfl⟩ := List.forall₂_cons_left_iff.mp others
    obtain ⟨items,close,split',_,_,alike⟩ := carry m _ tail o'.stop more
    have each' := mapOkAlike (g := Argument.written m.target)
      (fun _ _ alike _ => writtenAlike alike) alike each
    dsimp only
    rw [Passage.sameValue mate]
    exact .applied (by rw [← mate.1]; exact name) (mate'.1 ▸ open_) split' each'

inductive Follows (inner : Reader) (kind : Kind) : List Token → Parts → Prop where
  | none {t rest} (closing : t.tag = .closing) : Follows inner kind (t :: rest) ⟨[],t.stop,rest⟩
  | some {t rest p} (comma : t.tag = .comma) (list : Listed inner kind t.stop rest p) :
      Follows inner kind (t :: rest) p

theorem followsExact {s : Scope} {inner : Reader} {kind : Kind} {opening : Token} {c : Call}
    {p : Parts} : callParts s inner kind opening c = .ok p ↔ Follows inner kind c.rest p := by
  unfold callParts
  constructor
  · intro h
    split at h
    next => contradiction
    next t rest whole =>
      rw [whole]
      split at h
      next comma => exact .some comma (listedSound h)
      next closing => cases h; exact .none closing
      next => contradiction
  · intro h
    generalize c.rest = ts at h ⊢
    cases h with
    | none closing => dsimp only; rw [closing]
    | some comma list => dsimp only; rw [comma]; exact listedComplete list

theorem followsEnded {inner : Reader} {kind : Kind} {ts : List Token} {p : Parts}
    (h : Follows inner kind ts p) : Ended ts := by
  cases h with
  | none closing => simp [Ended,isDelimiter,closing]
  | some comma list => simp [Ended,isDelimiter,comma]

theorem followsCarried {inner inner' : Scope → Reader} (carries : Carries inner inner') {s : Scope}
    {kind : Kind} {ts : List Token} {p : Parts} (h : Follows (inner s) kind ts p) :
    ∃ used, ts = used ++ p.rest ∧ Closes used p.stop ∧
      ∀ (m : Passage) us more, m.source = s → m.Sames used us → ∃ stop',
        Closes us stop' ∧ m.At p.stop stop' ∧
        Follows (inner' m.target) kind (us ++ more) ⟨p.columns,stop',more⟩ := by
  cases h with
  | @none t rest closing =>
    refine ⟨[t],rfl,rfl,?_⟩
    intro m us more source same
    obtain ⟨u,mate,rfl⟩ := soleMate same
    exact ⟨u.stop,rfl,Passage.sameStop mate,.none (mate.1 ▸ closing)⟩
  | @some t rest p comma list =>
    obtain ⟨used,whole,closes,carry⟩ := listedCarried carries list
    refine ⟨t :: used,by rw [whole]; rfl,closesBehind [t] closes,?_⟩
    intro m us more source same
    obtain ⟨u,v,mate,tail,rfl⟩ := List.forall₂_cons_left_iff.mp same
    obtain ⟨stop',closes',position,list'⟩ := carry m v u.stop more source tail
    exact ⟨stop',closesBehind [u] closes',position,.some (mate.1 ▸ comma) list'⟩

end ColumnDecl.Declaration
