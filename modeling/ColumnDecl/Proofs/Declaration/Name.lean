import ColumnDecl.Proofs.Declaration.Keyword
import ColumnDecl.Proofs.Declaration.Suffix
import ColumnDecl.Declaration.Name

/-! Whether a declaration begins with a name is decided by the words it begins with and by the first
token behind a keyword. Where the declaration ends only counts as an end. -/
namespace ColumnDecl.Declaration
open Token

inductive Names (s : Scope) : Token → List Token → Named → Prop where
  | quoted {t head rest} (quote : t.tag = .quotedIdentifier) (inside : head.isDelimiter = false) :
      Names s t (head :: rest) ⟨t.value,head,rest⟩
  | type {t ts hit} (word : t.tag = .identifier) (known : s.keyword? (t :: ts) = some hit)
      (follows : followsTypeOnly hit.rest = true) : Names s t ts ⟨[],t,ts⟩
  | known {t head rest hit} (word : t.tag = .identifier)
      (known : s.keyword? (t :: head :: rest) = some hit)
      (follows : followsTypeOnly hit.rest = false) (inside : head.isDelimiter = false) :
      Names s t (head :: rest) ⟨t.value,head,rest⟩
  | unknown {t head rest} (word : t.tag = .identifier)
      (unknown : s.keyword? (t :: head :: rest) = none)
      (follows : followsKnownOnly (head :: rest) = false) :
      Names s t (head :: rest) ⟨t.value,head,rest⟩

theorem givenExact {s : Scope} {t : Token} {ts : List Token} {n : Named} :
    givenName s t ts = .ok n ↔
      ∃ head rest, ts = head :: rest ∧ head.isDelimiter = false ∧ n = ⟨t.value,head,rest⟩ := by
  unfold givenName
  rcases ts with _ | ⟨head,rest⟩
  · exact ⟨nofun,fun ⟨_,_,h,_⟩ => nomatch h⟩
  dsimp only
  constructor
  · intro h
    split at h
    next => contradiction
    next inside => cases h; exact ⟨head,rest,rfl,by simpa using inside,rfl⟩
  · intro h
    obtain ⟨_,_,same,inside,rfl⟩ := h
    cases same
    rw [if_neg (by simp [inside])]

theorem namesSound {s : Scope} {t : Token} {ts : List Token} {n : Named}
    (h : named s t ts = .ok n) : Names s t ts n := by
  unfold named at h
  split at h
  next quote =>
    obtain ⟨head,rest,rfl,inside,rfl⟩ := givenExact.mp h
    exact .quoted quote inside
  next word =>
    split at h
    next hit found =>
      split at h
      next follows => cases h; exact .type word found follows
      next follows =>
        obtain ⟨head,rest,rfl,inside,rfl⟩ := givenExact.mp h
        exact .known word found (by simpa using follows) inside
    next none =>
      split at h
      next => contradiction
      next follows =>
        obtain ⟨head,rest,rfl,inside,rfl⟩ := givenExact.mp h
        exact .unknown word none (by simpa using follows)
  next => contradiction

theorem namesComplete {s : Scope} {t : Token} {ts : List Token} {n : Named}
    (h : Names s t ts n) : named s t ts = .ok n := by
  unfold named
  cases h with
  | quoted quote inside => rw [quote]; exact givenExact.mpr ⟨_,_,rfl,inside,rfl⟩
  | type word known follows =>
    rw [word,known]
    exact if_pos follows
  | known word known follows inside =>
    rw [word,known]
    dsimp only
    rw [follows]
    exact givenExact.mpr ⟨_,_,rfl,inside,rfl⟩
  | unknown word unknown follows =>
    rw [word,unknown]
    dsimp only
    rw [follows]
    refine givenExact.mpr ⟨_,_,rfl,?_,rfl⟩
    simp only [followsKnownOnly,Bool.or_eq_false_iff] at follows
    exact follows.2

theorem namesWhole {s : Scope} {t : Token} {ts : List Token} {n : Named} (h : Names s t ts n) :
    ∃ front, t :: ts = front ++ n.head :: n.rest := by
  cases h with
  | type => exact ⟨[],rfl⟩
  | quoted | known | unknown => exact ⟨[t],rfl⟩

/-! The end of a declaration. -/

theorem wordsBefore {words r used rest : List Token} (whole : words ++ r = used ++ rest)
    (all : ∀ t ∈ words, t.tag = .identifier) (ended : Ended rest) :
    ∃ tail, used = words ++ tail ∧ r = tail ++ rest := by
  rcases List.append_eq_append_iff.mp whole with ⟨tail,same,behind⟩ | ⟨tail,same,behind⟩
  · exact ⟨tail,same,behind⟩
  rcases tail with _ | ⟨d,tail⟩
  · exact ⟨[],by rw [same]; simp,by simpa using behind.symm⟩
  · have word := all d (by rw [same]; simp)
    rw [behind] at ended
    rcases endedTag ended with comma | closing
    · rw [word] at comma
      contradiction
    · rw [word] at closing
      contradiction

theorem typeOnlyEnded {ts : List Token} (h : Ended ts) : followsTypeOnly ts = true := by
  cases ts with
  | nil => rfl
  | cons t ts =>
    have delimiter : t.isDelimiter = true := h
    simp [followsTypeOnly,delimiter]

theorem leadingSame {ts us x y : List Token} (h : List.Forall₂ Alike ts us) (left : Ended x)
    (right : Ended y) : leading (ts ++ x) = leading (us ++ y) := by
  have none : leading x = leading y := by rw [leadingEnded left,leadingEnded right]
  have back : List.Forall₂ Alike us ts :=
    List.Forall₂.flip (h.imp fun _ _ alike => ⟨alike.1.symm,alike.2.symm⟩)
  have forth := leadingAlike h (none ▸ List.prefix_rfl : leading y <+: leading x)
  exact (leadingAlike back (none ▸ List.prefix_rfl)).eq_of_length_le forth.length_le

section
variable {m : Passage} {ts us used rest more : List Token}

theorem typeOnlyCarried (same : m.Sames ts us) (ended : Ended rest) (ended' : Ended more) :
    followsTypeOnly (us ++ more) = followsTypeOnly (ts ++ rest) := by
  cases same with
  | nil =>
    rw [List.nil_append,List.nil_append,typeOnlyEnded ended,typeOnlyEnded ended']
  | cons head tail =>
    have alike := Passage.sameAlike head
    simp only [List.cons_append,followsTypeOnly,alikeDelimiter alike,Passage.sameTag head,
      sameModifier head]

theorem knownOnlyCarried {t u : Token} {ts us : List Token} (same : m.Same t u) :
    followsKnownOnly (u :: us) = followsKnownOnly (t :: ts) := by
  simp only [followsKnownOnly,alikeDelimiter (Passage.sameAlike same),Passage.sameTag same]

/-- With one end for another, a keyword within a declaration stays what it is. -/
theorem keywordWithin {hit : Scope.Hit} (h : m.source.keyword? (used ++ rest) = some hit)
    (same : m.Sames used us) (ended : Ended rest) (ended' : Ended more) :
    ∃ hit', m.target.keyword? (us ++ more) = some hit' ∧
      followsTypeOnly hit'.rest = followsTypeOnly hit.rest := by
  obtain ⟨words,led⟩ := keywordSound h
  obtain ⟨tail,rfl,behind⟩ := wordsBefore led.whole.symm led.words ended
  obtain ⟨words',tail',rfl,first,second⟩ := splitAlong same
  have prefixed : leading (tail' ++ more) <+: leading hit.rest := by
    simp only [behind,leadingSame (Passage.samesAlike second) ended ended',List.prefix_rfl]
  obtain ⟨stop,_,led'⟩ := keywordCarried led first prefixed
  rw [List.append_assoc]
  exact ⟨_,keywordComplete led',by rw [behind]; exact typeOnlyCarried second ended ended'⟩

theorem keywordWithout (h : m.source.keyword? (used ++ rest) = none) (same : m.Sames used us)
    (ended : Ended rest) (ended' : Ended more) : m.target.keyword? (us ++ more) = none := by
  rw [keywordNone] at h ⊢
  rwa [← m.keywords,← leadingSame (Passage.samesAlike same) ended ended']

theorem namesCarried {t : Token} {n : Named} {core : List Token} (h : Names m.source t ts n)
    (whole : t :: ts = used ++ rest) (inside : n.head :: n.rest = core ++ rest) (some : core ≠ [])
    (same : m.Sames used us) (ended : Ended rest) (ended' : Ended more) :
    ∃ u us' head' core', us ++ more = u :: us' ∧ m.Sames core (head' :: core') ∧
      Names m.target u us' ⟨n.name,head',core' ++ more⟩ := by
  have given : ∀ head tail, ts = head :: tail → n = ⟨t.value,head,tail⟩ →
      ∃ u head' core', us ++ more = u :: head' :: (core' ++ more) ∧ m.Same t u ∧ m.Same head head' ∧
        m.Sames core (head' :: core') := by
    intro head tail first second
    subst first second
    have parts : used = t :: core := by
      rw [inside,← List.cons_append] at whole
      exact (List.append_cancel_right whole).symm
    rw [parts] at same
    obtain ⟨u,us',first,others,rfl⟩ := List.forall₂_cons_left_iff.mp same
    rcases core with _ | ⟨c,core⟩
    · contradiction
    obtain ⟨head',core',mate,rest,rfl⟩ := List.forall₂_cons_left_iff.mp others
    rw [List.cons_append,List.cons.injEq] at inside
    rw [← inside.1] at mate
    exact ⟨u,head',core',rfl,first,mate,others⟩
  cases h with
  | type word known follows =>
    have parts : used = core := List.append_cancel_right (whole.symm.trans inside)
    subst parts
    rcases used with _ | ⟨c,used⟩
    · contradiction
    obtain ⟨u,core',mate,_,rfl⟩ := List.forall₂_cons_left_iff.mp same
    rw [whole] at known
    obtain ⟨hit',known',behind⟩ := keywordWithin known same ended ended'
    have word' : u.tag = .identifier := by
      rw [List.cons_append,List.cons.injEq] at whole
      rw [← Passage.sameTag mate,← whole.1,word]
    exact ⟨u,core' ++ more,u,core',rfl,same,.type word' known' (behind ▸ follows)⟩
  | quoted quote inner =>
    obtain ⟨u,head',core',shape,first,mate,cores⟩ := given _ _ rfl rfl
    rw [Passage.sameTag first] at quote
    rw [alikeDelimiter (Passage.sameAlike mate)] at inner
    rw [Passage.sameValue first]
    exact ⟨u,_,head',core',shape,cores,.quoted quote inner⟩
  | known word known follows inner =>
    obtain ⟨u,head',core',shape,first,mate,cores⟩ := given _ _ rfl rfl
    rw [whole] at known
    obtain ⟨hit',known',behind⟩ := keywordWithin known same ended ended'
    rw [shape] at known'
    rw [Passage.sameTag first] at word
    rw [alikeDelimiter (Passage.sameAlike mate)] at inner
    rw [Passage.sameValue first]
    exact ⟨u,_,head',core',shape,cores,.known word known' (behind ▸ follows) inner⟩
  | unknown word none follows =>
    obtain ⟨u,head',core',shape,first,mate,cores⟩ := given _ _ rfl rfl
    rw [whole] at none
    have none' := keywordWithout none same ended ended'
    rw [shape] at none'
    rw [Passage.sameTag first] at word
    rw [Passage.sameValue first]
    exact ⟨u,_,head',core',shape,cores,.unknown word none' (knownOnlyCarried mate ▸ follows)⟩

end
end ColumnDecl.Declaration
