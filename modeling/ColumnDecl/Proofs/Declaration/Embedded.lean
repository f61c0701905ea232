import ColumnDecl.Proofs.Declaration.Excerpt
import ColumnDecl.Proofs.Token.Quoted

/-! The type of a column inside a longer text, where it may be the first thing in a declaration or
follow a name. -/
namespace ColumnDecl.Declaration
open Token

theorem bodyWord {s : Scope} {inner : Reader} {name : Text} {start : Nat} {t : Token}
    {ts : List Token} {r : Column × List Token} (h : body s inner name start t ts = .ok r) :
    t.tag = .identifier := by
  obtain ⟨typed,_,_,_,read,_,_⟩ := bodyExact.mp h
  obtain ⟨hit,known⟩ := typeKnown read
  obtain ⟨words,led⟩ := keywordSound known
  rcases words with _ | ⟨w,words⟩
  · exact nomatch led.stop
  · have whole := led.whole
    cases whole
    exact led.words t List.mem_cons_self

theorem suffixedFollows {nullable : Bool} {stop : Nat} {ts mods clause : List Token} {r : Suffix}
    (h : Suffixed nullable stop ts r mods clause) : followsTypeOnly ts = true := by
  have word : ∀ t rest k, modifier? t = some k → followsTypeOnly (t :: rest) = true := by
    intro t rest k here
    simp [followsTypeOnly,here]
  rw [h.whole]
  cases h.modifiers with
  | null here rest => exact word _ _ _ here
  | notNull here next rest => exact word _ _ _ here
  | none =>
    rcases clause with _ | ⟨t,body⟩
    · exact typeOnlyEnded h.ended
    · exact word _ _ _ h.clause.1

theorem bodyBegins {s : Scope} {inner : Reader} {name : Text} {start : Nat} {t : Token}
    {ts : List Token} {r : Column × List Token} (h : body s inner name start t ts = .ok r)
    (names : Bool) : Begins s names t ts ⟨[],t,ts⟩ := by
  cases names with
  | false => exact .plain t ts
  | true =>
    obtain ⟨typed,after,mods,clause,read,done,_⟩ := bodyExact.mp h
    obtain ⟨hit,known⟩ := typeKnown read
    refine .named (.type (bodyWord h) known ?_)
    cases opens : opened? hit.rest with
    | none =>
      rw [typeBare known opens] at read
      obtain ⟨_,_,_,same⟩ := bareExact.mp read
      rw [same] at done
      exact suffixedFollows done
    | some pair =>
      obtain ⟨behind,open_⟩ := openedExact.mp opens
      rw [behind]
      simp [followsTypeOnly,open_]

theorem bodyInserted {d d' : Dialect} {whole before text after name : Text} {c : Column}
    (words : d.keywords = d'.keywords) (parts : whole = before ++ (text ++ after))
    (read : d.columnOf name text = .ok c) :
    c.name = name ∧ ∃ u us, Lexes before.length text (u :: us) ∧ ∀ level name more,
      d.maxDepth ≤ level → Ended more → more = [] ∨ NestedText text →
      body (d'.scope whole whole.length) (nestedReader (d'.scope whole whole.length) level) name
        u.start u (us ++ more) = .ok ({ c with name := name }, more) := by
  obtain ⟨t,tail,column,lexed,outer,rfl⟩ := Dialect.columnOfExact.mp read
  obtain ⟨_,_,begins,inside⟩ := declarationExact.mp outer
  cases begins
  obtain ⟨_,lexed',same⟩ := insertionTokens words parts lexed
  obtain ⟨u,us,mate,_,rfl⟩ := List.forall₂_cons_left_iff.mp same
  refine ⟨rfl,u,us,lexed',fun level name more deep ended nested => ?_⟩
  obtain ⟨_,core,clause,spans,carry⟩ := bodyCarried (nestedReaderCarries deep) inside
  have taken : t :: tail = core ++ clause := by rw [spans.whole]; simp
  have replaces : Replaces (core ++ clause) [] more := by
    refine ⟨ended,nested.imp_right fun balanced => .inr ?_⟩
    obtain ⟨ts,again,balanced⟩ := balanced
    cases lexesUnique lexed (streamExact.mp again)
    exact taken ▸ nestedLevel balanced
  rw [taken] at same
  obtain ⟨co,cl,split,left,right⟩ := splitAlong same
  have clause' := clauseCarried spans.clause right
    (replacesSuffix replaces (List.suffix_append core clause))
  have behind := leadingSame (Passage.samesAlike right) spans.ended ended
  refine carry _ co name u.start cl more rfl left (Passage.sameStart mate) clause' ended
    (behind ▸ List.prefix_rfl) u (us ++ more) ?_
  rw [← List.append_assoc,← split]
  rfl

/-! Names. -/

def quotedName (name : Text) : Text := Text.quote '\x60' name

theorem quotedWritten (name : Text) :
    quotedName name = '\x60' :: ((name.map (Text.doubled '\x60')).flatten ++ ['\x60']) := by
  rw [quotedName,Text.quote,List.flatMap_def]

theorem quotedToken {p : Nat} {name t : Text} {ts : List Token}
    (h : Lexes (p + (quotedName name).length + 1) t ts) :
    Lexes p (quotedName name ++ ' ' :: t) (⟨.quotedIdentifier,quotedName name,p⟩ :: ts) := by
  have length : (quotedName name).length = (name.map (Text.doubled '\x60')).flatten.length + 2 := by
    simp [quotedWritten]
  rw [length] at h
  have lexed := encodedLexes rfl (Text.doubledEncoded '\x60' name) (u := ' ' :: t) (by simp)
    (.gap (by decide) h)
  rw [quotedWritten]
  simpa using lexed

theorem quotedTokenValue (name : Text) (p : Nat) :
    (Token.mk .quotedIdentifier (quotedName name) p).value = name := by
  rw [quotedWritten]
  exact encodedValue rfl (Text.doubledEncoded '\x60' name) p

section
variable {d d' : Dialect} {whole before after name text : Text} {c : Column}

theorem quotedRead (words : d.keywords = d'.keywords)
    (parts : whole = before ++ ((quotedName name ++ ' ' :: text) ++ after))
    (read : d.columnOf name text = .ok c) :
    ∃ t ts, Lexes before.length (quotedName name ++ ' ' :: text) (t :: ts) ∧ ∀ level more,
      d.maxDepth ≤ level → Ended more → more = [] ∨ NestedText text →
      declaration (d'.scope whole whole.length) (nestedReader (d'.scope whole whole.length) level) true
        t.start (t :: (ts ++ more)) = .ok (c, more) := by
  have parts' : whole = (before ++ quotedName name ++ [' ']) ++ (text ++ after) := by
    rw [parts]; simp
  obtain ⟨named_,u,us,lexed,carry⟩ := bodyInserted words parts' read
  rw [List.length_append,List.length_append,List.length_singleton] at lexed
  refine ⟨_,_,quotedToken lexed,fun level more deep ended nested => ?_⟩
  have again := carry level name more deep ended nested
  rw [Column.renamedSame named_] at again
  have visible : u.isDelimiter = false := by simp [isDelimiter,bodyWord again]
  have begins : Names (d'.scope whole whole.length)
      ⟨.quotedIdentifier,quotedName name,before.length⟩ (u :: (us ++ more)) ⟨_,u,us ++ more⟩ :=
    .quoted rfl visible
  rw [quotedTokenValue] at begins
  exact declarationExact.mpr ⟨rfl,_,.named begins,again⟩

/-- A type, with a name in front of it unless that is empty. -/
def declared (name text : Text) : Text :=
  if name = [] then text else quotedName name ++ ' ' :: text

theorem declaredRead (words : d.keywords = d'.keywords)
    (parts : whole = before ++ (declared name text ++ after)) (read : d.columnOf name text = .ok c) :
    ∃ t ts, Lexes before.length (declared name text) (t :: ts) ∧ ∀ level names more,
      d.maxDepth ≤ level → Ended more → more = [] ∨ NestedText text → name = [] ∨ names = true →
      declaration (d'.scope whole whole.length) (nestedReader (d'.scope whole whole.length) level) names
        t.start (t :: (ts ++ more)) = .ok (c, more) := by
  by_cases unnamed : name = []
  · have plain : declared name text = text := if_pos unnamed
    rw [plain] at parts ⊢
    obtain ⟨named_,u,us,lexed,carry⟩ := bodyInserted words parts read
    refine ⟨u,us,lexed,fun level names more deep ended nested _ => ?_⟩
    have again := carry level [] more deep ended nested
    rw [Column.renamedSame (named_.trans unnamed)] at again
    have visible : u.isDelimiter = false := by simp [isDelimiter,bodyWord again]
    have begins := bodyBegins again names
    exact declarationExact.mpr ⟨visible,_,begins,again⟩
  · have quoted : declared name text = quotedName name ++ ' ' :: text := if_neg unnamed
    rw [quoted] at parts ⊢
    obtain ⟨t,ts,lexed,carry⟩ := quotedRead words parts read
    refine ⟨t,ts,lexed,fun level names more deep ended nested allowed => ?_⟩
    rw [allowed.resolve_left unnamed]
    exact carry level more deep ended nested

end
end ColumnDecl.Declaration
