import ColumnDecl.Proofs.Keywords
import ColumnDecl.Proofs.Declaration.Local
import ColumnDecl.Proofs.Token.Case

/-! Marks behind a type, `NULL` and `NOT NULL`, written in any case. None of their words goes on with a
keyword, so the type in front of them is read as it is alone, and the last mark decides. -/
namespace ColumnDecl
open Token

namespace Text

theorem upperRecased {a b : Text} (same : lower a = lower b) : upper a = upper b := by
  have folded : ∀ t : Text, upper (lower t) = upper t := by
    intro t
    induction t with
    | nil => rfl
    | cons c t ih => rw [lowerCons,upperCons,upperCons,upperLower,ih]
  rw [← folded a,same,folded]

end Text

namespace Token

/- The same token in another case, at another place. -/
structure Respelled (x y : Token) : Prop where
  tag : x.tag = y.tag
  raw : Text.lower x.raw = Text.lower y.raw

theorem lexesRespelled {a b : Text} {ts : List Token} (h : Lexes 0 a ts)
    (same : Text.lower a = Text.lower b) (p : Nat) :
    ∃ us, Lexes p b us ∧ List.Forall₂ Respelled ts us := by
  obtain ⟨vs,lexed,recased⟩ := lexesRecased h same
  obtain ⟨us,moved,shifted⟩ := lexesMoved lexed p
  refine ⟨us,moved,?_⟩
  clear lexed moved h
  induction recased generalizing us with
  | nil => cases shifted; exact .nil
  | cons first _ ih =>
    obtain ⟨u,us,mate,rest,rfl⟩ := List.forall₂_cons_left_iff.mp shifted
    exact .cons ⟨first.tag.trans mate.1,first.raw.trans (congrArg Text.lower mate.2.1)⟩ (ih us rest)

theorem respelledUpper {x y : Token} (h : Respelled x y) (word : x.tag = .identifier) :
    y.tag = .identifier ∧ Text.upper y.value = Text.upper x.value := by
  have word' : y.tag = .identifier := h.tag ▸ word
  refine ⟨word',?_⟩
  simp only [value,word,word']
  exact (Text.upperRecased h.raw).symm

end Token

namespace Declaration

theorem respelledModifier {x y : Token} (h : Respelled x y) (word : x.tag = .identifier) :
    modifier? y = modifier? x := by
  obtain ⟨word',same⟩ := respelledUpper h word
  simp only [modifier?,word,word',Modifier.ofWord?,same]

end Declaration

/-- A mark behind a type, in any case. -/
structure NullMark where
  null : Bool
  text : Text
  spelled : Text.lower text = Text.lower (if null then "NULL" else "NOT NULL").toList

/-- Marks, each behind a space. -/
def marked (marks : List NullMark) : Text := marks.flatMap fun m => ' ' :: m.text

namespace Declaration

/- What remains is read as if nothing had been marked before. -/
theorem markRead (m : NullMark) (p : Nat) : ∃ us, Lexes p m.text us ∧
    ∀ nullable stop, ∃ final, ∀ rest last end_, Modifiers m.null final rest last end_ →
      Modifiers nullable stop (us ++ rest) last end_ := by
  have spelled := m.spelled
  cases null : m.null with
  | true =>
    rw [null] at spelled
    have word : stream "NULL".toList = .ok [⟨.identifier,"NULL".toList,0⟩] := by decide +kernel
    obtain ⟨us,lexed,same⟩ := lexesRespelled (streamExact.mp word) spelled.symm p
    obtain ⟨u,mate,rfl⟩ := soleMate same
    have here : modifier? u = some .null := (respelledModifier mate rfl).trans (by decide +kernel)
    exact ⟨[u],lexed,fun nullable stop => ⟨u.stop,fun rest last end_ behind => .null here behind⟩⟩
  | false =>
    rw [null] at spelled
    have words : stream "NOT NULL".toList =
        .ok [⟨.identifier,"NOT".toList,0⟩,⟨.identifier,"NULL".toList,4⟩] := by decide +kernel
    obtain ⟨us,lexed,same⟩ := lexesRespelled (streamExact.mp words) spelled.symm p
    obtain ⟨t,_,first,rest,rfl⟩ := List.forall₂_cons_left_iff.mp same
    obtain ⟨u,second,rfl⟩ := soleMate rest
    have here : modifier? t = some .not := (respelledModifier first rfl).trans (by decide +kernel)
    have next : modifier? u = some .null := (respelledModifier second rfl).trans (by decide +kernel)
    exact ⟨[t,u],lexed,fun nullable stop =>
      ⟨u.stop,fun rest last end_ behind => .notNull here next behind⟩⟩

theorem marksRead (marks : List NullMark) (p : Nat) : ∃ mods, Lexes p (marked marks) mods ∧
    ∀ nullable stop, ∃ final,
      Modifiers nullable stop mods ((marks.getLast?.map NullMark.null).getD nullable) final := by
  induction marks generalizing p with
  | nil => exact ⟨[],.done p,fun nullable stop => ⟨stop,.none _ _⟩⟩
  | cons m marks ih =>
    obtain ⟨us,first,carry⟩ := markRead m (p + 1)
    obtain ⟨vs,behind,last⟩ := ih (p + 1 + m.text.length)
    have broken : Broken (marked marks) := by
      cases marks with
      | nil => trivial
      | cons => rfl
    refine ⟨us ++ vs,.gap rfl (lexesJoined first behind broken),fun nullable stop => ?_⟩
    obtain ⟨next,carry⟩ := carry nullable stop
    obtain ⟨final,done⟩ := last m.null next
    refine ⟨final,?_⟩
    have decided : (((m :: marks).getLast?).map NullMark.null).getD nullable =
        (marks.getLast?.map NullMark.null).getD m.null := by
      rw [List.getLast?_cons]
      cases marks.getLast? <;> rfl
    rw [decided]
    exact carry _ _ _ done

theorem modifiersLast {nullable last : Bool} {stop final : Nat} {mods : List Token}
    (h : Modifiers nullable stop mods last final) (filled : mods ≠ []) :
    ∃ front t, mods = front ++ [t] ∧ modifier? t = some .null := by
  induction h with
  | none => contradiction
  | @null nullable stop t ts last final here rest ih =>
    rcases ts with _ | ⟨u,ts⟩
    · exact ⟨[],t,rfl,here⟩
    · obtain ⟨front,z,whole,null⟩ := ih (List.cons_ne_nil u ts)
      exact ⟨t :: front,z,congrArg (t :: ·) whole,null⟩
  | @notNull nullable stop t u ts last final here next rest ih =>
    rcases ts with _ | ⟨v,ts⟩
    · exact ⟨[t],u,rfl,next⟩
    · obtain ⟨front,z,whole,null⟩ := ih (List.cons_ne_nil v ts)
      exact ⟨t :: u :: front,z,congrArg (t :: u :: ·) whole,null⟩

/-! The type in front of them. -/

/-- Tokens that can follow a type without being taken for a part of it. -/
structure Separate (k : Keywords) (more : List Token) : Prop where
  closed : opened? more = none
  words : ∀ w ∈ (leading more).head?, ¬k.Joins w

theorem endedSeparate {more : List Token} (k : Keywords) (h : Ended more) : Separate k more where
  closed := openedEnded h
  words := by
    rw [leadingEnded h]
    exact nofun

theorem wordSeparate {k : Keywords} (builtin : k = Keywords.builtin) {t : Token} {modifier : Modifier}
    (here : modifier? t = some modifier) (ts : List Token) : Separate k (t :: ts) := by
  have tag := modifierWord here
  refine ⟨by simp [opened?,tag],?_⟩
  rw [leadingCons tag]
  intro w hw
  cases hw
  rw [builtin]
  exact Keywords.builtinSeparate (Keywords.modifierListed (by simp [here]))

theorem modifiersSeparate {k : Keywords} (builtin : k = Keywords.builtin) {nullable last : Bool}
    {stop final : Nat} {mods more : List Token} (h : Modifiers nullable stop mods last final)
    (behind : Separate k more) : Separate k (mods ++ more) := by
  cases h with
  | none => exact behind
  | null here rest => exact wordSeparate builtin here _
  | notNull here next rest => exact wordSeparate builtin here _

theorem keywordSeparate {m : Passage} {ts used us more : List Token} {hit : Scope.Hit}
    (h : Led m.source ts hit used) (same : m.Sames used us)
    (separate : Separate m.source.keywords more) :
    ∃ stop, m.At hit.stop stop ∧ Led m.target (us ++ more) ⟨hit.kind,stop,more⟩ us := by
  have none : leading [] <+: leading hit.rest := List.nil_prefix
  obtain ⟨stop,position,alone⟩ := keywordCarried h same none
  refine ⟨stop,position,rfl,alone.words,alone.stop,?_⟩
  have longest := alone.longest
  have size : us.length = (us.map Token.value).length := (List.length_map _).symm
  rw [leadingAppend alone.words,show leading [] = [] from rfl,List.append_nil,size] at longest
  rw [leadingAppend alone.words,size]
  exact Keywords.longestSeparate longest (m.keywords ▸ separate.words)

/- A type that takes all tokens takes the same ones with these behind it. -/
theorem typeSeparate {inner inner' : Scope → Reader} (carries : Carries inner inner') {s : Scope}
    {name : Text} {start : Nat} {t : Token} {ts : List Token} {r : Typed}
    (h : type s (inner s) name start t ts = .ok r) (alone : r.rest = []) {m : Passage}
    {us : List Token} (source : m.source = s) (same : m.Sames (t :: ts) us) (name' : Text)
    {start' : Nat} (begin_ : m.At start start') {more : List Token}
    (separate : Separate s.keywords more) : ∃ stop', Closes us stop' ∧ ∀ u us', us ++ more = u :: us' →
      type m.target (inner' m.target) name' start' u us' =
        .ok ⟨{ r.column with name := name' },stop',more⟩ := by
  obtain ⟨_,used,whole,_,carry⟩ := typeOnward carries h
  rw [alone,List.append_nil] at whole
  subst source
  obtain ⟨stop',closes,_,read⟩ := carry m us name' start' more rfl (whole ▸ same) begin_
    (fun hit led _ => keywordSeparate led (whole ▸ same) separate) separate.closed
  exact ⟨stop',closes,read⟩

end Declaration
end ColumnDecl
