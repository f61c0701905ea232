import ColumnDecl.Proofs.Declaration.Parameterised
import ColumnDecl.Proofs.Declaration.Series
import ColumnDecl.Proofs.Declaration.Written

/-! Types written out with literal parameters. Such a text is read just when the tokens between its
parentheses are groups that the kind takes. -/
namespace ColumnDecl.Dialect
open Token Declaration

def applied (kind : Kind) (body : Text) : Text := kind.name.toList ++ '(' :: (body ++ [')'])

theorem literalForm {kind : Kind} (literal : Literal kind) :
    formOf inner kind = parameterised := by
  rcases literal with enum | listed
  · simp only [Kind.isEnum,Bool.or_eq_true,beq_iff_eq] at enum
    rcases enum with (rfl | rfl) | rfl <;> rfl
  · simp only [literalKinds,List.mem_cons,List.not_mem_nil,or_false] at listed
    rcases listed with rfl | rfl | rfl | rfl | rfl | rfl | rfl | rfl | rfl <;> rfl

theorem appliedLexes (kind : Kind) {body : Text} {ts : List Token}
    (lexed : Lexes 0 body ts) : ∃ us z, List.Forall₂ Alike ts us ∧ z.tag = .closing ∧
      z.stop = (applied kind body).length ∧
      Lexes 0 (applied kind body) (headToken kind :: openToken kind :: (us ++ [z])) :=
  calledTokens (streamExact.mp (Keywords.nameLexed kind)) lexed

section
variable {d : Dialect} {kind : Kind} {body name : Text} {ts : List Token} {c : Column}

theorem appliedOutermost (builtin : d.keywords = Keywords.builtin) (literal : Literal kind)
    {text : Text} {z : Token} (closing : z.tag = .closing) (stops : z.stop = text.length)
    (matched : Matched ts) :
    outermost (d.scope text text.length) false 0
        (headToken kind :: openToken kind :: (ts ++ [z])) = .ok (c,[]) ↔
      ∃ groups e, Separated groups ts ∧ Filled { name := [], typeText := text, kind := kind } groups e ∧
        Column.ofDraft e = .ok c := by
  let s := d.scope text text.length
  let h : Head := ⟨[],0,kind,kind.name.toList.length⟩
  rw [listingOutermost (s := s) builtin kind,listedType,literalForm literal]
  have slice : s.text.slice 0 z.stop = text := by rw [stops]; exact Text.sliceWhole text
  have draft : h.draft s z.stop = { name := [], typeText := text, kind := kind } := by
    rw [Head.draft,Head.text,slice]
  -- Behind the list there is nothing, so the column of the type is the whole column.
  have own : ∀ {groups e x}, Filled { name := [], typeText := text, kind := kind } groups e →
      Column.ofDraft e = .ok x → { x with
        typeText := s.text.slice 0 z.stop
        nullable := x.nullable || false } = x := fun filled made =>
    Column.unmarkedSame ((Column.draftText made).trans ((filledText filled).2.trans slice.symm))
  constructor
  · intro read
    obtain ⟨⟨typed,stop,rest⟩,inside,done⟩ := bindOk.mp read
    obtain ⟨args,e,split,filled,made,rfl,rfl⟩ := (parameterisedExact literal).mp inside
    have flat : ∀ item ∈ args.items, ∀ t ∈ item.tokens, Flat t :=
      fun item hi => filledFlat filled item.tokens (List.mem_map_of_mem hi)
    obtain ⟨close,last,separated⟩ := splitSeparated closing split flat matched
    rw [close,draft] at filled
    rw [close,last] at done
    obtain ⟨rfl,_⟩ := Prod.mk.inj (Except.ok.inj done)
    rw [own filled made]
    exact ⟨_,e,separated,filled,made⟩
  · intro found
    obtain ⟨groups,e,separated,filled,made⟩ := found
    obtain ⟨items,split,rfl⟩ :=
      separatedSplit separated (filledFlat filled) closing (openToken kind).stop []
    have inside : parameterised s h (openToken kind) (ts ++ [z]) = .ok ⟨c,z.stop,[]⟩ :=
      (parameterisedExact literal).mpr ⟨_,e,split,draft.symm ▸ filled,made,rfl,rfl⟩
    refine bindOk.mpr ⟨_,inside,?_⟩
    exact congrArg (fun x => Except.ok (x,[])) (own filled made)

theorem appliedExact (builtin : d.keywords = Keywords.builtin) (literal : Literal kind)
    (lexed : Lexes 0 body ts) (matched : Matched ts) :
    d.columnOf name (applied kind body) = .ok c ↔ ∃ groups e, Separated groups ts ∧
      Filled { name := name, typeText := applied kind body, kind := kind } groups e ∧
      Column.ofDraft e = .ok c := by
  obtain ⟨us,z,same,closing,stops,lexed'⟩ := appliedLexes kind lexed
  have exact {x : Column} := appliedOutermost (c := x) builtin literal closing stops
    (matchedAlike same matched)
  constructor
  · intro h
    obtain ⟨t,tail,column,again,read,rfl⟩ := columnOfExact.mp h
    cases lexesUnique lexed' again
    obtain ⟨groups,e,separated,filled,made⟩ := exact.mp read
    obtain ⟨groups',separated',alike⟩ := separatedAlike separated (alikeSwapped same)
    exact ⟨groups',_,separated',filledRenamed (filledAlike filled alike) name,
      Column.draftRenamed made name⟩
  · intro h
    obtain ⟨groups,e,separated,filled,made⟩ := h
    obtain ⟨groups',separated',alike⟩ := separatedAlike separated same
    have read := exact.mpr ⟨groups',_,separated',filledRenamed (filledAlike filled alike) [],
      Column.draftRenamed made []⟩
    have named : c.name = name := (Column.draftName made).trans (filledText filled).1
    exact columnOfExact.mpr ⟨_,_,_,lexed',read,(Column.renamedSame named).symm⟩

end
end ColumnDecl.Dialect
