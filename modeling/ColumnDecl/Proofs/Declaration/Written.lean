import ColumnDecl.Proofs.Declaration.Type
import ColumnDecl.Proofs.Keywords

/-! A type written out, a keyword and a list in parentheses behind it. When the keyword is the name of
its kind, what is read is what the form of the kind makes of the list. -/
namespace ColumnDecl.Dialect
open Token Declaration

def headToken (kind : Kind) : Token := ⟨.identifier,kind.name.toList,0⟩

def openToken (kind : Kind) : Token := ⟨.opening,['('],kind.name.toList.length⟩

/-- A text with a parameter list behind it. -/
def called (head body : Text) : Text := head ++ '(' :: (body ++ [')'])

theorem openedLexes {head body : Text} {hs ts : List Token} (first : Lexes 0 head hs)
    (rest : Lexes (head.length + 1) body ts) :
    Lexes 0 (head ++ '(' :: body) (hs ++ ⟨.opening,['('],head.length⟩ :: ts) := by
  refine lexesJoined first ?_ rfl
  rw [Nat.zero_add]
  exact lexesBreak rfl rfl rfl rest

theorem calledTokens {head body : Text} {hs ts : List Token} (first : Lexes 0 head hs)
    (lexed : Lexes 0 body ts) : ∃ us z, List.Forall₂ Alike ts us ∧ z.tag = .closing ∧
      z.stop = (called head body).length ∧
      Lexes 0 (called head body) (hs ++ ⟨.opening,['('],head.length⟩ :: (us ++ [z])) := by
  obtain ⟨us,moved,same⟩ := lexesMoved lexed (head.length + 1)
  let z : Token := ⟨.closing,[')'],head.length + 1 + body.length⟩
  have inside : Lexes (head.length + 1) (body ++ [')']) (us ++ [z]) :=
    lexesJoined moved (lexesBreak rfl rfl rfl (.done _)) rfl
  refine ⟨us,z,same.imp fun _ _ alike => ⟨alike.1,alike.2.1⟩,rfl,?_,openedLexes first inside⟩
  simp only [z,stop,called,List.length_append,List.length_cons,List.length_nil]
  omega

theorem calledLexes {kind : Kind} {body : Text} {ts : List Token}
    (rest : Lexes (kind.name.toList.length + 1) body ts) :
    Lexes 0 (kind.name.toList ++ '(' :: body) (headToken kind :: openToken kind :: ts) :=
  openedLexes (streamExact.mp (Keywords.nameLexed kind)) rest

section
variable {s : Scope} {kind : Kind} {ts : List Token}

theorem headKnown (builtin : s.keywords = Keywords.builtin) :
    s.keyword? (headToken kind :: openToken kind :: ts) =
      some ⟨kind,kind.name.toList.length,openToken kind :: ts⟩ := by
  have stop : (headToken kind).stop = kind.name.toList.length := Nat.zero_add _
  rw [← stop]
  exact Keywords.wordKnown builtin rfl rfl (by simp [openToken])

def inner (s : Scope) : Reader := nestedReader s s.maxDepth

def listedType (s : Scope) (kind : Kind) (ts : List Token) : Except Failure Typed :=
  formOf inner kind s ⟨[],0,kind,kind.name.toList.length⟩ (openToken kind) ts

/- A type that stands for itself is read where the column begins. -/
theorem outermostUnnamed {t : Token} {start : Nat} (inside : t.isDelimiter = false) (ts : List Token) :
    outermost s false start (t :: ts) = type s (inner s) [] start t ts >>= finish s start := by
  unfold outermost declaration
  dsimp only
  rw [inside,if_neg Bool.false_ne_true,if_neg Bool.false_ne_true]
  rfl

theorem finishWhole {c : Column} {n : Nat} (whole : c.typeText = s.text.slice 0 n) :
    finish s 0 ⟨c,n,[]⟩ = .ok (c,[]) :=
  congrArg (fun x => Except.ok (x,[])) (Column.unmarkedSame whole)

theorem listingOutermost (builtin : s.keywords = Keywords.builtin) (kind : Kind)
    (ts : List Token) :
    outermost s false 0 (headToken kind :: openToken kind :: ts) =
      listedType s kind ts >>= finish s 0 := by
  have typed : type s (inner s) [] 0 (headToken kind) (openToken kind :: ts) = listedType s kind ts :=
    typeOpened (headKnown builtin) rfl
  rw [outermostUnnamed rfl,typed]

end
end ColumnDecl.Dialect
