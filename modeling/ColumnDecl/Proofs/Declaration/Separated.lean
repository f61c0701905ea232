import ColumnDecl.Proofs.Declaration.Literal
import ColumnDecl.Proofs.Token.Balance

/-! Arguments without brackets of their own. A list of them ends at the parenthesis behind its tokens
unless one of those tokens closes it before, and it is then split at every comma. -/
namespace ColumnDecl.Declaration
open Token

/-- Groups of tokens with one comma between any two of them. -/
inductive Separated : List (List Token) → List Token → Prop where
  | last (group : List Token) : Separated [group] group
  | more {group comma groups ts} (between : comma.tag = .comma) (rest : Separated groups ts) :
      Separated (group :: groups) (group ++ comma :: ts)

/-- Every closing parenthesis closes one in front of it. -/
def Matched (ts : List Token) : Prop := openBehind 0 ts ≠ none

instance (ts : List Token) : Decidable (Matched ts) := inferInstanceAs (Decidable (_ ≠ _))

/-- Neither a bracket nor a comma. -/
def Flat (t : Token) : Prop := t.bracket? = none ∧ t.isDelimiter = false

theorem flatTag {t : Token} (h : t.tag = .string ∨ t.tag = .equals ∨ t.tag = .number) : Flat t := by
  rcases h with tag | tag | tag <;> simp [Flat,bracket?,isDelimiter,tag]

section
variable {a rest : List Token} {d z : Token}

theorem flatPassed (flat : ∀ t ∈ a, Flat t) : Passed 0 a ∧ depth 0 a = 0 := by
  induction a with
  | nil => exact ⟨passedNone 0,rfl⟩
  | cons t a ih =>
    obtain ⟨bracket,delimiter⟩ := flat t List.mem_cons_self
    obtain ⟨passed,level⟩ := ih fun x hx => flat x (List.mem_cons_of_mem _ hx)
    have stays : t.depthAfter 0 = 0 := by rw [depthAfterBracket,bracket]
    refine ⟨passedToken (by simp [delimiter]) (by rwa [stays]),?_⟩
    change depth (t.depthAfter 0) a = 0
    rwa [stays]

theorem flatCut (flat : ∀ t ∈ a, Flat t) (ended : Ended rest) : cut (a ++ rest) = (a,rest) :=
  passedEnds (flatPassed flat).1 (flatPassed flat).2 ended

theorem flatOpen (flat : ∀ t ∈ a, Flat t) : openBehind 0 (a ++ rest) = openBehind 0 rest := by
  induction a with
  | nil => rfl
  | cons t a ih =>
    obtain ⟨bracket,_⟩ := flat t List.mem_cons_self
    have stays : openAfter 0 t = some 0 := openOther 0 (by simp [bracket]) (by simp [bracket])
    have step : openBehind 0 (t :: (a ++ rest)) = openBehind 0 (a ++ rest) := by
      rw [openBehind,List.foldlM_cons,stays]
      rfl
    exact step.trans (ih fun x hx => flat x (List.mem_cons_of_mem _ hx))

theorem matchedClosing (flat : ∀ t ∈ a, Flat t) (closing : d.tag = .closing) :
    ¬Matched (a ++ d :: rest) := by
  unfold Matched
  rw [flatOpen flat,openBehind,List.foldlM_cons,show openAfter 0 d = none by simp [openAfter,closing]]
  exact fun open_ => open_ rfl

theorem matchedComma (flat : ∀ t ∈ a, Flat t) (comma : d.tag = .comma) :
    Matched (a ++ d :: rest) ↔ Matched rest := by
  unfold Matched
  rw [flatOpen flat,openBehind,List.foldlM_cons,show openAfter 0 d = some 0 by simp [openAfter,comma]]
  rfl

theorem lastBehind {ts : List Token} (h : ts ++ [z] = a ++ d :: rest) :
    (ts = a ∧ d = z ∧ rest = []) ∨ ∃ front, rest = front ++ [z] ∧ ts = a ++ d :: front := by
  rcases List.eq_nil_or_concat' rest with rfl | ⟨front,y,rfl⟩
  · obtain ⟨rfl,same⟩ := List.append_inj' h rfl
    cases same
    exact .inl ⟨rfl,rfl,rfl⟩
  · rw [← List.cons_append,← List.append_assoc] at h
    obtain ⟨rfl,same⟩ := List.append_inj' h rfl
    cases same
    exact .inr ⟨front,rfl,rfl⟩

/- A list that ends before its last token ends at a parenthesis that closes nothing in front of it. -/
theorem splitSeparated {start : Nat} {ts : List Token} {args : Arguments}
    (closing : z.tag = .closing) (h : Split start (ts ++ [z]) args)
    (flat : ∀ item ∈ args.items, ∀ t ∈ item.tokens, Flat t) (matched : Matched ts) :
    args.close = z ∧ args.rest = [] ∧ Separated (args.items.map Argument.tokens) ts := by
  generalize whole : ts ++ [z] = us at h
  induction h generalizing ts with
  | @last start us a d rest here closes =>
    have plain : ∀ t ∈ a, Flat t := flat ⟨start,d.start,a⟩ List.mem_cons_self
    rcases lastBehind (whole.trans (cutEnded here).1) with ⟨rfl,rfl,rfl⟩ | ⟨front,_,rfl⟩
    · exact ⟨rfl,rfl,.last ts⟩
    · exact absurd matched (matchedClosing plain closes)
  | @more start us a d rest args here inner next ih =>
    have plain : ∀ t ∈ a, Flat t := flat ⟨start,d.start,a⟩ List.mem_cons_self
    obtain ⟨parts,ended,_⟩ := cutEnded here
    have comma : d.tag = .comma := (endedTag ended).resolve_right inner
    rcases lastBehind (whole.trans parts) with ⟨_,rfl,_⟩ | ⟨front,rfl,rfl⟩
    · contradiction
    · obtain ⟨close,last,separated⟩ := ih (fun item hi => flat item (List.mem_cons_of_mem _ hi))
        ((matchedComma plain comma).mp matched) rfl
      exact ⟨close,last,.more comma separated⟩

theorem separatedSplit {groups : List (List Token)} {ts : List Token} (h : Separated groups ts)
    (flat : ∀ group ∈ groups, ∀ t ∈ group, Flat t) (closing : z.tag = .closing) (start : Nat)
    (rest : List Token) : ∃ items, Split start (ts ++ z :: rest) ⟨items,z,rest⟩ ∧
      items.map Argument.tokens = groups := by
  induction h generalizing start with
  | last group =>
    have ended : Ended (z :: rest) := by simp [Ended,isDelimiter,closing]
    have here := flatCut (flat group List.mem_cons_self) ended
    exact ⟨_,.last here closing,rfl⟩
  | @more group comma groups ts between _ ih =>
    obtain ⟨items,split,same⟩ :=
      ih (fun g hg => flat g (List.mem_cons_of_mem _ hg)) comma.stop
    have ended : Ended (comma :: (ts ++ z :: rest)) := by simp [Ended,isDelimiter,between]
    have here := flatCut (flat group List.mem_cons_self) ended
    rw [List.append_assoc]
    exact ⟨_,.more here (by simp [between]) split,congrArg (group :: ·) same⟩

end

/-! The same tokens elsewhere. -/

theorem openAlike {ts us : List Token} (same : List.Forall₂ Alike ts us) (count : Nat) :
    openBehind count ts = openBehind count us := by
  induction same generalizing count with
  | nil => rfl
  | @cons t u ts us head _ ih =>
    have step : openAfter count t = openAfter count u := by rw [openAfter,openAfter,head.1]
    rw [openBehind,openBehind,List.foldlM_cons,List.foldlM_cons,step]
    exact congrArg (openAfter count u >>= ·) (funext ih)

theorem matchedAlike {ts us : List Token} (same : List.Forall₂ Alike ts us)
    (matched : Matched ts) : Matched us := by
  unfold Matched
  rwa [← openAlike same]

theorem alikeSwapped {ts us : List Token} (same : List.Forall₂ Alike ts us) :
    List.Forall₂ Alike us ts :=
  same.flip.imp fun _ _ alike => ⟨alike.1.symm,alike.2.symm⟩

/-- The same groups of tokens, wherever these stand. -/
def AlikeGroups : List (List Token) → List (List Token) → Prop := List.Forall₂ (List.Forall₂ Alike)

theorem separatedAlike {groups : List (List Token)} {ts us : List Token} (h : Separated groups ts)
    (same : List.Forall₂ Alike ts us) : ∃ groups', Separated groups' us ∧ AlikeGroups groups groups' := by
  induction h generalizing us with
  | last group => exact ⟨[us],.last us,.cons same .nil⟩
  | @more group comma groups ts between _ ih =>
    obtain ⟨group',_,rfl,first,others⟩ := splitAlong same
    obtain ⟨comma',_,mate,tail,rfl⟩ := List.forall₂_cons_left_iff.mp others
    obtain ⟨groups',separated,alike⟩ := ih tail
    exact ⟨group' :: groups',.more (mate.1 ▸ between) separated,.cons first alike⟩

end ColumnDecl.Declaration
