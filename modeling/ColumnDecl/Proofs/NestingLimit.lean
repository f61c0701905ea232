import ColumnDecl.Proofs.Declaration.Likeness.Declaration

/-! Two nesting limits. The reader that may go deeper comes to the same, unless the other one is cut off
at its limit. -/
namespace ColumnDecl
open Token

namespace Declaration

/-- The first run ends at the nesting limit of its scope, or both come to the same. -/
inductive CutOff (s : Scope) {α : Type} : Except Failure α → Except Failure α → Prop where
  | same (run : Except Failure α) : CutOff s run run
  | cut (start : Nat) (run : Except Failure α) : CutOff s (s.faultAt (.tooDeep s.maxDepth) start) run

/-- The scope with another limit; all but the limit is read from it as before. -/
def limited (s : Scope) (limit : Nat) : Scope := { s with maxDepth := limit }

/-- What the one reader reads, or refuses for another reason than its limit, the other one does too. -/
def Extends (s : Scope) (inner inner' : Reader) : Prop :=
  ∀ names start ts, CutOff s (inner names start ts) (inner' names start ts)

section
variable {s : Scope} {limit : Nat} {inner inner' : Reader}

theorem cutOffFollowed {α β : Type} {x y : Except Failure α} {f g : α → Except Failure β}
    (h : CutOff s x y) (next : ∀ a, CutOff s (f a) (g a)) : CutOff s (x >>= f) (y >>= g) := by
  cases h with
  | cut start run => exact .cut start _
  | same =>
    cases x with
    | error failure => exact .same _
    | ok a => exact next a

/- By induction on the tokens that are left. -/
theorem partsExtended (deeper : Extends s inner inner') (kind : Kind) (opening : Token) (start : Nat)
    (ts : List Token) :
    CutOff s (parts s inner kind opening start ts)
      (parts (limited s limit) inner' kind opening start ts) := by
  induction size : ts.length using Nat.strong_induction_on generalizing start ts with
  | _ n ih =>
    subst size
    have first := deeper kind.namesItsParts start ts
    unfold parts
    generalize inner kind.namesItsParts start ts = x, inner' kind.namesItsParts start ts = y at first ⊢
    cases first with
    | cut start run => exact .cut start _
    | same =>
      rcases x with failure | ⟨c,_ | ⟨d,rest⟩⟩
      · exact .same _
      · exact .same _
      dsimp only
      split
      · exact .same _
      split
      next shorter =>
        have more := ih rest.length shorter d.stop rest rfl
        generalize parts s inner kind opening d.stop rest = x,
          parts (limited s limit) inner' kind opening d.stop rest = y at more ⊢
        cases more with
        | cut start run => exact .cut start _
        | same => exact .same _
      next => exact .same _

theorem callPartsExtended (deeper : Extends s inner inner') (kind : Kind) (opening : Token)
    (c : Call) :
    CutOff s (callParts s inner kind opening c) (callParts (limited s limit) inner' kind opening c) := by
  unfold callParts
  split
  · exact .same _
  split
  · exact partsExtended deeper kind opening _ _
  · exact .same _
  · exact .same _

theorem typeExtended (deeper : Extends s inner inner') (name : Text) (start : Nat) (t : Token)
    (ts : List Token) :
    CutOff s (type s inner name start t ts) (type (limited s limit) inner' name start t ts) := by
  have known : (limited s limit).keyword? (t :: ts) = s.keyword? (t :: ts) := rfl
  unfold type
  rw [known]
  split
  · exact .same _
  dsimp only
  split
  · exact .same _
  split
  · exact cutOffFollowed (partsExtended deeper _ _ _ _) fun _ => .same _
  split
  · refine cutOffFollowed (.same _) fun c => ?_
    exact cutOffFollowed (callPartsExtended deeper _ _ c) fun _ => .same _
  split
  · exact .same _
  · exact cutOffFollowed (partsExtended deeper _ _ _ _) fun _ => .same _
  · exact .same _

theorem suffixLimited (nullable : Bool) (stop : Nat) (ts : List Token) :
    suffix (limited s limit) nullable stop ts = suffix s nullable stop ts := by
  fun_induction suffix s nullable stop ts with
  | case1 => rfl
  | case2 nullable stop t ts delimiter => rw [Likeness.suffixCons,if_pos delimiter]
  | case3 nullable stop t ts inside here ih =>
    rw [Likeness.suffixCons,if_neg inside,here]
    exact ih
  | case4 nullable stop t inside here =>
    rw [Likeness.suffixCons,if_neg inside,here]
    rfl
  | case5 nullable stop t inside here n rest next ih =>
    rw [Likeness.suffixCons,if_neg inside,here]
    dsimp only
    rw [if_pos next]
    exact ih
  | case6 nullable stop t inside here n rest other =>
    rw [Likeness.suffixCons,if_neg inside,here]
    dsimp only
    rw [if_neg other]
    rfl
  | case7 nullable stop t ts inside here => rw [Likeness.suffixCons,if_neg inside,here]
  | case8 nullable stop t ts inside here =>
    rw [Likeness.suffixCons,if_neg inside,here]
    rfl

theorem finishLimited (start : Nat) (t : Typed) :
    finish (limited s limit) start t = finish s start t := by
  unfold finish
  rw [suffixLimited]
  rfl

theorem declarationExtended (deeper : Extends s inner inner') (names : Bool) (start : Nat)
    (ts : List Token) :
    CutOff s (declaration s inner names start ts)
      (declaration (limited s limit) inner' names start ts) := by
  rcases ts with _ | ⟨t,ts⟩
  · exact .same _
  unfold declaration
  dsimp only
  split
  · exact .same _
  split
  · refine cutOffFollowed (.same _) fun n => ?_
    refine cutOffFollowed (typeExtended deeper _ _ _ _) fun typed => ?_
    rw [finishLimited]
    exact .same _
  · refine cutOffFollowed (typeExtended deeper _ _ _ _) fun typed => ?_
    rw [finishLimited]
    exact .same _

/- By induction on the levels that are left to the first reader. -/
theorem nestedReaderExtended {level level' : Nat} (deep : level ≤ level') :
    Extends s (nestedReader s level) (nestedReader (limited s limit) level') := by
  induction level generalizing level' with
  | zero => intro names start ts; exact .cut start _
  | succ level ih =>
    obtain ⟨below,rfl⟩ : ∃ below, level' = below + 1 := ⟨level' - 1,by omega⟩
    intro names start ts
    refine cutOffFollowed (.same _) fun first => ?_
    exact declarationExtended (ih (by omega)) names first ts

theorem outermostExtended (deep : s.maxDepth ≤ limit) (names : Bool) (start : Nat) (ts : List Token) :
    CutOff s (outermost s names start ts) (outermost (limited s limit) names start ts) :=
  declarationExtended (nestedReaderExtended deep) names start ts

theorem columnsExtended (deep : s.maxDepth ≤ limit) (ts : List Token) :
    CutOff s (columns s ts) (columns (limited s limit) ts) := by
  induction size : ts.length using Nat.strong_induction_on generalizing ts with
  | _ n ih =>
    subst size
    unfold columns
    rcases ts with _ | ⟨t,ts⟩
    · exact .same _
    have first := outermostExtended deep true t.start (t :: ts)
    dsimp only
    generalize outermost s true t.start (t :: ts) = x,
      outermost (limited s limit) true t.start (t :: ts) = y at first ⊢
    cases first with
    | cut start run => exact .cut start _
    | same =>
      rcases x with failure | ⟨c,_ | ⟨d,rest⟩⟩
      · exact .same _
      · exact .same _
      dsimp only
      split
      · exact .same _
      split
      · exact .same _
      split
      next shorter =>
        have more := ih rest.length (Nat.lt_succ_of_le shorter) rest rfl
        generalize columns s rest = x, columns (limited s limit) rest = y at more ⊢
        cases more with
        | cut start run => exact .cut start _
        | same => exact .same _
      next => exact .same _

theorem onlyExtended (deep : s.maxDepth ≤ limit) (ts : List Token) :
    CutOff s (only s ts) (only (limited s limit) ts) := by
  refine cutOffFollowed (.same _) fun start => ?_
  exact cutOffFollowed (outermostExtended deep false start ts) fun _ => .same _

end
end Declaration

namespace Dialect
open Declaration

/-- The text is refused for nesting too deep, and for nothing before that. -/
def Overrun {α : Type} (d : Dialect) (text : Text) (run : Except Failure α) : Prop :=
  ∃ start, run = .error (.rejected ⟨.tooDeep d.maxDepth,some text,some start,none⟩)

theorem cutOffOverrun {α : Type} {d : Dialect} {text : Text} {x y : Except Failure α}
    (h : CutOff (d.scope text text.length) x y) : d.Overrun text x ∨ y = x := by
  cases h with
  | same => exact .inr rfl
  | cut start run => exact .inl ⟨start,rfl⟩

theorem limitCutsOff (d : Dialect) (text : Text) {limit : Nat} (deep : d.maxDepth ≤ limit) :
    let d' : Dialect := { d with maxDepth := limit }
    (d.Overrun text (d.parse text) ∨ d'.parse text = d.parse text) ∧
      ∀ name, d.Overrun text (d.columnOf name text) ∨
        d'.columnOf name text = d.columnOf name text := by
  intro d'
  let s := d.scope text text.length
  have parsed : CutOff s (d.parse text) (d'.parse text) :=
    cutOffFollowed (.same _) fun ts => columnsExtended deep ts
  have single : ∀ name, CutOff s (d.columnOf name text) (d'.columnOf name text) := fun name =>
    cutOffFollowed (.same _) fun ts => cutOffFollowed (onlyExtended deep ts) fun _ => .same _
  exact ⟨cutOffOverrun parsed,fun name => cutOffOverrun (single name)⟩

theorem limitCutsOffArray :
    let d : Dialect := ⟨⟨[("ARRAY".toList,.array),("INT8".toList,.int8)],1⟩,1⟩
    let d' : Dialect := { d with maxDepth := 3 }
    let flat := "a Array(Int8)".toList
    let deep := "Array(Array(Int8))".toList
    let unknown := "Array(Int9)".toList
    let x : Column := ⟨[],"Int8".toList,.int8,false,false,true,1,[],none,none,none,none,none,none⟩
    let c : Column := ⟨"a".toList,"Array(Int8)".toList,.array,false,false,false,1,[x],none,none,none,
      none,none,none⟩
    d'.parse flat = .ok [c] ∧
      d'.columnOf [] unknown =
        .error (.rejected ⟨.unknownType "Int9".toList,some unknown,some 6,some 10⟩) ∧
      d.Overrun deep (d.columnOf [] deep) := by
  intro d d' flat deep unknown x c
  have read : d.parse flat = .ok [c] := by decide +kernel
  have refused : d.columnOf [] unknown =
      .error (.rejected ⟨.unknownType "Int9".toList,some unknown,some 6,some 10⟩) := by
    decide +kernel
  have wider : d.maxDepth ≤ 3 := by decide
  have first := (limitCutsOff d flat wider).1.resolve_left fun ⟨_,overrun⟩ =>
    nomatch read.symm.trans overrun
  have second := ((limitCutsOff d unknown wider).2 []).resolve_left fun ⟨_,overrun⟩ =>
    nomatch refused.symm.trans overrun
  exact ⟨first.trans read,second.trans refused,12,by decide +kernel⟩

end Dialect
end ColumnDecl
