import ColumnDecl.Proofs.Declaration.Likeness.Declaration

/-! Layout. Texts of the same tokens say the same, however the tokens are spaced: only the type texts
of their columns show the layout. -/
namespace ColumnDecl

/-- All of a column but its type text. -/
def Column.View.content : View := ⟨id,false,true⟩

namespace Dialect
open Token Declaration Column

variable {d : Dialect} {t t' : Text} {ts ts' : List Token}

def spaced (d : Dialect) (left : Token.stream t = .ok ts) (right : Token.stream t' = .ok ts') :
    Likeness :=
  .ofTexts d left right .content (fun _ _ => True) (View.lettersKept fun _ => rfl)
    (fun _ _ => rfl) trivial fun _ _ => rfl

theorem spacedLikes {left : Token.stream t = .ok ts} {right : Token.stream t' = .ok ts'}
    (same : List.Forall₂ Alike ts ts') : (spaced d left right).Likes ts ts' :=
  ⟨same.imp fun _ _ alike => ⟨alike.1,congrArg _ alike.2,fun _ => alike.2,trivial,trivial⟩,
    List.suffix_rfl,List.suffix_rfl⟩

theorem layoutIndependent (d : Dialect) (name t t' : Text) (ts ts' : List Token)
    (left : Token.stream t = .ok ts) (right : Token.stream t' = .ok ts')
    (same : List.Forall₂ Alike ts ts') :
    Agree (Failure.Paired fun f g => f.category = g.category)
        (fun cs cs' => cs.map (seen .content) = cs'.map (seen .content)) (d.parse t) (d.parse t') ∧
      Agree (Failure.Paired fun f g => f.category = g.category)
        (fun c c' => c.seen .content = c'.seen .content) (d.columnOf name t) (d.columnOf name t') := by
  have alike : (spaced d left right).Likes ts ts' := spacedLikes same
  have partly : (spaced d left right).view ≠ .whole := by
    intro equal
    have texts := congrArg View.typeText equal
    contradiction
  have fails : ∀ f g, (spaced d left right).Failed f g →
      Failure.Paired (fun f g => f.category = g.category) f g :=
    fun _ _ failed => failed.weaker fun _ _ fault => fault.cause.1
  constructor
  · exact (Likeness.parseLike rfl rfl left right alike).weaker fails fun _ _ => id
  · exact (Likeness.columnOfLike partly rfl rfl left right alike name).weaker fails fun _ _ => id

theorem layoutIndependentCall :
    let d : Dialect := ⟨⟨[("AGG".toList,.aggregateFunction)],1⟩,0⟩
    let t : Text := "Agg(f( 1 ))".toList
    let t' : Text := "Agg (f\n(1))".toList
    let c : Column := ⟨"x".toList,[],.aggregateFunction,false,false,false,1,[],none,none,
      some "f(1)".toList,none,none,none⟩
    (d.columnOf "x".toList t).map (seen .content) = .ok c ∧
      (d.columnOf "x".toList t').map (seen .content) = .ok c := by
  intro d t t' c
  have read : (d.columnOf "x".toList t).map (seen .content) = .ok c := by decide +kernel
  refine ⟨read,?_⟩
  have left : Token.stream t = .ok [⟨.identifier,"Agg".toList,0⟩,⟨.opening,['('],3⟩,
      ⟨.identifier,['f'],4⟩,⟨.opening,['('],5⟩,⟨.number,['1'],7⟩,⟨.closing,[')'],9⟩,
      ⟨.closing,[')'],10⟩] := by decide +kernel
  have right : Token.stream t' = .ok [⟨.identifier,"Agg".toList,0⟩,⟨.opening,['('],4⟩,
      ⟨.identifier,['f'],5⟩,⟨.opening,['('],7⟩,⟨.number,['1'],8⟩,⟨.closing,[')'],9⟩,
      ⟨.closing,[')'],10⟩] := by decide +kernel
  have same := (layoutIndependent d "x".toList t t' _ _ left right (by simp [Alike])).2
  generalize d.columnOf "x".toList t = x, d.columnOf "x".toList t' = y at same read ⊢
  cases same with
  | failed => contradiction
  | read alike => exact (congrArg Except.ok alike).symm.trans read

end Dialect
end ColumnDecl
