import ColumnDecl.Fault
import Mathlib.Data.List.Forall2

/-! Two runs side by side. They agree when both read something or both fail, and what they read or
fail with is related; from then on they go on together. -/
namespace ColumnDecl

/-- Two faults with something in common, or the same failure that is no fault. -/
inductive Failure.Paired (same : Fault → Fault → Prop) : Failure → Failure → Prop where
  | fault {f g} (alike : same f g) : Paired same (.rejected f) (.rejected g)
  | other {f : Failure} (plain : ∀ fault, f ≠ .rejected fault) : Paired same f f

theorem Failure.Paired.stalled (same : Fault → Fault → Prop) : Paired same .stalled .stalled :=
  .other fun _ h => nomatch h

theorem Failure.Paired.weaker {same same' : Fault → Fault → Prop} {f g : Failure}
    (h : Paired same f g) (weaker : ∀ f g, same f g → same' f g) : Paired same' f g := by
  cases h with
  | fault alike => exact .fault (weaker _ _ alike)
  | other plain => exact .other plain

inductive Agree {α β : Type} (failed : Failure → Failure → Prop) (read : α → β → Prop) :
    Except Failure α → Except Failure β → Prop where
  | read {a b} (same : read a b) : Agree failed read (.ok a) (.ok b)
  | failed {f g} (same : failed f g) : Agree failed read (.error f) (.error g)

namespace Agree
variable {α β γ δ : Type} {failed : Failure → Failure → Prop} {first : α → β → Prop}
  {second : γ → δ → Prop} {x : Except Failure α} {y : Except Failure β}

theorem followed {f : α → Except Failure γ} {g : β → Except Failure δ}
    (h : Agree failed first x y) (next : ∀ a b, first a b → Agree failed second (f a) (g b)) :
    Agree failed second (x >>= f) (y >>= g) := by
  cases h with
  | read same => exact next _ _ same
  | failed same => exact .failed same

theorem onward {x y : Except Failure α} {f : α → Except Failure γ} {g : α → Except Failure δ}
    (h : Agree failed (· = ·) x y) (next : ∀ a, Agree failed second (f a) (g a)) :
    Agree failed second (x >>= f) (y >>= g) :=
  h.followed fun a _ same => same ▸ next a

theorem weaker {failed' : Failure → Failure → Prop} {first' : α → β → Prop}
    (h : Agree failed first x y) (fails : ∀ f g, failed f g → failed' f g)
    (reads : ∀ a b, first a b → first' a b) : Agree failed' first' x y := by
  cases h with
  | read same => exact .read (reads _ _ same)
  | failed same => exact .failed (fails _ _ same)

theorem eachItem {f : α → Except Failure γ} {g : β → Except Failure δ} {xs : List α} {ys : List β}
    (same : List.Forall₂ first xs ys) (next : ∀ a b, first a b → Agree failed second (f a) (g b)) :
    Agree failed (List.Forall₂ second) (xs.mapM f) (ys.mapM g) := by
  induction same with
  | nil => exact .read .nil
  | cons head tail ih =>
    simp only [List.mapM_cons]
    exact (next _ _ head).followed fun a b one => ih.followed fun as bs more =>
      .read (.cons one more)

end Agree
end ColumnDecl
