import ColumnDecl.Value
import Mathlib.Data.List.Forall2

/-! Values that are the same. Lists are compared item by item and objects key by key, so the order in
which an object has its members makes no difference. -/
namespace ColumnDecl.Value

/-- The same value, up to the order of members. No truth value is a number. -/
inductive Same : Value → Value → Prop where
  | null : Same .null .null
  | bool (b : Bool) : Same (.bool b) (.bool b)
  | int (i : Int) : Same (.int i) (.int i)
  | text (t : Text) : Same (.text t) (.text t)
  | list {as bs} (each : List.Forall₂ Same as bs) : Same (.list as) (.list bs)
  | object {as bs : List (Text × Value)}
      (each : ∀ key, Option.Rel Same (as.lookup key) (bs.lookup key)) : Same (.object as) (.object bs)

theorem sameBool {a b : Bool} : Same (.bool a) (.bool b) ↔ a = b :=
  ⟨fun h => by cases h; rfl,fun h => h ▸ .bool a⟩

theorem sameInt {a b : Int} : Same (.int a) (.int b) ↔ a = b :=
  ⟨fun h => by cases h; rfl,fun h => h ▸ .int a⟩

theorem sameText {a b : Text} : Same (.text a) (.text b) ↔ a = b :=
  ⟨fun h => by cases h; rfl,fun h => h ▸ .text a⟩

theorem sameList {as bs : List Value} : Same (.list as) (.list bs) ↔ List.Forall₂ Same as bs := by
  constructor
  · intro h
    cases h with
    | list each => exact each
  · exact .list

theorem sameObject {as bs : List (Text × Value)} : Same (.object as) (.object bs) ↔
    ∀ key, Option.Rel Same (as.lookup key) (bs.lookup key) := by
  constructor
  · intro h
    cases h with
    | object each => exact each
  · exact .object

theorem sameGiven {α : Type} {f : α → Value} (distinct : ∀ a b, Same (f a) (f b) ↔ a = b)
    {x y : Option α} : Option.Rel Same (x.map f) (y.map f) ↔ x = y := by
  cases x <;> cases y <;> simp [distinct]

end ColumnDecl.Value
