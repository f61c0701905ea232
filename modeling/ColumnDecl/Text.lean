/-! Text as a list of characters. Offsets and lengths count characters, a slice that runs
past the end is clipped, and one whose ends are crossed is empty. -/
namespace ColumnDecl

abbrev Text := List Char

namespace Text

/-- The characters from `start` up to, not including, `stop`. -/
def slice (t : Text) (start stop : Nat) : Text := (t.drop start).take (stop - start)

def asString (t : Text) : String := String.ofList t

/-- The parts in order with `gap` between neighbours. -/
def join (gap : Text) : List Text → Text
  | [] => []
  | [t] => t
  | t :: u :: ts => t ++ gap ++ join gap (u :: ts)

theorem sliceLength (t : Text) (start stop : Nat) : (t.slice start stop).length ≤ stop - start := by
  rw [slice, List.length_take]
  exact Nat.min_le_left _ _

theorem sliceZero (t : Text) (stop : Nat) : t.slice 0 stop = t.take stop := rfl

theorem sliceWhole (t : Text) : t.slice 0 t.length = t := by simp [slice]

end Text
end ColumnDecl
