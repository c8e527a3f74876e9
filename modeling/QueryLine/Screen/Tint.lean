import QueryLine.Color.Theme
import QueryLine.Color.Tint
import QueryLine.Document.Grouping

/-!
Blocks shown by a light background of their colour.
-/

namespace QueryLine

def tintPercent : UInt32 := 180

def BlockView.covers (b : BlockView) (i : Nat) : Bool := b.first ≤ i && i ≤ b.last

/-- The background of character `i`: the tint of the last block over it that has a colour, which is
the innermost where blocks are listed in order. -/
def tintAt? (blocks : List BlockView) (i : Nat) : Option Ink :=
  (((blocks.filter (·.covers i)).filterMap (·.color)).getLast?).map fun c =>
    .rgb (c.shade tintPercent)

def tints (length : Nat) (blocks : List BlockView) : List (Option Ink) :=
  (List.range length).map (tintAt? blocks)

end QueryLine
