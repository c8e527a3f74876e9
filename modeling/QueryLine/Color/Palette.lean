/-!
Block colours: eight fixed colours, handed out in turn so that a block never gets the colour of
the block around it.
-/

namespace QueryLine

structure Rgb where
  red : UInt8
  green : UInt8
  blue : UInt8
  deriving DecidableEq, Repr

namespace Palette

/-- Counts the colours handed out; reading wraps around after the last of them. -/
structure Turn where
  val : Nat
  deriving DecidableEq, Repr

namespace Turn

instance : OfNat Turn 0 := ⟨⟨0⟩⟩

def first : Turn := 0

def next (t : Turn) : Turn := ⟨(t.val + 1) % 8⟩

end Turn

def color : Fin 8 → Rgb
  | 0 => ⟨0, 87, 174⟩
  | 1 => ⟨243, 195, 0⟩
  | 2 => ⟨0, 179, 119⟩
  | 3 => ⟨235, 115, 49⟩
  | 4 => ⟨139, 179, 0⟩
  | 5 => ⟨85, 87, 83⟩
  | 6 => ⟨0, 140, 0⟩
  | 7 => ⟨117, 81, 26⟩

theorem color_injective (i j : Fin 8) (h : color i = color j) : i = j := by
  revert i j; decide

def Turn.color (t : Turn) : Rgb := Palette.color (.ofNat 8 t.val)

theorem Turn.color_ne_next (t : Turn) : t.color ≠ t.next.color := by
  intro h
  have hval := congrArg Fin.val (color_injective _ _ h)
  simp only [next, Fin.val_ofNat, Nat.mod_mod] at hval
  omega

/-- The colour due at `turn`, or the one after it where the first is to be avoided. -/
def pick (turn : Turn) (avoid : Option Rgb) : Rgb × Turn :=
  if avoid = some turn.color then (turn.next.color, turn.next.next) else (turn.color, turn.next)

theorem pick_ne (turn : Turn) (avoid : Option Rgb) : avoid ≠ some (pick turn avoid).1 := by
  unfold pick
  split
  · rename_i h
    exact fun h' => turn.color_ne_next (Option.some.inj (h.symm.trans h'))
  · assumption

theorem pick_color (turn : Turn) (avoid : Option Rgb) : ∃ i, (pick turn avoid).1 = color i := by
  unfold pick
  split <;> exact ⟨_, rfl⟩

theorem pick_turn_lt (turn : Turn) (avoid : Option Rgb) : (pick turn avoid).2.val < 8 := by
  unfold pick
  split <;> exact Nat.mod_lt _ (by decide)

end Palette
end QueryLine
