/-!
Texts as lists of characters. Every offset and length in this library counts characters.
-/

namespace QueryLine

abbrev Text := List Char

namespace Text

def within (ranges : List (Nat × Nat)) (c : Char) : Bool :=
  ranges.any fun r => r.1 ≤ c.toNat && c.toNat ≤ r.2

/-- White space of any script. -/
def blankRanges : List (Nat × Nat) := [
  (0x9, 0xD), (0x20, 0x20), (0x85, 0x85), (0xA0, 0xA0), (0x1680, 0x1680), (0x2000, 0x200A),
  (0x2028, 0x2029), (0x202F, 0x202F), (0x205F, 0x205F), (0x3000, 0x3000)]

def isBlank (c : Char) : Bool := within blankRanges c

/-- The control characters: the first 32, delete, and the 32 after it. -/
def isControl (c : Char) : Bool := c.toNat < 0x20 || (0x7F ≤ c.toNat && c.toNat < 0xA0)

/-- Replaces the characters from `start` up to `stop`; an end before its start counts as empty. -/
def splice (t : Text) (start stop : Nat) (new : Text) : Text :=
  t.take start ++ new ++ t.drop (max start stop)

/-- The pieces between the separators; always at least one. -/
def splitAt (sep : Char) : Text → List Text
  | [] => [[]]
  | c :: cs =>
    if c = sep then [] :: splitAt sep cs
    else match splitAt sep cs with
      | [] => [[c]]
      | piece :: more => (c :: piece) :: more

end Text
end QueryLine
