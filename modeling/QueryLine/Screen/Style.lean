import QueryLine.Color.Theme
import QueryLine.Text.Basic

/-!
Styled text. A style says nothing of a colour that it leaves unset.
-/

namespace QueryLine

structure Style where
  fg : Option Ink
  bg : Option Ink
  bold : Bool
  italic : Bool
  underline : Bool
  deriving DecidableEq, Repr

namespace Style

def none : Style := ⟨.none, .none, false, false, false⟩

def on (s : Style) (bg : Ink) : Style := { s with bg := some bg }

def colored (s : Style) (fg : Ink) : Style := { s with fg := some fg }

end Style

structure Fragment where
  text : Text
  style : Style
  deriving DecidableEq, Repr

abbrev Line := List Fragment

end QueryLine
