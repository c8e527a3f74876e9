import QueryLine.Color.Palette

/-!
Themes: the colours of everything but the blocks.
-/

namespace QueryLine

inductive Ink
  | reset
  | black
  | red
  | yellow
  | gray
  | darkGray
  | lightBlue
  | white
  | rgb (c : Rgb)
  deriving DecidableEq, Repr

structure Theme where
  background : Ink
  foreground : Ink
  caret : Ink
  statusBackground : Ink
  statusForeground : Ink
  pickerBackground : Ink
  pickerBorder : Ink
  pickerSelected : Ink
  error : Ink
  warning : Ink
  info : Ink
  placeholder : Ink
  matched : Ink
  deriving DecidableEq, Repr

namespace Theme

def ink (red green blue : UInt8) : Ink := .rgb ⟨red, green, blue⟩

/-- Leaves the colours to the terminal. -/
def defaultDark : Theme where
  background := .reset
  foreground := .gray
  caret := .lightBlue
  statusBackground := .white
  statusForeground := .black
  pickerBackground := .black
  pickerBorder := .lightBlue
  pickerSelected := .darkGray
  error := .red
  warning := .yellow
  info := .lightBlue
  placeholder := .darkGray
  matched := .yellow

def defaultLight : Theme where
  background := ink 250 250 250
  foreground := ink 56 58 66
  caret := ink 82 139 255
  statusBackground := ink 238 238 238
  statusForeground := ink 56 58 66
  pickerBackground := ink 240 240 240
  pickerBorder := ink 1 132 188
  pickerSelected := ink 220 220 220
  error := ink 202 18 67
  warning := ink 193 132 1
  info := ink 1 132 188
  placeholder := ink 160 161 167
  matched := ink 152 104 1

def gruvboxDark : Theme where
  background := ink 40 40 40
  foreground := ink 235 219 178
  caret := ink 251 184 108
  statusBackground := ink 60 56 54
  statusForeground := ink 235 219 178
  pickerBackground := ink 50 48 47
  pickerBorder := ink 131 165 152
  pickerSelected := ink 80 73 69
  error := ink 251 73 52
  warning := ink 250 189 47
  info := ink 131 165 152
  placeholder := ink 146 131 116
  matched := ink 250 189 47

def nord : Theme where
  background := ink 46 52 64
  foreground := ink 216 222 233
  caret := ink 136 192 208
  statusBackground := ink 59 66 82
  statusForeground := ink 216 222 233
  pickerBackground := ink 59 66 82
  pickerBorder := ink 129 161 193
  pickerSelected := ink 76 86 106
  error := ink 191 97 106
  warning := ink 235 203 139
  info := ink 129 161 193
  placeholder := ink 76 86 106
  matched := ink 235 203 139

def all : List (String × Theme) := [
  ("default-dark", defaultDark), ("default-light", defaultLight), ("gruvbox-dark", gruvboxDark),
  ("nord", nord)]

def byName? (name : String) : Option Theme := all.lookup name

def names : List String := all.map (·.1)

end Theme
end QueryLine
