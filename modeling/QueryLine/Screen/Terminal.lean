import QueryLine.Screen.Draw

/-!
A screen written for a terminal, as characters with escape sequences between them.
-/

namespace QueryLine

/-- The number of a colour for characters; for what is behind them it is ten more. -/
def Ink.code (offset : Nat) : Ink → String
  | .reset => s!"{39 + offset}"
  | .black => s!"{30 + offset}"
  | .red => s!"{31 + offset}"
  | .yellow => s!"{33 + offset}"
  | .gray => s!"{37 + offset}"
  | .darkGray => s!"{90 + offset}"
  | .lightBlue => s!"{94 + offset}"
  | .white => s!"{97 + offset}"
  | .rgb c => s!"{38 + offset};2;{c.red};{c.green};{c.blue}"

def Cell.escapes (c : Cell) : String :=
  let flags := (if c.bold then ";1" else "") ++ (if c.italic then ";3" else "")
    ++ if c.underline then ";4" else ""
  s!"\x1b[0{flags};{c.fg.code 0};{c.bg.code 10}m" ++ String.ofList c.symbol

/-- The cells of a row, `covered` of them left out in front; a wide one covers those after it. -/
def Row.escapes : (covered : Nat) → Row → String
  | _, [] => ""
  | covered + 1, _ :: r => Row.escapes covered r
  | 0, c :: r => c.escapes ++ Row.escapes (Text.width c.symbol - 1) r

def Canvas.escapes (c : Canvas) : String :=
  String.join (c.mapIdx fun y r => s!"\x1b[{y + 1};1H" ++ Row.escapes 0 r) ++ "\x1b[0m"

end QueryLine
