import QueryLine.Completion.Popup
import QueryLine.Text.Cluster
import QueryLine.Text.Width

/-!
A screen of cells. A cell holds a cluster of characters; a wide cluster covers the cell to its
right too, which is then not shown.
-/

namespace QueryLine

structure Cell where
  symbol : Text
  fg : Ink
  bg : Ink
  bold : Bool
  italic : Bool
  underline : Bool
  deriving DecidableEq, Repr

namespace Cell

def blank : Cell := ⟨[' '], .reset, .reset, false, false, false⟩

/-- Lays a style over a cell. What the style leaves unset stays, and nothing is taken off. -/
def overlay (s : Style) (c : Cell) : Cell :=
  { c with
    fg := s.fg.getD c.fg
    bg := s.bg.getD c.bg
    bold := c.bold || s.bold
    italic := c.italic || s.italic
    underline := c.underline || s.underline }

def write (symbol : Text) (s : Style) (c : Cell) : Cell := { c with symbol }.overlay s

end Cell

abbrev Row := List Cell

namespace Row

def modifyRange (x n : Nat) (f : Cell → Cell) (r : Row) : Row :=
  r.mapIdx fun i c => if x ≤ i ∧ i < x + n then f c else c

/-- What a terminal shows of a row. -/
def shown (r : Row) : Row :=
  r.zipWith (fun c (before : Option Cell) =>
    if before.any fun b => 2 ≤ Text.width b.symbol then .blank else c) (none :: r.map some)

end Row

structure Placed where
  x : Nat
  symbol : Text
  style : Style
  deriving DecidableEq, Repr

namespace Line

/-- Clusters of a line; a line end within it is left out. -/
def clusters (l : Line) : List (Text × Style) :=
  l.flatMap fun f => ((Text.clusters f.text).filter (· ≠ ['\n'])).map (·, f.style)

/-- Places clusters from column `x` up to column `room`. What is wider than all of the room or has
no width is left out, and the first cluster that does not fit ends the line. -/
def place (room : Nat) : (x : Nat) → List (Text × Style) → List Placed
  | _, [] => []
  | x, (symbol, style) :: more =>
    let width := Text.width symbol
    if room < width || width = 0 then place room x more
    else if room < x + width then []
    else ⟨x, symbol, style⟩ :: place room (x + width) more

/-- Writes a line into a row from column `x` on, into `room` columns. -/
def write (l : Line) (x room : Nat) (r : Row) : Row :=
  (place room 0 l.clusters).foldl
    (fun r p => r.modify (x + p.x) (·.write p.symbol p.style)) r

end Line

abbrev Canvas := List Row

namespace Canvas

def blank (width height : Nat) : Canvas := .replicate height (.replicate width .blank)

/-- Writes a line over a whole row that is first given a style. -/
def line (y width : Nat) (style : Style) (l : Line) (c : Canvas) : Canvas :=
  c.modify y fun r => l.write 0 width (r.map (·.overlay style))

/-- A frame around the cells of an area, with a title in its upper side. -/
def frameRow (a : Area) (i : Nat) (title : Text) (border : Style) (r : Row) : Row :=
  let put (x : Nat) (symbol : Char) (r : Row) : Row := r.modify x (·.write [symbol] border)
  let last := a.x + a.width - 1
  let side (left across right : Char) (r : Row) : Row :=
    put a.x left (put last right (r.modifyRange a.x a.width (·.write [across] border)))
  if i = 0 then
    Line.write [⟨title, .none⟩] (a.x + 1) (a.width - 2) (side '┌' '─' '┐' r)
  else if i + 1 = a.height then side '└' '─' '┘' r
  else put a.x '│' (put last '│' r)

/-- Draws lines in a framed box, over what was there. -/
def box (a : Area) (title : Text) (ground border : Style) (lines : List Line) (c : Canvas) :
    Canvas :=
  c.mapIdx fun y r =>
    if a.y ≤ y ∧ y < a.y + a.height then
      let i := y - a.y
      let ground := r.modifyRange a.x a.width fun _ => Cell.blank.overlay ground
      let framed := frameRow a i title border ground
      if i = 0 ∨ i + 1 = a.height then framed
      else ((lines[i - 1]?).getD []).write (a.x + 1) (a.width - 2) framed
    else r

end Canvas
end QueryLine
