import QueryLine.Completion.Picker
import QueryLine.Screen.Style

/-!
The lines that a picker shows, and the box that it shows them in.
-/

namespace QueryLine

structure Area where
  x : Nat
  y : Nat
  width : Nat
  height : Nat
  deriving DecidableEq, Repr

namespace Area

/-- Columns and rows are counted in 16 bits. -/
def limit : Nat := 65536

def clamped (x y width height : Nat) : Area :=
  ⟨x, y, min width (limit - 1 - x), min height (limit - 1 - y)⟩

end Area

namespace Picker

def rowStyle (p : Picker) (theme : Theme) (i : Nat) : Style :=
  if i = p.row then { Style.none.on theme.pickerSelected with bold := true } else .none

def partStyle (theme : Theme) (base : Style) : PartLook → Style
  | .matched => base.colored theme.matched
  | .pending => base.colored theme.foreground
  | .placeholder => { base.colored theme.placeholder with italic := true }

/-- The parts of a proposal with spaces between them, and its description. -/
def proposalLine (theme : Theme) (base : Style) (p : Proposal) : Line :=
  let parts := p.parts.map fun (t, look) => ⟨t, partStyle theme base look⟩
  let description : Line := if p.description.isEmpty then []
    else [⟨[' ', ' '] ++ p.description, base.colored theme.placeholder⟩]
  parts.intersperse ⟨[' '], base⟩ ++ description

def hint : String := "←/→: day  ↑/↓: week  Enter: insert"

def lines (p : Picker) (theme : Theme) : Except CalendarFault (List Line) :=
  match p.page with
  | .proposals => .ok (p.proposals.mapIdx fun i q => proposalLine theme (p.rowStyle theme i) q)
  | .strings =>
    .ok (p.strings.mapIdx fun i s => [⟨s, (p.rowStyle theme i).colored theme.foreground⟩])
  | .date => p.dateText.map fun date => [
      [⟨date, { Style.none.colored theme.matched with bold := true }⟩],
      [⟨hint.toList, { Style.none.colored theme.info with italic := true }⟩]]

def maxRows : Nat := 8

/-- The rows in view: as many are left out in front as it takes to show the selected one. -/
def inView (p : Picker) (lines : List Line) : List Line :=
  if p.page = .date then lines else lines.drop (p.row + 1 - maxRows)

/-- The box for `rows` lines with its border, under `column` of the area `anchor` and as far left as
it takes to keep it on the screen. -/
def box (anchor : Area) (column rows : Nat) (screen : Area) : Area :=
  let y := (anchor.y + 1) % Area.limit
  let height := min (min rows maxRows + 2) (screen.height - y)
  let width := min 48 screen.width
  .clamped (min ((anchor.x + column) % Area.limit) (screen.width - width)) y width height

end Picker
end QueryLine
