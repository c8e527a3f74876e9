import QueryLine.Editor.Basic
import QueryLine.Screen.Canvas
import QueryLine.Screen.Tint

/-!
The screen of an editor: the query with its caret at the top, a line of status and a line for
notices at the bottom, and the picker over what is between and below.
-/

namespace QueryLine

def prompt : Text := ['>', ' ']

def CharStyle.onScreen (s : CharStyle) (tint : Option Ink) (theme : Theme) : Style where
  fg := some ((s.color.map Ink.rgb).getD theme.foreground)
  bg := some (tint.getD theme.background)
  bold := false
  italic := s.italic
  underline := s.underline

/-- The query behind its prompt, each character for itself. The caret is a cell of its own colour,
behind the text if need be. -/
def queryLine (text : Text) (styles : List CharStyle) (blocks : List BlockView) (caret : Nat)
    (theme : Theme) : Line :=
  let start : Style :=
    { Style.none.colored theme.info with bg := some theme.background, bold := true }
  let caretStyle := (Style.none.colored theme.background).on theme.caret
  let char (i : Nat) (c : Char) : Fragment :=
    ⟨[c], if i = caret then caretStyle
      else (styles.getD i .plain).onScreen (tintAt? blocks i) theme⟩
  let behind : Line := if text.length ≤ caret then [⟨[' '], caretStyle⟩] else []
  ⟨prompt, start⟩ :: text.mapIdx char ++ behind

namespace Editor

variable {σ : Type}

def status (e : Editor σ) : String :=
  let page := if e.picker.visible then e.picker.page.title else "QUERY"
  let blocks := match e.document.blocks.length with
    | 1 => "1 block"
    | n => s!"{n} blocks"
  let auto := if e.autoOpen then " | auto" else ""
  let faults := match e.faults.length with
    | 0 => ""
    | n => s!" | {n} error(s)"
  s!"{page} | {blocks}{auto}{faults}"

/-- The status at the left, the place of the caret at the right where there is room. -/
def statusLine (e : Editor σ) (theme : Theme) (width : Nat) : Line :=
  let left := e.status.toList
  let right := s!"{e.caret}/{e.document.length}".toList
  let taken := left.length + right.length
  let gap := if taken + 1 < width then width - taken else 1
  let style := (Style.none.colored theme.statusForeground).on theme.statusBackground
  [⟨left, style⟩, ⟨List.replicate gap ' ', style⟩, ⟨right, style⟩]

def noticeLine (e : Editor σ) (theme : Theme) : Line :=
  match e.notice with
  | none => []
  | some n =>
    let color := match n.level with
      | .error => theme.error
      | .warning => theme.warning
      | .info => theme.info
    [⟨n.text, Style.none.colored color⟩]

/-- The columns in front of the caret, if each character took one. -/
def pickerColumn (e : Editor σ) : Nat :=
  min (prompt.length + min e.caret (Area.limit - 1)) (Area.limit - 1)

/-- Draws the picker under the first row; not if there is no room for a single line. -/
def drawPicker (e : Editor σ) (theme : Theme) (width height : Nat) (c : Canvas) :
    Except CalendarFault Canvas :=
  if e.picker.visible then
    (e.picker.lines theme).map fun lines =>
      let lines := e.picker.inView lines
      let area := Picker.box ⟨0, 0, width, 1⟩ e.pickerColumn lines.length ⟨0, 0, width, height⟩
      if area.height < 3 then c
      else
        let title := s!" {e.picker.page.title} ".toList
        c.box area title (Style.none.on theme.pickerBackground)
          (Style.none.colored theme.pickerBorder) lines
  else .ok c

/-- The whole screen. A low one has the status first of all, then notices, then the query. -/
def draw (e : Editor σ) (theme : Theme) (width height : Nat) : Except CalendarFault Canvas :=
  let ground := Style.none.on theme.background
  let query := queryLine e.text e.styles e.document.blocks e.caret theme
  let top (c : Canvas) : Canvas := if 3 ≤ height then c.line 0 width ground query else c
  let statusRow := if 1 < height then height - 2 else 0
  let bottom (c : Canvas) : Canvas :=
    if 2 ≤ height then
      c.line (height - 1) width (ground.colored theme.foreground) (e.noticeLine theme)
    else c
  let base := bottom ((top (.blank width height)).line statusRow width .none
    (e.statusLine theme width))
  (e.drawPicker theme width height base).map fun c => c.map Row.shown

end Editor
end QueryLine
