import QueryLine.Editor.Keystroke
import QueryLine.Screen.Terminal
import Std.Time

/-!
The command line: a query is edited in the terminal, which has to be in raw mode to send each key
at once, and printed in the end.
-/

namespace QueryLine

structure Options where
  query : Option String
  theme : Option String
  settings : Option String
  log : Option String
  autoOpen : Bool
  listThemes : Bool

namespace Options

def usage : String :=
  "usage: queryline [QUERY] [-t|--theme NAME] [-c|--config FILE] [--log-file FILE] " ++
    "[--no-auto-complete] [--list-themes]"

/-- The options that arguments give, or nothing if one of them is not understood. -/
def ofArguments? : List String → Option Options
  | [] => some ⟨none, none, none, none, true, false⟩
  | "--list-themes" :: more => (ofArguments? more).map ({ · with listThemes := true })
  | "--no-auto-complete" :: more => (ofArguments? more).map ({ · with autoOpen := false })
  | "-t" :: name :: more | "--theme" :: name :: more =>
    (ofArguments? more).map ({ · with theme := some name })
  | "-c" :: file :: more | "--config" :: file :: more =>
    (ofArguments? more).map ({ · with settings := some file })
  | "--log-file" :: file :: more => (ofArguments? more).map ({ · with log := some file })
  | query :: more =>
    (ofArguments? more).bind fun o =>
      if query.startsWith "-" || o.query.isSome then none else some { o with query := some query }

end Options

def CalendarFault.message : CalendarFault → String
  | noTimeOfDay => "a date has no time of day to write"
  | tooManyDays days => s!"{days} days cannot be counted"

/-- The editor that a session starts with: the caret is behind the query. -/
def startEditor (o : Options) (s : Settings) (query : Text) (today : Date) : Editor Keywords :=
  let s := { s with autoComplete := s.autoComplete && o.autoOpen }
  ((Editor.ofSettings (.ofSettings s) s today).setText query).perform .toEnd

def readSettings (file : Option String) : IO Settings := do
  let file ← match file with
    | some file => pure file
    | none => pure (((← IO.getEnv "HOME").getD "") ++ "/.config/queryline/config.toml")
  try return .ofBytes (← IO.FS.readBinFile file) catch _ => return .default

def today : IO Date := do
  let day := (← Std.Time.PlainDate.now).toEpochDay.val
  return (Date.ofDay? day).getD ⟨0, by decide⟩

def screenSize : IO (Nat × Nat) := do
  let size (name : String) (byDefault : Nat) : IO Nat := do
    return ((← IO.getEnv name).bind String.toNat?).getD byDefault
  return (← size "COLUMNS" 80, ← size "LINES" 24)

def Editor.display (e : Editor Keywords) (theme : Theme) : IO Unit := do
  let out ← IO.getStdout
  if ← out.isTty then
    let (width, height) ← screenSize
    match e.draw theme width height with
    | .ok c => out.putStr c.escapes; out.flush
    | .error f => throw (IO.userError f.message)

/-- A byte that was asked for and may be still to come. -/
abbrev Awaited := Task (Except IO.Error ByteArray)

/-- The next key after the bytes `held`, if the input has not ended. An escape character is a key of
its own where nothing follows it at once. -/
partial def nextKey (input : IO.FS.Stream) (awaited : Option Awaited) (held : ByteArray) :
    IO (Option Key × Option Awaited) := do
  let byte ← match awaited with
    | some t => IO.ofExcept t.get
    | none => input.read 1
  if byte.isEmpty then
    return (if held.isEmpty then none else some .other, none)
  let bytes := held ++ byte
  match String.fromUTF8? bytes with
  | none => nextKey input none (if bytes.size < 8 then bytes else .empty)
  | some s =>
    if s = "\x1b" then
      let following ← IO.asTask (input.read 1)
      IO.sleep 30
      if ← IO.hasFinished following then nextKey input (some following) bytes
      else return (some .escape, some following)
    else if Key.isUnfinished s.toList then nextKey input none bytes
    else return (some (.ofText s.toList), none)

/-- Shows the editor and presses each key that arrives, up to one that leaves or to the end of the
input. -/
partial def session (theme : Theme) (input : IO.FS.Stream) (awaited : Option Awaited)
    (e : Editor Keywords) : IO (Editor Keywords) := do
  e.display theme
  match ← nextKey input awaited .empty with
  | (none, _) => return e
  | (some key, awaited) =>
    match e.press key with
    | .error f => throw (IO.userError f.message)
    | .ok (e, true) => return e
    | .ok (e, false) => session theme input awaited e

/-- A query from the arguments, or else from an input that is no terminal; and where keys come
from. -/
def readQuery (o : Options) : IO (String × IO.FS.Stream) := do
  let input ← IO.getStdin
  match o.query with
  | some query => return (query, input)
  | none =>
    if ← input.isTty then return ("", input)
    let mut text := ""
    let mut line ← input.getLine
    while !line.isEmpty do
      text := text ++ line
      line ← input.getLine
    let query := String.ofList (text.toList.reverse.dropWhile (· = '\n')).reverse
    return (query, .ofHandle (← IO.FS.Handle.mk "/dev/tty" .read))

def chooseTheme (name : String) (log : Option String) : IO Theme := do
  match Theme.byName? name with
  | some theme => return theme
  | none =>
    if let some file := log then
      IO.FS.writeFile file s!"unknown theme {name}, using default-dark\n"
    return .defaultDark

def run (o : Options) : IO Unit := do
  let s ← readSettings o.settings
  let theme ← chooseTheme (o.theme.getD (String.ofList s.theme)) o.log
  let (query, keys) ← readQuery o
  let e := startEditor o s query.toList (← today)
  let screen (escape : String) : IO Unit := do
    if ← (← IO.getStdout).isTty then IO.print escape
  screen "\x1b[?1049h\x1b[?25l"
  let e ← try session theme keys none e finally screen "\x1b[?25h\x1b[?1049l"
  IO.println (String.ofList e.text)

end QueryLine

def main (args : List String) : IO UInt32 := do
  match QueryLine.Options.ofArguments? args with
  | none =>
    IO.eprintln QueryLine.Options.usage
    return 2
  | some o =>
    if o.listThemes then QueryLine.Theme.names.forM IO.println else QueryLine.run o
    return 0
