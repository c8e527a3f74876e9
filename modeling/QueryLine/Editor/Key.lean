import QueryLine.Editor.Basic

/-!
Keys and what they mean, which hangs on the page that an open picker shows.
-/

namespace QueryLine

inductive Key
  | char (c : Char)
  | ctrl (c : Char)
  | null
  | up
  | down
  | left
  | right
  | home
  | toEnd
  | backspace
  | delete
  | escape
  /-- Any other key, or something that is no key. -/
  | other
  deriving DecidableEq, Repr

inductive Command
  | quit
  | insert (c : Char)
  | backspace
  | delete
  | left
  | right
  | home
  | toEnd
  | next
  | previous
  | previousDay
  | nextDay
  | accept
  | hidePicker
  | requestCompletion
  | unbox
  | openTagList
  | nothing
  deriving DecidableEq, Repr

/-- What a key means while the picker shows `page`, or is hidden. -/
def Key.command (page : Option Page) : Key → Command
  | .ctrl c =>
    match c with
    | 'c' | 'q' => .quit
    | 'x' => .unbox
    | 't' => .openTagList
    | ' ' => .requestCompletion
    | 'a' => .home
    | 'e' => .toEnd
    | _ => .nothing
  | .null => .requestCompletion
  | .up => if page.isSome then .previous else .nothing
  | .down => if page.isSome then .next else .nothing
  | .left => if page = some .date then .previousDay else .left
  | .right => if page = some .date then .nextDay else .right
  | .home => .home
  | .toEnd => .toEnd
  | .backspace => .backspace
  | .delete => .delete
  | .escape => if page.isSome then .hidePicker else .nothing
  | .char '\t' => if page.isSome then .accept else .requestCompletion
  | .char '\n' => if page.isSome then .accept else .nothing
  | .char c => if Text.isControl c then .nothing else .insert c
  | .other => .nothing

namespace Editor

variable {σ : Type}

def visiblePage (e : Editor σ) : Option Page :=
  if e.picker.visible then some e.picker.page else none

variable [Analyzer σ]

def withPicker (e : Editor σ) (picker : Picker) : Editor σ := { e with picker }

def actionOf? : Command → Option Action
  | .insert c => some (.insert [c])
  | .backspace => some .backspace
  | .delete => some .delete
  | .left => some .left
  | .right => some .right
  | .home => some .home
  | .toEnd => some .toEnd
  | .accept => some .accept
  | .requestCompletion => some .requestCompletion
  | .unbox => some .unbox
  | .openTagList => some .openTagList
  | _ => none

/-- The editor after a command, and whether the user wants to leave. -/
def obey (e : Editor σ) (c : Command) : Except CalendarFault (Editor σ × Bool) :=
  match c with
  | .quit => .ok (e, true)
  | .next => .ok (e.withPicker e.picker.next, false)
  | .previous => .ok (e.withPicker e.picker.previous, false)
  | .previousDay => (e.picker.shift (-1)).map fun picker => (e.withPicker picker, false)
  | .nextDay => (e.picker.shift 1).map fun picker => (e.withPicker picker, false)
  | .hidePicker => .ok (e.withPicker e.picker.hide, false)
  | c =>
    match actionOf? c with
    | none => .ok (e, false)
    | some a => (e.act a).map fun (after, done) =>
      if c = .unbox && !done then (after.notify "No block under the cursor" .warning, false)
      else (after, false)

def command (e : Editor σ) (k : Key) : Command := k.command e.visiblePage

def press (e : Editor σ) (k : Key) : Except CalendarFault (Editor σ × Bool) := e.obey (e.command k)

end Editor
end QueryLine
