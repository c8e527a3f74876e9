import QueryLine.Document.Grouping

/-!
A document: grouped text with a caret, and the events that its owner has not taken yet. An
operation that may refuse gives no document then, and so changes nothing.
-/

namespace QueryLine

structure Caret where
  position : Nat
  /-- The leaf that the caret is in. At a boundary the position alone would fit two. -/
  focus : Path
  deriving DecidableEq, Repr

inductive DocumentEvent
  | textChanged
  | caretMoved (position : Nat)
  | beforeStart
  | afterEnd
  | blockClosed
  deriving DecidableEq, Repr

namespace DocumentEvent

def isCaretMove : DocumentEvent → Bool
  | caretMoved _ => true
  | _ => false

/-- Adds an event. Only one text change is kept, and a caret move takes the place of the first. -/
def queue (e : DocumentEvent) (events : List DocumentEvent) : List DocumentEvent :=
  match e with
  | textChanged => if textChanged ∈ events then events else events ++ [e]
  | caretMoved _ =>
    match events.findIdx? isCaretMove with
    | some i => events.set i e
    | none => events ++ [e]
  | _ => events ++ [e]

end DocumentEvent

structure Document where
  root : Block
  caret : Caret
  events : List DocumentEvent
  deriving Repr

namespace Document

def ofText (t : Text) : Document := ⟨.ofText t, ⟨0, [0]⟩, []⟩

def text (d : Document) : Text := d.root.text

def length (d : Document) : Nat := d.root.length

def queue (e : DocumentEvent) (d : Document) : Document := { d with events := e.queue d.events }

@[simp] theorem text_ofText (t : Text) : (ofText t).text = t := Block.text_ofText t

@[simp] theorem text_queue (e : DocumentEvent) (d : Document) : (d.queue e).text = d.text := rfl

/-- Puts the caret at `position` or at the end, without an event. -/
def place (position : Nat) (d : Document) : Document :=
  let position := min position d.length
  { d with caret := ⟨position, (d.root.caretPlace position).path⟩ }

@[simp] theorem text_place (position : Nat) (d : Document) : (d.place position).text = d.text := rfl

/-- Changes the blocks under the caret, which keeps its position. -/
def withRoot (d : Document) (root : Block) : Document :=
  place d.caret.position { d with root }

@[simp] theorem text_withRoot (d : Document) (root : Block) :
    (d.withRoot root).text = root.text := rfl

/-- New text without blocks; not an edit, so no event. -/
def setText (t : Text) (d : Document) : Document := d.withRoot (.ofText t)

def flatten (d : Document) : Document := d.setText d.text

@[simp] theorem text_setText (t : Text) (d : Document) : (d.setText t).text = t :=
  Block.text_ofText t

@[simp] theorem text_flatten (d : Document) : d.flatten.text = d.text := text_setText d.text d

def box? (start last : Nat) (d : Document) : Option Document :=
  (d.root.box? start last).map d.withRoot

theorem text_box? {d e : Document} {start last : Nat} (h : d.box? start last = some e) :
    e.text = d.text := by
  obtain ⟨root, hroot, rfl⟩ := Option.map_eq_some_iff.1 h
  exact Block.text_box? hroot

def unbox? (path : Path) (d : Document) : Option Document :=
  (d.root.unbox? path).map fun root => (d.withRoot root).queue .blockClosed

theorem text_unbox? {d e : Document} {path : Path} (h : d.unbox? path = some e) :
    e.text = d.text := by
  obtain ⟨root, hroot, rfl⟩ := Option.map_eq_some_iff.1 h
  exact Block.text_unbox? hroot

/-- Dissolves the innermost block around the caret. -/
def unboxAtCaret? (d : Document) : Option Document := d.unbox? d.caret.focus.dropLast

def blocks (d : Document) : List BlockView := d.root.blocks

def caretPlace (d : Document) : Place :=
  ⟨d.caret.focus, d.caret.position - (d.root.offset? d.caret.focus).getD 0⟩

def setCaret (position : Nat) (d : Document) : Document :=
  let placed := d.place position
  if placed.caret.position = d.caret.position then placed
  else placed.queue (.caretMoved placed.caret.position)

@[simp] theorem text_setCaret (position : Nat) (d : Document) :
    (d.setCaret position).text = d.text := by
  unfold setCaret
  dsimp only
  split <;> rfl

def step (s : Step) (d : Document) : Document :=
  match s with
  | .moved p =>
    let position := (d.root.offset? p.path).getD 0 + p.offset
    queue (.caretMoved position) { d with caret := ⟨position, p.path⟩ }
  | .beforeStart => d.queue .beforeStart
  | .afterEnd => d.queue .afterEnd
  | .nowhere => d

@[simp] theorem text_step (s : Step) (d : Document) : (d.step s).text = d.text := by
  cases s <;> rfl

def left (d : Document) : Document :=
  d.step (Node.stepLeft d.caretPlace.offset d.caret.focus d.root.children)

def right (d : Document) : Document :=
  d.step (Node.stepRight d.caretPlace.offset d.caret.focus d.root.children)

def home (d : Document) : Document := d.setCaret 0

def toEnd (d : Document) : Document := d.setCaret d.length

end Document

namespace Node

def modifyLeaf (f : Text → Text) : Path → List Node → List Node
  | [], cs => cs
  | i :: path, cs =>
    cs.modify i fun
      | leaf s t => if path.isEmpty then leaf s (f t) else leaf s t
      | block frame inner => block frame (modifyLeaf f path inner)

end Node

namespace Document

def modifyLeaf (f : Text → Text) (path : Path) (d : Document) : Document :=
  { d with root := d.root.withChildren (Node.modifyLeaf f path d.root.children) }

/-- Types `t` in the leaf of the caret. -/
def insert (t : Text) (d : Document) : Document :=
  if t.isEmpty || (d.root.leaf? d.caret.focus).isNone then d
  else
    let offset := d.caretPlace.offset
    let position := d.caret.position + t.length
    let typed := d.modifyLeaf (Text.splice · offset offset t) d.caret.focus
    { typed with caret := ⟨position, d.caret.focus⟩ }.queue (.caretMoved position)
      |>.queue .textChanged

def eraseAt? (p : Place) (d : Document) : Option Document :=
  match d.root.leaf? p.path with
  | some t => if p.offset < t.length then some (d.modifyLeaf (·.eraseIdx p.offset) p.path) else none
  | none => none

def placeBefore (d : Document) : Place :=
  let here := d.caretPlace
  if 0 < here.offset then ⟨here.path, here.offset - 1⟩ else d.root.locate (d.caret.position - 1)

def placeAfter (d : Document) : Place :=
  let here := d.caretPlace
  if here.offset < ((d.root.leaf? here.path).getD []).length then here
  else d.root.locate d.caret.position

def backspace? (d : Document) : Option Document :=
  if d.caret.position = 0 then none
  else
    let position := d.caret.position - 1
    (d.eraseAt? d.placeBefore).map fun erased =>
      { erased with caret := ⟨position, d.placeBefore.path⟩ }.queue (.caretMoved position)
        |>.queue .textChanged

def delete? (d : Document) : Option Document :=
  if d.length ≤ d.caret.position then none
  else (d.eraseAt? d.placeAfter).map (·.queue .textChanged)

/-- Replaces the characters from `start` up to `stop` and drops all blocks. -/
def splice (start stop : Nat) (new : Text) (d : Document) : Document :=
  (d.setText (Text.splice d.text start stop new)).queue .textChanged

@[simp] theorem text_splice (start stop : Nat) (new : Text) (d : Document) :
    (d.splice start stop new).text = Text.splice d.text start stop new :=
  text_setText _ d

def takeEvents (d : Document) : List DocumentEvent × Document := (d.events, { d with events := [] })

inductive Action
  | setText (t : Text)
  | flatten
  | box (start last : Nat)
  | unbox (path : Path)
  | unboxAtCaret
  | setCaret (position : Nat)
  | left
  | right
  | home
  | toEnd
  | insert (t : Text)
  | backspace
  | delete
  | splice (start stop : Nat) (new : Text)
  | takeEvents
  deriving Repr

def act? (d : Document) : Action → Option Document
  | .setText t => some (d.setText t)
  | .flatten => some d.flatten
  | .box start last => d.box? start last
  | .unbox path => d.unbox? path
  | .unboxAtCaret => d.unboxAtCaret?
  | .setCaret position => some (d.setCaret position)
  | .left => some d.left
  | .right => some d.right
  | .home => some d.home
  | .toEnd => some d.toEnd
  | .insert t => some (d.insert t)
  | .backspace => d.backspace?
  | .delete => d.delete?
  | .splice start stop new => some (d.splice start stop new)
  | .takeEvents => some d.takeEvents.2

def act (d : Document) (a : Action) : Document := (d.act? a).getD d

def run (d : Document) (actions : List Action) : Document := actions.foldl act d

end Document
end QueryLine
