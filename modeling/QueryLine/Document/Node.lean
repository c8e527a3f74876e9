import QueryLine.Color.Palette
import QueryLine.Text.Basic

/-!
The grouped text of a query line: a block holds leaves of plain text and nested blocks. The text of
a node is the text of its leaves in order; how long a node is and where it starts follow from it.
-/

namespace QueryLine

/-- What a block is apart from its content. -/
structure Frame where
  /-- Where it starts within the block around it. -/
  start : Nat
  color : Option Rgb
  closable : Bool
  /-- The colour due for the next block inside. -/
  turn : Palette.Turn
  deriving DecidableEq, Repr

inductive Node
  | leaf (start : Nat) (text : Text)
  | block (frame : Frame) (children : List Node)
  deriving Repr

namespace Node

def start : Node → Nat
  | leaf s _ => s
  | block f _ => f.start

def isLeaf : Node → Bool
  | leaf .. => true
  | block .. => false

mutual
def text : Node → Text
  | leaf _ t => t
  | block _ cs => textOf cs

def textOf : List Node → Text
  | [] => []
  | c :: cs => c.text ++ textOf cs
end

@[simp] theorem textOf_append (cs ds : List Node) : textOf (cs ++ ds) = textOf cs ++ textOf ds := by
  induction cs with
  | nil => rfl
  | cons c cs ih => simp [textOf, ih]

def length (n : Node) : Nat := n.text.length

mutual
/-- Moves a node to `start` and every node inside to where the nodes before it end. -/
def reflow (start : Nat) : Node → Node
  | leaf _ t => leaf start t
  | block f cs => block { f with start := start } (reflowFrom 0 cs)

def reflowFrom (start : Nat) : List Node → List Node
  | [] => []
  | c :: cs => c.reflow start :: reflowFrom (start + c.length) cs
end

mutual
@[simp] theorem text_reflow (start : Nat) : (n : Node) → (n.reflow start).text = n.text
  | leaf .. => rfl
  | block _ cs => by simp [reflow, text, textOf_reflowFrom 0 cs]

@[simp] theorem textOf_reflowFrom (start : Nat) :
    (cs : List Node) → textOf (reflowFrom start cs) = textOf cs
  | [] => rfl
  | c :: cs => by simp [reflowFrom, textOf, text_reflow start c, textOf_reflowFrom _ cs]
end

def mergeLeaves : List Node → List Node
  | [] => []
  | c :: cs =>
    match c, mergeLeaves cs with
    | leaf s t, leaf _ u :: more => leaf s (t ++ u) :: more
    | c, more => c :: more

@[simp] theorem textOf_mergeLeaves (cs : List Node) : textOf (mergeLeaves cs) = textOf cs := by
  induction cs with
  | nil => rfl
  | cons c cs ih =>
    unfold mergeLeaves
    split
    · rename_i h
      simp [textOf, text, ← ih, h]
    · simp [textOf, ih]

end Node

/-- A block that nothing is around. -/
structure Block where
  frame : Frame
  children : List Node
  deriving Repr

namespace Block

/-- Plain text, without a colour and not to be closed. -/
def ofText (t : Text) : Block := ⟨⟨0, none, false, .first⟩, [.leaf 0 t]⟩

def text (b : Block) : Text := Node.textOf b.children

def length (b : Block) : Nat := b.text.length

@[simp] theorem text_ofText (t : Text) : (ofText t).text = t := List.append_nil t

def withChildren (b : Block) (cs : List Node) : Block := ⟨b.frame, Node.reflowFrom 0 cs⟩

@[simp] theorem text_withChildren (b : Block) (cs : List Node) :
    (b.withChildren cs).text = Node.textOf cs := Node.textOf_reflowFrom 0 cs

end Block
end QueryLine
