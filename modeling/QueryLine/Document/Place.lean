import QueryLine.Document.Node

/-!
Places in a block. A node is found by its path, the number of the child taken at each block on the
way; a place for the caret is the path of a leaf and an offset in it.
-/

namespace QueryLine

abbrev Path := List Nat

structure Place where
  path : Path
  offset : Nat
  deriving DecidableEq, Repr

namespace Place

/-- The same place, seen from the block around: child number `i` comes first. -/
def under (i : Nat) (p : Place) : Place := ⟨i :: p.path, p.offset⟩

/-- The same place where one more child stands in front. -/
def shifted (p : Place) : Place :=
  match p.path with
  | i :: path => ⟨(i + 1) :: path, p.offset⟩
  | [] => p

end Place

inductive Step
  | moved (place : Place)
  | beforeStart
  | afterEnd
  /-- The step began beyond the children of a block, so nothing is next to it. -/
  | nowhere
  deriving DecidableEq, Repr

def Step.under (i : Nat) : Step → Step
  | moved p => moved (p.under i)
  | s => s

namespace Node

mutual
def firstPlace : Node → Place
  | leaf .. => ⟨[], 0⟩
  | block _ cs => firstPlaceIn cs

def firstPlaceIn : List Node → Place
  | [] => ⟨[], 0⟩
  | c :: _ => c.firstPlace.under 0
end

mutual
def lastPlace : Node → Place
  | leaf _ t => ⟨[], t.length⟩
  | block _ cs => lastPlaceIn cs

def lastPlaceIn : List Node → Place
  | [] => ⟨[], 0⟩
  | [c] => c.lastPlace.under 0
  | _ :: c :: cs => (lastPlaceIn (c :: cs)).shifted
end

/-- The number and the start of the child that holds the character at `position`. The last child
holds every position from its start on. -/
def childAt? (position : Nat) : List Node → Option (Nat × Nat)
  | [] => none
  | [_] => some (0, 0)
  | c :: cs =>
    if position < c.length then some (0, 0)
    else (childAt? (position - c.length) cs).map fun (i, start) => (i + 1, c.length + start)

mutual
/-- The place of the character at `position`; a position beyond all characters is at the end. -/
def locate (position : Nat) : Node → Place
  | leaf _ t => ⟨[], min position t.length⟩
  | block _ cs => locateIn position cs

def locateIn (position : Nat) : List Node → Place
  | [] => ⟨[], 0⟩
  | [c] => (c.locate position).under 0
  | c :: d :: cs =>
    if position < c.length then (c.locate position).under 0
    else (locateIn (position - c.length) (d :: cs)).shifted
end

def at? : Path → List Node → Option Node
  | [], _ => none
  | [i], cs => cs[i]?
  | i :: j :: path, cs =>
    match cs[i]? with
    | some (block _ inner) => at? (j :: path) inner
    | _ => none

/-- Where the node at a path starts, counted from the start of the children. -/
def offset? : Path → List Node → Option Nat
  | [], _ => some 0
  | i :: path, cs =>
    match cs[i]? with
    | some (block f inner) => (offset? path inner).map (f.start + ·)
    | some (leaf s _) => if path.isEmpty then some s else none
    | none => none

/-- A step taken inside child number `i`, seen from the block around: through the start of that
child it leads to the end of the child in front. -/
def outToLeft (cs : List Node) (i : Nat) (inner : Step) : Step :=
  match inner, i with
  | .beforeStart, before + 1 =>
    match cs[before]? with
    | some c => .moved (c.lastPlace.under before)
    | none => .nowhere
  | step, _ => step.under i

def stepLeft (offset : Nat) : Path → List Node → Step
  | [], _ => .beforeStart
  | i :: path, cs =>
    outToLeft cs i <| match cs[i]? with
      | some (leaf ..) => if 0 < offset then .moved ⟨[], offset - 1⟩ else .beforeStart
      | some (block _ inner) => stepLeft offset path inner
      | none => .beforeStart

/-- The same through the end of the child: to the start of the child behind. -/
def outToRight (cs : List Node) (i : Nat) : Step → Step
  | .afterEnd =>
    match cs[i + 1]? with
    | some c => .moved (c.firstPlace.under (i + 1))
    | none => .afterEnd
  | step => step.under i

def stepRight (offset : Nat) : Path → List Node → Step
  | [], _ => .afterEnd
  | i :: path, cs =>
    outToRight cs i <| match cs[i]? with
      | some (leaf _ t) => if offset < t.length then .moved ⟨[], offset + 1⟩ else .afterEnd
      | some (block _ inner) => stepRight offset path inner
      | none => .afterEnd

end Node

namespace Block

def locate (b : Block) (position : Nat) : Place := Node.locateIn position b.children

def offset? (b : Block) (path : Path) : Option Nat := Node.offset? path b.children

def node? (b : Block) (path : Path) : Option Node := Node.at? path b.children

def leaf? (b : Block) (path : Path) : Option Text :=
  match b.node? path with
  | some (.leaf _ t) => some t
  | _ => none

/-- The place for a caret at `position`. Between two leaves it is the end of the left one, where the
character before the caret stands. -/
def caretPlace (b : Block) (position : Nat) : Place :=
  let position := min position b.length
  let path := (b.locate (position - 1)).path
  ⟨path, min (position - (b.offset? path).getD 0) ((b.leaf? path).getD []).length⟩

end Block
end QueryLine
