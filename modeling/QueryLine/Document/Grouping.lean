import QueryLine.Document.Place

/-!
Making and dissolving nested blocks. Neither changes the text.
-/

namespace QueryLine
namespace Node

/-- A leaf at `offset`, cut in up to three: the characters from `start` to `last` become a block.
None of it where they are the whole leaf. -/
def split (turn : Palette.Turn) (around : Option Rgb) (offset : Nat) (t : Text)
    (start last : Nat) : Option (Palette.Turn × List Node) :=
  let left := t.take start
  let middle := (t.take (last + 1)).drop start
  let right := t.drop (last + 1)
  if left.isEmpty && right.isEmpty then none
  else
    let (color, next) := Palette.pick turn around
    let boxed := block ⟨offset + start, some color, true, .first⟩ [leaf 0 middle]
    let before := if left.isEmpty then [] else [leaf offset left]
    let after := if right.isEmpty then [] else [leaf (offset + last + 1) right]
    some (next, before ++ boxed :: after)

theorem take_append_middle (t : Text) {start last : Nat} (hle : start ≤ last) :
    t.take start ++ ((t.take (last + 1)).drop start ++ t.drop (last + 1)) = t := by
  have hmin : min start (last + 1) = start := by omega
  rw [← List.append_assoc]
  conv => lhs; lhs; lhs; rw [← hmin, ← List.take_take]
  rw [List.take_append_drop, List.take_append_drop]

theorem textOf_split {turn next : Palette.Turn} {around : Option Rgb} {offset : Nat} {t : Text}
    {start last : Nat} {nodes : List Node} (hle : start ≤ last)
    (h : split turn around offset t start last = some (next, nodes)) : textOf nodes = t := by
  unfold split at h
  dsimp only at h
  split at h
  · simp at h
  · obtain ⟨-, rfl⟩ := Prod.mk.inj (Option.some.inj h)
    conv => rhs; rw [← take_append_middle t hle]
    rw [textOf_append]
    congr 1
    · split <;> simp_all [textOf, text]
    · simp only [textOf, text, List.append_nil]
      congr 1
      split <;> simp_all [textOf, text]

mutual
/-- Makes the characters from `start` to `last` a block inside this node, which is at `offset`, and
gives what stands in its place and the next turn of the block around, whose colour is `around`. -/
def box (turn : Palette.Turn) (around : Option Rgb) (offset start last : Nat) :
    Node → Option (Palette.Turn × List Node)
  | leaf _ t => split turn around offset t start last
  | block f cs =>
    (boxIn f.turn f.color 0 start last cs).map fun (next, inner) =>
      (turn, [block { f with turn := next } inner])

/-- One child has to hold all the characters. The first of the children is at `offset`, from where
`start` and `last` count. -/
def boxIn (turn : Palette.Turn) (around : Option Rgb) (offset start last : Nat) :
    List Node → Option (Palette.Turn × List Node)
  | [] => none
  | c :: cs =>
    if start < c.length then
      if last < c.length then
        (c.box turn around offset start last).map fun (next, nodes) => (next, nodes ++ cs)
      else none
    else
      (boxIn turn around (offset + c.length) (start - c.length) (last - c.length) cs).map
        fun (next, nodes) => (next, c :: nodes)
end

mutual
theorem textOf_box {around : Option Rgb} {offset start last : Nat} (hle : start ≤ last) :
    (n : Node) → {turn next : Palette.Turn} → {nodes : List Node} →
      n.box turn around offset start last = some (next, nodes) → textOf nodes = n.text
  | leaf _ t, _, _, _, h => textOf_split hle h
  | block f cs, _, _, _, h => by
    simp only [box, Option.map_eq_some_iff, Prod.mk.injEq] at h
    obtain ⟨⟨next, inner⟩, h, -, rfl⟩ := h
    simp [textOf, text, textOf_boxIn hle cs h]

theorem textOf_boxIn {around : Option Rgb} {offset start last : Nat} (hle : start ≤ last) :
    (cs : List Node) → {turn next : Palette.Turn} → {nodes : List Node} →
      boxIn turn around offset start last cs = some (next, nodes) → textOf nodes = textOf cs
  | [], _, _, _, h => by simp [boxIn] at h
  | c :: cs, _, _, _, h => by
    simp only [boxIn] at h
    split at h
    · split at h
      · simp only [Option.map_eq_some_iff, Prod.mk.injEq] at h
        obtain ⟨⟨next, inner⟩, h, -, rfl⟩ := h
        simp [textOf, textOf_box hle c h]
      · simp at h
    · simp only [Option.map_eq_some_iff, Prod.mk.injEq] at h
      obtain ⟨⟨next, inner⟩, h, -, rfl⟩ := h
      simp [textOf, textOf_boxIn (by omega) cs h]
end

/-- Makes the block at a path a leaf again, one with the leaves beside it. -/
def unbox : Path → List Node → Option (List Node)
  | [], _ => none
  | [i], cs =>
    match cs[i]? with
    | some (block f inner) =>
      if f.closable then some (mergeLeaves (cs.set i (leaf 0 (textOf inner)))) else none
    | _ => none
  | i :: j :: path, cs =>
    match cs[i]? with
    | some (block f inner) => (unbox (j :: path) inner).map fun inner => cs.set i (block f inner)
    | _ => none

theorem textOf_set {cs : List Node} {i : Nat} {c d : Node} (h : cs[i]? = some c)
    (htext : d.text = c.text) : textOf (cs.set i d) = textOf cs := by
  induction cs generalizing i with
  | nil => simp at h
  | cons b cs ih =>
    cases i with
    | zero => simp_all [textOf]
    | succ i => simp_all [textOf]

theorem textOf_unbox (path : Path) {cs ds : List Node} (h : unbox path cs = some ds) :
    textOf ds = textOf cs := by
  fun_induction unbox path cs generalizing ds with
  | case2 i cs f inner hat =>
    obtain rfl := Option.some.inj h
    exact (textOf_mergeLeaves _).trans (textOf_set hat (by simp [text]))
  | case5 i j path cs f inner hat ih =>
    obtain ⟨inner', hinner, rfl⟩ := Option.map_eq_some_iff.1 h
    exact textOf_set hat (ih hinner)
  | _ => simp at h

end Node

/-- A nested block as seen from the whole text. -/
structure BlockView where
  first : Nat
  last : Nat
  depth : Nat
  color : Option Rgb
  closable : Bool
  path : Path
  deriving DecidableEq, Repr

namespace Node

mutual
/-- Blocks of a node at `path`, in order, each before the blocks inside it. -/
def blocks (start depth : Nat) (path : Path) : Node → List BlockView
  | leaf .. => []
  | block f cs =>
    let first := start + f.start
    ⟨first, first + (textOf cs).length - 1, depth + 1, f.color, f.closable, path⟩
      :: blocksIn first (depth + 1) path 0 cs

def blocksIn (start depth : Nat) (path : Path) (i : Nat) : List Node → List BlockView
  | [] => []
  | c :: cs => c.blocks start depth (path ++ [i]) ++ blocksIn start depth path (i + 1) cs
end

end Node

namespace Block

/-- Boxes the characters from `start` to `last`, if a single leaf holds them and more. -/
def box? (b : Block) (start last : Nat) : Option Block :=
  if start ≤ last then
    (Node.boxIn b.frame.turn b.frame.color 0 start last b.children).map fun (next, children) =>
      ⟨{ b.frame with turn := next }, children⟩
  else none

theorem text_box? {b c : Block} {start last : Nat} (h : b.box? start last = some c) :
    c.text = b.text := by
  unfold box? at h
  split at h
  · obtain ⟨⟨next, children⟩, hin, rfl⟩ := Option.map_eq_some_iff.1 h
    exact Node.textOf_boxIn ‹_› b.children hin
  · simp at h

def unbox? (b : Block) (path : Path) : Option Block :=
  (Node.unbox path b.children).map b.withChildren

theorem text_unbox? {b c : Block} {path : Path} (h : b.unbox? path = some c) :
    c.text = b.text := by
  obtain ⟨children, hout, rfl⟩ := Option.map_eq_some_iff.1 h
  simpa [text, withChildren] using Node.textOf_unbox path hout

def blocks (b : Block) : List BlockView := Node.blocksIn 0 0 [] 0 b.children

def isFlat (b : Block) : Bool := b.children.all Node.isLeaf

end Block
end QueryLine
