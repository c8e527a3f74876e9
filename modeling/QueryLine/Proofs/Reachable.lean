import Mathlib.Algebra.Ring.Nat
import QueryLine.Proofs.Caret

/-!
What can be read off every document that a run of actions leads to from plain text.
-/

namespace QueryLine
namespace Block

/-- The blocks of `b`: itself and those nested in it, at any depth. -/
inductive Within (b : Block) : Block → Prop
  | self : Within b b
  | nested {c : Block} {f : Frame} {cs : List Node} (hc : Within b c)
      (hchild : .block f cs ∈ c.children) : Within b ⟨f, cs⟩

/-- The children of a block fill it without gaps, and the blocks among them fit it. -/
structure Partitioned (b : Block) : Prop where
  inhabited : b.children ≠ []
  turn_lt : b.frame.turn.val < 8
  starts : ∀ i c, b.children[i]? = some c →
    c.start = ((b.children.take i).map Node.length).sum
  nested : ∀ f cs, .block f cs ∈ b.children →
    f.closable = true ∧ (∃ i, f.color = some (Palette.color i)) ∧ f.color ≠ b.frame.color

end Block

namespace Node

theorem start_of_placed {start : Nat} {n : Node} (h : n.Placed start) : n.start = start := by
  cases n with
  | leaf s t => exact h
  | block f cs => exact h.1

theorem placed_of_mem {start : Nat} {cs : List Node} {c : Node} (h : PlacedFrom start cs)
    (hc : c ∈ cs) : ∃ s, c.Placed s := by
  obtain ⟨front, rest, rfl⟩ := List.append_of_mem hc
  exact ⟨_, (placedFrom_append.1 h).2.1⟩

theorem start_of_getElem? {start i : Nat} {cs : List Node} {c : Node} (h : PlacedFrom start cs)
    (hat : cs[i]? = some c) : c.start = start + ((cs.take i).map length).sum := by
  induction cs generalizing start i with
  | nil => simp at hat
  | cons d cs ih =>
    cases i with
    | zero =>
      obtain rfl := Option.some.inj hat
      exact start_of_placed h.1
    | succ i =>
      have hrest := ih h.2 hat
      rw [hrest, List.take_succ_cons, List.map_cons, List.sum_cons]
      omega

end Node

namespace Block

theorem Sound.within {r b : Block} (h : r.Sound) (hb : r.Within b) :
    b.children ≠ [] ∧ b.frame.turn.val < 8 ∧ Node.FramedIn b.frame.color b.children ∧
      Node.PlacedFrom 0 b.children := by
  induction hb with
  | self => exact ⟨h.inhabited, h.turn_lt, by rw [h.color]; exact h.framed, h.placed⟩
  | nested hc hchild ih =>
    obtain ⟨-, -, hframed, hplaced⟩ := ih
    obtain ⟨hf, hne, hin⟩ := Node.framedIn_iff.1 hframed _ hchild
    obtain ⟨s, hs⟩ := Node.placed_of_mem hplaced hchild
    exact ⟨hne, hf.turn_lt, hin, hs.2⟩

theorem Sound.partitioned {r b : Block} (h : r.Sound) (hb : r.Within b) : b.Partitioned := by
  obtain ⟨hne, hturn, hframed, hplaced⟩ := h.within hb
  refine ⟨hne, hturn, fun i c hat => ?_, fun f cs hmem => ?_⟩
  · rw [Node.start_of_getElem? hplaced hat, Nat.zero_add]
  · obtain ⟨hf, -, -⟩ := Node.framedIn_iff.1 hframed _ hmem
    exact ⟨hf.closable, hf.color, hf.color_ne⟩

end Block

namespace Document

/-- After any run the children of every block, at every depth, partition it. -/
theorem run_partitioned (t : Text) (actions : List Action) :
    let root := ((ofText t).run actions).root
    root.frame.start = 0 ∧ root.frame.color = none ∧ root.frame.closable = false ∧
      ∀ b, root.Within b → b.Partitioned := by
  have h := (sound_run t actions).root
  exact ⟨h.start, h.color, h.closable, fun b hb => h.partitioned hb⟩

/-- After any run the caret is in the leaf it is said to be in, its steps and edits meet only leaves
that are there, and it goes where it is sent. -/
theorem run_caret_in_leaf (t : Text) (actions : List Action) :
    let d := (ofText t).run actions
    d.caret.position ≤ d.length ∧
    (∃ s leaf start, d.root.node? d.caret.focus = some (.leaf s leaf) ∧
      d.root.offset? d.caret.focus = some start ∧ start ≤ d.caret.position ∧
      d.caret.position ≤ start + leaf.length ∧ d.caretPlace.offset + start = d.caret.position) ∧
    d.Lands (Node.stepLeft d.caretPlace.offset d.caret.focus d.root.children) ∧
    d.Lands (Node.stepRight d.caretPlace.offset d.caret.focus d.root.children) ∧
    (0 < d.caret.position → d.HoldsAt d.placeBefore) ∧
    (d.caret.position < d.length → d.HoldsAt d.placeAfter) ∧
    ∀ position, (d.setCaret position).caret.position = min position d.length := by
  intro d
  have h : d.Sound := sound_run t actions
  obtain ⟨b, leaf, a, hin⟩ := h.caret
  obtain ⟨s, hat⟩ := Node.at?_of_leaves hin.leaves
  have hoffset := hin.offset h.root
  refine ⟨hin.position_le, ⟨s, leaf, _, hat, h.root.offset?_of_leaves hin.leaves, hin.start_le,
    hin.le_stop, by omega⟩, h.lands_stepLeft, h.lands_stepRight, fun hpos => ?_, fun hpos => ?_,
    fun position => ?_⟩
  · obtain ⟨b', u, a', hchar⟩ := h.charAt_placeBefore hpos
    exact ⟨u, Block.leaf?_of_leaves hchar.leaves, hchar.inside⟩
  · obtain ⟨b', u, a', hchar⟩ := h.charAt_placeAfter hpos
    exact ⟨u, Block.leaf?_of_leaves hchar.leaves, hchar.inside⟩
  · unfold setCaret
    dsimp only
    split <;> rfl

end Document
end QueryLine
