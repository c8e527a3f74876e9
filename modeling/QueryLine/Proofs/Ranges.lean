import QueryLine.Proofs.Subtrees

/-!
The ranges that blocks are shown with. A range goes from the first character of its block to the
last, and holds the text of the block. An empty block has a range that ends in front of its start;
at the very start of the text there is no such range, and the first character is shown instead.
-/

namespace QueryLine

open Leaf (spell)

def BlockView.covered (t : Text) (v : BlockView) : Text := (t.take (v.last + 1)).drop v.first

theorem BlockView.covered_middle {v : BlockView} {front inner rest : Text}
    (hfirst : v.first = front.length) (hlast : v.last + 1 = v.first + inner.length) :
    v.covered (front ++ (inner ++ rest)) = inner := by
  have htake : (front ++ (inner ++ rest)).take (v.last + 1) = front ++ inner := by
    rw [← List.append_assoc]
    exact List.take_left' (by rw [hlast, hfirst, List.length_append])
  rw [covered, htake, hfirst, List.drop_left]

namespace Document

variable {d : Document} {v : BlockView}

theorem Sound.exists_text_eq (h : d.Sound) {path : Path} {n : Node}
    (hn : d.root.node? path = some n) :
    ∃ front rest, d.text = front ++ (n.text ++ rest) ∧
      d.root.offset? path = some front.length := by
  obtain ⟨b, a, hspans, hoffset⟩ := h.root.exists_spans hn
  refine ⟨spell b, spell a, ?_, hoffset⟩
  rw [Document.text, ← Block.spell_leaves, hspans.leaves, Leaf.spell_append, Leaf.spell_append,
    Leaf.spell_inside, Node.spell_leaves]

/-- A view says where its block starts, how deep it is, and which characters are in it unless there
are none at the start of the text. -/
theorem Sound.range_of_mem (h : d.Sound) (hv : v ∈ d.blocks) :
    ∃ f inner, d.root.node? v.path = some (.block f inner) ∧
      d.root.offset? v.path = some v.first ∧ v.depth = v.path.length ∧
      if v.first = 0 ∧ Node.textOf inner = [] then v.last = 0
      else v.last + 1 = v.first + (Node.textOf inner).length ∧
        v.covered d.text = Node.textOf inner := by
  obtain ⟨-, f, inner, s, hblock, hoffset, hfirst, hlast, hdepth⟩ := Block.shown_of_mem_blocks hv
  obtain ⟨front, rest, htext, hfront⟩ := h.exists_text_eq hblock
  have hstart : v.first = front.length := by
    rw [hfirst, Nat.zero_add]
    exact Option.some.inj (hoffset.symm.trans hfront)
  refine ⟨f, inner, hblock, by rw [hstart, hfront], by rw [hdepth, Nat.zero_add], ?_⟩
  by_cases hnowhere : v.first = 0 ∧ Node.textOf inner = []
  · obtain ⟨hzero, hempty⟩ := hnowhere
    rw [if_pos ⟨hzero, hempty⟩, hlast, hzero, hempty]
    rfl
  · -- the last character is one before the end, and the end is not the start of the text
    have hend : v.last + 1 = v.first + (Node.textOf inner).length := by
      have hsome : ¬(v.first = 0 ∧ (Node.textOf inner).length = 0) := by
        rw [List.length_eq_zero_iff]
        exact hnowhere
      omega
    rw [if_neg hnowhere, htext]
    exact ⟨hend, BlockView.covered_middle hstart hend⟩

/-- After any run the blocks that are shown are the nested blocks. Each is shown where it starts and
as deep as its path is long, and its range covers the characters that are in it; only an empty block
at the start of the text is shown with the range from 0 to 0. -/
theorem run_shows_ranges (t : Text) (actions : List Action) :
    let d := (ofText t).run actions
    (∀ v ∈ d.blocks, ∃ f inner, d.root.node? v.path = some (.block f inner) ∧
      d.root.offset? v.path = some v.first ∧ v.depth = v.path.length ∧
      if v.first = 0 ∧ Node.textOf inner = [] then v.last = 0
      else v.last + 1 = v.first + (Node.textOf inner).length ∧
        v.covered d.text = Node.textOf inner) ∧
    ∀ path f inner, d.root.node? path = some (.block f inner) → ∃ v ∈ d.blocks, v.path = path := by
  intro d
  have h : d.Sound := sound_run t actions
  refine ⟨fun v => h.range_of_mem, fun path f inner hblock => ?_⟩
  obtain ⟨v, hv, hpath, -⟩ := Node.exists_shows hblock 0 0 []
  exact ⟨v, hv, hpath⟩

/-- In `ab` the block of the `a` is empty once the `a` is removed, and is shown to hold the `b`. -/
theorem emptied_block_covers_next :
    let d := (ofText ['a', 'b']).run [.box 0 0, .delete]
    ∃ v ∈ d.blocks, ∃ f inner, d.root.node? v.path = some (.block f inner) ∧
      Node.textOf inner = [] ∧ v.covered d.text = ['b'] := by
  intro d
  exact ⟨_, List.mem_singleton_self _, _, _, rfl, rfl, rfl⟩

end Document
end QueryLine
