import QueryLine.Proofs.Looks

/-!
Boxing a range of characters. It succeeds where a leaf holds the range and more; then one block more
is shown, one deeper than the block around the leaf, and all others look as before.
-/

namespace QueryLine

open Leaf (spell)

/-- Among the leaves `ls` this one holds the characters from `start` to `last`, and more. -/
def Leaf.Exceeds (l : Leaf) (ls : List Leaf) (start last : Nat) : Prop :=
  ∃ b a, ls = b ++ l :: a ∧ (spell b).length ≤ start ∧ last < (spell b).length + l.text.length ∧
    ¬(start = (spell b).length ∧ last + 1 = (spell b).length + l.text.length)

theorem Leaf.Exceeds.mem {l : Leaf} {ls : List Leaf} {start last : Nat}
    (h : l.Exceeds ls start last) : l ∈ ls := by
  obtain ⟨b, a, rfl, -⟩ := h
  exact List.mem_append_right b List.mem_cons_self

/-- One look more, among the others in their order. -/
def Gains (x : Look) (us vs : List Look) : Prop :=
  ∃ front rest, us = front ++ rest ∧ vs = front ++ x :: rest

namespace Gains

variable {x : Look} {us vs : List Look}

theorem append_left (h : Gains x us vs) (ws : List Look) : Gains x (ws ++ us) (ws ++ vs) := by
  obtain ⟨front, rest, rfl, rfl⟩ := h
  exact ⟨ws ++ front, rest, by rw [List.append_assoc], by rw [List.append_assoc]⟩

theorem append_right (h : Gains x us vs) (ws : List Look) : Gains x (us ++ ws) (vs ++ ws) := by
  obtain ⟨front, rest, rfl, rfl⟩ := h
  exact ⟨front, rest ++ ws, by rw [List.append_assoc],
    by rw [List.append_assoc, List.cons_append]⟩

end Gains

namespace Node

variable {turn next : Palette.Turn} {around : Option Rgb} {offset first last : Nat}

theorem boxIn_beyond (hle : first ≤ last) {cs : List Node} (h : (textOf cs).length ≤ first) :
    boxIn turn around offset first last cs = none := by
  induction cs generalizing offset first last with
  | nil => rfl
  | cons c cs ih =>
    rw [textOf, List.length_append] at h
    have hfirst : ¬first < c.length := by
      rw [length]
      omega
    rw [boxIn, if_neg hfirst, ih (by omega) (by rw [length]; omega)]
    rfl

theorem boxIn_middle (hle : first ≤ last) {pre post : List Node} {c : Node}
    (hfirst : (textOf pre).length ≤ first) (hlt : first < (textOf pre).length + c.length) :
    boxIn turn around offset first last (pre ++ c :: post) =
      if last < (textOf pre).length + c.length then
        (c.box turn around (offset + (textOf pre).length) (first - (textOf pre).length)
          (last - (textOf pre).length)).map fun (next, nodes) => (next, pre ++ (nodes ++ post))
      else none := by
  induction pre generalizing offset first last with
  | nil =>
    have hin : first < c.length := by simpa [textOf] using hlt
    rw [List.nil_append, boxIn, if_pos hin]
    simp [textOf]
  | cons d pre ih =>
    have hlength : (textOf (d :: pre)).length = d.length + (textOf pre).length :=
      List.length_append
    rw [hlength] at hfirst hlt ⊢
    have hbehind : ¬first < d.length := by omega
    rw [List.cons_append, boxIn, if_neg hbehind, ih (by omega) (by omega) (by omega)]
    have hsub : ∀ n, n - d.length - (textOf pre).length = n - (d.length + (textOf pre).length) :=
      fun n => Nat.sub_sub _ _ _
    have hiff : last - d.length < (textOf pre).length + c.length ↔
        last < d.length + (textOf pre).length + c.length := by omega
    simp only [hsub, hiff, Nat.add_assoc offset]
    split
    · rw [Option.map_map]
      rfl
    · rfl

section Leaf

variable {path : Path} {cs nodes : List Node} {t : Text} {b a : List Leaf}

theorem length_before (pre : List Node) (ls : List Leaf) :
    (spell (leavesFrom 0 pre ++ ls.map (Leaf.under pre.length))).length =
      (textOf pre).length + (spell ls).length := by
  rw [Leaf.spell_append, spell_leavesFrom, Leaf.spell_under, List.length_append]

theorem leaf_stop_le {c : Node} (h : c.leaves = b ++ ⟨path, t⟩ :: a) :
    (spell b).length + t.length ≤ c.length := by
  have htext := congrArg (fun ls => (spell ls).length) h
  simp only [spell_leaves, Leaf.spell_append, Leaf.spell_cons, List.length_append] at htext
  rw [length]
  omega

theorem isSome_boxIn (h : leavesFrom 0 cs = b ++ ⟨path, t⟩ :: a) (hle : first ≤ last)
    (hb : (spell b).length ≤ first) (hlt : first < (spell b).length + t.length) :
    (boxIn turn around offset first last cs).isSome ↔ last < (spell b).length + t.length ∧
      ¬(first = (spell b).length ∧ last + 1 = (spell b).length + t.length) := by
  induction path generalizing cs b a turn around offset first last with
  | nil => exact absurd h leavesFrom_ne_nil_path
  | cons j path ih =>
    obtain ⟨pre, c, post, b', a', rfl, rfl, hc, rfl, -⟩ := exists_child_of_cons h
    have hstop := leaf_stop_le hc
    rw [length_before] at hb hlt ⊢
    rw [boxIn_middle hle (by omega) (by omega)]
    split
    · rename_i hlast
      rw [Option.isSome_map]
      cases c with
      | leaf s u =>
        obtain ⟨rfl, hl, -⟩ := of_leaves_leaf hc
        obtain ⟨-, rfl⟩ := Leaf.mk.inj hl
        change last < (textOf pre).length + t.length at hlast
        -- the leaf is cut unless it is just the range
        rw [box, Option.isSome_iff_ne_none, Ne, split_eq_none_iff (by omega) (by omega),
          Leaf.spell_nil, List.length_nil]
        omega
      | block f inner =>
        cases path with
        | nil => exact absurd hc leavesFrom_ne_nil_path
        | cons k path =>
          rw [box, Option.isSome_map, ih hc (by omega) (by omega) (by omega)]
          omega
    · rename_i hlast
      refine iff_of_false Bool.false_ne_true fun hholds => ?_
      omega

theorem looksIn_remnant (h : Remnant t cs) (ds : List Node) (start depth : Nat) :
    looksIn start depth (cs ++ ds) = looksIn (start + t.length) depth ds := by
  rcases h with ⟨rfl, rfl⟩ | ⟨-, p, rfl⟩
  · rfl
  · rfl

/-- The leaf is cut, and the block for its middle is of another colour than the one around. -/
theorem gains_split (s : Nat) (hle : first ≤ last) (hlast : last < t.length)
    (h : split turn around offset t first last = some (next, nodes)) :
    ∃ color, some color ≠ around ∧ ∀ start depth,
      Gains ⟨start + first, start + last, depth + 1, some color⟩
        ((leaf s t).looks start depth) (looksIn start depth nodes) := by
  have hframed := (boxed_split hle hlast h).framed
  obtain ⟨before, f, after, hbefore, hafter, rfl⟩ := exists_of_split h
  obtain ⟨hf, -⟩ := (framedIn_append.1 hframed).2.1
  obtain ⟨i, hcolor⟩ := hf.color
  have hmiddle : ((t.take (last + 1)).drop first).length = last + 1 - first := by
    rw [List.length_drop, List.length_take_of_le (by omega)]
  have htake : (t.take first).length = first := List.length_take_of_le (by omega)
  refine ⟨Palette.color i, hcolor ▸ hf.color_ne, fun start depth => ⟨[], [], rfl, ?_⟩⟩
  have hnone : ∀ p, looksIn p depth after = [] := by
    intro p
    have hnothing := looksIn_remnant hafter [] p depth
    rwa [List.append_nil] at hnothing
  rw [looksIn_remnant hbefore, htake, looksIn, hnone, looks, hcolor]
  simp only [looksIn, looks, textOf, text, List.append_nil, hmiddle, List.nil_append]
  congr 2
  omega

theorem gains_middle {x : Look} {start depth : Nat} {pre post : List Node} {c : Node}
    (htext : textOf nodes = c.text)
    (h : Gains x (c.looks (start + (textOf pre).length) depth)
      (looksIn (start + (textOf pre).length) depth nodes)) :
    Gains x (looksIn start depth (pre ++ c :: post)) (looksIn start depth (pre ++ (nodes ++ post)))
    := by
  rw [looksIn_middle, looksIn_append, looksIn_append, htext]
  exact (h.append_right _).append_left _

theorem gains_block {x : Look} {start depth : Nat} {f : Frame} {inner : List Node}
    (htext : textOf nodes = textOf inner)
    (h : Gains x (looksIn start (depth + 1) inner) (looksIn start (depth + 1) nodes)) :
    Gains x ((block f inner).looks start depth)
      (looksIn start depth [block { f with turn := turn } nodes]) := by
  rw [looksIn, looks, looks, looksIn, List.append_nil, htext]
  exact h.append_left [_]

/-- Boxing in a leaf shows one block more, as deep as the path of the leaf is long. -/
theorem gains_boxIn (h : leavesFrom 0 cs = b ++ ⟨path, t⟩ :: a)
    (hle : first ≤ last) (hb : (spell b).length ≤ first)
    (hlt : first < (spell b).length + t.length)
    (hbox : boxIn turn around offset first last cs = some (next, nodes)) :
    ∃ color, some color ≠ colorAround around path cs ∧ ∀ start depth,
      Gains ⟨start + first, start + last, depth + path.length, some color⟩
        (looksIn start depth cs) (looksIn start depth nodes) := by
  induction path generalizing cs nodes b a turn next around offset first last with
  | nil => exact absurd h leavesFrom_ne_nil_path
  | cons j path ih =>
    obtain ⟨pre, c, post, b', a', rfl, rfl, hc, rfl, -⟩ := exists_child_of_cons h
    have hstop := leaf_stop_le hc
    rw [length_before] at hb hlt
    rw [boxIn_middle hle (by omega) (by omega)] at hbox
    split at hbox
    · rename_i hlast
      obtain ⟨⟨next', nodes'⟩, hinner, hresult⟩ := Option.map_eq_some_iff.1 hbox
      obtain ⟨rfl, rfl⟩ := Prod.mk.inj hresult
      have htext := textOf_box (by omega) c hinner
      -- counted from the child instead of from the first of the children
      have hcount : ∀ start n, (textOf pre).length ≤ n →
          start + (textOf pre).length + (n - (textOf pre).length) = start + n :=
        fun start n _ => by omega
      cases c with
      | leaf s u =>
        obtain ⟨rfl, hl, -⟩ := of_leaves_leaf hc
        obtain ⟨rfl, rfl⟩ := Leaf.mk.inj hl
        change last < (textOf pre).length + t.length at hlast
        obtain ⟨color, hcolor, hgains⟩ := gains_split s (by omega) (by omega) hinner
        refine ⟨color, hcolor, fun start depth => gains_middle htext ?_⟩
        have hchild := hgains (start + (textOf pre).length) depth
        rwa [hcount start first (by omega), hcount start last (by omega)] at hchild
      | block f inner =>
        cases path with
        | nil => exact absurd hc leavesFrom_ne_nil_path
        | cons k path =>
          obtain ⟨⟨turn', inner'⟩, hin, hboxed⟩ := Option.map_eq_some_iff.1 hinner
          obtain ⟨rfl, rfl⟩ := Prod.mk.inj hboxed
          obtain ⟨color, hcolor, hgains⟩ := ih hc (by omega) (by omega) (by omega) hin
          refine ⟨color, ?_, fun start depth => gains_middle htext ?_⟩
          · rwa [colorAround, getElem?_middle]
          · have hchild := hgains (start + (textOf pre).length) (depth + 1)
            have hdepth : depth + (pre.length :: k :: path).length =
                depth + 1 + (k :: path).length := by
              rw [List.length_cons, Nat.add_assoc, Nat.add_comm 1]
            rw [hcount start first (by omega), hcount start last (by omega), ← hdepth] at hchild
            exact gains_block (textOf_boxIn (by omega) inner hin) hchild
    · cases hbox

end Leaf
end Node

namespace Block

variable {b c : Block} {start last : Nat}

/-- Boxing succeeds where a leaf holds the range and more. -/
theorem Sound.isSome_box? (h : b.Sound) : (b.box? start last).isSome ↔
    start ≤ last ∧ ∃ l : Leaf, l.Exceeds b.leaves start last := by
  unfold Block.box?
  split
  · rename_i hle
    rw [Option.isSome_map, and_iff_right hle]
    constructor
    · intro hsome
      have hlt : start < b.length := by
        apply Nat.lt_of_not_le
        intro hbeyond
        rw [Node.boxIn_beyond hle hbeyond] at hsome
        cases hsome
      obtain ⟨before, t, after, hchar⟩ := h.charAt_locate hlt
      have hoffset := hchar.offset
      have hinside := hchar.inside
      have hholds := (Node.isSome_boxIn hchar.leaves hle (by omega) (by omega)).1 hsome
      exact ⟨_, before, after, hchar.leaves, by omega, hholds⟩
    · rintro ⟨l, before, after, hleaves, hstart, hholds⟩
      exact (Node.isSome_boxIn hleaves hle hstart (by omega)).2 hholds
  · rename_i hle
    exact iff_of_false Bool.false_ne_true fun hboth => hle hboth.1

theorem Sound.gains_box? (h : b.Sound) (hbox : b.box? start last = some c) {l : Leaf}
    (hl : l.Exceeds b.leaves start last) :
    ∃ color, some color ≠ Node.colorAround none l.path b.children ∧
      Gains ⟨start, last, l.path.length, some color⟩ (Node.looksIn 0 0 b.children)
        (Node.looksIn 0 0 c.children) := by
  obtain ⟨before, after, hleaves, hstart, hlast, -⟩ := hl
  unfold Block.box? at hbox
  split at hbox
  · rename_i hle
    obtain ⟨⟨next, children⟩, hin, rfl⟩ := Option.map_eq_some_iff.1 hbox
    obtain ⟨color, hcolor, hgains⟩ :=
      Node.gains_boxIn hleaves hle hstart (by omega) hin
    have hroot := hgains 0 0
    rw [Nat.zero_add, Nat.zero_add, Nat.zero_add] at hroot
    rw [h.color] at hcolor
    exact ⟨color, hcolor, hroot⟩
  · cases hbox

end Block

namespace Document

theorem Sound.isSome_box? {d : Document} (h : d.Sound) (start last : Nat) :
    (d.act? (.box start last)).isSome ↔
      start ≤ last ∧ ∃ l : Leaf, l.Exceeds d.root.leaves start last := by
  change (d.box? start last).isSome ↔ _
  rw [Document.box?, Option.isSome_map, h.root.isSome_box?]

/-- The new block is one deeper than the block around its leaf, and of another colour. -/
theorem Sound.box?_spec {d e : Document} (h : d.Sound) {start last : Nat}
    (he : d.act? (.box start last) = some e) :
    ∃ (l : Leaf) (around : Option BlockView) (color : Rgb),
      l.Exceeds d.root.leaves start last ∧ BlockView.Innermost d.blocks l.path around ∧
      some color ≠ around.bind BlockView.color ∧
      Gains ⟨start, last, (around.map BlockView.depth).getD 0 + 1, some color⟩
        (d.blocks.map BlockView.look) (e.blocks.map BlockView.look) := by
  have hsound := h.act? he
  have hiff := h.isSome_box? start last
  rw [he] at hiff
  obtain ⟨-, l, hl⟩ := hiff.1 rfl
  obtain ⟨root, hroot, rfl⟩ := Option.map_eq_some_iff.1 he
  obtain ⟨color, hcolor, hgains⟩ := h.root.gains_box? hroot hl
  obtain ⟨around, hinnermost, hdepth, hbind⟩ := h.root.exists_innermost hl.mem
  refine ⟨l, around, color, hl, hinnermost, by rwa [hbind], ?_⟩
  rw [h.look_blocks, hsound.look_blocks, hdepth]
  exact hgains

/-- After any run a range can be boxed where a leaf holds it and more. A range that cannot be boxed
leaves all as it is; one that can gets a block that is one deeper than the block around the leaf and
of another colour, and line and other blocks stay as they are. -/
theorem run_boxes (t : Text) (actions : List Action) (start last : Nat) :
    let d := (ofText t).run actions
    ((d.act? (.box start last)).isSome ↔
      start ≤ last ∧ ∃ l : Leaf, l.Exceeds d.root.leaves start last) ∧
    match d.act? (.box start last) with
    | none => d.act (.box start last) = d
    | some e =>
      d.act (.box start last) = e ∧ e.SameLine d ∧
        ∃ (l : Leaf) (around : Option BlockView) (color : Rgb),
          l.Exceeds d.root.leaves start last ∧ BlockView.Innermost d.blocks l.path around ∧
          some color ≠ around.bind BlockView.color ∧
          Gains ⟨start, last, (around.map BlockView.depth).getD 0 + 1, some color⟩
            (d.blocks.map BlockView.look) (e.blocks.map BlockView.look) := by
  intro d
  have h : d.Sound := sound_run t actions
  refine ⟨h.isSome_box? start last, ?_⟩
  cases hbox : d.act? (.box start last) with
  | none => exact act_of_none hbox
  | some e =>
    have hline := h.sameLine_box start last
    rw [act_of_some hbox] at hline
    exact ⟨act_of_some hbox, hline, h.box?_spec hbox⟩

end Document
end QueryLine
