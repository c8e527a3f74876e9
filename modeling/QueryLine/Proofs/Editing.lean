import QueryLine.Proofs.Locating
import QueryLine.Proofs.Subtrees

/-!
Edits in place. Typing and removing a character give one leaf other text and leave the tree as it
is; so the blocks around that leaf become longer or shorter, and what is behind it moves.
-/

namespace QueryLine

open Leaf (spell modifyAt)

namespace Node

mutual
/-- The tree of a node, without what is written in it and where. -/
def shape : Node → Node
  | leaf .. => leaf 0 []
  | block f cs => block { f with start := 0 } (shapes cs)

def shapes : List Node → List Node
  | [] => []
  | c :: cs => c.shape :: shapes cs
end

theorem shapes_eq_map (cs : List Node) : shapes cs = cs.map shape := by
  induction cs with
  | nil => rfl
  | cons c cs ih => rw [shapes, ih, List.map_cons]

mutual
theorem shape_reflow (start : Nat) : (n : Node) → (n.reflow start).shape = n.shape
  | leaf .. => rfl
  | block f cs => by rw [reflow, shape, shape, shapes_reflowFrom 0 cs]

theorem shapes_reflowFrom (start : Nat) : (cs : List Node) →
    shapes (reflowFrom start cs) = shapes cs
  | [] => rfl
  | c :: cs => by rw [reflowFrom, shapes, shapes, shape_reflow start c, shapes_reflowFrom _ cs]
end

theorem shapes_modify {g : Node → Node} (hg : ∀ c, (g c).shape = c.shape) (i : Nat)
    (cs : List Node) : shapes (cs.modify i g) = shapes cs := by
  induction cs generalizing i with
  | nil => rw [List.modify_nil]
  | cons c cs ih =>
    cases i with
    | zero => rw [List.modify_zero_cons, shapes, shapes, hg]
    | succ i => rw [List.modify_succ_cons, shapes, shapes, ih]

theorem shapes_modifyLeaf (g : Text → Text) (path : Path) (cs : List Node) :
    shapes (modifyLeaf g path cs) = shapes cs := by
  induction path generalizing cs with
  | nil => rfl
  | cons i path ih =>
    refine shapes_modify (fun c => ?_) i cs
    cases c with
    | leaf s t =>
      dsimp only
      split
      · rfl
      · rfl
    | block f inner => rw [shape, shape, ih]

theorem at?_shapes (q : Path) (cs : List Node) : at? q (shapes cs) = (at? q cs).map shape := by
  have hget : ∀ (i : Nat) (cs : List Node), (shapes cs)[i]? = cs[i]?.map shape := by
    intro i cs
    rw [shapes_eq_map, List.getElem?_map]
  fun_induction at? q cs with
  | case1 cs => rfl
  | case2 i cs => exact hget i cs
  | case3 i j q cs f inner hat ih =>
    have hblock := hget i cs
    rw [hat, Option.map_some, shape] at hblock
    rw [at?_cons_of_block hblock, ih]
  | case4 i j q cs hother =>
    rw [at?, hget]
    cases hat : cs[i]? with
    | none => rfl
    | some c =>
      cases c with
      | leaf s t => rfl
      | block f inner => exact absurd hat (hother f inner)

end Node

/-- New text for a leaf makes a difference to leaves chosen by their paths if it is among them. -/
theorem Leaf.length_chosen {ls b a : List Leaf} {path : Path} {t : Text}
    (hleaves : ls = b ++ ⟨path, t⟩ :: a) (hnodup : (ls.map Leaf.path).Nodup) (g : Text → Text)
    (chosen : Path → Prop) [DecidablePred chosen] :
    ((spell ((ls.map (modifyAt g path)).filter fun l => chosen l.path)).length : Int) =
      (spell (ls.filter fun l => chosen l.path)).length +
        if chosen path then ((g t).length : Int) - t.length else 0 := by
  subst hleaves
  rw [Leaf.map_modifyAt_split hnodup, List.filter_append, List.filter_append]
  by_cases hchosen : chosen path
  · have hkeep : ∀ u, (⟨path, u⟩ :: a).filter (fun l => decide (chosen l.path)) =
        ⟨path, u⟩ :: a.filter fun l => decide (chosen l.path) :=
      fun u => List.filter_cons_of_pos (decide_eq_true hchosen)
    rw [hkeep, hkeep, if_pos hchosen]
    simp only [Leaf.spell_append, Leaf.spell_cons, List.length_append]
    omega
  · have hskip : ∀ u, (⟨path, u⟩ :: a).filter (fun l => decide (chosen l.path)) =
        a.filter fun l => decide (chosen l.path) :=
      fun u => List.filter_cons_of_neg (mt of_decide_eq_true hchosen)
    rw [hskip, hskip, if_neg hchosen, Int.add_zero]

/-- The blocks `c` are the blocks `b`, with the text `u` instead of `t` in the leaf at a path. -/
structure Block.Rewritten (b c : Block) (path : Path) (t u : Text) : Prop where
  frame : c.frame = b.frame
  shapes : Node.shapes c.children = Node.shapes b.children
  before : b.leaf? path = some t
  after : c.leaf? path = some u
  others : ∀ q, q ≠ path → c.leaf? q = b.leaf? q

/-- The whole, the nodes around a path and a leaf there are `n` characters longer in `c` than they
are in `b`, and what comes behind the path in the text starts `n` characters later. -/
structure Block.Moved (b c : Block) (path : Path) (n : Int) : Prop where
  total : (c.length : Int) = b.length + n
  lengths : ∀ q, (c.node? q).map (fun m => (m.length : Int)) =
    (b.node? q).map fun m => m.length + if q <+: path then n else 0
  starts : ∀ q, (c.offset? q).map (fun s : Nat => (s : Int)) =
    (b.offset? q).map fun s : Nat => s + if path.Before q then n else 0

theorem Block.Moved.refl (b : Block) (path : Path) : b.Moved b path 0 where
  total := (Int.add_zero _).symm
  lengths q := by simp only [ite_self, Int.add_zero]
  starts q := by simp only [ite_self, Int.add_zero]

theorem Leaf.path_modifyAt (g : Text → Text) (path : Path) (l : Leaf) :
    (l.modifyAt g path).path = l.path := by
  unfold modifyAt
  split
  · rfl
  · rfl

namespace Document
namespace Sound

variable {d : Document} {path q : Path} {t : Text}

theorem rewritten_modifyLeaf (hleaf : d.root.leaf? path = some t) (g : Text → Text) :
    d.root.Rewritten (d.modifyLeaf g path).root path t (g t) where
  frame := rfl
  shapes := (Node.shapes_reflowFrom 0 _).trans (Node.shapes_modifyLeaf g path _)
  before := hleaf
  after := by
    obtain ⟨b, a, hleaves⟩ := List.append_of_mem (Block.leaf?_eq_some_iff.1 hleaf)
    exact Block.leaf?_of_leaves (leaves_modifyLeaf g hleaves)
  others q hq := by
    apply Option.ext
    intro u
    -- paths stay, so a leaf at another path came from a leaf there, which was left alone
    rw [Block.leaf?_eq_some_iff, Block.leaf?_eq_some_iff, map_leaves_modifyLeaf, List.mem_map]
    constructor
    · rintro ⟨l, hl, hmodified⟩
      have hpath : l.path ≠ path := by
        rw [← Leaf.path_modifyAt g path l, hmodified]
        exact hq
      rwa [← hmodified, Leaf.modifyAt_of_ne hpath]
    · exact fun hmem => ⟨_, hmem, Leaf.modifyAt_of_ne hq⟩

theorem node?_modifyLeaf (d : Document) (g : Text → Text) (path q : Path) :
    (d.root.node? q = none ∧ (d.modifyLeaf g path).root.node? q = none) ∨
      ∃ n m, d.root.node? q = some n ∧ (d.modifyLeaf g path).root.node? q = some m := by
  have hshapes : Node.shapes (d.modifyLeaf g path).root.children = Node.shapes d.root.children :=
    (Node.shapes_reflowFrom 0 _).trans (Node.shapes_modifyLeaf g path _)
  have hsame : ((d.modifyLeaf g path).root.node? q).map Node.shape =
      (d.root.node? q).map Node.shape := by
    unfold Block.node?
    rw [← Node.at?_shapes, ← Node.at?_shapes, hshapes]
  cases hn : d.root.node? q with
  | none =>
    rw [hn, Option.map_none, Option.map_eq_none_iff] at hsame
    exact .inl ⟨rfl, hsame⟩
  | some n =>
    rw [hn, Option.map_some, Option.map_eq_some_iff] at hsame
    obtain ⟨m, hm, -⟩ := hsame
    exact .inr ⟨n, m, rfl, hm⟩

theorem moved_modifyLeaf (h : d.Sound) (hleaf : d.root.leaf? path = some t) (g : Text → Text) :
    d.root.Moved (d.modifyLeaf g path).root path ((g t).length - t.length) := by
  obtain ⟨b, a, hleaves⟩ := List.append_of_mem (Block.leaf?_eq_some_iff.1 hleaf)
  have hafter : (d.modifyLeaf g path).root.Sound := h.root.modifyLeaf g path
  -- lengths and starts are those of leaves chosen by their paths
  have hchosen := Leaf.length_chosen hleaves d.root.nodup_leaves g
  rw [← map_leaves_modifyLeaf] at hchosen
  refine ⟨?_, fun q => ?_, fun q => ?_⟩
  · have hkeep : ∀ ls : List Leaf, ls.filter (fun _ => decide True) = ls :=
      fun ls => List.filter_eq_self.2 fun _ _ => rfl
    have hall := hchosen fun _ => True
    rwa [hkeep, hkeep, if_pos trivial, Block.spell_leaves, Block.spell_leaves] at hall
  · rcases node?_modifyLeaf d g path q with ⟨hnone, hgone⟩ | ⟨n, m, hn, hm⟩
    · rw [hnone, hgone]
      rfl
    · rw [hn, hm, Option.map_some, Option.map_some, Node.length, Node.length,
        hafter.text_eq hm, h.root.text_eq hn, hchosen]
  · by_cases hq : q = []
    · subst hq
      change some ((0 : Nat) : Int) = some (((0 : Nat) : Int) + if path.Before [] then _ else 0)
      rw [if_neg (Path.not_before_nil path), Int.add_zero]
    · rcases node?_modifyLeaf d g path q with ⟨hnone, hgone⟩ | ⟨n, m, hn, hm⟩
      · rw [Block.offset?_eq_none hq hnone, Block.offset?_eq_none hq hgone]
        rfl
      · rw [hafter.offset?_eq hm, h.root.offset?_eq hn, Option.map_some, Option.map_some,
          hchosen fun p => p.Before q]

theorem edits_insert (h : d.Sound) (new : Text) :
    ∃ u, d.root.Rewritten (d.insert new).root d.caret.focus u
        (u.take d.caretPlace.offset ++ new ++ u.drop d.caretPlace.offset) ∧
      d.root.Moved (d.insert new).root d.caret.focus new.length := by
  obtain ⟨b, u, a, hin⟩ := h.caret
  have hleaf := Block.leaf?_of_leaves hin.leaves
  refine ⟨u, ?_⟩
  by_cases hnew : new = []
  · subst hnew
    rw [List.append_nil, List.take_append_drop]
    exact ⟨⟨rfl, rfl, hleaf, hleaf, fun q _ => rfl⟩, .refl d.root d.caret.focus⟩
  · have htyped : Text.splice u d.caretPlace.offset d.caretPlace.offset new =
        u.take d.caretPlace.offset ++ new ++ u.drop d.caretPlace.offset := by
      rw [Text.splice, Nat.max_self]
    have hlength : (new.length : Int) =
        (Text.splice u d.caretPlace.offset d.caretPlace.offset new).length - u.length := by
      have hle := hin.offset_le h.root
      rw [htyped, List.length_append, List.length_append, List.length_take, List.length_drop]
      omega
    rw [hin.insert_eq hnew, ← htyped, hlength]
    exact ⟨rewritten_modifyLeaf hleaf _, h.moved_modifyLeaf hleaf _⟩

theorem edits_erase (h : d.Sound) {n : Nat} {p : Place} {b a : List Leaf}
    (hchar : CharAt d.root.leaves n p b t a) :
    d.root.Holds n p ∧
      d.root.Rewritten (d.modifyLeaf (·.eraseIdx p.offset) p.path).root p.path t
        (t.eraseIdx p.offset) ∧
      d.root.Moved (d.modifyLeaf (·.eraseIdx p.offset) p.path).root p.path (-1) := by
  have hleaf := Block.leaf?_of_leaves hchar.leaves
  have hlength : (-1 : Int) = (t.eraseIdx p.offset).length - t.length := by
    have hinside := hchar.inside
    rw [List.length_eraseIdx_of_lt hinside]
    omega
  rw [hlength]
  exact ⟨h.root.holds_of_charAt hchar, rewritten_modifyLeaf hleaf _, h.moved_modifyLeaf hleaf _⟩

theorem edits_backspace? (h : d.Sound) (hpos : 0 < d.caret.position) :
    ∃ e p u, d.backspace? = some e ∧ d.root.Holds (d.caret.position - 1) p ∧
      d.root.Rewritten e.root p.path u (u.eraseIdx p.offset) ∧ d.root.Moved e.root p.path (-1) := by
  obtain ⟨b, u, a, hchar⟩ := h.charAt_placeBefore hpos
  exact ⟨_, _, u, h.backspace?_eq hpos, h.edits_erase hchar⟩

theorem edits_delete? (h : d.Sound) (hpos : d.caret.position < d.length) :
    ∃ e p u, d.delete? = some e ∧ d.root.Holds d.caret.position p ∧
      d.root.Rewritten e.root p.path u (u.eraseIdx p.offset) ∧ d.root.Moved e.root p.path (-1) := by
  obtain ⟨b, u, a, hchar⟩ := h.charAt_placeAfter hpos
  exact ⟨_, _, u, h.delete?_eq hpos, h.edits_erase hchar⟩

end Sound

/-- After any run an edit in place rewrites a single leaf: typing that of the caret, removing a
character the one that holds it. The tree keeps its shape, the blocks around the leaf grow or shrink
by what was typed or removed, what comes behind it moves by as much, and all else stays where it
was. An edit that is refused changes nothing. -/
theorem run_edits_one_leaf (t : Text) (actions : List Action) :
    let d := (ofText t).run actions
    (∀ new, ∃ u,
      d.root.Rewritten (d.insert new).root d.caret.focus u
        (u.take d.caretPlace.offset ++ new ++ u.drop d.caretPlace.offset) ∧
      d.root.Moved (d.insert new).root d.caret.focus new.length) ∧
    (match d.backspace? with
      | none => d.caret.position = 0 ∧ d.act .backspace = d
      | some e => ∃ p u, d.root.Holds (d.caret.position - 1) p ∧
        d.root.Rewritten e.root p.path u (u.eraseIdx p.offset) ∧
        d.root.Moved e.root p.path (-1)) ∧
    match d.delete? with
      | none => d.caret.position = d.length ∧ d.act .delete = d
      | some e => ∃ p u, d.root.Holds d.caret.position p ∧
        d.root.Rewritten e.root p.path u (u.eraseIdx p.offset) ∧
        d.root.Moved e.root p.path (-1) := by
  intro d
  have h : d.Sound := sound_run t actions
  refine ⟨h.edits_insert, ?_, ?_⟩
  · by_cases hpos : 0 < d.caret.position
    · obtain ⟨e, p, u, he, hedits⟩ := h.edits_backspace? hpos
      rw [he]
      exact ⟨p, u, hedits⟩
    · have hzero : d.caret.position = 0 := by omega
      have hnone : d.act? .backspace = none := if_pos hzero
      rw [show d.backspace? = none from hnone]
      exact ⟨hzero, act_of_none hnone⟩
  · by_cases hpos : d.caret.position < d.length
    · obtain ⟨e, p, u, he, hedits⟩ := h.edits_delete? hpos
      rw [he]
      exact ⟨p, u, hedits⟩
    · have hle := h.position_le
      have hnone : d.act? .delete = none := if_pos (Nat.le_of_not_lt hpos)
      rw [show d.delete? = none from hnone]
      exact ⟨by omega, act_of_none hnone⟩

end Document
end QueryLine
