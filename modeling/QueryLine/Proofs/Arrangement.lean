import Mathlib.Data.List.Pairwise
import QueryLine.Proofs.Boxes
import QueryLine.Proofs.Changes
import QueryLine.Proofs.NormalForm
import QueryLine.Proofs.Reachable

/-!
How blocks lie in the text, whatever an analyzer answers and whatever is boxed or dissolved by hand:
one inside the other or apart, the outer ones first, and each as deep as there are blocks around it.
-/

namespace QueryLine

theorem Span.Within.length_le {s outer : Span} (h : s.Within outer) : s.length ≤ outer.length := by
  obtain ⟨hstart, hstop⟩ := h
  simp only [stop] at hstop
  omega

namespace Node

theorem Divided.length_lt {cs : List Node} {c : Node} (h : Divided cs) (hsolid : SolidIn cs)
    (hc : c ∈ cs) (hblock : c.isLeaf = false) : c.length < (textOf cs).length := by
  obtain ⟨front, rest, rfl⟩ := List.append_of_mem hc
  have hpos : ∀ d ∈ front ++ rest, 0 < d.length := by
    intro d hd
    apply Solid.length_pos
    apply solidIn_iff.1 hsolid
    rcases List.mem_append.1 hd with hd | hd
    · exact List.mem_append_left _ hd
    · exact List.mem_append_right _ (List.mem_cons_of_mem c hd)
  have hlength : (textOf (front ++ c :: rest)).length =
      (textOf front).length + (c.length + (textOf rest).length) := by
    rw [textOf_append, List.length_append]
    exact congrArg _ List.length_append
  rw [hlength]
  -- a block alone is not divided, and any other node beside it is not empty
  match front, rest with
  | [], [] =>
    have hleaf : c.isLeaf = true := h
    rw [hblock] at hleaf
    cases hleaf
  | d :: front, rest =>
    have hd := hpos d List.mem_cons_self
    have hfront : (textOf (d :: front)).length = d.length + (textOf front).length :=
      List.length_append
    omega
  | [], d :: rest =>
    have hd := hpos d List.mem_cons_self
    have hrest : (textOf (d :: rest)).length = d.length + (textOf rest).length :=
      List.length_append
    omega

theorem isLeaf_of_behind {behindLeaf : Bool} {cs : List Node} {i : Nat} {c d : Node}
    (h : SpacedIn behindLeaf cs) (hat : cs[i]? = some c) (hnext : cs[i + 1]? = some d)
    (hleaf : c.isLeaf = true) : d.isLeaf = false := by
  induction cs generalizing behindLeaf i with
  | nil => cases hat
  | cons b cs ih =>
    cases i with
    | zero =>
      obtain rfl := Option.some.inj hat
      match cs with
      | [] => cases hnext
      | e :: cs =>
        obtain rfl := Option.some.inj hnext
        exact h.2.2.1 hleaf
    | succ i => exact ih h.2.2 hat hnext

theorem exists_of_mem_extentsIn {start depth : Nat} {cs : List Node} {x : Extent}
    (hx : x ∈ extentsIn start depth cs) :
    ∃ c ∈ cs, ∃ start', x ∈ c.extents start' depth := by
  induction cs generalizing start with
  | nil => cases hx
  | cons c cs ih =>
    rcases List.mem_append.1 hx with hx | hx
    · exact ⟨c, List.mem_cons_self, start, hx⟩
    · obtain ⟨d, hd, start', hx'⟩ := ih hx
      exact ⟨d, List.mem_cons_of_mem c hd, start', hx'⟩

theorem isLeaf_of_mem_extents {start depth : Nat} {n : Node} {x : Extent}
    (hx : x ∈ n.extents start depth) : n.isLeaf = false := by
  cases n with
  | leaf s t => cases hx
  | block f cs => rfl

theorem Divided.extent_length_lt {start depth : Nat} {cs : List Node} {x : Extent}
    (h : Divided cs) (hsolid : SolidIn cs) (hx : x ∈ extentsIn start depth cs) :
    x.span.length < (textOf cs).length := by
  obtain ⟨c, hc, start', hx'⟩ := exists_of_mem_extentsIn hx
  have hle : x.span.length ≤ c.length := (extents_within start' depth c x hx').length_le
  have hlt : c.length < (textOf cs).length := h.length_lt hsolid hc (isLeaf_of_mem_extents hx')
  omega

mutual
theorem extents_length_pos (start depth : Nat) : (n : Node) → n.Solid →
    ∀ x ∈ n.extents start depth, 0 < x.span.length
  | leaf .., _, _, hx => nomatch hx
  | block _ cs, h, x, hx => by
    rcases List.mem_cons.1 hx with rfl | hx
    · exact Solid.length_pos h
    · exact extentsIn_length_pos start (depth + 1) cs h.2 x hx

theorem extentsIn_length_pos (start depth : Nat) : (cs : List Node) → SolidIn cs →
    ∀ x ∈ extentsIn start depth cs, 0 < x.span.length
  | [], _, _, hx => nomatch hx
  | c :: cs, h, x, hx => by
    rcases List.mem_append.1 hx with hx | hx
    · exact extents_length_pos start depth c h.1 x hx
    · exact extentsIn_length_pos _ depth cs h.2 x hx
end

end Node

namespace Extent

/-- `y` comes after `x`: behind it, or inside and shorter. -/
def Before (x y : Extent) : Prop :=
  x.span.stop ≤ y.span.start ∨ (y.span.Within x.span ∧ y.span.length < x.span.length)

variable {x y : Extent} {s : Span} {xs : List Extent}

theorem Before.not_within (h : x.Before y) (hpos : 0 < x.span.length) :
    ¬x.span.Within y.span := by
  intro hwithin
  rcases h with hbehind | ⟨-, hshorter⟩
  · have hstart := hwithin.1
    simp only [Span.stop] at hbehind
    omega
  · have hle := hwithin.length_le
    omega

theorem around_eq_nil (h : ∀ y ∈ xs, ¬s.Within y.span) : around s xs = [] := by
  apply List.filter_eq_nil_iff.2
  intro y hy hwithin
  exact h y hy (of_decide_eq_true hwithin)

end Extent

namespace Node

theorem extents_before {start depth : Nat} {c : Node} {cs : List Node} {x y : Extent}
    (hx : x ∈ c.extents start depth) (hy : y ∈ extentsIn (start + c.length) depth cs) :
    x.span.stop ≤ y.span.start :=
  Nat.le_trans (extents_within start depth c x hx).2
    (extentsIn_within (start + c.length) depth cs y hy).1

mutual
theorem pairwise_extents (start depth : Nat) : (n : Node) → n.Solid →
    (n.extents start depth).Pairwise Extent.Before
  | leaf .., _ => .nil
  | block _ cs, h => by
    apply List.Pairwise.cons
    · intro y hy
      exact .inr ⟨extentsIn_within start (depth + 1) cs y hy, h.1.extent_length_lt h.2 hy⟩
    · exact pairwise_extentsIn start (depth + 1) cs h.2

theorem pairwise_extentsIn (start depth : Nat) : (cs : List Node) → SolidIn cs →
    (extentsIn start depth cs).Pairwise Extent.Before
  | [], _ => .nil
  | c :: cs, h => by
    apply List.pairwise_append.2
    refine ⟨pairwise_extents start depth c h.1, pairwise_extentsIn _ depth cs h.2, ?_⟩
    intro x hx y hy
    exact .inl (extents_before hx hy)
end

mutual
theorem depth_of_mem_extents (start depth : Nat) : (n : Node) → n.Solid →
    ∀ x ∈ n.extents start depth,
      x.depth = depth + (Extent.around x.span (n.extents start depth)).length
  | leaf .., _, _, hx => nomatch hx
  | block f cs, h, x, hx => by
    have hordered := pairwise_extents start depth (block f cs) h
    change x.depth = depth + (Extent.around x.span
      (⟨⟨start, (textOf cs).length⟩, depth + 1⟩ :: extentsIn start (depth + 1) cs)).length
    rcases List.mem_cons.1 hx with rfl | hx
    · -- what is inside is shorter, so it is not around
      have hnone := Extent.around_eq_nil fun y hy =>
        ((List.pairwise_cons.1 hordered).1 y hy).not_within (Solid.length_pos h)
      rw [Extent.around_cons ⟨Nat.le_refl _, Nat.le_refl _⟩, hnone]
      rfl
    · have hinner := depth_of_mem_extentsIn start (depth + 1) cs h.2 x hx
      rw [Extent.around_cons (extentsIn_within start (depth + 1) cs x hx), List.length_cons, hinner]
      omega

/-- The blocks around a block, itself included, are as many as its depth says. -/
theorem depth_of_mem_extentsIn (start depth : Nat) : (cs : List Node) → SolidIn cs →
    ∀ x ∈ extentsIn start depth cs,
      x.depth = depth + (Extent.around x.span (extentsIn start depth cs)).length
  | [], _, _, hx => nomatch hx
  | c :: cs, h, x, hx => by
    have hpos := extentsIn_length_pos start depth (c :: cs) h x hx
    have hsplit : Extent.around x.span (extentsIn start depth (c :: cs)) =
        Extent.around x.span (c.extents start depth) ++
          Extent.around x.span (extentsIn (start + c.length) depth cs) :=
      Extent.around_append _ _ _
    rw [hsplit, List.length_append]
    rcases List.mem_append.1 hx with hx | hx
    · have hnone : Extent.around x.span (extentsIn (start + c.length) depth cs) = [] :=
        Extent.around_eq_nil fun y hy => Extent.Before.not_within (.inl (extents_before hx hy)) hpos
      rw [hnone, List.length_nil]
      exact depth_of_mem_extents start depth c h.1 x hx
    · have hnone : Extent.around x.span (c.extents start depth) = [] := by
        apply Extent.around_eq_nil
        intro y hy hwithin
        have hbehind := extents_before hy hx
        have hstop := hwithin.2
        simp only [Span.stop] at hbehind hstop
        omega
      rw [hnone, List.length_nil, Nat.zero_add]
      exact depth_of_mem_extentsIn _ depth cs h.2 x hx
end

end Node

namespace Block

/-- In all of the text no node is empty, no leaf has a leaf beside it, and each block is shorter
than the one around it. Only a text of no characters is an empty leaf. -/
structure Canonical (root : Block) : Prop where
  filled : ∀ b, root.Within b → ∀ c ∈ b.children, c.text = [] →
    b = root ∧ root.children = [c] ∧ c.isLeaf = true
  apart : ∀ b, root.Within b → ∀ i c d, b.children[i]? = some c → b.children[i + 1]? = some d →
    ¬(c.isLeaf = true ∧ d.isLeaf = true)
  shorter : ∀ b, root.Within b → ∀ f cs, .block f cs ∈ b.children →
    (Node.textOf cs).length < b.length

variable {root b : Block}

theorem Within.eq_of_leaf {s : Nat} {t : Text} (h : root.Within b)
    (hleaf : root.children = [.leaf s t]) : b = root := by
  induction h with
  | self => rfl
  | nested hc hchild ih =>
    rw [ih, hleaf] at hchild
    cases List.mem_singleton.1 hchild

/-- What is said of the children of all the text is said of those of every block. -/
theorem Within.filled (h : root.Within b) (hsolid : Node.SolidIn root.children)
    (hspaced : Node.SpacedIn false root.children) (hdivided : Node.Divided root.children) :
    Node.SolidIn b.children ∧ Node.SpacedIn false b.children ∧ Node.Divided b.children := by
  induction h with
  | self => exact ⟨hsolid, hspaced, hdivided⟩
  | nested hc hchild ih =>
    obtain ⟨hinner, hapart, -⟩ := ih
    have hblock := Node.solidIn_iff.1 hinner _ hchild
    exact ⟨hblock.2, Node.spaced_of_mem hapart hchild, hblock.1⟩

theorem Normal.canonical (h : root.Normal) : root.Canonical := by
  cases h with
  | empty hleaf =>
    refine ⟨fun b hb c hc hnil => ?_, fun b hb i c d hat hnext => ?_, fun b hb f cs hchild => ?_⟩
    · obtain rfl := hb.eq_of_leaf hleaf
      rw [hleaf] at hc
      obtain rfl := List.mem_singleton.1 hc
      exact ⟨rfl, hleaf, rfl⟩
    · rw [hb.eq_of_leaf hleaf, hleaf] at hnext
      cases hnext
    · rw [hb.eq_of_leaf hleaf, hleaf] at hchild
      cases List.mem_singleton.1 hchild
  | filled hsolid hspaced hdivided =>
    refine ⟨fun b hb c hc hnil => ?_, fun b hb i c d hat hnext => ?_, fun b hb f cs hchild => ?_⟩
    · obtain ⟨hinner, -, -⟩ := hb.filled hsolid hspaced hdivided
      exact absurd hnil ((Node.solidIn_iff.1 hinner c hc).text_ne_nil c)
    · obtain ⟨-, hapart, -⟩ := hb.filled hsolid hspaced hdivided
      rintro ⟨hleaf, hleaf'⟩
      rw [Node.isLeaf_of_behind hapart hat hnext hleaf] at hleaf'
      cases hleaf'
    · obtain ⟨hinner, -, hseveral⟩ := hb.filled hsolid hspaced hdivided
      exact hseveral.length_lt hinner hchild rfl

theorem Normal.regrouped (h : root.Normal) (hgrouped : root.Regrouped b) : b.Normal := by
  cases hgrouped with
  | same => exact h
  | flat => exact normal_ofText root.text
  | box hbox => exact h.box? hbox
  | unbox hunbox => exact h.unbox? hunbox

end Block

namespace BlockView

/-- All characters of `v` are in `u`. -/
def Covers (u v : BlockView) : Prop := u.first ≤ v.first ∧ v.last ≤ u.last

instance (u v : BlockView) : Decidable (u.Covers v) :=
  inferInstanceAs (Decidable (u.first ≤ v.first ∧ v.last ≤ u.last))

/-- One is in the other, or no character is in both. -/
def Uncrossed (u v : BlockView) : Prop :=
  u.Covers v ∨ v.Covers u ∨ u.last < v.first ∨ v.last < u.first

instance : Std.Symm Uncrossed where
  symm u v h := by
    rcases h with hcovers | hcovers | hbehind | hbehind
    · exact .inr (.inl hcovers)
    · exact .inl hcovers
    · exact .inr (.inr (.inr hbehind))
    · exact .inr (.inr (.inl hbehind))

/-- The blocks of a text of `n` characters, in the order of the text and the outer ones first. -/
structure Arranged (n : Nat) (vs : List BlockView) : Prop where
  inside : ∀ v ∈ vs, v.first ≤ v.last ∧ v.last < n
  distinct : vs.Pairwise fun u v => (u.first, u.last) ≠ (v.first, v.last)
  uncrossed : ∀ u ∈ vs, ∀ v ∈ vs, u.Uncrossed v
  ordered : vs.Pairwise fun u v => u.first < v.first ∨ (u.first = v.first ∧ v.last < u.last)
  depth : ∀ v ∈ vs, v.depth = (vs.filter (·.Covers v)).length

def extent (v : BlockView) : Extent := ⟨⟨v.first, v.last + 1 - v.first⟩, v.depth⟩

end BlockView

namespace Document

variable {d : Document}

/-- The blocks and their extents say the same, as no block is empty. -/
theorem Sound.extent_blocks (h : d.Sound) (hpos : ∀ x ∈ d.extents, 0 < x.span.length) :
    d.blocks.map BlockView.extent = d.extents := by
  let fromEnds : Nat × Nat × Nat → Extent := fun ends =>
    ⟨⟨ends.1, ends.2.1 + 1 - ends.1⟩, ends.2.2⟩
  calc d.blocks.map BlockView.extent
      = (d.blocks.map BlockView.ends).map fromEnds := by
        rw [List.map_map]
        rfl
    _ = (d.extents.map Extent.ends).map fromEnds := by rw [h.ends_blocks]
    _ = d.extents.map (fromEnds ∘ Extent.ends) := List.map_map
    _ = d.extents.map id := by
      apply List.map_congr_left
      intro x hx
      have hlength : x.span.stop - 1 + 1 - x.span.start = x.span.length := by
        have hx' := hpos x hx
        simp only [Span.stop]
        omega
      change (⟨⟨x.span.start, x.span.stop - 1 + 1 - x.span.start⟩, x.depth⟩ : Extent) = x
      rw [hlength]
    _ = d.extents := List.map_id _

section Solid

variable (h : d.Sound) (hsolid : Node.SolidIn d.root.children)

include hsolid in
theorem extents_length_pos : ∀ x ∈ d.extents, 0 < x.span.length :=
  Node.extentsIn_length_pos 0 0 d.root.children hsolid

include h hsolid

theorem Sound.extent_mem {v : BlockView} (hv : v ∈ d.blocks) : v.extent ∈ d.extents := by
  rw [← h.extent_blocks (extents_length_pos hsolid)]
  exact List.mem_map_of_mem hv

theorem Sound.blocks_inside {v : BlockView} (hv : v ∈ d.blocks) :
    v.first ≤ v.last ∧ v.last < d.length := by
  have hmem := h.extent_mem hsolid hv
  have hpos : 0 < v.last + 1 - v.first := extents_length_pos hsolid _ hmem
  have hstop : v.first + (v.last + 1 - v.first) ≤ 0 + d.length :=
    (Node.extentsIn_within 0 0 d.root.children _ hmem).2
  omega

theorem Sound.blocks_ordered : d.blocks.Pairwise fun u v =>
    u.last < v.first ∨ (u.Covers v ∧ v.last - v.first < u.last - u.first) := by
  have hpairwise : d.extents.Pairwise Extent.Before :=
    Node.pairwise_extentsIn 0 0 d.root.children hsolid
  rw [← h.extent_blocks (extents_length_pos hsolid), List.pairwise_map] at hpairwise
  apply hpairwise.imp_of_mem
  intro u v hu hv huv
  obtain ⟨hu, -⟩ := h.blocks_inside hsolid hu
  obtain ⟨hv, -⟩ := h.blocks_inside hsolid hv
  simp only [Extent.Before, Span.Within, Span.stop, BlockView.extent] at huv
  unfold BlockView.Covers
  omega

theorem Sound.depth_block {v : BlockView} (hv : v ∈ d.blocks) :
    v.depth = (d.blocks.filter (·.Covers v)).length := by
  have haround : Extent.around v.extent.span d.extents =
      (d.blocks.filter (·.Covers v)).map BlockView.extent := by
    unfold Extent.around
    rw [← h.extent_blocks (extents_length_pos hsolid), List.filter_map]
    apply congrArg
    apply List.filter_congr
    intro u hu
    obtain ⟨hu, -⟩ := h.blocks_inside hsolid hu
    obtain ⟨hv, -⟩ := h.blocks_inside hsolid hv
    apply decide_eq_decide.2
    simp only [Span.Within, Span.stop, BlockView.extent, BlockView.Covers]
    omega
  calc v.depth = 0 + (Extent.around v.extent.span d.extents).length :=
        Node.depth_of_mem_extentsIn 0 0 d.root.children hsolid _ (h.extent_mem hsolid hv)
    _ = (d.blocks.filter (·.Covers v)).length := by rw [haround, List.length_map, Nat.zero_add]

theorem Sound.arranged : BlockView.Arranged d.length d.blocks := by
  have hordered := h.blocks_ordered hsolid
  refine ⟨fun v => h.blocks_inside hsolid, ?_, ?_, ?_, fun v => h.depth_block hsolid⟩
  · apply hordered.imp_of_mem
    intro u v hu hv huv heq
    obtain ⟨hfirst, hlast⟩ := Prod.mk.inj heq
    have hle := (h.blocks_inside hsolid hu).1
    rcases huv with hbehind | ⟨-, hshorter⟩
    · omega
    · omega
  · apply List.Pairwise.forall_of_forall
    · intro v hv
      exact .inl ⟨Nat.le_refl _, Nat.le_refl _⟩
    · apply hordered.imp
      intro u v huv
      rcases huv with hbehind | ⟨hcovers, -⟩
      · exact .inr (.inr (.inl hbehind))
      · exact .inl hcovers
  · apply hordered.imp_of_mem
    intro u v hu hv huv
    have hle := (h.blocks_inside hsolid hu).1
    have hle' := (h.blocks_inside hsolid hv).1
    rcases huv with hbehind | ⟨⟨hfirst, hlast⟩, hshorter⟩
    · omega
    · omega

end Solid

/-- A text in normal form is arranged; an empty one has no blocks. -/
theorem Sound.arranged_of_normal (h : d.Sound) (hnormal : d.root.Normal) :
    BlockView.Arranged d.length d.blocks := by
  cases hnormal with
  | empty hleaf =>
    have hnone : d.blocks = [] := by
      unfold blocks Block.blocks
      rw [hleaf]
      rfl
    rw [hnone]
    exact ⟨nofun, .nil, nofun, .nil, nofun⟩
  | filled hsolid _ _ => exact h.arranged hsolid

theorem normal_boxAll (spans : List Span) (hnormal : d.root.Normal) :
    (d.boxAll spans).root.Normal := by
  induction spans generalizing d with
  | nil => exact hnormal
  | cons s spans ih => exact ih (hnormal.regrouped (regrouped_box s.start (s.stop - 1) d))

end Document

namespace Editor

variable {σ : Type} [Analyzer σ] {e f : Editor σ}

/-- Reading starts from plain text and only boxes, whatever it is told to box. -/
theorem normal_reparse (e : Editor σ) : e.reparse.document.root.Normal := by
  rw [document_reparse, Document.root_setCaret]
  exact Document.normal_boxAll e.spans (Block.normal_ofText e.document.text)

theorem Change.normal (h : e.Change f) (he : e.document.root.Normal) : f.document.root.Normal := by
  cases h with
  | read hd => exact normal_reparse _
  | regroup hd hgrouped => exact he.regrouped hgrouped
  | turn _ => exact he
  | tell _ _ _ _ => exact he

theorem Reachable.normal (h : e.Reachable) : e.document.root.Normal :=
  h.invariant (P := fun e => e.document.root.Normal) (fun _ _ _ => Block.normal_ofText [])
    (fun _ hchange he => hchange.normal he) (fun _ he => he)

/-- Whatever an analyzer answers: reading the text again keeps text and caret and leaves no event,
and after any operation nothing is empty or superfluous and the blocks are arranged in the text. -/
theorem reachable_canonical (h : e.Reachable) :
    (e.reparse.text = e.text ∧ e.reparse.caret = e.caret ∧ e.reparse.document.events = []) ∧
      e.document.root.Canonical ∧ BlockView.Arranged e.text.length e.document.blocks := by
  have hsettled := h.settled
  obtain ⟨-, hline⟩ := reparse_spec hsettled.sound
  exact ⟨⟨hline.text, hline.position, hline.events.trans hsettled.events⟩, h.normal.canonical,
    hsettled.sound.arranged_of_normal h.normal⟩

/-- Told to box spans that cross, come twice or lie outside of the text, then boxed by hand. -/
theorem canonical_crossing_spans :
    let part : Nat → Nat → Term := fun start length => .resourceType ⟨start, length⟩ []
    let parts := [part 0 4, part 2 4, part 1 2, part 1 2, part 5 9]
    let answer : Answer := ⟨⟨some (.conjunction ⟨0, 6⟩ parts), []⟩, []⟩
    let start : Editor Script := .new (.new [answer] [] []) (.new [] ⟨0, by decide⟩) true
    let e := (start.setText ['a', 'b', 'c', 'd', 'e', 'f']).perform (.box 5 5)
    (e.Reachable ∧ e.document.blocks.map BlockView.ends = [(0, 3, 1), (1, 2, 2), (5, 5, 1)]) ∧
      (e.reparse.text = e.text ∧ e.reparse.caret = e.caret ∧ e.reparse.document.events = []) ∧
      e.document.root.Canonical ∧ BlockView.Arranged e.text.length e.document.blocks := by
  intro part parts answer start e
  have hstart : start.Reachable := .new _ _ _
  have he : e.Reachable := (hstart.setText _).perform (.box 5 5) rfl
  have hblocks : e.document.blocks.map BlockView.ends = [(0, 3, 1), (1, 2, 2), (5, 5, 1)] := by
    decide +kernel
  exact ⟨⟨he, hblocks⟩, reachable_canonical he⟩

end Editor
end QueryLine
