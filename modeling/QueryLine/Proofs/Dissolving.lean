import QueryLine.Proofs.Looks

/-!
Dissolving a block. The blocks whose paths go on from the path of this one are no longer shown, and
the others look as before, whatever becomes of their numbers.
-/

namespace QueryLine

/-- The blocks that are neither at a path nor inside what is there. -/
def BlockView.outside (path : Path) (vs : List BlockView) : List BlockView :=
  vs.filter fun v => !path.isPrefixOf v.path

namespace Node

open BlockView (outside)

variable {start depth i j : Nat} {q path : Path} {cs ds inner : List Node} {c : Node}

theorem isSome_unbox {around : Option Rgb} (h : FramedIn around cs) :
    (unbox path cs).isSome ↔ ∃ f inner, at? path cs = some (block f inner) := by
  fun_induction unbox path cs generalizing around with
  | case1 cs => simp [at?]
  | case2 i cs f inner hat hclosable =>
    exact iff_of_true rfl ⟨f, inner, hat⟩
  | case3 i cs f inner hat hopen =>
    obtain ⟨hf, -⟩ := framed_of_getElem? h hat
    exact absurd hf.closable hopen
  | case4 i cs hother =>
    refine iff_of_false Bool.false_ne_true ?_
    rintro ⟨f, inner, hat⟩
    exact hother f inner hat
  | case5 i j path cs f inner hat ih =>
    obtain ⟨-, -, hin⟩ := framed_of_getElem? h hat
    rw [Option.isSome_map, ih hin, at?_cons_of_block hat]
  | case6 i j path cs hother =>
    refine iff_of_false Bool.false_ne_true ?_
    rintro ⟨f, inner, hat⟩
    rw [at?] at hat
    split at hat
    · rename_i g inner' hblock
      exact hother g inner' hblock
    · cases hat

theorem outside_blocksIn (h : ∀ k < cs.length, i + k ≠ j) :
    outside (q ++ j :: path) (blocksIn start depth q i cs) = blocksIn start depth q i cs := by
  apply List.filter_eq_self.2
  intro v hv
  obtain ⟨k, rest, hpath, hk, -⟩ := exists_of_mem_blocksIn start depth q i cs hv
  rw [Bool.not_eq_true', ← Bool.not_eq_true, List.isPrefixOf_iff_prefix, hpath,
    List.prefix_append_right_inj, List.cons_prefix_cons]
  exact fun hfront => h k hk hfront.1.symm

theorem outside_blocks : outside q (c.blocks start depth q) = [] := by
  apply List.filter_eq_nil_iff.2
  intro v hv
  obtain ⟨rest, hpath, -⟩ := exists_of_mem_blocks start depth q c hv
  have hfront : q.isPrefixOf v.path = true := by
    rw [List.isPrefixOf_iff_prefix, hpath]
    exact List.prefix_append q rest
  simp [hfront]

theorem outside_block {f : Frame} :
    outside (q ++ j :: path) ((block f inner).blocks start depth q) =
      ⟨start + f.start, start + f.start + (textOf inner).length - 1, depth + 1, f.color, f.closable,
        q⟩ :: outside (q ++ j :: path) (blocksIn (start + f.start) (depth + 1) q 0 inner) := by
  apply List.filter_cons_of_pos
  rw [Bool.not_eq_true', ← Bool.not_eq_true, List.isPrefixOf_iff_prefix]
  intro hfront
  have hlength := hfront.length_le
  rw [List.length_append, List.length_cons] at hlength
  dsimp only at hlength
  omega

/-- Of the blocks of some children only those of one can be at a path. -/
theorem outside_middle (pre post : List Node) :
    outside (q ++ pre.length :: path) (blocksIn start depth q 0 (pre ++ c :: post)) =
      blocksIn start depth q 0 pre ++
        (outside (q ++ pre.length :: path) (c.blocks start depth (q ++ [pre.length])) ++
          blocksIn start depth q (pre.length + 1) post) := by
  have hpre : outside (q ++ pre.length :: path) (blocksIn start depth q 0 pre) =
      blocksIn start depth q 0 pre := outside_blocksIn fun k hk => by omega
  have hpost : outside (q ++ pre.length :: path) (blocksIn start depth q (pre.length + 1) post) =
      blocksIn start depth q (pre.length + 1) post := outside_blocksIn fun k _ => by omega
  rw [blocksIn_middle]
  unfold outside at *
  rw [List.filter_append, List.filter_append, hpre, hpost]

theorem set_middle (pre post : List Node) (c d : Node) :
    (pre ++ c :: post).set pre.length d = pre ++ d :: post := by
  rw [List.set_append_right _ _ (Nat.le_refl _), Nat.sub_self, List.set_cons_zero]

/-- Dissolving takes away the looks of a block and of those inside it. -/
theorem looksIn_unbox (start depth : Nat) (q : Path) {p : Nat} (hplaced : PlacedFrom p cs)
    (h : unbox path cs = some ds) :
    looksIn (start + p) depth ds =
      (outside (q ++ path) (blocksIn start depth q 0 cs)).map BlockView.look := by
  -- the block at the path becomes a leaf here, or it is inside of a child
  fun_induction unbox path cs generalizing ds start depth q p with
  | case2 i cs f inner hat hclosable =>
    obtain rfl := Option.some.inj h
    obtain ⟨pre, post, rfl, rfl⟩ := exists_middle hat
    obtain ⟨hpre, -, hpost⟩ := placedFrom_append.1 hplaced
    rw [set_middle, looksIn_mergeLeaves, looksIn_middle, outside_middle, outside_blocks,
      List.map_append, List.nil_append, look_blocksIn _ _ _ _ pre hpre,
      look_blocksIn _ _ _ _ post hpost]
    rw [← Nat.add_assoc, ← Nat.add_assoc]
    rfl
  | case5 i j path cs f inner hat ih =>
    obtain ⟨inner', hinner, rfl⟩ := Option.map_eq_some_iff.1 h
    obtain ⟨pre, post, rfl, rfl⟩ := exists_middle hat
    obtain ⟨hpre, hc, hpost⟩ := placedFrom_append.1 hplaced
    have htext : textOf inner' = textOf inner := textOf_unbox _ hinner
    have hinside := ih (start + f.start) (depth + 1) (q ++ [pre.length]) hc.2 hinner
    have hstart : start + f.start = start + p + (textOf pre).length := by
      rw [hc.1, Nat.add_assoc]
    have hafter : start + (p + (textOf pre).length + (block f inner).length) =
        start + p + (textOf pre).length + (block f inner').length := by
      rw [length, length, text, text, htext]
      omega
    rw [set_middle, looksIn_middle, outside_middle, List.append_cons q, outside_block,
      List.map_append, List.map_append, List.map_cons, ← hinside, look_blocksIn _ _ _ _ pre hpre,
      look_blocksIn _ _ _ _ post hpost, hafter, looks, htext, hstart]
    rfl
  | _ => cases h

end Node

namespace Document

variable {d e : Document}

theorem Sound.isSome_unbox? (h : d.Sound) (path : Path) :
    (d.act? (.unbox path)).isSome ↔ ∃ f cs, d.root.node? path = some (.block f cs) := by
  change (d.unbox? path).isSome ↔ _
  rw [Document.unbox?, Option.isSome_map, Block.unbox?, Option.isSome_map,
    Node.isSome_unbox h.root.framed]
  rfl

/-- Line and other blocks stay, and it is told that a block was closed. -/
theorem Sound.unbox?_spec (h : d.Sound) {path : Path} (he : d.act? (.unbox path) = some e) :
    e.text = d.text ∧ e.caret.position = d.caret.position ∧
      e.events = d.events ++ [.blockClosed] ∧
      e.blocks.map BlockView.look = (BlockView.outside path d.blocks).map BlockView.look := by
  have hsound := h.act? he
  have htext : e.text = d.text := text_unbox? he
  obtain ⟨root, hroot, rfl⟩ := Option.map_eq_some_iff.1 he
  obtain ⟨children, hchildren, rfl⟩ := Option.map_eq_some_iff.1 hroot
  refine ⟨htext, (h.sameLine_withRoot htext).position, rfl, ?_⟩
  have hlooks := Node.looksIn_unbox 0 0 [] h.root.placed hchildren
  rw [hsound.look_blocks]
  exact (Node.looksIn_reflowFrom 0 0 0 children).trans hlooks

theorem Sound.exists_focus (h : d.Sound) :
    ∃ s t, d.root.node? d.caret.focus = some (.leaf s t) := by
  obtain ⟨b, t, a, hin⟩ := h.caret
  obtain ⟨s, hat⟩ := Node.at?_of_leaves hin.leaves
  exact ⟨s, t, hat⟩

theorem Sound.unboxAtCaret?_cases (h : d.Sound) :
    (d.caret.focus.length < 2 ∧ d.act? .unboxAtCaret = none) ∨
      (2 ≤ d.caret.focus.length ∧ (d.act? .unboxAtCaret).isSome ∧
        ∃ v, BlockView.Innermost d.blocks d.caret.focus (some v) ∧
          d.act? .unboxAtCaret = d.act? (.unbox v.path)) := by
  obtain ⟨s, t, hfocus⟩ := h.exists_focus
  have hne : d.caret.focus ≠ [] := by
    intro hnil
    rw [hnil] at hfocus
    cases hfocus
  obtain ⟨path, j, hpath⟩ := (List.eq_nil_or_concat d.caret.focus).resolve_left hne
  rw [List.concat_eq_append] at hpath
  have hdrop : d.act? .unboxAtCaret = d.act? (.unbox path) := by
    change d.unbox? d.caret.focus.dropLast = d.unbox? path
    rw [hpath, List.dropLast_concat]
  -- a leaf of the whole has a path of one step, and no block to dissolve
  rw [hpath] at hfocus ⊢
  cases path with
  | nil => exact .inl ⟨Nat.lt_succ_self 1, hdrop⟩
  | cons i path =>
    have hdeeper := List.cons_ne_nil i path
    obtain ⟨f, cs, hblock, -⟩ := Node.exists_around hdeeper hfocus none
    obtain ⟨v, hinnermost, hvpath, -⟩ := Block.innermost_of_leaf hdeeper hfocus
    refine .inr ⟨?_, ?_, v, hinnermost, by rw [hdrop, hvpath]⟩
    · rw [List.length_append, List.length_cons, List.length_singleton]
      omega
    · rw [hdrop, h.isSome_unbox?]
      exact ⟨f, cs, hblock⟩

/-- After any run a path can be dissolved where a nested block is. Then that block and those inside
it are no longer shown, and line and other blocks stay as they are; else nothing changes at all. At
the caret it is the innermost block around the leaf that is dissolved, if there is one. -/
theorem run_dissolves (t : Text) (actions : List Action) :
    let d := (ofText t).run actions
    (∀ path : Path,
      ((d.act? (.unbox path)).isSome ↔ ∃ f cs, d.root.node? path = some (.block f cs)) ∧
      match d.act? (.unbox path) with
      | none => d.act (.unbox path) = d
      | some e =>
        d.act (.unbox path) = e ∧ e.text = d.text ∧ e.caret.position = d.caret.position ∧
          e.events = d.events ++ [.blockClosed] ∧
          e.blocks.map BlockView.look = (BlockView.outside path d.blocks).map BlockView.look) ∧
    match d.act? .unboxAtCaret with
    | none => d.caret.focus.length < 2 ∧ d.act .unboxAtCaret = d
    | some e =>
      2 ≤ d.caret.focus.length ∧ d.act .unboxAtCaret = e ∧
        ∃ v, BlockView.Innermost d.blocks d.caret.focus (some v) ∧
          d.act? (.unbox v.path) = some e := by
  intro d
  have h : d.Sound := sound_run t actions
  refine ⟨fun path => ⟨h.isSome_unbox? path, ?_⟩, ?_⟩
  · cases hunbox : d.act? (.unbox path) with
    | none => exact act_of_none hunbox
    | some e => exact ⟨act_of_some hunbox, h.unbox?_spec hunbox⟩
  · rcases h.unboxAtCaret?_cases with ⟨hshort, hnone⟩ | ⟨hlong, hsome, v, hinnermost, heq⟩
    · rw [hnone]
      exact ⟨hshort, act_of_none hnone⟩
    · obtain ⟨e, he⟩ := Option.isSome_iff_exists.1 hsome
      rw [he]
      exact ⟨hlong, act_of_some he, v, hinnermost, heq.symm.trans he⟩

end Document
end QueryLine
