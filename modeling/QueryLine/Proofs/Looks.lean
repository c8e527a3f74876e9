import QueryLine.Proofs.Changes
import QueryLine.Proofs.NormalForm

/-!
How blocks look from the whole text. Boxing and dissolving give children other numbers and so other
paths, but what is said of a block without its path is a matter of lengths, and stays where the
lengths do.
-/

namespace QueryLine

/-- A block as it is shown, wherever in the tree it is. -/
structure Look where
  first : Nat
  last : Nat
  depth : Nat
  color : Option Rgb
  deriving DecidableEq, Repr

namespace BlockView

def look (v : BlockView) : Look := ⟨v.first, v.last, v.depth, v.color⟩

/-- The innermost of the blocks that are around what is at a path, or none if none is. -/
def Innermost (vs : List BlockView) (path : Path) : Option BlockView → Prop
  | none => ∀ u ∈ vs, ¬u.path <+: path
  | some v => v ∈ vs ∧ v.path <+: path ∧ ∀ u ∈ vs, u.path <+: path → u.path <+: v.path

end BlockView

namespace Node

mutual
/-- The looks of the blocks of a node that is at `start` of the whole text, with `depth` blocks
around. -/
def looks (start depth : Nat) : Node → List Look
  | leaf .. => []
  | block f cs =>
    ⟨start, start + (textOf cs).length - 1, depth + 1, f.color⟩ :: looksIn start (depth + 1) cs

def looksIn (start depth : Nat) : List Node → List Look
  | [] => []
  | c :: cs => c.looks start depth ++ looksIn (start + c.length) depth cs
end

theorem looksIn_append (start depth : Nat) (cs ds : List Node) :
    looksIn start depth (cs ++ ds) =
      looksIn start depth cs ++ looksIn (start + (textOf cs).length) depth ds := by
  induction cs generalizing start with
  | nil => rfl
  | cons c cs ih =>
    have hlength : start + (textOf (c :: cs)).length = start + c.length + (textOf cs).length := by
      rw [textOf, List.length_append, length, Nat.add_assoc]
    rw [List.cons_append, looksIn, looksIn, ih, List.append_assoc, hlength]

theorem looksIn_middle (start depth : Nat) (pre post : List Node) (c : Node) :
    looksIn start depth (pre ++ c :: post) = looksIn start depth pre ++
      (c.looks (start + (textOf pre).length) depth ++
        looksIn (start + (textOf pre).length + c.length) depth post) := by
  rw [looksIn_append, looksIn]

mutual
/-- Blocks that are placed look as their lengths have it. -/
theorem look_blocks (start depth : Nat) (path : Path) {p : Nat} : (n : Node) → n.Placed p →
    (n.blocks start depth path).map BlockView.look = n.looks (start + p) depth
  | leaf .., _ => rfl
  | block f cs, h => by
    obtain ⟨rfl, hcs⟩ := h
    rw [blocks, looks, List.map_cons, look_blocksIn _ _ path 0 cs hcs]
    rfl

theorem look_blocksIn (start depth : Nat) (path : Path) {p : Nat} (i : Nat) : (cs : List Node) →
    PlacedFrom p cs →
      (blocksIn start depth path i cs).map BlockView.look = looksIn (start + p) depth cs
  | [], _ => rfl
  | c :: cs, h => by
    rw [blocksIn, looksIn, List.map_append, look_blocks start depth _ c h.1,
      look_blocksIn start depth path (i + 1) cs h.2, Nat.add_assoc]
end

mutual
theorem looks_reflow (start depth s : Nat) : (n : Node) →
    (n.reflow s).looks start depth = n.looks start depth
  | leaf .. => rfl
  | block _ cs => by
    rw [reflow, looks, looks, looksIn_reflowFrom _ _ 0 cs, textOf_reflowFrom]

@[simp] theorem looksIn_reflowFrom (start depth s : Nat) : (cs : List Node) →
    looksIn start depth (reflowFrom s cs) = looksIn start depth cs
  | [] => rfl
  | c :: cs => by
    rw [reflowFrom, looksIn, looksIn, looks_reflow start depth s c,
      looksIn_reflowFrom _ _ _ cs, length_reflow]
end

/-- Joining leaves shows on no block. -/
@[simp] theorem looksIn_mergeLeaves (start depth : Nat) (cs : List Node) :
    looksIn start depth (mergeLeaves cs) = looksIn start depth cs := by
  induction cs generalizing start with
  | nil => rfl
  | cons c cs ih =>
    rcases mergeLeaves_cons c cs with ⟨s, t, p, u, more, rfl, hrest, heq⟩ | ⟨heq, -⟩
    · have hlength : start + (t ++ u).length = start + t.length + u.length := by
        rw [List.length_append, Nat.add_assoc]
      have hmerged := ih (start + t.length)
      rw [hrest] at hmerged
      rw [heq]
      change looksIn (start + (t ++ u).length) depth more = looksIn (start + t.length) depth cs
      rw [← hmerged, hlength]
      rfl
    · rw [heq, looksIn, looksIn, ih]

/-! Blocks and their paths. -/

theorem blocksIn_append (start depth : Nat) (path : Path) (i : Nat) (cs ds : List Node) :
    blocksIn start depth path i (cs ++ ds) =
      blocksIn start depth path i cs ++ blocksIn start depth path (i + cs.length) ds := by
  induction cs generalizing i with
  | nil => rfl
  | cons c cs ih =>
    rw [List.cons_append, blocksIn, blocksIn, ih, List.append_assoc, List.length_cons,
      Nat.add_right_comm i 1, Nat.add_assoc i cs.length]

theorem blocksIn_middle (start depth : Nat) (path : Path) (pre post : List Node) (c : Node) :
    blocksIn start depth path 0 (pre ++ c :: post) = blocksIn start depth path 0 pre ++
      (c.blocks start depth (path ++ [pre.length]) ++
        blocksIn start depth path (pre.length + 1) post) := by
  rw [blocksIn_append, blocksIn, Nat.zero_add]

theorem exists_middle {cs : List Node} {i : Nat} {c : Node} (h : cs[i]? = some c) :
    ∃ pre post, cs = pre ++ c :: post ∧ pre.length = i := by
  obtain ⟨hlt, rfl⟩ := List.getElem?_eq_some_iff.1 h
  refine ⟨cs.take i, cs.drop (i + 1), ?_, List.length_take_of_le (Nat.le_of_lt hlt)⟩
  rw [← List.drop_eq_getElem_cons hlt, List.take_append_drop]

theorem at?_cons_of_block {cs inner : List Node} {i j : Nat} {path : Path} {f : Frame}
    (h : cs[i]? = some (block f inner)) : at? (i :: j :: path) cs = at? (j :: path) inner := by
  rw [at?, h]

theorem exists_shows {path : Path} {cs : List Node} {f : Frame} {inner : List Node}
    (h : at? path cs = some (block f inner)) (start depth : Nat) (q : Path) :
    ∃ v ∈ blocksIn start depth q 0 cs, v.path = q ++ path ∧ v.depth = depth + path.length ∧
      v.color = f.color := by
  induction path generalizing cs start depth q with
  | nil => cases h
  | cons i path ih =>
    cases path with
    | nil =>
      obtain ⟨pre, post, rfl, rfl⟩ := exists_middle h
      rw [blocksIn_middle]
      exact ⟨_, List.mem_append_right _ (List.mem_append_left _ List.mem_cons_self), rfl, rfl, rfl⟩
    | cons j path =>
      rw [at?] at h
      split at h
      · rename_i g cs' hat
        obtain ⟨pre, post, rfl, rfl⟩ := exists_middle hat
        obtain ⟨v, hv, hpath, hdepth, hcolor⟩ :=
          ih h (start + g.start) (depth + 1) (q ++ [pre.length])
        rw [blocksIn_middle]
        refine ⟨v, List.mem_append_right _ (List.mem_append_left _ (List.mem_cons_of_mem _ hv)),
          ?_, ?_, hcolor⟩
        · rw [hpath, List.append_assoc, List.singleton_append]
        · rw [hdepth, Nat.add_assoc, Nat.add_comm 1]
          rfl
      · cases h

theorem offset?_cons_of_block {cs inner : List Node} {i : Nat} {f : Frame}
    (h : cs[i]? = some (block f inner)) (path : Path) :
    offset? (i :: path) cs = (offset? path inner).map (f.start + ·) := by
  rw [offset?, h]

theorem offset?_of_child {cs : List Node} {i : Nat} {n : Node} (h : cs[i]? = some n) :
    offset? [i] cs = some n.start := by
  cases n with
  | leaf s t =>
    rw [offset?, h]
    rfl
  | block f inner =>
    rw [offset?_cons_of_block h]
    rfl

/-- `v` is what is shown of the block at a path of `cs`, where the first of `cs` is at `start` of
the whole text and has `depth` blocks around. -/
def ShownAt (start depth : Nat) (path : Path) (cs : List Node) (v : BlockView) : Prop :=
  ∃ f inner s, at? path cs = some (block f inner) ∧ offset? path cs = some s ∧
    v.first = start + s ∧ v.last = v.first + (textOf inner).length - 1 ∧
    v.depth = depth + path.length

theorem ShownAt.under {start depth i j : Nat} {path : Path} {cs ds : List Node} {f : Frame}
    {v : BlockView} (h : ShownAt (start + f.start) (depth + 1) (j :: path) cs v)
    (hat : ds[i]? = some (block f cs)) : ShownAt start depth (i :: j :: path) ds v := by
  obtain ⟨g, inner, s, hblock, hoffset, hfirst, hlast, hdepth⟩ := h
  refine ⟨g, inner, f.start + s, ?_, ?_, ?_, hlast, ?_⟩
  · rw [at?_cons_of_block hat, hblock]
  · rw [offset?_cons_of_block hat, hoffset, Option.map_some]
  · rw [hfirst, Nat.add_assoc]
  · rw [hdepth, List.length_cons, List.length_cons, List.length_cons]
    omega

theorem ShownAt.behind {start depth k : Nat} {path : Path} {cs : List Node} {v : BlockView}
    (h : ShownAt start depth (k :: path) cs v) (c : Node) :
    ShownAt start depth ((k + 1) :: path) (c :: cs) v := by
  obtain ⟨f, inner, s, hblock, hoffset, hrest⟩ := h
  refine ⟨f, inner, s, ?_, hoffset, hrest⟩
  cases path with
  | nil => exact hblock
  | cons j path => exact hblock

mutual
theorem exists_of_mem_blocks (start depth : Nat) (q : Path) {v : BlockView} : (n : Node) →
    v ∈ n.blocks start depth q → ∃ path, v.path = q ++ path ∧
      ∀ (i : Nat) (cs : List Node), cs[i]? = some n → ShownAt start depth (i :: path) cs v
  | leaf .., hv => nomatch hv
  | block f cs, hv => by
    rcases List.mem_cons.1 hv with rfl | hv
    · exact ⟨[], (List.append_nil q).symm, fun i ds hat =>
        ⟨f, cs, f.start, hat, offset?_of_child hat, rfl, rfl, rfl⟩⟩
    · obtain ⟨k, path, hpath, -, hshown⟩ := exists_of_mem_blocksIn _ _ q 0 cs hv
      rw [Nat.zero_add] at hpath
      exact ⟨k :: path, hpath, fun i ds hat => hshown.under hat⟩

theorem exists_of_mem_blocksIn (start depth : Nat) (q : Path) (i : Nat) {v : BlockView} :
    (cs : List Node) → v ∈ blocksIn start depth q i cs → ∃ k path, v.path = q ++ (i + k) :: path ∧
      k < cs.length ∧ ShownAt start depth (k :: path) cs v
  | [], hv => nomatch hv
  | c :: cs, hv => by
    rcases List.mem_append.1 hv with hv | hv
    · obtain ⟨path, hpath, hshown⟩ := exists_of_mem_blocks start depth _ c hv
      refine ⟨0, path, ?_, Nat.zero_lt_succ _, hshown 0 (c :: cs) rfl⟩
      rw [hpath, List.append_assoc, List.singleton_append, Nat.add_zero]
    · obtain ⟨k, path, hpath, hk, hshown⟩ := exists_of_mem_blocksIn start depth q (i + 1) cs hv
      refine ⟨k + 1, path, ?_, Nat.succ_lt_succ hk, hshown.behind c⟩
      rw [hpath, Nat.add_right_comm, Nat.add_assoc]
end

/-- The colour of the block right around what is at a path; `around` is that of the block around
all. -/
def colorAround (around : Option Rgb) : Path → List Node → Option Rgb
  | i :: j :: path, cs =>
    match cs[i]? with
    | some (block f inner) => colorAround f.color (j :: path) inner
    | _ => around
  | _, _ => around

theorem exists_around {path : Path} {j : Nat} {cs : List Node} {n : Node} (hne : path ≠ [])
    (h : at? (path ++ [j]) cs = some n) (around : Option Rgb) :
    ∃ f inner, at? path cs = some (block f inner) ∧
      colorAround around (path ++ [j]) cs = f.color := by
  induction path generalizing cs around with
  | nil => cases hne rfl
  | cons i path ih =>
    cases path with
    | nil =>
      rw [List.singleton_append, at?] at h
      split at h
      · rename_i f inner hat
        refine ⟨f, inner, hat, ?_⟩
        rw [List.singleton_append, colorAround, hat]
        rfl
      · cases h
    | cons k path =>
      rw [List.cons_append, List.cons_append, at?] at h
      split at h
      · rename_i f inner hat
        obtain ⟨g, cs', hblock, hcolor⟩ := ih (List.cons_ne_nil k path) h f.color
        refine ⟨g, cs', by rw [at?_cons_of_block hat, hblock], ?_⟩
        rw [← hcolor, List.cons_append, List.cons_append, colorAround, hat]
      · cases h

end Node

namespace Block

variable {b : Block} {path : Path} {n : Node}

theorem shown_of_mem_blocks {v : BlockView} (hv : v ∈ b.blocks) :
    v.path ≠ [] ∧ Node.ShownAt 0 0 v.path b.children v := by
  obtain ⟨k, path, hpath, -, hshown⟩ := Node.exists_of_mem_blocksIn 0 0 [] 0 b.children hv
  rw [List.nil_append, Nat.zero_add] at hpath
  rw [hpath]
  exact ⟨List.cons_ne_nil k path, hshown⟩

theorem exists_at?_of_mem_blocks {v : BlockView} (hv : v ∈ b.blocks) :
    v.path ≠ [] ∧ ∃ f inner, b.node? v.path = some (.block f inner) := by
  obtain ⟨hne, f, inner, s, hblock, -⟩ := shown_of_mem_blocks hv
  exact ⟨hne, f, inner, hblock⟩

theorem innermost_of_child {i s : Nat} {t : Text} (h : b.node? [i] = some (.leaf s t)) :
    BlockView.Innermost b.blocks [i] none := by
  intro u hu hfront
  obtain ⟨hne, f, inner, hblock⟩ := exists_at?_of_mem_blocks hu
  change u.path <+: [] ++ [i] at hfront
  have hpath : u.path = [] ++ [i] := (List.prefix_concat_iff.1 hfront).resolve_right
    fun hnil => hne (List.prefix_nil.1 hnil)
  rw [hpath, List.nil_append, h] at hblock
  cases hblock

/-- Deeper down the block that a leaf is in is the innermost around it. -/
theorem innermost_of_leaf {j s : Nat} {t : Text} (hne : path ≠ [])
    (h : b.node? (path ++ [j]) = some (.leaf s t)) :
    ∃ v, BlockView.Innermost b.blocks (path ++ [j]) (some v) ∧ v.path = path ∧
      v.depth = path.length ∧
      v.color = Node.colorAround b.frame.color (path ++ [j]) b.children := by
  obtain ⟨f, inner, hblock, hcolor⟩ := Node.exists_around hne h b.frame.color
  obtain ⟨v, hv, hpath, hdepth, hvcolor⟩ := Node.exists_shows hblock 0 0 []
  rw [List.nil_append] at hpath
  rw [Nat.zero_add] at hdepth
  refine ⟨v, ⟨hv, by rw [hpath]; exact List.prefix_append path [j], fun u hu hfront => ?_⟩, hpath,
    hdepth, by rw [hvcolor, hcolor]⟩
  obtain ⟨-, g, cs, hother⟩ := exists_at?_of_mem_blocks hu
  rw [hpath]
  refine (List.prefix_concat_iff.1 hfront).resolve_left fun hleaf => ?_
  rw [hleaf, h] at hother
  cases hother

/-- Which block is around a leaf, how deep that is and of which colour. -/
theorem Sound.exists_innermost (h : b.Sound) {l : Leaf} (hl : l ∈ b.leaves) :
    ∃ around, BlockView.Innermost b.blocks l.path around ∧
      (around.map BlockView.depth).getD 0 + 1 = l.path.length ∧
      around.bind BlockView.color = Node.colorAround none l.path b.children := by
  obtain ⟨before, after, hleaves⟩ := List.append_of_mem hl
  obtain ⟨s, hat⟩ := Node.at?_of_leaves hleaves
  have hne : l.path ≠ [] := Node.path_ne_nil hl
  obtain ⟨path, j, hpath⟩ := (List.eq_nil_or_concat l.path).resolve_left hne
  rw [List.concat_eq_append] at hpath
  rw [hpath] at hat ⊢
  cases path with
  | nil => exact ⟨none, innermost_of_child hat, rfl, rfl⟩
  | cons i path =>
    obtain ⟨v, hinnermost, -, hdepth, hcolor⟩ := innermost_of_leaf (List.cons_ne_nil i path) hat
    refine ⟨some v, hinnermost, ?_, ?_⟩
    · rw [Option.map_some, Option.getD_some, hdepth, List.length_append, List.length_singleton]
    · rw [Option.bind_some, hcolor, h.color]

end Block

namespace Document

theorem Sound.look_blocks {d : Document} (h : d.Sound) :
    d.blocks.map BlockView.look = Node.looksIn 0 0 d.root.children :=
  Node.look_blocksIn 0 0 [] 0 d.root.children h.root.placed

end Document
end QueryLine
