import QueryLine.Document.Basic

/-!
Children partition the block around them: each stands where the ones before it end, also deep
inside. Beside it the frame of a nested block fits the block around. Boxing keeps both as it cuts a
leaf; the other operations keep the frames, and the places come back from counting anew.
-/

namespace QueryLine

/-- A nested block can be dissolved, and its colour is one of the palette that the block around has
not. -/
structure Frame.FitsIn (around : Option Rgb) (f : Frame) : Prop where
  closable : f.closable = true
  color : ∃ i, f.color = some (Palette.color i)
  color_ne : f.color ≠ around
  turn_lt : f.turn.val < 8

namespace Node

mutual
/-- The node is at `start`, and every node inside where the ones before it end. -/
def Placed (start : Nat) : Node → Prop
  | leaf s _ => s = start
  | block f cs => f.start = start ∧ PlacedFrom 0 cs

def PlacedFrom (start : Nat) : List Node → Prop
  | [] => True
  | c :: cs => c.Placed start ∧ PlacedFrom (start + c.length) cs
end

mutual
/-- Every block of the node holds something and fits the block around, here one of colour
`around`. -/
def Framed (around : Option Rgb) : Node → Prop
  | leaf .. => True
  | block f cs => f.FitsIn around ∧ cs ≠ [] ∧ FramedIn f.color cs

def FramedIn (around : Option Rgb) : List Node → Prop
  | [] => True
  | c :: cs => c.Framed around ∧ FramedIn around cs
end

theorem framedIn_iff {around : Option Rgb} {cs : List Node} :
    FramedIn around cs ↔ ∀ c ∈ cs, c.Framed around := by
  induction cs with
  | nil => simp [FramedIn]
  | cons c cs ih => simp [FramedIn, ih]

theorem framedIn_append {around : Option Rgb} {cs ds : List Node} :
    FramedIn around (cs ++ ds) ↔ FramedIn around cs ∧ FramedIn around ds := by
  simp only [framedIn_iff, List.mem_append, or_imp, forall_and]

theorem placedFrom_append {start : Nat} {cs ds : List Node} :
    PlacedFrom start (cs ++ ds) ↔
      PlacedFrom start cs ∧ PlacedFrom (start + (textOf cs).length) ds := by
  induction cs generalizing start with
  | nil => simp [PlacedFrom, textOf]
  | cons c cs ih =>
    simp only [List.cons_append, PlacedFrom, ih, textOf, List.length_append, length, and_assoc,
      Nat.add_assoc]

@[simp] theorem length_reflow (start : Nat) (n : Node) : (n.reflow start).length = n.length := by
  rw [length, text_reflow, length]

mutual
theorem placed_reflow (start : Nat) : (n : Node) → (n.reflow start).Placed start
  | leaf .. => rfl
  | block _ cs => ⟨rfl, placedFrom_reflowFrom 0 cs⟩

theorem placedFrom_reflowFrom (start : Nat) : (cs : List Node) →
    PlacedFrom start (reflowFrom start cs)
  | [] => trivial
  | c :: cs => by
    refine ⟨placed_reflow start c, ?_⟩
    rw [length_reflow]
    exact placedFrom_reflowFrom _ cs
end

theorem reflowFrom_eq_nil {start : Nat} {cs : List Node} : reflowFrom start cs = [] ↔ cs = [] := by
  cases cs <;> simp [reflowFrom]

mutual
theorem framed_reflow {around : Option Rgb} (start : Nat) : (n : Node) → n.Framed around →
    (n.reflow start).Framed around
  | leaf .., _ => trivial
  | block _ cs, ⟨hf, hne, hin⟩ =>
    ⟨⟨hf.closable, hf.color, hf.color_ne, hf.turn_lt⟩, mt reflowFrom_eq_nil.1 hne,
      framedIn_reflowFrom 0 cs hin⟩

theorem framedIn_reflowFrom {around : Option Rgb} (start : Nat) : (cs : List Node) →
    FramedIn around cs → FramedIn around (reflowFrom start cs)
  | [], _ => trivial
  | c :: cs, ⟨hc, hcs⟩ => ⟨framed_reflow start c hc, framedIn_reflowFrom _ cs hcs⟩
end

/-! Boxing. -/

/-- What boxing leaves of a leaf or of the children of a block: the nodes are placed and framed, and
so is the block's next turn. -/
structure Boxed (around : Option Rgb) (offset : Nat) (next : Palette.Turn) (nodes : List Node) :
    Prop where
  turn_lt : next.val < 8
  inhabited : nodes ≠ []
  framed : FramedIn around nodes
  placed : PlacedFrom offset nodes

theorem boxed_split {turn next : Palette.Turn} {around : Option Rgb} {offset : Nat} {t : Text}
    {start last : Nat} {nodes : List Node} (hle : start ≤ last) (hlast : last < t.length)
    (h : split turn around offset t start last = some (next, nodes)) :
    Boxed around offset next nodes := by
  have hleft : (t.take start).length = start := by rw [List.length_take]; omega
  have hmiddle : ((t.take (last + 1)).drop start).length = last + 1 - start := by
    rw [List.length_drop, List.length_take]; omega
  have hempty : (t.take start).isEmpty = true ↔ start = 0 := by
    rw [List.isEmpty_iff_length_eq_zero, hleft]
  have hfits : Frame.FitsIn around
      ⟨offset + start, some (Palette.pick turn around).1, true, .first⟩ := by
    obtain ⟨i, hi⟩ := Palette.pick_color turn around
    exact ⟨rfl, ⟨i, congrArg some hi⟩, (Palette.pick_ne turn around).symm, by change 0 < 8; omega⟩
  unfold split at h
  dsimp only at h
  split at h
  · simp at h
  · obtain ⟨rfl, rfl⟩ := Prod.mk.inj (Option.some.inj h)
    refine ⟨Palette.pick_turn_lt turn around, by simp, ?_, ?_⟩
    · rw [framedIn_append]
      refine ⟨by split <;> simp [FramedIn, Framed], ?_⟩
      refine ⟨⟨hfits, by simp, by simp [FramedIn, Framed]⟩, ?_⟩
      split <;> simp [FramedIn, Framed]
    · -- the cuts are at `start` and behind `last`, counted from `offset`
      have hbefore : (textOf (if (t.take start).isEmpty = true then []
          else [leaf offset (t.take start)])).length = start := by
        split
        · rename_i h0
          exact (hempty.1 h0).symm
        · simp [textOf, text, hleft]
      rw [placedFrom_append, hbefore]
      refine ⟨by split <;> simp [PlacedFrom, Placed], ⟨rfl, by simp [PlacedFrom, Placed]⟩, ?_⟩
      have hend : offset + start + (last + 1 - start) = offset + last + 1 := by omega
      simp only [length, text, textOf, List.append_nil, hmiddle, hend]
      split <;> simp [PlacedFrom, Placed]

mutual
theorem boxed_box {around : Option Rgb} {offset start last : Nat} (hle : start ≤ last) :
    (n : Node) → {turn next : Palette.Turn} → {nodes : List Node} → turn.val < 8 →
      last < n.length → n.Framed around → n.Placed offset →
      n.box turn around offset start last = some (next, nodes) → Boxed around offset next nodes
  | leaf _ t, _, _, _, _, hlast, _, _, h => boxed_split hle hlast h
  | block f cs, _, _, _, hturn, _, hframed, hplaced, h => by
    simp only [box, Option.map_eq_some_iff, Prod.mk.injEq] at h
    obtain ⟨⟨next, inner⟩, h, rfl, rfl⟩ := h
    obtain ⟨hf, -, hin⟩ := hframed
    have hinner := boxed_boxIn hle cs hf.turn_lt hin hplaced.2 h
    have hfits : Frame.FitsIn around { f with turn := next } :=
      ⟨hf.closable, hf.color, hf.color_ne, hinner.turn_lt⟩
    exact ⟨hturn, by simp, ⟨⟨hfits, hinner.inhabited, hinner.framed⟩, trivial⟩,
      ⟨⟨hplaced.1, hinner.placed⟩, trivial⟩⟩

theorem boxed_boxIn {around : Option Rgb} {offset start last : Nat} (hle : start ≤ last) :
    (cs : List Node) → {turn next : Palette.Turn} → {nodes : List Node} → turn.val < 8 →
      FramedIn around cs → PlacedFrom offset cs →
      boxIn turn around offset start last cs = some (next, nodes) →
        Boxed around offset next nodes
  | [], _, _, _, _, _, _, h => by simp [boxIn] at h
  | c :: cs, _, _, _, hturn, ⟨hc, hcs⟩, ⟨hpc, hpcs⟩, h => by
    simp only [boxIn] at h
    split at h
    · split at h
      · rename_i hlast
        simp only [Option.map_eq_some_iff, Prod.mk.injEq] at h
        obtain ⟨⟨next, inner⟩, h, rfl, rfl⟩ := h
        have hinner := boxed_box hle c hturn hlast hc hpc h
        have htext := textOf_box hle c h
        refine ⟨hinner.turn_lt, by simp [hinner.inhabited], framedIn_append.2 ⟨hinner.framed, hcs⟩,
          placedFrom_append.2 ⟨hinner.placed, ?_⟩⟩
        rw [htext]
        exact hpcs
      · simp at h
    · simp only [Option.map_eq_some_iff, Prod.mk.injEq] at h
      obtain ⟨⟨next, inner⟩, h, rfl, rfl⟩ := h
      have hinner := boxed_boxIn (by omega) cs hturn hcs hpcs h
      exact ⟨hinner.turn_lt, by simp, ⟨hc, hinner.framed⟩, ⟨hpc, hinner.placed⟩⟩
end

/-! Dissolving blocks and changing leaves. -/

theorem mergeLeaves_eq_nil {cs : List Node} : mergeLeaves cs = [] ↔ cs = [] := by
  cases cs with
  | nil => simp [mergeLeaves]
  | cons c cs =>
    unfold mergeLeaves
    split <;> simp

theorem framedIn_mergeLeaves {around : Option Rgb} {cs : List Node} (h : FramedIn around cs) :
    FramedIn around (mergeLeaves cs) := by
  induction cs with
  | nil => exact h
  | cons c cs ih =>
    have hmerged := ih h.2
    unfold mergeLeaves
    split
    · rename_i hjoin
      rw [hjoin] at hmerged
      exact ⟨trivial, hmerged.2⟩
    · exact ⟨h.1, hmerged⟩

theorem framedIn_set {around : Option Rgb} {cs : List Node} (i : Nat) {d : Node}
    (h : FramedIn around cs) (hd : d.Framed around) : FramedIn around (cs.set i d) := by
  rw [framedIn_iff] at h ⊢
  intro c hc
  rcases List.mem_or_eq_of_mem_set hc with hmem | rfl
  · exact h c hmem
  · exact hd

theorem framed_of_getElem? {around : Option Rgb} {cs : List Node} {i : Nat} {c : Node}
    (h : FramedIn around cs) (hat : cs[i]? = some c) : c.Framed around :=
  framedIn_iff.1 h c (List.mem_of_getElem? hat)

theorem set_ne_nil {cs : List Node} {i : Nat} {c : Node} (d : Node) (hat : cs[i]? = some c) :
    cs.set i d ≠ [] := by
  intro h
  rw [List.set_eq_nil_iff] at h
  simp [h] at hat

theorem framedIn_unbox (path : Path) {cs ds : List Node} {around : Option Rgb}
    (h : unbox path cs = some ds) (hin : FramedIn around cs) : ds ≠ [] ∧ FramedIn around ds := by
  fun_induction unbox path cs generalizing ds around with
  | case2 i cs f inner hat =>
    obtain rfl := Option.some.inj h
    exact ⟨mt mergeLeaves_eq_nil.1 (set_ne_nil _ hat),
      framedIn_mergeLeaves (framedIn_set i hin trivial)⟩
  | case5 i j path cs f inner hat ih =>
    obtain ⟨inner', hinner, rfl⟩ := Option.map_eq_some_iff.1 h
    obtain ⟨hf, -, hframed⟩ := framed_of_getElem? hin hat
    obtain ⟨hne, hframed'⟩ := ih hinner hframed
    exact ⟨set_ne_nil _ hat, framedIn_set i hin ⟨hf, hne, hframed'⟩⟩
  | _ => simp at h

@[simp] theorem length_modifyLeaf (g : Text → Text) (path : Path) (cs : List Node) :
    (modifyLeaf g path cs).length = cs.length := by
  cases path <;> simp [modifyLeaf]

theorem framedIn_modify {around : Option Rgb} {g : Node → Node}
    (hg : ∀ c, c.Framed around → (g c).Framed around) (i : Nat) {cs : List Node}
    (h : FramedIn around cs) : FramedIn around (cs.modify i g) := by
  induction cs generalizing i with
  | nil => simpa using h
  | cons c cs ih =>
    cases i with
    | zero => exact ⟨hg c h.1, h.2⟩
    | succ i => exact ⟨h.1, ih i h.2⟩

theorem framedIn_modifyLeaf (g : Text → Text) (path : Path) {around : Option Rgb}
    {cs : List Node} (h : FramedIn around cs) : FramedIn around (modifyLeaf g path cs) := by
  induction path generalizing around cs with
  | nil => exact h
  | cons i path ih =>
    -- a child keeps its frame, and a block as many children as it had
    refine framedIn_modify (fun c hc => ?_) i h
    cases c with
    | leaf s t =>
      dsimp only
      split <;> trivial
    | block f inner =>
      obtain ⟨hf, hne, hin⟩ := hc
      have hlength := length_modifyLeaf g path inner
      refine ⟨hf, fun h0 => hne ?_, ih hin⟩
      rw [h0] at hlength
      exact List.length_eq_zero_iff.1 hlength.symm

end Node

/-- The outermost block: it has no colour, cannot be dissolved, and its nodes are framed and
placed. -/
structure Block.Sound (b : Block) : Prop where
  start : b.frame.start = 0
  color : b.frame.color = none
  closable : b.frame.closable = false
  turn_lt : b.frame.turn.val < 8
  inhabited : b.children ≠ []
  framed : Node.FramedIn none b.children
  placed : Node.PlacedFrom 0 b.children

namespace Block

theorem sound_ofText (t : Text) : (ofText t).Sound where
  start := rfl
  color := rfl
  closable := rfl
  turn_lt := by change 0 < 8; omega
  inhabited := by simp [ofText]
  framed := ⟨trivial, trivial⟩
  placed := ⟨rfl, trivial⟩

theorem Sound.withChildren {b : Block} (h : b.Sound) {cs : List Node} (hne : cs ≠ [])
    (hframed : Node.FramedIn none cs) : (b.withChildren cs).Sound where
  start := h.start
  color := h.color
  closable := h.closable
  turn_lt := h.turn_lt
  inhabited := mt Node.reflowFrom_eq_nil.1 hne
  framed := Node.framedIn_reflowFrom 0 cs hframed
  placed := Node.placedFrom_reflowFrom 0 cs

theorem Sound.box? {b c : Block} (h : b.Sound) {start last : Nat}
    (hbox : b.box? start last = some c) : c.Sound := by
  unfold Block.box? at hbox
  split at hbox
  · rename_i hle
    obtain ⟨⟨next, children⟩, hin, rfl⟩ := Option.map_eq_some_iff.1 hbox
    rw [h.color] at hin
    have hboxed := Node.boxed_boxIn hle b.children h.turn_lt h.framed h.placed hin
    exact ⟨h.start, h.color, h.closable, hboxed.turn_lt, hboxed.inhabited, hboxed.framed,
      hboxed.placed⟩
  · simp at hbox

theorem Sound.unbox? {b c : Block} (h : b.Sound) {path : Path} (hunbox : b.unbox? path = some c) :
    c.Sound := by
  obtain ⟨children, hout, rfl⟩ := Option.map_eq_some_iff.1 hunbox
  obtain ⟨hne, hframed⟩ := Node.framedIn_unbox path hout h.framed
  exact h.withChildren hne hframed

theorem Sound.modifyLeaf {b : Block} (h : b.Sound) (g : Text → Text) (path : Path) :
    (b.withChildren (Node.modifyLeaf g path b.children)).Sound := by
  refine h.withChildren (fun h0 => h.inhabited ?_) (Node.framedIn_modifyLeaf g path h.framed)
  have hlength := Node.length_modifyLeaf g path b.children
  rw [h0] at hlength
  exact List.length_eq_zero_iff.1 hlength.symm

end Block
end QueryLine
