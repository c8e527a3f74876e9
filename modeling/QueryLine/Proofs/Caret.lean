import QueryLine.Proofs.Places

/-!
The caret stands in a leaf. Every action keeps it there, and with it that the blocks are sound, so
both hold after any run.
-/

namespace QueryLine

open Leaf (spell)

/-- Character number `n` is at the place `p`, in the leaf `t` between the leaves `b` and `a`. -/
structure CharAt (ls : List Leaf) (n : Nat) (p : Place) (b : List Leaf) (t : Text)
    (a : List Leaf) : Prop where
  leaves : ls = b ++ ⟨p.path, t⟩ :: a
  offset : (spell b).length + p.offset = n
  inside : p.offset < t.length

namespace Block.Sound

variable {r : Block}

theorem found_locate (h : r.Sound) (position : Nat) :
    ∃ b t a, Found r.leaves position (r.locate position) b t a :=
  Node.found_locateIn r.children position h.inhabited h.framed

theorem charAt_locate (h : r.Sound) {n : Nat} (hn : n < r.length) :
    ∃ b t a, CharAt r.leaves n (r.locate n) b t a := by
  obtain ⟨b, t, a, hfound⟩ := h.found_locate n
  have hlt : n < (spell r.leaves).length := by rw [Block.spell_leaves]; exact hn
  have hsum := hfound.offset
  exact ⟨b, t, a, hfound.leaves, by omega, hfound.inside hlt⟩

theorem caretPlace_spec (h : r.Sound) (position : Nat) :
    ∃ b t a, r.leaves = b ++ ⟨(r.caretPlace position).path, t⟩ :: a ∧
      (spell b).length + (r.caretPlace position).offset = min position r.length ∧
      (r.caretPlace position).offset ≤ t.length := by
  obtain ⟨b, t, a, hfound⟩ := h.found_locate (min position r.length - 1)
  have hsum := hfound.offset
  have hlength : (spell r.leaves).length = r.length := by rw [Block.spell_leaves, Block.length]
  have hinside := hfound.inside
  have hoffset : (r.caretPlace position).offset =
      min (min position r.length - (spell b).length) t.length := by
    simp only [Block.caretPlace, h.offset?_of_leaves hfound.leaves,
      Block.leaf?_of_leaves hfound.leaves, Option.getD_some]
  refine ⟨b, t, a, hfound.leaves, ?_, by omega⟩
  rw [hoffset]
  omega

end Block.Sound

namespace Document

/-- The caret is in the leaf `t`, with the leaves `b` in front of it and `a` behind. -/
structure CaretIn (d : Document) (b : List Leaf) (t : Text) (a : List Leaf) : Prop where
  leaves : d.root.leaves = b ++ ⟨d.caret.focus, t⟩ :: a
  start_le : (spell b).length ≤ d.caret.position
  le_stop : d.caret.position ≤ (spell b).length + t.length

structure Sound (d : Document) : Prop where
  root : d.root.Sound
  caret : ∃ b t a, d.CaretIn b t a

namespace CaretIn

variable {d : Document} {b a : List Leaf} {t : Text}

theorem text (h : d.CaretIn b t a) : d.text = spell b ++ (t ++ spell a) := by
  rw [Document.text, ← Block.spell_leaves, h.leaves, Leaf.spell_append, Leaf.spell_cons]

theorem position_le (h : d.CaretIn b t a) : d.caret.position ≤ d.length := by
  have hstop := h.le_stop
  have hlength : d.length = d.text.length := rfl
  rw [hlength, h.text, List.length_append, List.length_append]
  omega

theorem offset (h : d.CaretIn b t a) (hroot : d.root.Sound) :
    (spell b).length + d.caretPlace.offset = d.caret.position := by
  have hstart := h.start_le
  simp only [caretPlace, hroot.offset?_of_leaves h.leaves, Option.getD_some]
  omega

theorem offset_le (h : d.CaretIn b t a) (hroot : d.root.Sound) :
    d.caretPlace.offset ≤ t.length := by
  have hoffset := h.offset hroot
  have hstop := h.le_stop
  omega

theorem insert_eq (h : d.CaretIn b t a) {new : Text} (hnew : new ≠ []) :
    let typed := d.modifyLeaf (Text.splice · d.caretPlace.offset d.caretPlace.offset new)
      d.caret.focus
    let position := d.caret.position + new.length
    d.insert new =
      ({ typed with caret := ⟨position, d.caret.focus⟩ }.queue (.caretMoved position)).queue
        .textChanged := by
  simp [Document.insert, Block.leaf?_of_leaves h.leaves, hnew]

end CaretIn

/-- A step that ends in a leaf, at most at its end, or at an end of the text. -/
def Lands (d : Document) : Step → Prop
  | .moved p => ∃ t, d.root.leaf? p.path = some t ∧ p.offset ≤ t.length
  | .beforeStart | .afterEnd => True
  | .nowhere => False

/-- There is a character at the place. -/
def HoldsAt (d : Document) (p : Place) : Prop :=
  ∃ t, d.root.leaf? p.path = some t ∧ p.offset < t.length

theorem lands_leftOf {d : Document} {b a : List Leaf} {t : Text} {focus : Path} {offset : Nat}
    (hleaves : d.root.leaves = b ++ ⟨focus, t⟩ :: a) (hle : offset ≤ t.length) :
    d.Lands (.leftOf offset focus b) := by
  unfold Step.leftOf
  split
  · exact ⟨t, Block.leaf?_of_leaves hleaves, by dsimp only; omega⟩
  · rcases List.eq_nil_or_concat b with rfl | ⟨b, l, rfl⟩
    · trivial
    · simp only [List.concat_eq_append, List.getLast?_append, List.getLast?_singleton,
        Option.some_or]
      exact ⟨l.text, Block.leaf?_eq_some_iff.2 (by simp [hleaves]), Nat.le_refl _⟩

theorem lands_rightOf {d : Document} {b a : List Leaf} {t : Text} {focus : Path} {offset : Nat}
    (hleaves : d.root.leaves = b ++ ⟨focus, t⟩ :: a) : d.Lands (.rightOf offset focus t a) := by
  unfold Step.rightOf
  split
  · exact ⟨t, Block.leaf?_of_leaves hleaves, by dsimp only; omega⟩
  · cases a with
    | nil => trivial
    | cons l a =>
      exact ⟨l.text, Block.leaf?_eq_some_iff.2 (by simp [hleaves]), Nat.zero_le _⟩

theorem sound_place {d : Document} (h : d.root.Sound) (position : Nat) :
    (d.place position).Sound := by
  obtain ⟨b, t, a, hleaves, hsum, hle⟩ := h.caretPlace_spec (min position d.length)
  have hlength : d.root.length = d.length := rfl
  have hposition : (d.place position).caret.position = min position d.length := rfl
  refine ⟨h, b, t, a, hleaves, ?_, ?_⟩
  · rw [hposition]
    omega
  · rw [hposition]
    omega

theorem sound_withRoot {root : Block} (h : root.Sound) (d : Document) : (d.withRoot root).Sound :=
  sound_place (d := { d with root }) h d.caret.position

namespace Sound

variable {d e : Document}

theorem queue (h : d.Sound) (event : DocumentEvent) : (d.queue event).Sound :=
  ⟨h.root, h.caret.imp fun _ ⟨t, a, hin⟩ => ⟨t, a, hin.leaves, hin.start_le, hin.le_stop⟩⟩

theorem setText (t : Text) (d : Document) : (d.setText t).Sound :=
  sound_withRoot (Block.sound_ofText t) d

theorem box? (h : d.Sound) {start last : Nat} (he : d.box? start last = some e) : e.Sound := by
  obtain ⟨root, hroot, rfl⟩ := Option.map_eq_some_iff.1 he
  exact sound_withRoot (h.root.box? hroot) d

theorem unbox? (h : d.Sound) {path : Path} (he : d.unbox? path = some e) : e.Sound := by
  obtain ⟨root, hroot, rfl⟩ := Option.map_eq_some_iff.1 he
  exact (sound_withRoot (h.root.unbox? hroot) d).queue _

theorem setCaret (h : d.Sound) (position : Nat) : (d.setCaret position).Sound := by
  have hplace := sound_place h.root position
  unfold Document.setCaret
  dsimp only
  split
  · exact hplace
  · exact hplace.queue _

theorem step (h : d.Sound) {s : Step} (hs : d.Lands s) : (d.step s).Sound := by
  cases s with
  | moved p =>
    -- the new position is counted from where the leaf starts, so the caret is in it
    obtain ⟨t, hleaf, hle⟩ := hs
    obtain ⟨b, a, hleaves⟩ := List.append_of_mem (Block.leaf?_eq_some_iff.1 hleaf)
    have hoffset := h.root.offset?_of_leaves hleaves
    refine ⟨h.root, b, t, a, hleaves, ?_, ?_⟩
    · simp only [Document.step, Document.queue, hoffset, Option.getD_some]
      omega
    · simp only [Document.step, Document.queue, hoffset, Option.getD_some]
      omega
  | beforeStart => exact h.queue _
  | afterEnd => exact h.queue _
  | nowhere => exact h

theorem stepLeft_eq (h : d.Sound) {b a : List Leaf} {t : Text} (hin : d.CaretIn b t a) :
    Node.stepLeft d.caretPlace.offset d.caret.focus d.root.children =
      .leftOf d.caretPlace.offset d.caret.focus b :=
  Node.stepLeft_eq h.root.framed hin.leaves

theorem stepRight_eq (h : d.Sound) {b a : List Leaf} {t : Text} (hin : d.CaretIn b t a) :
    Node.stepRight d.caretPlace.offset d.caret.focus d.root.children =
      .rightOf d.caretPlace.offset d.caret.focus t a :=
  Node.stepRight_eq h.root.framed hin.leaves

theorem lands_stepLeft (h : d.Sound) :
    d.Lands (Node.stepLeft d.caretPlace.offset d.caret.focus d.root.children) := by
  obtain ⟨b, t, a, hin⟩ := h.caret
  rw [h.stepLeft_eq hin]
  exact lands_leftOf hin.leaves (hin.offset_le h.root)

theorem lands_stepRight (h : d.Sound) :
    d.Lands (Node.stepRight d.caretPlace.offset d.caret.focus d.root.children) := by
  obtain ⟨b, t, a, hin⟩ := h.caret
  rw [h.stepRight_eq hin]
  exact lands_rightOf hin.leaves

theorem left (h : d.Sound) : d.left.Sound := h.step h.lands_stepLeft

theorem right (h : d.Sound) : d.right.Sound := h.step h.lands_stepRight

theorem insert (h : d.Sound) (new : Text) : (d.insert new).Sound := by
  by_cases hnew : new = []
  · simpa [Document.insert, hnew] using h
  · obtain ⟨b, t, a, hin⟩ := h.caret
    have hoffset := hin.offset h.root
    have hle := hin.offset_le h.root
    rw [hin.insert_eq hnew]
    refine Sound.queue (Sound.queue ?_ _) _
    refine ⟨h.root.modifyLeaf _ _, b, _, a, leaves_modifyLeaf _ hin.leaves, ?_, ?_⟩
    · dsimp only
      omega
    · simp only [Text.splice, List.length_append, List.length_take, List.length_drop]
      omega

end Sound

theorem eraseAt?_eq {d : Document} {n : Nat} {p : Place} {b a : List Leaf} {t : Text}
    (h : CharAt d.root.leaves n p b t a) :
    d.eraseAt? p = some (d.modifyLeaf (·.eraseIdx p.offset) p.path) := by
  simp [eraseAt?, Block.leaf?_of_leaves h.leaves, h.inside]

theorem text_eraseAt {d : Document} {n : Nat} {p : Place} {b a : List Leaf} {t : Text}
    (h : CharAt d.root.leaves n p b t a) :
    (d.modifyLeaf (·.eraseIdx p.offset) p.path).text = d.text.eraseIdx n := by
  have herased := leaves_modifyLeaf (·.eraseIdx p.offset) h.leaves
  have hoffset : n - (spell b).length = p.offset := by
    have := h.offset
    omega
  have hle : (spell b).length ≤ n := by
    have := h.offset
    omega
  rw [Document.text, Document.text, ← Block.spell_leaves, ← Block.spell_leaves, herased, h.leaves,
    Leaf.spell_append, Leaf.spell_append, Leaf.spell_cons, Leaf.spell_cons,
    List.eraseIdx_append_of_length_le hle, hoffset, List.eraseIdx_append_of_lt_length h.inside]

namespace Sound

variable {d e : Document}

theorem charAt_placeBefore (h : d.Sound) (hpos : 0 < d.caret.position) :
    ∃ b t a, CharAt d.root.leaves (d.caret.position - 1) d.placeBefore b t a := by
  obtain ⟨b, t, a, hin⟩ := h.caret
  have hoffset := hin.offset h.root
  have hle := hin.offset_le h.root
  unfold placeBefore
  dsimp only
  split
  · exact ⟨b, t, a, hin.leaves, by dsimp only; omega, by dsimp only; omega⟩
  · -- at the start of its leaf the caret says nothing of the character in front
    have hposition := hin.position_le
    have hlength : d.length = d.root.length := rfl
    exact h.root.charAt_locate (by omega)

theorem charAt_placeAfter (h : d.Sound) (hpos : d.caret.position < d.length) :
    ∃ b t a, CharAt d.root.leaves d.caret.position d.placeAfter b t a := by
  obtain ⟨b, t, a, hin⟩ := h.caret
  have hleaf : d.root.leaf? d.caretPlace.path = some t := Block.leaf?_of_leaves hin.leaves
  unfold placeAfter
  dsimp only
  rw [hleaf, Option.getD_some]
  split
  · rename_i hlt
    exact ⟨b, t, a, hin.leaves, hin.offset h.root, hlt⟩
  · exact h.root.charAt_locate hpos

theorem backspace?_eq (h : d.Sound) (hpos : 0 < d.caret.position) :
    let erased := d.modifyLeaf (·.eraseIdx d.placeBefore.offset) d.placeBefore.path
    let position := d.caret.position - 1
    d.backspace? = some (({ erased with caret := ⟨position, d.placeBefore.path⟩ }.queue
      (.caretMoved position)).queue .textChanged) := by
  obtain ⟨b, t, a, hchar⟩ := h.charAt_placeBefore hpos
  have hne : d.caret.position ≠ 0 := by omega
  simp [Document.backspace?, hne, eraseAt?_eq hchar]

theorem delete?_eq (h : d.Sound) (hpos : d.caret.position < d.length) :
    let erased := d.modifyLeaf (·.eraseIdx d.placeAfter.offset) d.placeAfter.path
    d.delete? = some (erased.queue .textChanged) := by
  obtain ⟨b, t, a, hchar⟩ := h.charAt_placeAfter hpos
  have hlt : ¬ d.length ≤ d.caret.position := by omega
  simp [Document.delete?, hlt, eraseAt?_eq hchar]

theorem backspace? (h : d.Sound) (he : d.backspace? = some e) : e.Sound := by
  by_cases hpos : d.caret.position = 0
  · simp [Document.backspace?, hpos] at he
  · obtain ⟨b, t, a, hchar⟩ := h.charAt_placeBefore (by omega)
    have hoffset := hchar.offset
    have hinside := hchar.inside
    rw [h.backspace?_eq (by omega)] at he
    obtain rfl := Option.some.inj he
    refine Sound.queue (Sound.queue ?_ _) _
    refine ⟨h.root.modifyLeaf _ _, b, _, a, leaves_modifyLeaf _ hchar.leaves, ?_, ?_⟩
    · dsimp only
      omega
    · dsimp only
      rw [List.length_eraseIdx_of_lt hinside]
      omega

theorem placeAfter_notMem (h : d.Sound) {b a : List Leaf} {t : Text} (hin : d.CaretIn b t a)
    (hpos : d.caret.position < d.length) : ∀ l ∈ b, l.path ≠ d.placeAfter.path := by
  intro l hl hpath
  obtain ⟨b', t', a', hchar⟩ := h.charAt_placeAfter hpos
  obtain ⟨front, rest, rfl⟩ := List.append_of_mem hl
  have hnodup := d.root.nodup_leaves
  have hleaves := hin.leaves
  rw [List.append_assoc, List.cons_append] at hleaves
  rw [hleaves] at hnodup
  obtain ⟨rfl, rfl, -⟩ := Leaf.split_unique (hleaves.symm.trans hchar.leaves) hnodup hpath
  have hstart := hin.start_le
  have hoffset := hchar.offset
  have hinside := hchar.inside
  rw [Leaf.spell_append, Leaf.spell_cons, List.length_append, List.length_append] at hstart
  dsimp only at hstart
  omega

theorem delete? (h : d.Sound) (he : d.delete? = some e) : e.Sound := by
  by_cases hpos : d.caret.position < d.length
  · obtain ⟨b, t, a, hin⟩ := h.caret
    obtain ⟨b', t', a', hchar⟩ := h.charAt_placeAfter hpos
    have hstart := hin.start_le
    rw [h.delete?_eq hpos] at he
    obtain rfl := Option.some.inj he
    refine Sound.queue ⟨h.root.modifyLeaf _ _, ?_⟩ _
    have herased := leaves_modifyLeaf (·.eraseIdx d.placeAfter.offset) hchar.leaves
    by_cases hsame : d.caret.focus = d.placeAfter.path
    · -- the character is in the caret's own leaf
      have hnodup := d.root.nodup_leaves
      rw [hin.leaves] at hnodup
      have hboth := hin.leaves.symm.trans hchar.leaves
      obtain ⟨rfl, hleaf, rfl⟩ := Leaf.split_unique hboth hnodup hsame
      have hoffset := hchar.offset
      have hinside := hchar.inside
      refine ⟨b, _, a, herased.trans (congrArg (fun q => b ++ ⟨q, _⟩ :: a) hsame.symm), hstart, ?_⟩
      rw [List.length_eraseIdx_of_lt hinside]
      change d.caret.position ≤ _
      omega
    · -- the character is in a leaf behind
      have hfront := h.placeAfter_notMem hin hpos
      refine ⟨b, t, a.map (Leaf.modifyAt (·.eraseIdx d.placeAfter.offset) d.placeAfter.path), ?_,
        hstart, hin.le_stop⟩
      have hleaf := Leaf.modifyAt_of_ne (g := (·.eraseIdx d.placeAfter.offset))
        (l := ⟨d.caret.focus, t⟩) hsame
      change (d.modifyLeaf _ d.placeAfter.path).root.leaves = _
      rw [map_leaves_modifyLeaf, hin.leaves, List.map_append, List.map_cons,
        Leaf.map_modifyAt_of_ne hfront, hleaf]
      rfl
  · simp [Document.delete?, Nat.le_of_not_lt hpos] at he

/-- Every action that is not refused leaves a sound document. -/
theorem act? (h : d.Sound) {action : Action} (he : d.act? action = some e) : e.Sound := by
  cases action with
  | setText t =>
    obtain rfl := Option.some.inj he
    exact setText t d
  | flatten =>
    obtain rfl := Option.some.inj he
    exact setText d.text d
  | box start last => exact h.box? he
  | unbox path => exact h.unbox? he
  | unboxAtCaret => exact h.unbox? he
  | setCaret position =>
    obtain rfl := Option.some.inj he
    exact h.setCaret position
  | left =>
    obtain rfl := Option.some.inj he
    exact h.left
  | right =>
    obtain rfl := Option.some.inj he
    exact h.right
  | home =>
    obtain rfl := Option.some.inj he
    exact h.setCaret 0
  | toEnd =>
    obtain rfl := Option.some.inj he
    exact h.setCaret d.length
  | insert t =>
    obtain rfl := Option.some.inj he
    exact h.insert t
  | backspace => exact h.backspace? he
  | delete => exact h.delete? he
  | splice start stop new =>
    obtain rfl := Option.some.inj he
    exact (setText _ d).queue _
  | takeEvents =>
    obtain rfl := Option.some.inj he
    -- blocks and caret are what they were
    obtain ⟨b, t, a, hin⟩ := h.caret
    exact ⟨h.root, b, t, a, hin.leaves, hin.start_le, hin.le_stop⟩

theorem act (h : d.Sound) (action : Action) : (d.act action).Sound := by
  unfold Document.act
  cases hact : d.act? action with
  | none => exact h
  | some e => exact h.act? hact

theorem run (h : d.Sound) (actions : List Action) : (d.run actions).Sound := by
  induction actions generalizing d with
  | nil => exact h
  | cons action actions ih => exact ih (h.act action)

end Sound

theorem sound_ofText (t : Text) : (ofText t).Sound where
  root := Block.sound_ofText t
  caret := ⟨[], t, [], rfl, Nat.le_refl _, Nat.zero_le _⟩

/-- What can be reached from a plain text is sound. -/
theorem sound_run (t : Text) (actions : List Action) : ((ofText t).run actions).Sound :=
  (sound_ofText t).run actions

end Document
end QueryLine
