import QueryLine.Proofs.Caret

/-!
Positions and places. Each character is held by one leaf, and looking for its position finds it
there; so `locate` and counting from the start of a leaf undo each other, whatever is empty or
nested.
-/

namespace QueryLine

open Leaf (spell)

/-- Character number `n` is at a place. -/
def Block.Holds (b : Block) (n : Nat) (p : Place) : Prop :=
  ∃ start t c, b.offset? p.path = some start ∧ b.leaf? p.path = some t ∧ start + p.offset = n ∧
    t[p.offset]? = some c ∧ b.text[n]? = some c

namespace CharAt

variable {ls b b' a a' : List Leaf} {n : Nat} {p p' : Place} {t t' : Text}

theorem getElem? (h : CharAt ls n p b t a) : (spell ls)[n]? = t[p.offset]? := by
  have hoffset := h.offset
  have hback : n - (spell b).length = p.offset := by omega
  rw [h.leaves, Leaf.spell_append, Leaf.spell_cons, List.getElem?_append_right (by omega), hback,
    List.getElem?_append_left h.inside]

theorem front_eq (h : CharAt ls n p b t a) (h' : CharAt ls n p' b' t' a') {m : List Leaf}
    (hb : b' = b ++ m) (hm : ⟨p.path, t⟩ :: a = m ++ ⟨p'.path, t'⟩ :: a') : p = p' := by
  have hoffset := h.offset
  have hoffset' := h'.offset
  have hinside := h.inside
  subst hb
  cases m with
  | nil =>
    obtain ⟨path, o⟩ := p
    obtain ⟨path', o'⟩ := p'
    obtain ⟨hleaf, -⟩ := List.cons.inj hm
    obtain ⟨rfl, -⟩ := Leaf.mk.inj hleaf
    rw [List.append_nil] at hoffset'
    dsimp only at hoffset hoffset'
    congr 1
    omega
  | cons l m =>
    -- the whole leaf `t` is in front of the second place
    obtain ⟨rfl, -⟩ := List.cons.inj hm
    rw [Leaf.spell_append, Leaf.spell_cons, List.length_append, List.length_append] at hoffset'
    dsimp only at hoffset'
    omega

theorem unique (h : CharAt ls n p b t a) (h' : CharAt ls n p' b' t' a') : p = p' := by
  have hsplit := h.leaves.symm.trans h'.leaves
  rcases List.append_eq_append_iff.1 hsplit with ⟨m, hb, hm⟩ | ⟨m, hb, hm⟩
  · exact h.front_eq h' hb hm
  · exact (h'.front_eq h hb hm).symm

end CharAt

theorem Node.isSome_offset? {path : Path} (hne : path ≠ []) {cs : List Node} :
    (offset? path cs).isSome ↔ (at? path cs).isSome := by
  fun_induction at? path cs with
  | case1 cs => cases hne rfl
  | case2 i cs =>
    rw [offset?]
    cases cs[i]? with
    | none => rfl
    | some c => cases c <;> simp [offset?]
  | case3 i j path cs f inner hat ih =>
    rw [offset?, hat, Option.isSome_map]
    exact ih (List.cons_ne_nil j path)
  | case4 i j path cs hother =>
    rw [offset?]
    cases hat : cs[i]? with
    | none => rfl
    | some c =>
      cases c with
      | leaf s t => rfl
      | block f inner => exact absurd hat (hother f inner)

theorem Block.offset?_eq_none {b : Block} {path : Path} (hne : path ≠ [])
    (h : b.node? path = none) : b.offset? path = none := by
  rw [← Option.not_isSome_iff_eq_none] at h ⊢
  exact mt (Node.isSome_offset? hne).1 h

namespace Block.Sound

variable {r : Block} {n : Nat} {p : Place} {b a : List Leaf} {path : Path} {t : Text}

theorem exists_leaves (h : r.Sound) (hleaf : r.leaf? path = some t) :
    ∃ b a, r.leaves = b ++ ⟨path, t⟩ :: a ∧ r.offset? path = some (spell b).length := by
  obtain ⟨b, a, hleaves⟩ := List.append_of_mem (leaf?_eq_some_iff.1 hleaf)
  exact ⟨b, a, hleaves, h.offset?_of_leaves hleaves⟩

theorem holds_of_charAt (h : r.Sound) (hchar : CharAt r.leaves n p b t a) : r.Holds n p := by
  obtain ⟨c, hc⟩ : ∃ c, t[p.offset]? = some c := ⟨_, List.getElem?_eq_getElem hchar.inside⟩
  have hget := hchar.getElem?
  rw [spell_leaves, hc] at hget
  exact ⟨_, t, c, h.offset?_of_leaves hchar.leaves, leaf?_of_leaves hchar.leaves, hchar.offset, hc,
    hget⟩

theorem holds_locate (h : r.Sound) (hn : n < r.length) : r.Holds n (r.locate n) := by
  obtain ⟨b, t, a, hchar⟩ := h.charAt_locate hn
  exact h.holds_of_charAt hchar

theorem locate_beyond (h : r.Sound) (hn : r.length ≤ n) :
    ∃ t, r.leaves.getLast? = some ⟨(r.locate n).path, t⟩ ∧ (r.locate n).offset = t.length := by
  obtain ⟨b, t, a, hfound⟩ := h.found_locate n
  have hbeyond : (spell r.leaves).length ≤ n := by rwa [spell_leaves]
  obtain ⟨hoffset, rfl⟩ := hfound.last hbeyond
  refine ⟨t, ?_, hoffset⟩
  rw [hfound.leaves, List.getLast?_concat]

/-- Counted from the start of its leaf, each character is found again. -/
theorem locate_of_leaf (h : r.Sound) (hleaf : r.leaf? path = some t) :
    ∃ start, r.offset? path = some start ∧
      ∀ o, o < t.length → r.locate (start + o) = ⟨path, o⟩ := by
  obtain ⟨b, a, hleaves, hstart⟩ := h.exists_leaves hleaf
  refine ⟨_, hstart, fun o ho => ?_⟩
  have hchar : CharAt r.leaves ((spell b).length + o) ⟨path, o⟩ b t a := ⟨hleaves, rfl, ho⟩
  have hlength : (spell b).length + o < r.length := by
    rw [Block.length, ← spell_leaves, hleaves, Leaf.spell_append, Leaf.spell_cons,
      List.length_append, List.length_append]
    dsimp only
    omega
  obtain ⟨b', t', a', hfound⟩ := h.charAt_locate hlength
  exact hfound.unique hchar

theorem exists_caretPlace (h : r.Sound) (n : Nat) :
    ∃ start t, r.offset? (r.caretPlace n).path = some start ∧
      r.leaf? (r.caretPlace n).path = some t ∧
      start + (r.caretPlace n).offset = min n r.length ∧ (r.caretPlace n).offset ≤ t.length := by
  obtain ⟨b, t, a, hleaves, hsum, hle⟩ := h.caretPlace_spec n
  exact ⟨_, t, h.offset?_of_leaves hleaves, leaf?_of_leaves hleaves, hsum, hle⟩

/-- The caret is placed right behind the character in front of it. -/
theorem caretPlace_behind (h : r.Sound) (hpos : 0 < n) (hn : n ≤ r.length) :
    ∃ o, (r.caretPlace n).offset = o + 1 ∧ r.Holds (n - 1) ⟨(r.caretPlace n).path, o⟩ := by
  have hpath : (r.caretPlace n).path = (r.locate (n - 1)).path := by
    rw [caretPlace, Nat.min_eq_left hn]
  obtain ⟨start, t, hstart, -, hsum, -⟩ := h.exists_caretPlace n
  have hholds := h.holds_locate (n := n - 1) (by omega)
  obtain ⟨start', t', c, hstart', -, hsum', -⟩ := hholds
  rw [hpath, hstart'] at hstart
  obtain rfl := Option.some.inj hstart
  refine ⟨(r.locate (n - 1)).offset, by omega, ?_⟩
  rw [hpath]
  exact h.holds_locate (by omega)

end Block.Sound

namespace Document

/-- After any run each position in the text is found where its character is, a later one at the end
of the last leaf, and each character of a leaf is found by its position. The caret is placed with as
many characters in front as it should have, in the leaf of the last of them. A path has a start
where a node is. -/
theorem run_locates (t : Text) (actions : List Action) :
    let r := ((ofText t).run actions).root
    (∀ n, n < r.length → r.Holds n (r.locate n)) ∧
    (∀ n, r.length ≤ n → ∃ u, r.leaves.getLast? = some ⟨(r.locate n).path, u⟩ ∧
      (r.locate n).offset = u.length) ∧
    (∀ path u, r.leaf? path = some u → ∃ start, r.offset? path = some start ∧
      ∀ o, o < u.length → r.locate (start + o) = ⟨path, o⟩) ∧
    (∀ n, ∃ start u, r.offset? (r.caretPlace n).path = some start ∧
      r.leaf? (r.caretPlace n).path = some u ∧
      start + (r.caretPlace n).offset = min n r.length ∧ (r.caretPlace n).offset ≤ u.length) ∧
    (∀ n, 0 < n → n ≤ r.length → ∃ o, (r.caretPlace n).offset = o + 1 ∧
      r.Holds (n - 1) ⟨(r.caretPlace n).path, o⟩) ∧
    ∀ path, path ≠ [] → ((r.offset? path).isSome ↔ (r.node? path).isSome) := by
  intro r
  have h : r.Sound := (sound_run t actions).root
  exact ⟨fun n => h.holds_locate, fun n => h.locate_beyond, fun path u => h.locate_of_leaf,
    h.exists_caretPlace, fun n => h.caretPlace_behind, fun path hne => Node.isSome_offset? hne⟩

end Document
end QueryLine
