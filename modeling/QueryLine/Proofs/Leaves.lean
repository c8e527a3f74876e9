import QueryLine.Proofs.Partition

/-!
The leaves of grouped text as one list in order. Finding a position, stepping and changing a leaf
are each described by what they do in that list, so that nothing after this needs the nesting.
-/

namespace QueryLine

structure Leaf where
  path : Path
  text : Text
  deriving DecidableEq, Repr

namespace Leaf

/-- The same leaf, seen from the block around, where it is inside child number `i`. -/
def under (i : Nat) (l : Leaf) : Leaf := ⟨i :: l.path, l.text⟩

/-- The text of the leaves together. -/
def spell (ls : List Leaf) : Text := ls.flatMap text

@[simp] theorem spell_nil : spell [] = [] := rfl

@[simp] theorem spell_cons (l : Leaf) (ls : List Leaf) : spell (l :: ls) = l.text ++ spell ls :=
  List.flatMap_cons

@[simp] theorem spell_append (ls ms : List Leaf) : spell (ls ++ ms) = spell ls ++ spell ms :=
  List.flatMap_append

@[simp] theorem spell_under (i : Nat) (ls : List Leaf) : spell (ls.map (under i)) = spell ls := by
  induction ls with
  | nil => rfl
  | cons l ls ih => simp [ih, under]

end Leaf

namespace Node

open Leaf (under spell)

mutual
def leaves : Node → List Leaf
  | leaf _ t => [⟨[], t⟩]
  | block _ cs => leavesFrom 0 cs

/-- The leaves of children whose first has the number `i`. -/
def leavesFrom (i : Nat) : List Node → List Leaf
  | [] => []
  | c :: cs => c.leaves.map (under i) ++ leavesFrom (i + 1) cs
end

theorem leavesFrom_append (i : Nat) (cs ds : List Node) :
    leavesFrom i (cs ++ ds) = leavesFrom i cs ++ leavesFrom (i + cs.length) ds := by
  induction cs generalizing i with
  | nil => rfl
  | cons c cs ih =>
    simp only [List.cons_append, leavesFrom, ih, List.append_assoc, List.length_cons]
    congr 3
    omega

mutual
@[simp] theorem spell_leaves : (n : Node) → spell n.leaves = n.text
  | leaf .. => List.append_nil _
  | block _ cs => spell_leavesFrom 0 cs

@[simp] theorem spell_leavesFrom (i : Nat) : (cs : List Node) → spell (leavesFrom i cs) = textOf cs
  | [] => rfl
  | c :: cs => by
    rw [leavesFrom, Leaf.spell_append, Leaf.spell_under, spell_leaves c,
      spell_leavesFrom (i + 1) cs, textOf]
end

mutual
@[simp] theorem leaves_reflow (start : Nat) : (n : Node) → (n.reflow start).leaves = n.leaves
  | leaf .. => rfl
  | block _ cs => leavesFrom_reflowFrom 0 0 cs

@[simp] theorem leavesFrom_reflowFrom (i start : Nat) : (cs : List Node) →
    leavesFrom i (reflowFrom start cs) = leavesFrom i cs
  | [] => rfl
  | c :: cs => by
    rw [reflowFrom, leavesFrom, leaves_reflow start c, leavesFrom_reflowFrom (i + 1) _ cs,
      leavesFrom]
end

theorem exists_child {i : Nat} {cs : List Node} {b a : List Leaf} {l : Leaf}
    (h : leavesFrom i cs = b ++ l :: a) :
    ∃ pre c post b' l' a', cs = pre ++ c :: post ∧ c.leaves = b' ++ l' :: a' ∧
      l = l'.under (i + pre.length) ∧ b = leavesFrom i pre ++ b'.map (under (i + pre.length)) ∧
      a = a'.map (under (i + pre.length)) ++ leavesFrom (i + pre.length + 1) post := by
  induction cs generalizing i b with
  | nil => simp [leavesFrom] at h
  | cons c cs ih =>
    -- the leaf is among those of the children behind, or else of the first child or right behind it
    rcases List.append_eq_append_iff.1 h with ⟨m, rfl, hm⟩ | ⟨m, hm, hla⟩
    · obtain ⟨pre, d, post, b', l', a', rfl, hd, rfl, rfl, rfl⟩ := ih hm
      have hi : i + 1 + pre.length = i + (c :: pre).length := by simp only [List.length_cons]; omega
      refine ⟨c :: pre, d, post, b', l', a', rfl, hd, by rw [hi], ?_, by rw [hi]⟩
      rw [leavesFrom, List.append_assoc, hi]
    · cases m with
      | nil =>
        obtain ⟨pre, d, post, b', l', a', rfl, hd, rfl, hb, rfl⟩ := ih (b := []) hla.symm
        have hi : i + 1 + pre.length = i + (c :: pre).length := by
          simp only [List.length_cons]; omega
        refine ⟨c :: pre, d, post, b', l', a', rfl, hd, by rw [hi], ?_, by rw [hi]⟩
        rw [leavesFrom, List.append_assoc, ← hi, ← hb, hm]
        simp
      | cons l₁ m =>
        obtain ⟨rfl, rfl⟩ := List.cons.inj hla
        obtain ⟨b', rest, hc, rfl, hrest⟩ := List.map_eq_append_iff.1 hm
        obtain ⟨l', a', rfl, rfl, rfl⟩ := List.map_eq_cons_iff.1 hrest
        exact ⟨[], c, cs, b', l', a', rfl, hc, rfl, rfl, rfl⟩

theorem path_ne_nil {i : Nat} {cs : List Node} {l : Leaf} (h : l ∈ leavesFrom i cs) :
    l.path ≠ [] := by
  obtain ⟨b, a, h⟩ := List.append_of_mem h
  obtain ⟨pre, c, post, b', l', a', -, -, rfl, -, -⟩ := exists_child h
  simp [under]

theorem of_leaves_leaf {s : Nat} {t : Text} {b a : List Leaf} {l : Leaf}
    (h : (leaf s t).leaves = b ++ l :: a) : b = [] ∧ l = ⟨[], t⟩ ∧ a = [] := by
  cases b with
  | nil =>
    obtain ⟨rfl, rfl⟩ := List.cons.inj h
    exact ⟨rfl, rfl, rfl⟩
  | cons m b => simp [leaves] at h

theorem leavesFrom_ne_nil_path {i : Nat} {cs : List Node} {t : Text} {b a : List Leaf} :
    leavesFrom i cs ≠ b ++ ⟨[], t⟩ :: a := by
  intro h
  have hmem : ⟨[], t⟩ ∈ leavesFrom i cs := by simp [h]
  exact path_ne_nil hmem rfl

theorem exists_child_of_cons {cs : List Node} {j : Nat} {path : Path} {t : Text}
    {b a : List Leaf} (h : leavesFrom 0 cs = b ++ ⟨j :: path, t⟩ :: a) :
    ∃ pre c post b' a', cs = pre ++ c :: post ∧ j = pre.length ∧ c.leaves = b' ++ ⟨path, t⟩ :: a' ∧
      b = leavesFrom 0 pre ++ b'.map (under j) ∧
      a = a'.map (under j) ++ leavesFrom (j + 1) post := by
  obtain ⟨pre, c, post, b', ⟨path', t'⟩, a', rfl, hc, hl, rfl, rfl⟩ := exists_child h
  simp only [under, Leaf.mk.injEq, List.cons.injEq, Nat.zero_add] at hl
  obtain ⟨⟨rfl, rfl⟩, rfl⟩ := hl
  exact ⟨pre, c, post, b', a', rfl, rfl, hc, by rw [Nat.zero_add], by rw [Nat.zero_add]⟩

theorem getElem?_middle (pre post : List Node) (c : Node) :
    (pre ++ c :: post)[pre.length]? = some c := by simp

theorem at?_of_leaves {path : Path} {cs : List Node} {t : Text} {b a : List Leaf}
    (h : leavesFrom 0 cs = b ++ ⟨path, t⟩ :: a) : ∃ s, at? path cs = some (leaf s t) := by
  induction path generalizing cs b a with
  | nil => exact absurd h leavesFrom_ne_nil_path
  | cons j path ih =>
    obtain ⟨pre, c, post, b', a', rfl, rfl, hc, -, -⟩ := exists_child_of_cons h
    cases c with
    | leaf s u =>
      obtain ⟨-, hl, -⟩ := of_leaves_leaf hc
      obtain ⟨rfl, rfl⟩ := Leaf.mk.inj hl
      exact ⟨s, getElem?_middle pre post _⟩
    | block f inner =>
      cases path with
      | nil => exact absurd hc leavesFrom_ne_nil_path
      | cons k path =>
        simp only [at?, getElem?_middle]
        exact ih hc

theorem mem_leavesFrom_of_getElem? {cs : List Node} {i : Nat} {c : Node} {l : Leaf}
    (hat : cs[i]? = some c) (hl : l ∈ c.leaves) : l.under i ∈ leavesFrom 0 cs := by
  obtain ⟨hlt, rfl⟩ := List.getElem?_eq_some_iff.1 hat
  have hlength : (cs.take i).length = i := by rw [List.length_take]; omega
  rw [← List.take_append_drop i cs, List.drop_eq_getElem_cons hlt, leavesFrom_append, hlength,
    Nat.zero_add, leavesFrom]
  exact List.mem_append_right _ (List.mem_append_left _ (List.mem_map_of_mem hl))

theorem mem_leaves_of_at? {path : Path} {cs : List Node} {s : Nat} {t : Text}
    (h : at? path cs = some (leaf s t)) : ⟨path, t⟩ ∈ leavesFrom 0 cs := by
  fun_induction at? path cs with
  | case1 => simp at h
  | case2 i cs => exact mem_leavesFrom_of_getElem? (l := ⟨[], t⟩) h (by simp [leaves])
  | case3 i j path cs f inner hat ih =>
    exact mem_leavesFrom_of_getElem? (l := ⟨j :: path, t⟩) hat (ih h)
  | case4 => simp at h

theorem offset?_of_leaves {path : Path} {cs : List Node} {t : Text} {b a : List Leaf}
    {start : Nat} (hplaced : PlacedFrom start cs) (h : leavesFrom 0 cs = b ++ ⟨path, t⟩ :: a) :
    offset? path cs = some (start + (spell b).length) := by
  induction path generalizing cs b a start with
  | nil => exact absurd h leavesFrom_ne_nil_path
  | cons j path ih =>
    obtain ⟨pre, c, post, b', a', rfl, rfl, hc, rfl, -⟩ := exists_child_of_cons h
    obtain ⟨hc', -⟩ := (placedFrom_append.1 hplaced).2
    cases c with
    | leaf s u =>
      obtain ⟨rfl, hl, -⟩ := of_leaves_leaf hc
      obtain ⟨rfl, rfl⟩ := Leaf.mk.inj hl
      have hs : s = start + (textOf pre).length := hc'
      simp [offset?, hs]
    | block f inner =>
      have hinner := ih hc'.2 hc
      have hf : f.start = start + (textOf pre).length := hc'.1
      simp only [offset?, getElem?_middle, hinner, Option.map_some, hf, Leaf.spell_append,
        spell_leavesFrom, Leaf.spell_under, List.length_append, Nat.zero_add]
      congr 1
      omega

end Node

namespace Leaf

/-- The leaf with its text changed by `g`, if it is the one at `path`. -/
def modifyAt (g : Text → Text) (path : Path) (l : Leaf) : Leaf :=
  if l.path = path then ⟨l.path, g l.text⟩ else l

theorem modifyAt_of_ne {g : Text → Text} {path : Path} {l : Leaf} (h : l.path ≠ path) :
    l.modifyAt g path = l := if_neg h

theorem map_modifyAt_of_ne {g : Text → Text} {path : Path} {ls : List Leaf}
    (h : ∀ l ∈ ls, l.path ≠ path) : ls.map (modifyAt g path) = ls := by
  rw [List.map_congr_left fun l hl => modifyAt_of_ne (h l hl), List.map_id']

theorem path_ne_of_nodup {b a : List Leaf} {l : Leaf} (h : ((b ++ l :: a).map path).Nodup) :
    (∀ m ∈ b, m.path ≠ l.path) ∧ ∀ m ∈ a, m.path ≠ l.path := by
  rw [List.map_append, List.map_cons, List.nodup_append, List.nodup_cons] at h
  obtain ⟨-, ⟨hla, -⟩, hne⟩ := h
  refine ⟨fun m hm => hne _ (List.mem_map_of_mem hm) _ List.mem_cons_self, fun m hm heq => ?_⟩
  exact hla (heq ▸ List.mem_map_of_mem hm)

/-- A path is at one place of the list only. -/
theorem split_unique {b a b' a' : List Leaf} {l l' : Leaf} (h : b ++ l :: a = b' ++ l' :: a')
    (hnodup : ((b ++ l :: a).map path).Nodup) (hpath : l.path = l'.path) :
    b = b' ∧ l = l' ∧ a = a' := by
  have hfirst := (path_ne_of_nodup hnodup).2
  have hsecond := (path_ne_of_nodup (h ▸ hnodup)).2
  rcases List.append_eq_append_iff.1 h with ⟨m, rfl, hm⟩ | ⟨m, rfl, hm⟩
  · cases m with
    | nil =>
      obtain ⟨rfl, rfl⟩ := List.cons.inj hm
      simp
    | cons x m =>
      obtain ⟨rfl, rfl⟩ := List.cons.inj hm
      exact absurd hpath.symm (hfirst l' (by simp))
  · cases m with
    | nil =>
      obtain ⟨rfl, rfl⟩ := List.cons.inj hm
      simp
    | cons x m =>
      obtain ⟨rfl, rfl⟩ := List.cons.inj hm
      exact absurd hpath (hsecond l (by simp))

theorem map_modifyAt_split {g : Text → Text} {path : Path} {t : Text} {b a : List Leaf}
    (h : ((b ++ ⟨path, t⟩ :: a).map Leaf.path).Nodup) :
    (b ++ ⟨path, t⟩ :: a).map (modifyAt g path) = b ++ ⟨path, g t⟩ :: a := by
  obtain ⟨hb, ha⟩ := path_ne_of_nodup h
  rw [List.map_append, List.map_cons, map_modifyAt_of_ne hb, map_modifyAt_of_ne ha]
  simp [modifyAt]

theorem modifyAt_under (g : Text → Text) (i : Nat) (path : Path) (l : Leaf) :
    (l.under i).modifyAt g (i :: path) = (l.modifyAt g path).under i := by
  by_cases h : l.path = path
  · simp [modifyAt, under, h]
  · simp [modifyAt, under, h]

end Leaf

namespace Node

open Leaf (under spell modifyAt)

theorem exists_head {i : Nat} {cs : List Node} {l : Leaf} (h : l ∈ leavesFrom i cs) :
    ∃ k path, i ≤ k ∧ l.path = k :: path := by
  obtain ⟨b, a, h⟩ := List.append_of_mem h
  obtain ⟨pre, c, post, b', l', a', -, -, rfl, -, -⟩ := exists_child h
  exact ⟨i + pre.length, l'.path, Nat.le_add_right _ _, rfl⟩

theorem leavesFrom_modify (g : Text → Text) (path : Path) {h : Node → Node}
    (hleaves : ∀ c, (h c).leaves = c.leaves.map (modifyAt g path)) (i j : Nat) (cs : List Node) :
    leavesFrom i (cs.modify j h) = (leavesFrom i cs).map (modifyAt g ((i + j) :: path)) := by
  induction cs generalizing i j with
  | nil => simp [leavesFrom]
  | cons c cs ih =>
    -- a path with another child's number in front is none of this child's
    cases j with
    | zero =>
      have hrest : ∀ l ∈ leavesFrom (i + 1) cs, l.path ≠ i :: path := by
        intro l hl heq
        obtain ⟨k, path', hk, hpath⟩ := exists_head hl
        rw [hpath, List.cons.injEq] at heq
        omega
      rw [List.modify_zero_cons, leavesFrom, leavesFrom, hleaves, List.map_append]
      simp only [Nat.add_zero, Leaf.map_modifyAt_of_ne hrest, List.map_map]
      congr 1
      exact List.map_congr_left fun l _ => (Leaf.modifyAt_under g i path l).symm
    | succ j =>
      have hfirst : ∀ l ∈ c.leaves.map (under i), l.path ≠ (i + (j + 1)) :: path := by
        intro l hl heq
        obtain ⟨l', -, rfl⟩ := List.mem_map.1 hl
        simp only [under, List.cons.injEq] at heq
        omega
      rw [List.modify_succ_cons, leavesFrom, leavesFrom, List.map_append,
        Leaf.map_modifyAt_of_ne hfirst, ih (i + 1) j, Nat.add_assoc, Nat.add_comm 1 j]

/-- Changing the leaf at a path changes it in the list and nothing else. -/
theorem leavesFrom_modifyLeaf (g : Text → Text) (path : Path) (cs : List Node) :
    leavesFrom 0 (modifyLeaf g path cs) = (leavesFrom 0 cs).map (modifyAt g path) := by
  induction path generalizing cs with
  | nil => exact (Leaf.map_modifyAt_of_ne fun l hl => path_ne_nil hl).symm
  | cons j path ih =>
    have hstep := leavesFrom_modify g path (h := fun
      | leaf s t => if path.isEmpty then leaf s (g t) else leaf s t
      | block frame inner => block frame (modifyLeaf g path inner)) (fun c => ?_) 0 j cs
    · rw [Nat.zero_add] at hstep
      exact hstep
    · cases c with
      | leaf s t => cases path <;> simp [leaves, modifyAt]
      | block f inner => exact ih inner

mutual
theorem nodup_leaves : (n : Node) → (n.leaves.map Leaf.path).Nodup
  | leaf .. => by simp [leaves]
  | block _ cs => nodup_leavesFrom 0 cs

theorem nodup_leavesFrom (i : Nat) : (cs : List Node) →
    ((leavesFrom i cs).map Leaf.path).Nodup
  | [] => by simp [leavesFrom]
  | c :: cs => by
    rw [leavesFrom, List.map_append, List.nodup_append]
    refine ⟨?_, nodup_leavesFrom (i + 1) cs, ?_⟩
    · have hpaths : (c.leaves.map (under i)).map Leaf.path =
          (c.leaves.map Leaf.path).map (i :: ·) := by
        rw [List.map_map, List.map_map]
        rfl
      rw [hpaths]
      exact List.Pairwise.map _ (fun _ _ hne h => hne (List.cons.inj h).2) (nodup_leaves c)
    · -- paths of different children differ in their first number
      intro p hp q hq heq
      obtain ⟨l, hl, rfl⟩ := List.mem_map.1 hp
      obtain ⟨l', -, rfl⟩ := List.mem_map.1 hl
      obtain ⟨m, hm, rfl⟩ := List.mem_map.1 hq
      obtain ⟨k, path, hk, hpath⟩ := exists_head hm
      rw [hpath] at heq
      have := (List.cons.inj heq).1
      omega
end

end Node

open Leaf (spell)

namespace Block

def leaves (b : Block) : List Leaf := Node.leavesFrom 0 b.children

@[simp] theorem spell_leaves (b : Block) : spell b.leaves = b.text := Node.spell_leavesFrom 0 _

theorem nodup_leaves (b : Block) : (b.leaves.map Leaf.path).Nodup := Node.nodup_leavesFrom 0 _

theorem leaf?_eq_some_iff {b : Block} {path : Path} {t : Text} :
    b.leaf? path = some t ↔ ⟨path, t⟩ ∈ b.leaves := by
  constructor
  · intro h
    unfold leaf? node? at h
    split at h
    · rename_i s u hat
      obtain rfl := Option.some.inj h
      exact Node.mem_leaves_of_at? hat
    · simp at h
  · intro h
    obtain ⟨pre, post, hleaves⟩ := List.append_of_mem h
    obtain ⟨s, hat⟩ := Node.at?_of_leaves hleaves
    simp [leaf?, node?, hat]

theorem leaf?_of_leaves {b : Block} {path : Path} {t : Text} {pre post : List Leaf}
    (h : b.leaves = pre ++ ⟨path, t⟩ :: post) : b.leaf? path = some t :=
  leaf?_eq_some_iff.2 (by simp [h])

theorem Sound.offset?_of_leaves {b : Block} (hb : b.Sound) {path : Path} {t : Text}
    {pre post : List Leaf} (h : b.leaves = pre ++ ⟨path, t⟩ :: post) :
    b.offset? path = some (spell pre).length := by
  have := Node.offset?_of_leaves hb.placed h
  rwa [Nat.zero_add] at this

end Block

namespace Document

theorem map_leaves_modifyLeaf (g : Text → Text) (path : Path) (d : Document) :
    (d.modifyLeaf g path).root.leaves = d.root.leaves.map (Leaf.modifyAt g path) :=
  (Node.leavesFrom_reflowFrom 0 0 _).trans (Node.leavesFrom_modifyLeaf g path _)

theorem leaves_modifyLeaf {d : Document} {path : Path} {t : Text} {b a : List Leaf}
    (g : Text → Text) (h : d.root.leaves = b ++ ⟨path, t⟩ :: a) :
    (d.modifyLeaf g path).root.leaves = b ++ ⟨path, g t⟩ :: a := by
  have hnodup := d.root.nodup_leaves
  rw [h] at hnodup
  rw [map_leaves_modifyLeaf, h, Leaf.map_modifyAt_split hnodup]

end Document
end QueryLine
