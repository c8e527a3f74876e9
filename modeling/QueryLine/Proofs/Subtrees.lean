import QueryLine.Proofs.Looks
import QueryLine.Proofs.Reachable

/-!
A node among the leaves. The leaves that a node holds stand together in the list of all leaves,
behind those that come before its path and in front of the others; so paths alone say which leaves
make up its text, and which ones it starts behind.
-/

namespace QueryLine

open Leaf (under spell)

namespace Path

/-- The order of the text: a block comes before what is in it, and that before what is behind. -/
def Before : Path → Path → Prop
  | _, [] => False
  | [], _ :: _ => True
  | i :: p, j :: q => i < j ∨ i = j ∧ Before p q

instance decidableBefore : (p q : Path) → Decidable (Before p q)
  | [], [] => .isFalse id
  | _ :: _, [] => .isFalse id
  | [], _ :: _ => .isTrue trivial
  | i :: p, j :: q =>
    have := decidableBefore p q
    inferInstanceAs (Decidable (i < j ∨ i = j ∧ Before p q))

@[simp] theorem before_cons {i j : Nat} {p q : Path} :
    Before (i :: p) (j :: q) ↔ i < j ∨ i = j ∧ Before p q := Iff.rfl

theorem not_before_nil (p : Path) : ¬p.Before [] := by
  cases p with
  | nil => exact id
  | cons i p => exact id

theorem not_before_append (p q : Path) : ¬Before (p ++ q) p := by
  induction p with
  | nil => exact not_before_nil q
  | cons i p ih =>
    rw [List.cons_append, before_cons]
    rintro (hlt | ⟨-, hbefore⟩)
    · omega
    · exact ih hbefore

end Path

/-- The same leaf, seen from the block that has the node of the leaf at a path. -/
def Leaf.inside (path : Path) (l : Leaf) : Leaf := ⟨path ++ l.path, l.text⟩

theorem Leaf.spell_inside (path : Path) (ls : List Leaf) :
    spell (ls.map (Leaf.inside path)) = spell ls := by
  induction ls with
  | nil => rfl
  | cons l ls ih => rw [List.map_cons, spell_cons, spell_cons, ih, inside]

namespace Node

variable {q : Path} {start : Nat} {cs : List Node} {n : Node}

theorem head_lt_of_mem {pre : List Node} {l : Leaf} (hl : l ∈ leavesFrom 0 pre) :
    ∃ k path, k < pre.length ∧ l.path = k :: path := by
  obtain ⟨b, a, hsplit⟩ := List.append_of_mem hl
  obtain ⟨front, c, rest, b', l', a', rfl, -, rfl, -, -⟩ := exists_child hsplit
  exact ⟨_, _, by simp, rfl⟩

/-- Leaves `ls` are those of a node at `q`, with `b` in front and `a` behind. -/
structure Spans (ls : List Leaf) (q : Path) (b : List Leaf) (n : Node) (a : List Leaf) : Prop where
  leaves : ls = b ++ (n.leaves.map (Leaf.inside q) ++ a)
  front : ∀ l ∈ b, l.path.Before q ∧ ¬q <+: l.path
  behind : ∀ l ∈ a, ¬l.path.Before q ∧ ¬q <+: l.path

theorem spans_child (pre post : List Node) (n : Node) :
    Spans (leavesFrom 0 (pre ++ n :: post)) [pre.length] (leavesFrom 0 pre) n
      (leavesFrom (pre.length + 1) post) := by
  refine ⟨?_, fun l hl => ?_, fun l hl => ?_⟩
  · rw [leavesFrom_append, leavesFrom, Nat.zero_add]
    rfl
  · obtain ⟨k, path, hk, hpath⟩ := head_lt_of_mem hl
    rw [hpath, Path.before_cons, List.cons_prefix_cons]
    exact ⟨.inl hk, by omega⟩
  · obtain ⟨k, path, hk, hpath⟩ := exists_head hl
    rw [hpath, Path.before_cons, List.cons_prefix_cons]
    have hnil := Path.not_before_nil path
    exact ⟨by omega, by omega⟩

theorem Spans.under {i j : Nat} {ls b a : List Leaf} (h : Spans ls (j :: q) b n a)
    {front rest : List Leaf} (hfront : ∀ l ∈ front, ∃ k path, k < i ∧ l.path = k :: path)
    (hrest : ∀ l ∈ rest, ∃ k path, i < k ∧ l.path = k :: path) :
    Spans (front ++ (ls.map (Leaf.under i) ++ rest)) (i :: j :: q)
      (front ++ b.map (Leaf.under i)) n (a.map (Leaf.under i) ++ rest) := by
  refine ⟨?_, fun l hl => ?_, fun l hl => ?_⟩
  · rw [h.leaves]
    simp only [List.map_append, List.map_map, List.append_assoc]
    rfl
  · rcases List.mem_append.1 hl with hl | hl
    · obtain ⟨k, path, hk, hpath⟩ := hfront l hl
      rw [hpath, Path.before_cons, List.cons_prefix_cons]
      exact ⟨.inl hk, by omega⟩
    · obtain ⟨m, hm, rfl⟩ := List.mem_map.1 hl
      obtain ⟨hbefore, hprefix⟩ := h.front m hm
      exact ⟨.inr ⟨rfl, hbefore⟩, fun hin => hprefix (List.cons_prefix_cons.1 hin).2⟩
  · rcases List.mem_append.1 hl with hl | hl
    · obtain ⟨m, hm, rfl⟩ := List.mem_map.1 hl
      obtain ⟨hbefore, hprefix⟩ := h.behind m hm
      refine ⟨?_, fun hin => hprefix (List.cons_prefix_cons.1 hin).2⟩
      rintro (hlt | ⟨-, hin⟩)
      · exact Nat.lt_irrefl i hlt
      · exact hbefore hin
    · obtain ⟨k, path, hk, hpath⟩ := hrest l hl
      rw [hpath, Path.before_cons, List.cons_prefix_cons]
      exact ⟨by omega, by omega⟩

/-- Every node spans its leaves, and starts where those in front of them end. -/
theorem exists_spans (hplaced : PlacedFrom start cs) (h : at? q cs = some n) :
    ∃ b a, Spans (leavesFrom 0 cs) q b n a ∧ offset? q cs = some (start + (spell b).length) := by
  fun_induction at? q cs generalizing start with
  | case1 cs => cases h
  | case2 i cs =>
    obtain ⟨pre, post, rfl, rfl⟩ := exists_middle h
    have hn := start_of_placed (placedFrom_append.1 hplaced).2.1
    refine ⟨_, _, spans_child pre post n, ?_⟩
    rw [offset?_of_child h, spell_leavesFrom, hn]
  | case3 i j q cs f inner hat ih =>
    obtain ⟨pre, post, rfl, rfl⟩ := exists_middle hat
    obtain ⟨hf, hinner⟩ := (placedFrom_append.1 hplaced).2.1
    -- in front of the node are the children in front of its block, and what the block has in front
    obtain ⟨b, a, hspans, hoffset⟩ := ih hinner h
    have hfront : ∀ l ∈ leavesFrom 0 pre, ∃ k path, k < pre.length ∧ l.path = k :: path :=
      fun l hl => head_lt_of_mem hl
    have hrest : ∀ l ∈ leavesFrom (pre.length + 1) post, ∃ k path,
        pre.length < k ∧ l.path = k :: path := fun l hl => exists_head hl
    have houter := hspans.under hfront hrest
    have hsplit : leavesFrom 0 (pre ++ block f inner :: post) = leavesFrom 0 pre ++
        ((leavesFrom 0 inner).map (under pre.length) ++ leavesFrom (pre.length + 1) post) := by
      rw [leavesFrom_append, leavesFrom, leaves, Nat.zero_add]
    rw [← hsplit] at houter
    refine ⟨_, _, houter, ?_⟩
    rw [offset?_cons_of_block hat, hoffset, Option.map_some, hf, Leaf.spell_append,
      spell_leavesFrom, Leaf.spell_under, List.length_append]
    congr 1
    omega
  | case4 i j q cs hother => cases h

namespace Spans

variable {ls b a : List Leaf}

/-- The leaves in front of a node are those whose paths come before its path. -/
theorem filter_before (h : Spans ls q b n a) :
    ls.filter (fun l => l.path.Before q) = b := by
  have hfront : b.filter (fun l => l.path.Before q) = b :=
    List.filter_eq_self.2 fun l hl => decide_eq_true (h.front l hl).1
  have hinside : (n.leaves.map (Leaf.inside q)).filter (fun l => l.path.Before q) = [] := by
    refine List.filter_eq_nil_iff.2 fun l hl => ?_
    obtain ⟨m, -, rfl⟩ := List.mem_map.1 hl
    exact mt of_decide_eq_true (Path.not_before_append q m.path)
  have hbehind : a.filter (fun l => l.path.Before q) = [] :=
    List.filter_eq_nil_iff.2 fun l hl => mt of_decide_eq_true (h.behind l hl).1
  rw [h.leaves, List.filter_append, List.filter_append, hfront, hinside, hbehind, List.append_nil,
    List.append_nil]

theorem filter_inside (h : Spans ls q b n a) :
    ls.filter (fun l => q <+: l.path) = n.leaves.map (Leaf.inside q) := by
  have hfront : b.filter (fun l => q <+: l.path) = [] :=
    List.filter_eq_nil_iff.2 fun l hl => mt of_decide_eq_true (h.front l hl).2
  have hinside : (n.leaves.map (Leaf.inside q)).filter (fun l => q <+: l.path) =
      n.leaves.map (Leaf.inside q) := by
    refine List.filter_eq_self.2 fun l hl => ?_
    obtain ⟨m, -, rfl⟩ := List.mem_map.1 hl
    exact decide_eq_true (List.prefix_append q m.path)
  have hbehind : a.filter (fun l => q <+: l.path) = [] :=
    List.filter_eq_nil_iff.2 fun l hl => mt of_decide_eq_true (h.behind l hl).2
  rw [h.leaves, List.filter_append, List.filter_append, hfront, hinside, hbehind, List.append_nil,
    List.nil_append]

end Spans
end Node

namespace Block.Sound

variable {r : Block} {path : Path} {n : Node}

theorem exists_spans (h : r.Sound) (hn : r.node? path = some n) :
    ∃ b a, Node.Spans r.leaves path b n a ∧ r.offset? path = some (spell b).length := by
  obtain ⟨b, a, hspans, hoffset⟩ := Node.exists_spans h.placed hn
  rw [Nat.zero_add] at hoffset
  exact ⟨b, a, hspans, hoffset⟩

theorem offset?_eq (h : r.Sound) (hn : r.node? path = some n) :
    r.offset? path = some (spell (r.leaves.filter fun l => l.path.Before path)).length := by
  obtain ⟨b, a, hspans, hoffset⟩ := h.exists_spans hn
  rw [hspans.filter_before, hoffset]

/-- The text of a node is that of the leaves whose paths go on from its own. -/
theorem text_eq (h : r.Sound) (hn : r.node? path = some n) :
    n.text = spell (r.leaves.filter fun l => path <+: l.path) := by
  obtain ⟨b, a, hspans, -⟩ := h.exists_spans hn
  rw [hspans.filter_inside, Leaf.spell_inside, Node.spell_leaves]

end Block.Sound
end QueryLine
