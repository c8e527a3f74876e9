import QueryLine.Proofs.Boxing
import QueryLine.Proofs.Dissolving
import QueryLine.Proofs.Editing

/-!
The blocks of a text without what is written in them. A block is found here by its address, where
only blocks are counted, so that cutting and joining leaves moves nothing. Boxing puts one more
outline at an address and dissolving takes one away; every other edit leaves the outline as it is.
-/

namespace QueryLine

/-- A block without its leaves. -/
structure Outline where
  color : Option Rgb
  /-- The colour due for the next block inside. -/
  turn : Palette.Turn
  inside : List Outline
  deriving Repr

/-- For each block on the way, the number of blocks in front of it in the block around. -/
abbrev Address := List Nat

namespace Address

/-- Where the block of an address is once a block was made at `new`. -/
def afterMade : (address new : Address) → Address
  | i :: address, [k] => (if k ≤ i then i + 1 else i) :: address
  | i :: address, k :: l :: new =>
    if i = k then i :: afterMade address (l :: new) else i :: address
  | address, _ => address

/-- Where the block of an address is once the one at `gone` was dissolved, unless it was that one or
in it. -/
def afterGone? : (address gone : Address) → Option Address
  | i :: address, [k] =>
    if i = k then none else some ((if k < i then i - 1 else i) :: address)
  | i :: address, k :: l :: gone =>
    if i = k then (afterGone? address (l :: gone)).map (i :: ·) else some (i :: address)
  | address, _ => some address

end Address

namespace Outline

def at? : Address → Outline → Option Outline
  | [], o => some o
  | i :: address, o => o.inside[i]?.bind (at? address)

def colorAt (address : Address) (o : Outline) : Option Rgb := (o.at? address).bind color

/-- A block is made at an address of `o`, in the colour that is due in the block around. -/
inductive Grows : Address → Outline → Outline → Prop
  | here (color : Option Rgb) (turn : Palette.Turn) (front rest : List Outline) :
    Grows [front.length] ⟨color, turn, front ++ rest⟩
      ⟨color, (Palette.pick turn color).2,
        front ++ ⟨some (Palette.pick turn color).1, .first, []⟩ :: rest⟩
  | within (color : Option Rgb) (turn : Palette.Turn) (front rest : List Outline) {i : Nat}
    {new : Address} {o o' : Outline} (h : Grows (i :: new) o o') :
    Grows (front.length :: i :: new) ⟨color, turn, front ++ o :: rest⟩
      ⟨color, turn, front ++ o' :: rest⟩

/-- The block at an address of `o` is dissolved, with the blocks in it. -/
inductive Shrinks : Address → Outline → Outline → Prop
  | here (color : Option Rgb) (turn : Palette.Turn) (front rest : List Outline) (o : Outline) :
    Shrinks [front.length] ⟨color, turn, front ++ o :: rest⟩ ⟨color, turn, front ++ rest⟩
  | within (color : Option Rgb) (turn : Palette.Turn) (front rest : List Outline) {i : Nat}
    {gone : Address} {o o' : Outline} (h : Shrinks (i :: gone) o o') :
    Shrinks (front.length :: i :: gone) ⟨color, turn, front ++ o :: rest⟩
      ⟨color, turn, front ++ o' :: rest⟩

section Following

/-! Among siblings the numbers of those behind a new or a lost one change, and no others. -/

theorem getElem?_gained (front rest : List Outline) (o : Outline) (i : Nat) :
    (front ++ o :: rest)[if front.length ≤ i then i + 1 else i]? = (front ++ rest)[i]? := by
  split
  · rename_i hle
    rw [List.getElem?_append_right (Nat.le_succ_of_le hle), List.getElem?_append_right hle,
      Nat.succ_sub hle, List.getElem?_cons_succ]
  · rename_i hlt
    rw [List.getElem?_append_left (Nat.lt_of_not_le hlt),
      List.getElem?_append_left (Nat.lt_of_not_le hlt)]

theorem getElem?_lost (front rest : List Outline) (o : Outline) {i : Nat} (h : i ≠ front.length) :
    (front ++ rest)[if front.length < i then i - 1 else i]? = (front ++ o :: rest)[i]? := by
  rw [← getElem?_gained front rest o]
  congr 1
  split <;> split <;> omega

theorem getElem?_other (front rest : List Outline) (o o' : Outline) {i : Nat}
    (h : i ≠ front.length) : (front ++ o :: rest)[i]? = (front ++ o' :: rest)[i]? := by
  rw [← getElem?_lost front rest o h, ← getElem?_lost front rest o' h]

theorem getElem?_same (front rest : List Outline) (o : Outline) :
    (front ++ o :: rest)[front.length]? = some o := by simp

variable {new gone address : Address} {o o' p : Outline}

theorem Grows.at?_new (h : Grows new o o') : ∃ p, o.at? new.dropLast = some p ∧
    o'.at? new = some ⟨some (Palette.pick p.turn p.color).1, .first, []⟩ := by
  induction h with
  | here color turn front rest => exact ⟨_, rfl, by simp [at?]⟩
  | within color turn front rest h ih =>
    obtain ⟨p, hp, hnew⟩ := ih
    exact ⟨p, by simpa [at?] using hp, by simpa [at?] using hnew⟩

/-- Blocks keep their colours. In the block around the new one it is the next turn, in all others
it is the same. -/
theorem Grows.at?_afterMade (h : Grows new o o') (hp : o.at? address = some p) :
    ∃ p', o'.at? (address.afterMade new) = some p' ∧ p'.color = p.color ∧
      p'.turn = if new.dropLast = address then (Palette.pick p.turn p.color).2 else p.turn := by
  induction h generalizing address with
  | here color turn front rest =>
    cases address with
    | nil =>
      obtain rfl := Option.some.inj hp
      exact ⟨_, rfl, rfl, (if_pos rfl).symm⟩
    | cons i address =>
      -- counted anew, any other block of this level is the one that it was
      rw [at?, ← getElem?_gained front rest ⟨some (Palette.pick turn color).1, .first, []⟩] at hp
      exact ⟨p, hp, rfl, (if_neg (List.cons_ne_nil i address).symm).symm⟩
  | @within color turn front rest k new o o' h ih =>
    cases address with
    | nil =>
      obtain rfl := Option.some.inj hp
      exact ⟨_, rfl, rfl, (if_neg (List.cons_ne_nil _ _)).symm⟩
    | cons i address =>
      rw [at?] at hp
      rw [Address.afterMade, List.dropLast_cons_of_ne_nil (List.cons_ne_nil k new)]
      -- the address goes through the block that holds the new one, or past it
      by_cases hi : i = front.length
      · rw [hi, getElem?_same, Option.bind_some] at hp
        obtain ⟨p', hp', hcolor, hturn⟩ := ih hp
        refine ⟨p', ?_, hcolor, ?_⟩
        · rw [if_pos hi, hi, at?, getElem?_same, Option.bind_some, hp']
        · simp only [hi, List.cons.injEq, true_and, hturn]
      · rw [getElem?_other front rest o o' hi] at hp
        rw [if_neg hi]
        exact ⟨p, hp, rfl, (if_neg fun h => hi (List.cons.inj h).1.symm).symm⟩

theorem Shrinks.at?_afterGone? {address' : Address} (h : Shrinks gone o o')
    (hp : o.at? address = some p) (hstays : address.afterGone? gone = some address') :
    ∃ p', o'.at? address' = some p' ∧ p'.color = p.color ∧ p'.turn = p.turn := by
  induction h generalizing address address' with
  | here color turn front rest o =>
    cases address with
    | nil =>
      obtain rfl := Option.some.inj hp
      obtain rfl := Option.some.inj hstays
      exact ⟨_, rfl, rfl, rfl⟩
    | cons i address =>
      rw [at?] at hp
      rw [Address.afterGone?] at hstays
      -- what is in the block is gone with it; the others are counted anew
      split at hstays
      · cases hstays
      · rename_i hi
        obtain rfl := Option.some.inj hstays
        rw [← getElem?_lost front rest o hi] at hp
        exact ⟨p, hp, rfl, rfl⟩
  | @within color turn front rest k gone o o' h ih =>
    cases address with
    | nil =>
      obtain rfl := Option.some.inj hp
      obtain rfl := Option.some.inj hstays
      exact ⟨_, rfl, rfl, rfl⟩
    | cons i address =>
      rw [at?] at hp
      rw [Address.afterGone?] at hstays
      split at hstays
      · rename_i hi
        obtain ⟨inner, hinner, rfl⟩ := Option.map_eq_some_iff.1 hstays
        rw [hi, getElem?_same, Option.bind_some] at hp
        obtain ⟨p', hp', hkept⟩ := ih hp hinner
        refine ⟨p', ?_, hkept⟩
        rw [hi, at?, getElem?_same, Option.bind_some, hp']
      · rename_i hi
        obtain rfl := Option.some.inj hstays
        rw [getElem?_other front rest o o' hi] at hp
        exact ⟨p, hp, rfl, rfl⟩

end Following
end Outline

namespace Node

mutual
def outlines : Node → List Outline
  | leaf .. => []
  | block f cs => [⟨f.color, f.turn, outlinesIn cs⟩]

def outlinesIn : List Node → List Outline
  | [] => []
  | c :: cs => c.outlines ++ outlinesIn cs
end

/-- The address of a block by its path; for a leaf, the one that a block in its place would have. -/
def address : Path → List Node → Address
  | [], _ => []
  | i :: path, cs => (outlinesIn (cs.take i)).length :: match cs[i]? with
    | some (block _ inner) => address path inner
    | _ => []

variable {turn next : Palette.Turn} {around : Option Rgb} {offset first last : Nat}

theorem outlinesIn_append (cs ds : List Node) :
    outlinesIn (cs ++ ds) = outlinesIn cs ++ outlinesIn ds := by
  induction cs with
  | nil => rfl
  | cons c cs ih => rw [List.cons_append, outlinesIn, outlinesIn, ih, List.append_assoc]

theorem outlinesIn_middle (pre post : List Node) (c : Node) :
    outlinesIn (pre ++ c :: post) = outlinesIn pre ++ (c.outlines ++ outlinesIn post) := by
  rw [outlinesIn_append, outlinesIn]

theorem address_middle (pre post : List Node) (f : Frame) (inner : List Node) (path : Path) :
    address (pre.length :: path) (pre ++ block f inner :: post) =
      (outlinesIn pre).length :: address path inner := by
  rw [address, getElem?_middle, List.take_left]

/-- The outline is of the blocks: each is at the address of its path. -/
theorem at?_address {path : Path} {cs inner : List Node} {f : Frame}
    (h : at? path cs = some (block f inner)) (o : Outline) (ho : o.inside = outlinesIn cs) :
    o.at? (address path cs) = some ⟨f.color, f.turn, outlinesIn inner⟩ := by
  induction path generalizing cs o with
  | nil => cases h
  | cons i path ih =>
    have hblock : ∃ g inner', cs[i]? = some (block g inner') ∧
        (path = [] ∧ g = f ∧ inner' = inner ∨ at? path inner' = some (block f inner)) := by
      cases path with
      | nil => exact ⟨f, inner, h, .inl ⟨rfl, rfl, rfl⟩⟩
      | cons j path =>
        rw [at?] at h
        split at h
        · rename_i g inner' hat
          exact ⟨g, inner', hat, .inr h⟩
        · cases h
    obtain ⟨g, inner', hat, hpath⟩ := hblock
    obtain ⟨pre, post, rfl, rfl⟩ := exists_middle hat
    have hinside : o.inside[(outlinesIn pre).length]? =
        some ⟨g.color, g.turn, outlinesIn inner'⟩ := by
      rw [ho, outlinesIn_middle, outlines, List.singleton_append, Outline.getElem?_same]
    rw [address_middle, Outline.at?, hinside, Option.bind_some]
    rcases hpath with ⟨rfl, rfl, rfl⟩ | hpath
    · rfl
    · exact ih hpath _ rfl

mutual
theorem outlines_reflow (start : Nat) : (n : Node) → (n.reflow start).outlines = n.outlines
  | leaf .. => rfl
  | block f cs => by rw [reflow, outlines, outlines, outlinesIn_reflowFrom 0 cs]

@[simp] theorem outlinesIn_reflowFrom (start : Nat) : (cs : List Node) →
    outlinesIn (reflowFrom start cs) = outlinesIn cs
  | [] => rfl
  | c :: cs => by
    rw [reflowFrom, outlinesIn, outlinesIn, outlines_reflow start c, outlinesIn_reflowFrom _ cs]
end

mutual
theorem outlines_shape : (n : Node) → n.shape.outlines = n.outlines
  | leaf .. => rfl
  | block f cs => by rw [shape, outlines, outlines, outlinesIn_shapes cs]

theorem outlinesIn_shapes : (cs : List Node) → outlinesIn (shapes cs) = outlinesIn cs
  | [] => rfl
  | c :: cs => by rw [shapes, outlinesIn, outlinesIn, outlines_shape c, outlinesIn_shapes cs]
end

@[simp] theorem outlinesIn_mergeLeaves (cs : List Node) :
    outlinesIn (mergeLeaves cs) = outlinesIn cs := by
  induction cs with
  | nil => rfl
  | cons c cs ih =>
    rcases mergeLeaves_cons c cs with ⟨s, t, p, u, more, rfl, hrest, heq⟩ | ⟨heq, -⟩
    · rw [hrest] at ih
      rw [heq]
      exact ih
    · rw [heq, outlinesIn, outlinesIn, ih]

theorem outlinesIn_split {t : Text} {nodes : List Node}
    (h : split turn around offset t first last = some (next, nodes)) :
    next = (Palette.pick turn around).2 ∧
      outlinesIn nodes = [⟨some (Palette.pick turn around).1, .first, []⟩] := by
  unfold split at h
  dsimp only at h
  split at h
  · cases h
  · obtain ⟨rfl, rfl⟩ := Prod.mk.inj (Option.some.inj h)
    refine ⟨rfl, ?_⟩
    have hnone : ∀ (u : Text) (p : Nat),
        outlinesIn (if u.isEmpty then [] else [leaf p u]) = [] := by
      intro u p
      cases u with
      | nil => rfl
      | cons c u => rfl
    rw [outlinesIn_middle, hnone, hnone]
    rfl

theorem grows_boxIn {path : Path} {cs nodes : List Node} {t : Text} {b a : List Leaf}
    (h : leavesFrom 0 cs = b ++ ⟨path, t⟩ :: a) (hle : first ≤ last)
    (hb : (Leaf.spell b).length ≤ first) (hlt : first < (Leaf.spell b).length + t.length)
    (hbox : boxIn turn around offset first last cs = some (next, nodes)) :
    Outline.Grows (address path cs) ⟨around, turn, outlinesIn cs⟩
      ⟨around, next, outlinesIn nodes⟩ := by
  induction path generalizing cs nodes b a turn next around offset first last with
  | nil => exact absurd h leavesFrom_ne_nil_path
  | cons j path ih =>
    obtain ⟨pre, c, post, b', a', rfl, rfl, hc, rfl, -⟩ := exists_child_of_cons h
    have hstop := leaf_stop_le hc
    rw [length_before] at hb hlt
    rw [boxIn_middle hle (by omega) (by omega)] at hbox
    split at hbox
    · obtain ⟨⟨next', nodes'⟩, hinner, hresult⟩ := Option.map_eq_some_iff.1 hbox
      obtain ⟨rfl, rfl⟩ := Prod.mk.inj hresult
      rw [outlinesIn_middle, outlinesIn_append, outlinesIn_append]
      cases c with
      | leaf s u =>
        obtain ⟨rfl, hl, -⟩ := of_leaves_leaf hc
        obtain ⟨rfl, -⟩ := Leaf.mk.inj hl
        -- the leaf is cut here, and of what it is cut into only the middle is a block
        obtain ⟨rfl, hnodes⟩ := outlinesIn_split hinner
        rw [hnodes, address, getElem?_middle, List.take_left]
        exact .here around turn (outlinesIn pre) (outlinesIn post)
      | block f inner =>
        cases path with
        | nil => exact absurd hc leavesFrom_ne_nil_path
        | cons k path =>
          obtain ⟨⟨turn', inner'⟩, hin, hboxed⟩ := Option.map_eq_some_iff.1 hinner
          obtain ⟨rfl, rfl⟩ := Prod.mk.inj hboxed
          have hgrows := ih hc (by omega) (by omega) (by omega) hin
          rw [address_middle]
          exact .within around turn (outlinesIn pre) (outlinesIn post) hgrows
    · cases hbox

theorem shrinks_unbox {path : Path} {cs ds : List Node} (h : unbox path cs = some ds) :
    Outline.Shrinks (address path cs) ⟨around, turn, outlinesIn cs⟩
      ⟨around, turn, outlinesIn ds⟩ := by
  fun_induction unbox path cs generalizing ds turn around with
  | case2 i cs f inner hat hclosable =>
    obtain rfl := Option.some.inj h
    obtain ⟨pre, post, rfl, rfl⟩ := exists_middle hat
    rw [outlinesIn_mergeLeaves, set_middle, outlinesIn_middle, outlinesIn_middle, address_middle]
    exact .here around turn (outlinesIn pre) (outlinesIn post) _
  | case5 i j path cs f inner hat ih =>
    obtain ⟨inner', hinner, rfl⟩ := Option.map_eq_some_iff.1 h
    obtain ⟨pre, post, rfl, rfl⟩ := exists_middle hat
    rw [set_middle, outlinesIn_middle, outlinesIn_middle, address_middle]
    exact .within around turn (outlinesIn pre) (outlinesIn post) (ih hinner)
  | _ => cases h

end Node
end QueryLine
