import Mathlib.Algebra.Ring.Nat
import Mathlib.Logic.Function.Iterate
import QueryLine.Proofs.Caret

/-!
The caret as a walker along a row of leaves. However the leaves are nested, a step of the caret is
a step along the row; the opposite step undoes it, and going right comes to the end after as many
steps as there are characters and leaves ahead.
-/

namespace QueryLine

open Leaf (spell)

/-- A spot in a row of leaves: the number of a leaf, and an offset in it. -/
structure Spot where
  leaf : Nat
  offset : Nat
  deriving DecidableEq, Repr

namespace Spot

/-- The spot to the left in a row of leaves of these lengths, unless this is the start. -/
def left? (row : List Nat) : Spot → Option Spot
  | ⟨k, o + 1⟩ => some ⟨k, o⟩
  | ⟨k + 1, 0⟩ => some ⟨k, row.getD k 0⟩
  | ⟨0, 0⟩ => none

def right? (row : List Nat) (s : Spot) : Option Spot :=
  if s.offset < row.getD s.leaf 0 then some ⟨s.leaf, s.offset + 1⟩
  else if s.leaf + 1 < row.length then some ⟨s.leaf + 1, 0⟩
  else none

/-- How many characters are in front of a spot. -/
def position (row : List Nat) (s : Spot) : Nat := (row.take s.leaf).sum + s.offset

/-- How many characters and how many leaves are behind a spot. -/
def ahead (row : List Nat) (s : Spot) : Nat :=
  (row.sum - s.position row) + (row.length - 1 - s.leaf)

/-- The spot is in the leaf of length `n` between those in front and those behind. -/
structure In (pre : List Nat) (n : Nat) (post : List Nat) (s : Spot) : Prop where
  leaf : s.leaf = pre.length
  offset_le : s.offset ≤ n

variable {pre post : List Nat} {n : Nat} {r s : Spot}

theorem getD_middle (pre post : List Nat) (n : Nat) : (pre ++ n :: post).getD pre.length 0 = n := by
  simp [List.getD_eq_getElem?_getD]

theorem In.right?_inside (h : s.In pre n post) (hlt : s.offset < n) :
    s.right? (pre ++ n :: post) = some ⟨pre.length, s.offset + 1⟩ := by
  unfold right?
  rw [h.leaf, getD_middle, if_pos hlt]

theorem In.right?_stop (h : s.In pre n post) (hge : n ≤ s.offset) :
    s.right? (pre ++ n :: post) =
      if post = [] then none else some ⟨pre.length + 1, 0⟩ := by
  unfold right?
  rw [h.leaf, getD_middle, if_neg (Nat.not_lt.2 hge)]
  cases post with
  | nil => simp
  | cons m post => simp

theorem In.ahead_eq (h : s.In pre n post) :
    s.ahead (pre ++ n :: post) = (n - s.offset + post.sum) + post.length := by
  have hle := h.offset_le
  have hsum : (pre ++ n :: post).sum = pre.sum + (n + post.sum) := by
    rw [List.sum_append, List.sum_cons]
  have hposition : s.position (pre ++ n :: post) = pre.sum + s.offset := by
    rw [position, h.leaf, List.take_left]
  unfold ahead
  rw [hsum, hposition, h.leaf, List.length_append, List.length_cons]
  omega

theorem left?_ne {row : List Nat} (h : s.left? row = some r) : r ≠ s := by
  obtain ⟨k, o⟩ := s
  cases o with
  | succ o =>
    cases h
    simp
  | zero =>
    cases k with
    | succ k =>
      cases h
      simp
    | zero => cases h

theorem right?_ne {row : List Nat} (h : s.right? row = some r) : r ≠ s := by
  rintro rfl
  unfold right? at h
  split at h
  · have hoffset := congrArg offset (Option.some.inj h)
    dsimp only at hoffset
    omega
  · split at h
    · have hleaf := congrArg leaf (Option.some.inj h)
      dsimp only at hleaf
      omega
    · cases h

theorem In.right?_of_left? (h : s.In pre n post) (hr : s.left? (pre ++ n :: post) = some r) :
    r.right? (pre ++ n :: post) = some s := by
  obtain ⟨k, o⟩ := s
  obtain ⟨hk, hle⟩ := h
  dsimp only at hk hle
  subst hk
  cases o with
  | succ o =>
    obtain rfl := Option.some.inj hr
    have hin : (Spot.mk pre.length o).In pre n post := ⟨rfl, Nat.le_of_succ_le hle⟩
    exact hin.right?_inside hle
  | zero =>
    -- the end of the leaf in front is left of the start of this one
    rcases List.eq_nil_or_concat pre with rfl | ⟨front, m, rfl⟩
    · cases hr
    · rw [List.concat_eq_append, List.length_append, List.length_singleton] at hr ⊢
      rw [List.append_assoc, List.singleton_append] at hr ⊢
      obtain rfl := Option.some.inj hr
      have hin : (Spot.mk front.length ((front ++ m :: n :: post).getD front.length 0)).In
          front m (n :: post) := ⟨rfl, Nat.le_of_eq (getD_middle _ _ _)⟩
      rw [hin.right?_stop (Nat.le_of_eq (getD_middle _ _ _).symm)]
      rfl

theorem In.left?_of_right? (h : s.In pre n post) (hr : s.right? (pre ++ n :: post) = some r) :
    r.left? (pre ++ n :: post) = some s := by
  by_cases hlt : s.offset < n
  · rw [h.right?_inside hlt] at hr
    obtain rfl := Option.some.inj hr
    rw [left?, ← h.leaf]
  · have hle := h.offset_le
    have hoffset : n = s.offset := by omega
    rw [h.right?_stop (Nat.le_of_not_lt hlt)] at hr
    split at hr
    · cases hr
    · obtain rfl := Option.some.inj hr
      rw [left?, getD_middle, hoffset, ← h.leaf]

theorem In.right?_eq_none_iff (h : s.In pre n post) :
    s.right? (pre ++ n :: post) = none ↔ s.ahead (pre ++ n :: post) = 0 := by
  rw [h.ahead_eq]
  by_cases hlt : s.offset < n
  · rw [h.right?_inside hlt]
    exact iff_of_false (Option.some_ne_none _) (by omega)
  · rw [h.right?_stop (Nat.le_of_not_lt hlt)]
    cases post with
    | nil =>
      refine iff_of_true rfl ?_
      simp only [List.sum_nil, List.length_nil]
      omega
    | cons m post => simp

/-- A step to the right leaves one character or one leaf less ahead. -/
theorem In.ahead_right? (h : s.In pre n post) (hr : s.right? (pre ++ n :: post) = some r) :
    r.ahead (pre ++ n :: post) + 1 = s.ahead (pre ++ n :: post) := by
  by_cases hlt : s.offset < n
  · rw [h.right?_inside hlt] at hr
    obtain rfl := Option.some.inj hr
    have hin : (Spot.mk pre.length (s.offset + 1)).In pre n post := ⟨rfl, hlt⟩
    rw [h.ahead_eq, hin.ahead_eq]
    dsimp only
    omega
  · rw [h.right?_stop (Nat.le_of_not_lt hlt)] at hr
    cases post with
    | nil => cases hr
    | cons m post =>
      obtain rfl := Option.some.inj hr
      have hin : (Spot.mk (pre.length + 1) 0).In (pre ++ [n]) m post :=
        ⟨by simp, Nat.zero_le m⟩
      have hahead := hin.ahead_eq
      rw [List.append_assoc, List.singleton_append] at hahead
      rw [h.ahead_eq, hahead, List.sum_cons, List.length_cons]
      dsimp only
      omega

end Spot

def Block.row (b : Block) : List Nat := b.leaves.map fun l => l.text.length

theorem Leaf.sum_lengths (ls : List Leaf) :
    (ls.map fun l => l.text.length).sum = (spell ls).length := by
  induction ls with
  | nil => rfl
  | cons l ls ih => rw [List.map_cons, List.sum_cons, ih, spell_cons, List.length_append]

namespace Document

def spot (d : Document) : Spot :=
  ⟨d.root.leaves.findIdx fun l => l.path = d.caret.focus, d.caretPlace.offset⟩

/-- `e` is `d` with the caret gone to a spot, which is told. -/
structure Goes (d : Document) (s : Spot) (e : Document) : Prop where
  root : e.root = d.root
  spot : e.spot = s
  position : e.caret.position = s.position d.root.row
  events : e.events = (DocumentEvent.caretMoved e.caret.position).queue d.events

def AtEnd (d : Document) : Prop :=
  d.caret.position = d.length ∧ d.spot.leaf + 1 = d.root.leaves.length

namespace CaretIn

variable {d : Document} {b a : List Leaf} {t : Text}

theorem row_eq (h : d.CaretIn b t a) : d.root.row =
    (b.map fun l => l.text.length) ++ t.length :: a.map fun l => l.text.length := by
  rw [Block.row, h.leaves, List.map_append, List.map_cons]

theorem spot_eq (h : d.CaretIn b t a) : d.spot = ⟨b.length, d.caretPlace.offset⟩ := by
  have hnodup := d.root.nodup_leaves
  rw [h.leaves] at hnodup
  have hfront := (Leaf.path_ne_of_nodup hnodup).1
  have hskip : b.findIdx (fun l => l.path = d.caret.focus) = b.length :=
    List.findIdx_eq_length_of_false fun l hl => decide_eq_false (hfront l hl)
  unfold spot
  rw [h.leaves, List.findIdx_append, hskip, if_neg (Nat.lt_irrefl _), List.findIdx_cons]
  simp

theorem spot_in (h : d.CaretIn b t a) (hroot : d.root.Sound) :
    d.spot.In (b.map fun l => l.text.length) t.length (a.map fun l => l.text.length) := by
  rw [h.spot_eq]
  exact ⟨by rw [List.length_map], h.offset_le hroot⟩

end CaretIn

namespace Sound

variable {d e : Document}

theorem goes_moved (h : d.Sound) {p : Place} {b a : List Leaf} {t : Text}
    (hleaves : d.root.leaves = b ++ ⟨p.path, t⟩ :: a) (hle : p.offset ≤ t.length) :
    d.Goes ⟨b.length, p.offset⟩ (d.step (.moved p)) := by
  have hstart := h.root.offset?_of_leaves hleaves
  have hposition : (d.step (.moved p)).caret.position = (spell b).length + p.offset := by
    simp only [Document.step, Document.queue, hstart, Option.getD_some]
  have hin : (d.step (.moved p)).CaretIn b t a := ⟨hleaves, by omega, by omega⟩
  have hoffset := hin.offset h.root
  refine ⟨rfl, ?_, ?_, rfl⟩
  · rw [hin.spot_eq]
    congr 1
    omega
  · have hrow : d.root.row = _ := hin.row_eq
    rw [hposition, hrow, Spot.position, List.take_left' (by rw [List.length_map]),
      Leaf.sum_lengths]

/-- The caret steps left as the walker does. -/
theorem left_walks (h : d.Sound) :
    match d.spot.left? d.root.row with
    | some s => d.Goes s d.left
    | none => d.left = d.queue .beforeStart := by
  obtain ⟨b, t, a, hin⟩ := h.caret
  have hleft : d.left = d.step (.leftOf d.caretPlace.offset d.caret.focus b) :=
    congrArg d.step (h.stepLeft_eq hin)
  have hle := hin.offset_le h.root
  rw [hleft, hin.spot_eq]
  cases hoffset : d.caretPlace.offset with
  | succ o =>
    have hgoes := h.goes_moved (p := ⟨d.caret.focus, o⟩) hin.leaves (by dsimp only; omega)
    exact hgoes
  | zero =>
    rcases List.eq_nil_or_concat b with rfl | ⟨b, l, rfl⟩
    · exact rfl
    · rw [List.concat_eq_append] at hin ⊢
      have hleaves := hin.leaves
      rw [List.append_assoc, List.singleton_append] at hleaves
      have hgoes := h.goes_moved (p := ⟨l.path, l.text.length⟩) hleaves (Nat.le_refl _)
      have hlength : d.root.row[b.length]? = some l.text.length := by simp [Block.row, hleaves]
      simpa [Spot.left?, Step.leftOf, hlength] using hgoes

theorem right_walks (h : d.Sound) :
    match d.spot.right? d.root.row with
    | some s => d.Goes s d.right
    | none => d.right = d.queue .afterEnd := by
  obtain ⟨b, t, a, hin⟩ := h.caret
  have hright : d.right = d.step (.rightOf d.caretPlace.offset d.caret.focus t a) :=
    congrArg d.step (h.stepRight_eq hin)
  have hspot := hin.spot_in h.root
  have hoffset : d.spot.offset = d.caretPlace.offset := rfl
  rw [hright, hin.row_eq]
  by_cases hlt : d.caretPlace.offset < t.length
  · have hgoes := h.goes_moved (p := ⟨d.caret.focus, d.caretPlace.offset + 1⟩) hin.leaves hlt
    rw [hspot.right?_inside hlt]
    simpa [Step.rightOf, hlt, hoffset] using hgoes
  · rw [hspot.right?_stop (Nat.le_of_not_lt hlt)]
    cases a with
    | nil => simp [Step.rightOf, hlt, Document.step]
    | cons l a =>
      have hleaves := hin.leaves
      rw [List.append_cons] at hleaves
      have hgoes := h.goes_moved (p := ⟨l.path, 0⟩) hleaves (Nat.zero_le _)
      simpa [Step.rightOf, hlt] using hgoes

theorem caret_eq_of_spot (h : d.Sound) (he : e.Sound) (hroot : e.root = d.root)
    (hspot : e.spot = d.spot) : e.caret = d.caret := by
  obtain ⟨b, t, a, hin⟩ := h.caret
  obtain ⟨b', t', a', hin'⟩ := he.caret
  have hleaves := hin.leaves
  rw [← hroot, hin'.leaves] at hleaves
  rw [hin.spot_eq, hin'.spot_eq, Spot.mk.injEq] at hspot
  obtain ⟨hlength, hoffset⟩ := hspot
  obtain ⟨rfl, hrest⟩ := List.append_inj hleaves hlength
  have hfocus : e.caret.focus = d.caret.focus := congrArg Leaf.path (List.cons.inj hrest).1
  have hposition : e.caret.position = d.caret.position := by
    rw [← hin.offset h.root, ← hin'.offset he.root, hoffset]
  calc e.caret = ⟨e.caret.position, e.caret.focus⟩ := rfl
    _ = ⟨d.caret.position, d.caret.focus⟩ := by rw [hposition, hfocus]
    _ = d.caret := rfl

theorem undo_left (h : d.Sound) {s : Spot} (hs : d.spot.left? d.root.row = some s) :
    d.left.right.root = d.root ∧ d.left.right.caret = d.caret := by
  obtain ⟨b, t, a, hin⟩ := h.caret
  have hleft := h.left_walks
  have hright := h.left.right_walks
  rw [hs] at hleft
  have hback : s.right? d.root.row = some d.spot := by
    rw [hin.row_eq] at hs ⊢
    exact (hin.spot_in h.root).right?_of_left? hs
  rw [hleft.root, hleft.spot, hback] at hright
  have hroot := hright.root.trans hleft.root
  exact ⟨hroot, h.caret_eq_of_spot h.left.right hroot hright.spot⟩

theorem undo_right (h : d.Sound) {s : Spot} (hs : d.spot.right? d.root.row = some s) :
    d.right.left.root = d.root ∧ d.right.left.caret = d.caret := by
  obtain ⟨b, t, a, hin⟩ := h.caret
  have hright := h.right_walks
  have hleft := h.right.left_walks
  rw [hs] at hright
  have hback : s.left? d.root.row = some d.spot := by
    rw [hin.row_eq] at hs ⊢
    exact (hin.spot_in h.root).left?_of_right? hs
  rw [hright.root, hright.spot, hback] at hleft
  have hroot := hleft.root.trans hright.root
  exact ⟨hroot, h.caret_eq_of_spot h.right.left hroot hleft.spot⟩

theorem ahead_eq (h : d.Sound) : d.spot.ahead d.root.row =
    (d.length - d.caret.position) + (d.root.leaves.length - 1 - d.spot.leaf) := by
  obtain ⟨b, t, a, hin⟩ := h.caret
  have hsum : d.root.row.sum = d.length := by
    rw [Block.row, Leaf.sum_lengths, Block.spell_leaves]
    rfl
  have hposition : d.spot.position d.root.row = d.caret.position := by
    rw [← hin.offset h.root, hin.row_eq, hin.spot_eq, Spot.position,
      List.take_left' (by rw [List.length_map]), Leaf.sum_lengths]
  rw [Spot.ahead, hsum, hposition, Block.row, List.length_map]

theorem atEnd_iff (h : d.Sound) : d.AtEnd ↔ d.spot.ahead d.root.row = 0 := by
  obtain ⟨b, t, a, hin⟩ := h.caret
  have hle := hin.position_le
  have hleaf : d.spot.leaf + 1 ≤ d.root.leaves.length := by
    rw [hin.spot_eq, hin.leaves, List.length_append, List.length_cons]
    dsimp only
    omega
  rw [h.ahead_eq, AtEnd]
  omega

/-- Each step to the right takes one off what is ahead, down to nothing. -/
theorem ahead_right (h : d.Sound) :
    d.right.spot.ahead d.right.root.row = d.spot.ahead d.root.row - 1 := by
  obtain ⟨b, t, a, hin⟩ := h.caret
  have hright := h.right_walks
  cases hs : d.spot.right? d.root.row with
  | some s =>
    rw [hs] at hright
    rw [hright.root, hright.spot]
    rw [hin.row_eq] at hs ⊢
    have hahead := (hin.spot_in h.root).ahead_right? hs
    omega
  | none =>
    rw [hs] at hright
    rw [hin.row_eq, (hin.spot_in h.root).right?_eq_none_iff, ← hin.row_eq] at hs
    have hstays : d.right.spot.ahead d.right.root.row = d.spot.ahead d.root.row := by
      rw [hright]
      rfl
    omega

theorem atEnd_iterate_right (h : d.Sound) (m : Nat) :
    (Document.right^[m] d).AtEnd ↔ d.spot.ahead d.root.row ≤ m := by
  induction m generalizing d with
  | zero => exact h.atEnd_iff.trans Nat.le_zero.symm
  | succ m ih =>
    rw [Function.iterate_succ_apply, ih h.right, h.ahead_right]
    omega

end Sound

/-- After any run the caret walks along the leaves: it is in the leaf that its spot says, each step
is the walker's or is refused and told so, a step that is made is undone by the opposite one, and
steps to the right come to the end when all that is ahead has been passed, not before. -/
theorem run_caret_walks (t : Text) (actions : List Action) :
    let d := (ofText t).run actions
    (∃ u, d.root.leaves[d.spot.leaf]? = some ⟨d.caret.focus, u⟩ ∧ d.spot.offset ≤ u.length) ∧
    (match d.spot.left? d.root.row with
      | some s => d.Goes s d.left ∧ d.left.right.root = d.root ∧ d.left.right.caret = d.caret
      | none => d.left = d.queue .beforeStart) ∧
    (match d.spot.right? d.root.row with
      | some s => d.Goes s d.right ∧ d.right.left.root = d.root ∧ d.right.left.caret = d.caret
      | none => d.right = d.queue .afterEnd) ∧
    ∀ m, (right^[m] d).AtEnd ↔
      (d.length - d.caret.position) + (d.root.leaves.length - 1 - d.spot.leaf) ≤ m := by
  intro d
  have h : d.Sound := sound_run t actions
  obtain ⟨b, u, a, hin⟩ := h.caret
  refine ⟨⟨u, ?_, hin.offset_le h.root⟩, ?_, ?_, fun m => ?_⟩
  · rw [hin.spot_eq, hin.leaves]
    simp
  · have hleft := h.left_walks
    cases hs : d.spot.left? d.root.row with
    | none => rwa [hs] at hleft
    | some s =>
      rw [hs] at hleft
      exact ⟨hleft, h.undo_left hs⟩
  · have hright := h.right_walks
    cases hs : d.spot.right? d.root.row with
    | none => rwa [hs] at hright
    | some s =>
      rw [hs] at hright
      exact ⟨hright, h.undo_right hs⟩
  · rw [h.atEnd_iterate_right, h.ahead_eq]

end Document
end QueryLine
