import QueryLine.Proofs.Leaves

/-!
Places in the list of leaves: where a position is found, and where a step of the caret leads.
-/

namespace QueryLine

open Leaf (under spell)

def Leaf.shifted (l : Leaf) : Leaf := ⟨((⟨l.path, 0⟩ : Place).shifted).path, l.text⟩

/-- `p` is where `position` is found among leaves: `b` are the leaves in front of the one it is in,
`a` those behind, and `t` its text. -/
structure Found (ls : List Leaf) (position : Nat) (p : Place) (b : List Leaf) (t : Text)
    (a : List Leaf) : Prop where
  leaves : ls = b ++ ⟨p.path, t⟩ :: a
  offset : (spell b).length + p.offset = min position (spell ls).length
  inside : position < (spell ls).length → p.offset < t.length
  last : (spell ls).length ≤ position → p.offset = t.length ∧ a = []

namespace Found

variable {ls : List Leaf} {position : Nat} {p : Place} {b a : List Leaf} {t : Text}

theorem map {f : Leaf → Leaf} {q : Place} (h : Found ls position p b t a)
    (htext : ∀ l, (f l).text = l.text) (hpath : (f ⟨p.path, t⟩).path = q.path)
    (hoffset : q.offset = p.offset) : Found (ls.map f) position q (b.map f) t (a.map f) := by
  have hspell : ∀ ms : List Leaf, spell (ms.map f) = spell ms := by
    intro ms
    induction ms with
    | nil => rfl
    | cons m ms ih => simp [ih, htext]
  have hleaf : f ⟨p.path, t⟩ = ⟨q.path, t⟩ := by
    rw [← hpath]
    exact congrArg (Leaf.mk _) (htext ⟨p.path, t⟩)
  refine ⟨by simp [h.leaves, hleaf], ?_, ?_, ?_⟩
  · rw [hspell, hspell, hoffset]
    exact h.offset
  · rw [hspell, hoffset]
    exact h.inside
  · rw [hspell, hoffset]
    intro hle
    exact ⟨(h.last hle).1, by simp [(h.last hle).2]⟩

theorem inChild (h : Found ls position p b t a) (i : Nat) :
    Found (ls.map (under i)) position (p.under i) (b.map (under i)) t (a.map (under i)) :=
  h.map (fun _ => rfl) rfl rfl

theorem append (h : Found ls position p b t a) (hlt : position < (spell ls).length)
    (ms : List Leaf) : Found (ls ++ ms) position p b t (a ++ ms) := by
  have hsum := h.offset
  refine ⟨by simp [h.leaves], ?_, fun _ => h.inside hlt, fun hle => ?_⟩
  · rw [Leaf.spell_append, List.length_append]
    omega
  · rw [Leaf.spell_append, List.length_append] at hle
    omega

theorem prepend {ms : List Leaf} {whole : Nat} (h : Found ls position p b t a)
    (hwhole : whole = (spell ms).length + position) : Found (ms ++ ls) whole p (ms ++ b) t a := by
  have hsum := h.offset
  refine ⟨by simp [h.leaves], ?_, fun hlt => h.inside ?_, fun hge => h.last ?_⟩
  · rw [Leaf.spell_append, Leaf.spell_append, List.length_append, List.length_append]
    omega
  · rw [Leaf.spell_append, List.length_append] at hlt
    omega
  · rw [Leaf.spell_append, List.length_append] at hge
    omega

end Found

namespace Node

theorem leavesFrom_succ (i : Nat) (cs : List Node) :
    leavesFrom (i + 1) cs = (leavesFrom i cs).map Leaf.shifted := by
  induction cs generalizing i with
  | nil => rfl
  | cons c cs ih =>
    rw [leavesFrom, leavesFrom, List.map_append, ih (i + 1), List.map_map]
    rfl

theorem leavesFrom_singleton (i : Nat) (c : Node) : leavesFrom i [c] = c.leaves.map (under i) :=
  List.append_nil _

theorem found_shifted {cs : List Node} {position : Nat} {p : Place} {b a : List Leaf} {t : Text}
    (h : Found (leavesFrom 0 cs) position p b t a) :
    Found (leavesFrom 1 cs) position p.shifted (b.map .shifted) t (a.map .shifted) := by
  rw [leavesFrom_succ]
  refine h.map (fun _ => rfl) ?_ ?_
  · obtain ⟨path, offset⟩ := p
    cases path <;> rfl
  · obtain ⟨path, offset⟩ := p
    cases path <;> rfl

mutual
theorem found_locate {around : Option Rgb} : (n : Node) → (position : Nat) → n.Framed around →
    ∃ b t a, Found n.leaves position (n.locate position) b t a
  | leaf _ t, position, _ => by
    refine ⟨[], t, [], rfl, ?_, ?_, ?_⟩
    · simp [leaves, locate]
    · simp only [leaves, locate, Leaf.spell_cons, Leaf.spell_nil, List.append_nil]
      omega
    · simp only [leaves, locate, Leaf.spell_cons, Leaf.spell_nil, List.append_nil, and_true]
      omega
  | block _ cs, position, ⟨_, hne, hin⟩ => found_locateIn cs position hne hin

theorem found_locateIn {around : Option Rgb} : (cs : List Node) → (position : Nat) → cs ≠ [] →
    FramedIn around cs →
      ∃ b t a, Found (leavesFrom 0 cs) position (locateIn position cs) b t a
  | [], _, hne, _ => absurd rfl hne
  | [c], position, _, ⟨hc, _⟩ => by
    obtain ⟨b, t, a, h⟩ := found_locate c position hc
    rw [leavesFrom_singleton]
    exact ⟨_, _, _, h.inChild 0⟩
  | c :: d :: cs, position, _, ⟨hc, hcs⟩ => by
    have hlength : (spell (c.leaves.map (under 0))).length = c.length := by
      rw [Leaf.spell_under, spell_leaves, length]
    unfold locateIn
    split
    · rename_i hlt
      obtain ⟨b, t, a, h⟩ := found_locate c position hc
      exact ⟨_, _, _, (h.inChild 0).append (by rw [hlength]; exact hlt) _⟩
    · rename_i hge
      obtain ⟨b, t, a, h⟩ := found_locateIn (d :: cs) (position - c.length) (by simp) hcs
      exact ⟨_, _, _, (found_shifted h).prepend (by rw [hlength]; omega)⟩
end

mutual
theorem leaves_firstPlace {around : Option Rgb} : (n : Node) → n.Framed around →
    ∃ t a, n.leaves = ⟨n.firstPlace.path, t⟩ :: a ∧ n.firstPlace.offset = 0
  | leaf _ t, _ => ⟨t, [], rfl, rfl⟩
  | block _ cs, ⟨_, hne, hin⟩ => leavesFrom_firstPlaceIn cs hne hin

theorem leavesFrom_firstPlaceIn {around : Option Rgb} : (cs : List Node) → cs ≠ [] →
    FramedIn around cs →
      ∃ t a, leavesFrom 0 cs = ⟨(firstPlaceIn cs).path, t⟩ :: a ∧ (firstPlaceIn cs).offset = 0
  | [], hne, _ => absurd rfl hne
  | c :: cs, _, ⟨hc, _⟩ => by
    obtain ⟨t, a, hleaves, hoffset⟩ := leaves_firstPlace c hc
    refine ⟨t, a.map (under 0) ++ leavesFrom 1 cs, ?_, hoffset⟩
    rw [leavesFrom, hleaves]
    rfl
end

mutual
theorem leaves_lastPlace {around : Option Rgb} : (n : Node) → n.Framed around →
    ∃ b t, n.leaves = b ++ [⟨n.lastPlace.path, t⟩] ∧ n.lastPlace.offset = t.length
  | leaf _ t, _ => ⟨[], t, rfl, rfl⟩
  | block _ cs, ⟨_, hne, hin⟩ => leavesFrom_lastPlaceIn cs hne hin

theorem leavesFrom_lastPlaceIn {around : Option Rgb} : (cs : List Node) → cs ≠ [] →
    FramedIn around cs →
      ∃ b t, leavesFrom 0 cs = b ++ [⟨(lastPlaceIn cs).path, t⟩] ∧
        (lastPlaceIn cs).offset = t.length
  | [], hne, _ => absurd rfl hne
  | [c], _, ⟨hc, _⟩ => by
    obtain ⟨b, t, hleaves, hoffset⟩ := leaves_lastPlace c hc
    refine ⟨b.map (under 0), t, ?_, hoffset⟩
    rw [leavesFrom_singleton, hleaves, List.map_append]
    rfl
  | c :: d :: cs, _, ⟨_, hcs⟩ => by
    obtain ⟨b, t, hleaves, hoffset⟩ := leavesFrom_lastPlaceIn (d :: cs) (by simp) hcs
    refine ⟨c.leaves.map (under 0) ++ b.map .shifted, t, ?_, ?_⟩
    · rw [leavesFrom, leavesFrom_succ, hleaves, List.map_append, ← List.append_assoc]
      rw [lastPlaceIn]
      cases lastPlaceIn (d :: cs) with | mk path offset => cases path <;> rfl
    · rw [lastPlaceIn, ← hoffset]
      cases lastPlaceIn (d :: cs) with | mk path offset => cases path <;> rfl
end

end Node

/-- The step left from `offset` in the leaf at `path`, with `b` the leaves in front. -/
def Step.leftOf (offset : Nat) (path : Path) (b : List Leaf) : Step :=
  if 0 < offset then .moved ⟨path, offset - 1⟩
  else match b.getLast? with
    | some l => .moved ⟨l.path, l.text.length⟩
    | none => .beforeStart

/-- The step right from `offset` in the leaf `t` at `path`, with `a` the leaves behind. -/
def Step.rightOf (offset : Nat) (path : Path) (t : Text) (a : List Leaf) : Step :=
  if offset < t.length then .moved ⟨path, offset + 1⟩
  else match a.head? with
    | some l => .moved ⟨l.path, 0⟩
    | none => .afterEnd

namespace Node

theorem outToLeft_leftOf {around : Option Rgb} {pre post : List Node} (c : Node) (offset : Nat)
    (path : Path) (b : List Leaf) (hframed : FramedIn around pre) :
    outToLeft (pre ++ c :: post) pre.length (.leftOf offset path b) =
      .leftOf offset (pre.length :: path) (leavesFrom 0 pre ++ b.map (under pre.length)) := by
  -- a step out of the child is seen only where no leaf inside is in front
  by_cases hoffset : 0 < offset
  · simp [Step.leftOf, hoffset, outToLeft, Step.under, Place.under]
  · rcases List.eq_nil_or_concat b with rfl | ⟨b, l, rfl⟩
    · rcases List.eq_nil_or_concat pre with rfl | ⟨pre, d, rfl⟩
      · simp [Step.leftOf, hoffset, outToLeft, Step.under, leavesFrom]
      · rw [List.concat_eq_append] at hframed ⊢
        obtain ⟨hd, -⟩ := (framedIn_append.1 hframed).2
        obtain ⟨bd, u, hleaves, hlast⟩ := leaves_lastPlace d hd
        simp [Step.leftOf, hoffset, outToLeft, leavesFrom_append, leavesFrom_singleton, hleaves,
          hlast, under, Place.under]
    · simp [Step.leftOf, hoffset, outToLeft, Step.under, under, Place.under]

theorem stepLeft_eq {around : Option Rgb} {offset : Nat} {path : Path} {cs : List Node} {t : Text}
    {b a : List Leaf} (hframed : FramedIn around cs)
    (h : leavesFrom 0 cs = b ++ ⟨path, t⟩ :: a) :
    stepLeft offset path cs = .leftOf offset path b := by
  induction path generalizing around cs b a with
  | nil => exact absurd h leavesFrom_ne_nil_path
  | cons j path ih =>
    obtain ⟨pre, c, post, b', a', rfl, rfl, hc, rfl, -⟩ := exists_child_of_cons h
    obtain ⟨hpre, hin, -⟩ := framedIn_append.1 hframed
    rw [← outToLeft_leftOf c offset path b' hpre, stepLeft, getElem?_middle]
    congr 1
    cases c with
    | leaf s u =>
      obtain ⟨rfl, hl, -⟩ := of_leaves_leaf hc
      obtain ⟨rfl, -⟩ := Leaf.mk.inj hl
      rfl
    | block f inner => exact ih hin.2.2 hc

theorem outToRight_rightOf {around : Option Rgb} {pre post : List Node} (c : Node) (offset : Nat)
    (path : Path) (t : Text) (a : List Leaf) (hframed : FramedIn around post) :
    outToRight (pre ++ c :: post) pre.length (.rightOf offset path t a) =
      .rightOf offset (pre.length :: path) t
        (a.map (under pre.length) ++ leavesFrom (pre.length + 1) post) := by
  by_cases hoffset : offset < t.length
  · simp [Step.rightOf, hoffset, outToRight, Step.under, Place.under]
  · cases a with
    | nil =>
      cases post with
      | nil => simp [Step.rightOf, hoffset, outToRight, leavesFrom]
      | cons d post =>
        obtain ⟨u, ad, hleaves, hfirst⟩ := leaves_firstPlace d hframed.1
        simp [Step.rightOf, hoffset, outToRight, leavesFrom, hleaves, hfirst, under, Place.under]
    | cons l a => simp [Step.rightOf, hoffset, outToRight, Step.under, under, Place.under]

theorem stepRight_eq {around : Option Rgb} {offset : Nat} {path : Path} {cs : List Node}
    {t : Text} {b a : List Leaf} (hframed : FramedIn around cs)
    (h : leavesFrom 0 cs = b ++ ⟨path, t⟩ :: a) :
    stepRight offset path cs = .rightOf offset path t a := by
  induction path generalizing around cs b a with
  | nil => exact absurd h leavesFrom_ne_nil_path
  | cons j path ih =>
    obtain ⟨pre, c, post, b', a', rfl, rfl, hc, -, rfl⟩ := exists_child_of_cons h
    obtain ⟨-, hin, hpost⟩ := framedIn_append.1 hframed
    rw [← outToRight_rightOf c offset path t a' hpost, stepRight, getElem?_middle]
    congr 1
    cases c with
    | leaf s u =>
      obtain ⟨-, hl, rfl⟩ := of_leaves_leaf hc
      obtain ⟨rfl, rfl⟩ := Leaf.mk.inj hl
      rfl
    | block f inner => exact ih hin.2.2 hc

end Node
end QueryLine
