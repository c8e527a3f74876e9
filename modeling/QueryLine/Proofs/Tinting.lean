import QueryLine.Proofs.Arrangement
import QueryLine.Proofs.Locating
import QueryLine.Proofs.Looks
import QueryLine.Screen.Tint

/-!
Which block tints a character. A block is listed before those inside it, so where both are the inner
one paints over the outer one. In the normal form no block is empty, so each paints its own
characters and no others; what shows at last is the block that the leaf of the character is directly
in.
-/

namespace QueryLine

namespace Look

def Covers (l : Look) (n : Nat) : Prop := l.first ≤ n ∧ n ≤ l.last

instance (l : Look) (n : Nat) : Decidable (l.Covers n) :=
  inferInstanceAs (Decidable (l.first ≤ n ∧ n ≤ l.last))

/-- The colour of character `n` when each look in turn has painted what it covers, on a ground of
one colour. A look without a colour paints nothing. -/
def paint (n : Nat) (ground : Option Rgb) (ls : List Look) : Option Rgb :=
  ls.foldl (fun under l => if l.Covers n then l.color.or under else under) ground

variable {n : Nat} {ground : Option Rgb} {l : Look} {ls : List Look}

theorem paint_append (ls ms : List Look) :
    paint n ground (ls ++ ms) = paint n (paint n ground ls) ms := List.foldl_append

theorem paint_cons_of_covers (h : l.Covers n) :
    paint n ground (l :: ls) = paint n (l.color.or ground) ls := by
  rw [paint, List.foldl_cons, if_pos h]
  rfl

theorem paint_of_not_covers (h : ∀ l ∈ ls, ¬l.Covers n) : paint n ground ls = ground := by
  induction ls with
  | nil => rfl
  | cons l ls ih =>
    obtain ⟨hl, hls⟩ := List.forall_mem_cons.1 h
    rw [paint, List.foldl_cons, if_neg hl]
    exact ih hls

end Look

namespace BlockView

theorem covers_iff {v : BlockView} {n : Nat} : v.covers n = true ↔ v.look.Covers n := by
  simp [covers, look, Look.Covers]

/-- To take the last colour is to paint one block after the other. -/
theorem paint_look (n : Nat) (ground : Option Rgb) (vs : List BlockView) :
    Look.paint n ground (vs.map look) =
      ((vs.filter (·.covers n)).filterMap (·.color)).getLast?.or ground := by
  induction vs generalizing ground with
  | nil => rfl
  | cons v vs ih =>
    rw [List.map_cons]
    by_cases hv : v.look.Covers n
    · have hcolor : v.look.color = v.color := rfl
      rw [Look.paint_cons_of_covers hv, ih, List.filter_cons, if_pos (covers_iff.2 hv), hcolor]
      cases h : v.color with
      | none => rw [List.filterMap_cons_none h, Option.none_or]
      | some c =>
        rw [List.filterMap_cons_some h, List.getLast?_cons, Option.some_or, Option.some_or,
          Option.or_some]
    · rw [List.filter_cons, if_neg (mt covers_iff.1 hv), Look.paint, List.foldl_cons, if_neg hv]
      exact ih ground

end BlockView

theorem tintAt?_eq_paint (blocks : List BlockView) (n : Nat) :
    tintAt? blocks n = (Look.paint n none (blocks.map BlockView.look)).map fun c =>
      .rgb (c.shade tintPercent) := by
  rw [BlockView.paint_look, Option.or_none]
  rfl

namespace Node

variable {start depth n : Nat} {around : Option Rgb}

mutual
/-- In the normal form a block is shown from its first character to its last, and so within the
characters of the node it is in. -/
theorem looks_within (start depth : Nat) : (c : Node) → c.Solid → ∀ l ∈ c.looks start depth,
    start ≤ l.first ∧ l.last < start + c.length
  | leaf .., _, _, hl => nomatch hl
  | block f cs, hsolid, l, hl => by
    rcases List.mem_cons.1 hl with rfl | hl
    · have hpos := hsolid.length_pos
      change 0 < (textOf cs).length at hpos
      change start ≤ start ∧ start + (textOf cs).length - 1 < start + (textOf cs).length
      omega
    · exact looksIn_within start (depth + 1) cs hsolid.2 l hl

theorem looksIn_within (start depth : Nat) : (cs : List Node) → SolidIn cs →
    ∀ l ∈ looksIn start depth cs, start ≤ l.first ∧ l.last < start + (textOf cs).length
  | [], _, _, hl => nomatch hl
  | c :: cs, hsolid, l, hl => by
    have hlength : (textOf (c :: cs)).length = c.length + (textOf cs).length :=
      List.length_append
    rcases List.mem_append.1 hl with hl | hl
    · have hin := looks_within start depth c hsolid.1 l hl
      omega
    · have hin := looksIn_within (start + c.length) depth cs hsolid.2 l hl
      omega
end

theorem locateIn_of_lt {c : Node} (h : n < c.length) (cs : List Node) :
    locateIn n (c :: cs) = (c.locate n).under 0 := by
  cases cs with
  | nil => rfl
  | cons d cs => rw [locateIn, if_pos h]

theorem locateIn_of_le {c : Node} {cs : List Node} (h : c.length ≤ n) (hne : cs ≠ []) :
    locateIn n (c :: cs) = (locateIn (n - c.length) cs).shifted := by
  cases cs with
  | nil => cases hne rfl
  | cons d cs => rw [locateIn, if_neg (Nat.not_lt.2 h)]

theorem colorAround_front (around : Option Rgb) (path : Path) (c : Node) (cs : List Node) :
    colorAround around (0 :: path) (c :: cs) = colorAround around (0 :: path) [c] := by
  cases path <;> rfl

theorem path_shifted_ne_nil {p : Place} (h : p.path ≠ []) : p.shifted.path ≠ [] := by
  obtain ⟨path, offset⟩ := p
  cases path with
  | nil => exact h
  | cons i path => exact List.cons_ne_nil (i + 1) path

theorem colorAround_shifted (around : Option Rgb) (p : Place) (c : Node) (cs : List Node) :
    colorAround around p.shifted.path (c :: cs) = colorAround around p.path cs := by
  obtain ⟨path, offset⟩ := p
  match path with
  | [] => rfl
  | [i] => rfl
  | i :: j :: path => rfl

mutual
/-- Painted by the blocks of the node it is in, a character has the colour of the block that its
leaf is directly in; `around` is that of the block around the node. -/
theorem paint_looks (start depth : Nat) (around : Option Rgb) (n : Nat) : (c : Node) → c.Solid →
    c.Framed around → n < c.length →
      Look.paint (start + n) around (c.looks start depth) =
        colorAround around (0 :: (c.locate n).path) [c]
  | leaf .., _, _, _ => rfl
  | block f cs, hsolid, hframed, hn => by
    obtain ⟨hfits, -, hin⟩ := hframed
    obtain ⟨i, hcolor⟩ := hfits.color
    have hlast : start + n ≤ start + (textOf cs).length - 1 := by
      change n < (textOf cs).length at hn
      omega
    have hcovers : Look.Covers ⟨start, start + (textOf cs).length - 1, depth + 1, f.color⟩
        (start + n) := ⟨Nat.le_add_right start n, hlast⟩
    -- the block paints the character first, and is the ground for the blocks inside it
    have hinside := paint_looksIn start (depth + 1) f.color n cs hsolid.2 hin hn
    rw [looks, Look.paint_cons_of_covers hcovers]
    dsimp only
    rw [hcolor, Option.some_or, ← hcolor, hinside.1]
    obtain ⟨j, path, hpath⟩ := List.exists_cons_of_ne_nil hinside.2
    rw [locate, hpath]
    rfl

theorem paint_looksIn (start depth : Nat) (around : Option Rgb) (n : Nat) : (cs : List Node) →
    SolidIn cs → FramedIn around cs → n < (textOf cs).length →
      Look.paint (start + n) around (looksIn start depth cs) =
        colorAround around (locateIn n cs).path cs ∧ (locateIn n cs).path ≠ []
  | [], _, _, hn => nomatch hn
  | c :: cs, hsolid, hframed, hn => by
    have hlength : (textOf (c :: cs)).length = c.length + (textOf cs).length :=
      List.length_append
    rw [looksIn, Look.paint_append]
    rcases Nat.lt_or_ge n c.length with hlt | hge
    · -- what comes behind the child starts behind the character
      have hbehind : ∀ l ∈ looksIn (start + c.length) depth cs, ¬l.Covers (start + n) := by
        intro l hl hcovers
        have hfirst := (looksIn_within (start + c.length) depth cs hsolid.2 l hl).1
        have hover := hcovers.1
        omega
      rw [Look.paint_of_not_covers hbehind, locateIn_of_lt hlt, Place.under,
        colorAround_front, paint_looks start depth around n c hsolid.1 hframed.1 hlt]
      exact ⟨rfl, List.cons_ne_nil _ _⟩
    · -- what is in the child ends in front of the character
      have hfront : ∀ l ∈ c.looks start depth, ¬l.Covers (start + n) := by
        intro l hl hcovers
        have hlast := (looks_within start depth c hsolid.1 l hl).2
        have hover := hcovers.2
        omega
      have hne : cs ≠ [] := by
        rintro rfl
        change n < (c.text ++ []).length at hn
        rw [List.append_nil] at hn
        exact Nat.not_lt.2 hge hn
      obtain ⟨hpaint, hpath⟩ := paint_looksIn (start + c.length) depth around (n - c.length) cs
        hsolid.2 hframed.2 (by omega)
      have hsum : start + c.length + (n - c.length) = start + n := by omega
      rw [hsum] at hpaint
      rw [Look.paint_of_not_covers hfront, locateIn_of_le hge hne, hpaint, colorAround_shifted]
      exact ⟨rfl, path_shifted_ne_nil hpath⟩
end

theorem exists_color {path : Path} {cs inner : List Node} {f : Frame} (hframed : FramedIn around cs)
    (h : at? path cs = some (block f inner)) : ∃ c, f.color = some c := by
  fun_induction at? path cs generalizing around with
  | case1 cs => cases h
  | case2 i cs =>
    obtain ⟨k, hcolor⟩ := (framedIn_iff.1 hframed _ (List.mem_of_getElem? h)).1.color
    exact ⟨_, hcolor⟩
  | case3 i j path cs g between hat ih =>
    exact ih (framedIn_iff.1 hframed _ (List.mem_of_getElem? hat)).2.2 h
  | case4 i j path cs hother => cases h

end Node

/-- The tint of what is directly in a block. -/
def Frame.tint? (f : Frame) : Option Ink := f.color.map fun c => .rgb (c.shade tintPercent)

namespace Block

/-- The nested block that the node at a path is directly in. -/
def owner? (b : Block) (path : Path) : Option Frame :=
  match b.node? path.dropLast with
  | some (.block f _) => some f
  | _ => none

variable {b : Block} {path : Path} {s : Nat} {t : Text}

/-- A leaf is directly in the whole, or in a nested block that gives it its colour. -/
theorem Sound.owner?_cases (h : b.Sound) (hat : b.node? path = some (.leaf s t)) :
    ((∃ k, path = [k]) ∧ b.owner? path = none ∧ Node.colorAround none path b.children = none) ∨
      ((¬∃ k, path = [k]) ∧ ∃ f c, b.owner? path = some f ∧ f.color = some c ∧
        Node.colorAround none path b.children = some c) := by
  rcases List.eq_nil_or_concat path with rfl | ⟨outer, k, rfl⟩
  · cases hat
  rw [List.concat_eq_append] at hat ⊢
  -- the path of a leaf in the whole has one step, any longer one goes through the owner
  by_cases hne : outer = []
  · subst hne
    exact .inl ⟨⟨k, rfl⟩, rfl, rfl⟩
  · obtain ⟨f, inner, hblock, hcolor⟩ := Node.exists_around hne hat none
    obtain ⟨c, hc⟩ := Node.exists_color h.framed hblock
    have howner : b.owner? (outer ++ [k]) = some f := by
      rw [owner?, List.dropLast_concat, node?, hblock]
    refine .inr ⟨?_, f, c, howner, hc, hcolor.trans hc⟩
    rintro ⟨j, hj⟩
    have hlength := congrArg List.length hj
    rw [List.length_append, List.length_singleton, List.length_singleton] at hlength
    exact hne (List.eq_nil_of_length_eq_zero (by omega))

end Block

namespace Document

theorem Sound.tintAt?_eq {d : Document} (h : d.Sound) (hnormal : d.root.Normal) {n : Nat}
    (hn : n < d.text.length) :
    tintAt? d.blocks n = (Node.colorAround none (d.root.locate n).path d.root.children).map fun c =>
      .rgb (c.shade tintPercent) := by
  cases hnormal with
  | empty hleaf =>
    -- there is no character to show
    rw [Document.text, Block.text, hleaf] at hn
    exact absurd hn (Nat.not_lt_zero n)
  | filled hsolid _ _ =>
    obtain ⟨hpaint, -⟩ := Node.paint_looksIn 0 0 none n d.root.children hsolid h.root.framed hn
    rw [Nat.zero_add] at hpaint
    rw [tintAt?_eq_paint, h.look_blocks, hpaint]
    rfl

end Document

namespace Editor

variable {σ : Type} [Analyzer σ] {e : Editor σ}

/-- Whatever an analyzer answers: each character has the tint of the nested block that its leaf is
directly in, and it has none exactly if that leaf is in no nested block. -/
theorem reachable_tints (h : e.Reachable) :
    let root := e.document.root
    let shown := tints e.text.length e.document.blocks
    shown.length = e.text.length ∧ ∀ n, n < e.text.length →
      root.Holds n (root.locate n) ∧
      shown[n]? = some ((root.owner? (root.locate n).path).bind Frame.tint?) ∧
      (shown[n]? = some none ↔ ∃ k, (root.locate n).path = [k]) := by
  intro root shown
  have hsound := h.settled.sound
  refine ⟨by simp [shown, tints], fun n hn => ?_⟩
  obtain ⟨b, t, a, hchar⟩ := hsound.root.charAt_locate hn
  have hholds : root.Holds n (root.locate n) := hsound.root.holds_of_charAt hchar
  obtain ⟨s, hat⟩ := Node.at?_of_leaves hchar.leaves
  have hshown : shown[n]? = some (tintAt? e.document.blocks n) := by
    simp [shown, tints, hn]
  rw [hshown, hsound.tintAt?_eq h.normal hn]
  rcases hsound.root.owner?_cases hat with
    ⟨hpath, howner, hcolor⟩ | ⟨hpath, f, c, howner, hc, hcolor⟩
  · rw [howner, hcolor]
    exact ⟨hholds, rfl, iff_of_true rfl hpath⟩
  · rw [howner, hcolor]
    refine ⟨hholds, ?_, iff_of_false nofun hpath⟩
    rw [Option.bind_some, Frame.tint?, hc]

/-- A block in a block, plain text behind both and a block made by hand at the end. -/
theorem tints_nested_blocks :
    let part : Nat → Nat → Term := fun start length => .resourceType ⟨start, length⟩ []
    let answer : Answer := ⟨⟨some (.conjunction ⟨0, 6⟩ [part 0 4, part 1 2]), []⟩, []⟩
    let start : Editor Script := .new (.new [answer] [] []) (.new [] ⟨0, by decide⟩) true
    let e := (start.setText ['a', 'b', 'c', 'd', 'e', 'f']).perform (.box 5 5)
    let root := e.document.root
    let shown := tints e.text.length e.document.blocks
    let colors := (List.range 6).map fun n => (root.owner? (root.locate n).path).bind Frame.color
    (e.Reachable ∧ colors = [some (Palette.color 0), some (Palette.color 1),
        some (Palette.color 1), some (Palette.color 0), none, some (Palette.color 1)]) ∧
      shown.length = e.text.length ∧ ∀ n, n < e.text.length →
        root.Holds n (root.locate n) ∧
        shown[n]? = some ((root.owner? (root.locate n).path).bind Frame.tint?) ∧
        (shown[n]? = some none ↔ ∃ k, (root.locate n).path = [k]) := by
  intro part answer start e root shown colors
  have hstart : start.Reachable := .new _ _ _
  have he : e.Reachable := (hstart.setText _).perform (.box 5 5) rfl
  have hcolors : colors = [some (Palette.color 0), some (Palette.color 1),
      some (Palette.color 1), some (Palette.color 0), none, some (Palette.color 1)] := by
    decide +kernel
  exact ⟨⟨he, hcolors⟩, reachable_tints he⟩

end Editor
end QueryLine
