import Mathlib.Data.List.Nodup
import QueryLine.Proofs.Outlines

/-!
The colours of sibling blocks. Each block deals out the colours in turn, leaving out its own, and
nothing that is done elsewhere takes a turn from it; so colours only come back after seven blocks,
or after eight in the text itself, which has no colour.
-/

namespace QueryLine
namespace Palette

variable {turn : Turn} {avoid : Option Rgb} {n m : Nat}

def due : Nat → Turn → List Rgb
  | 0, _ => []
  | n + 1, turn => turn.color :: due n turn.next

def hand : Nat → Turn → Option Rgb → List Rgb
  | 0, _, _ => []
  | n + 1, turn, avoid => (pick turn avoid).1 :: hand n (pick turn avoid).2 avoid

theorem due_eq (n : Nat) (turn : Turn) :
    due n turn = (List.range n).map fun i => color (.ofNat 8 (turn.val + i)) := by
  induction n generalizing turn with
  | zero => rfl
  | succ n ih =>
    rw [due, ih, List.range_succ_eq_map, List.map_cons, List.map_map]
    refine congrArg₂ _ rfl (List.map_congr_left fun i _ => congrArg color (Fin.ext ?_))
    simp only [Turn.next, Fin.val_ofNat]
    omega

/-- Colours come back after eight turns only. -/
theorem nodup_due (hn : n ≤ 8) (turn : Turn) : (due n turn).Nodup := by
  rw [due_eq]
  refine List.Nodup.map_on (fun i hi j hj hcolor => ?_) List.nodup_range
  have hval := congrArg Fin.val (color_injective _ _ hcolor)
  rw [List.mem_range] at hi hj
  simp only [Fin.val_ofNat] at hval
  omega

/-- Picks go through the turns, and miss one for each that has the colour to be avoided. -/
theorem hand_sublist (h : n + ((due m turn).map some).count avoid ≤ m) :
    (hand n turn avoid).Sublist (due m turn) := by
  induction m generalizing n turn with
  | zero =>
    obtain rfl : n = 0 := by omega
    exact .slnil
  | succ m ih =>
    cases n with
    | zero => exact List.nil_sublist _
    | succ n =>
      rw [due] at h ⊢
      rw [List.map_cons, List.count_cons] at h
      by_cases havoid : avoid = some turn.color
      · have hnext : avoid ≠ some turn.next.color :=
          fun h => turn.color_ne_next (Option.some.inj (havoid.symm.trans h))
        have hskip : hand (n + 1) turn avoid = hand (n + 1) turn.next avoid := by
          rw [hand, hand, pick, if_pos havoid, pick, if_neg hnext]
        rw [havoid, beq_self_eq_true, if_pos rfl, ← havoid] at h
        rw [hskip]
        exact (ih (by omega)).cons _
      · rw [if_neg fun h => havoid (beq_iff_eq.1 h).symm] at h
        have hrest : n + ((due m turn.next).map some).count avoid ≤ m := by omega
        rw [hand, pick, if_neg havoid]
        exact (ih hrest).cons_cons _

theorem nodup_hand (hn : n ≤ if avoid = none then 8 else 7) (turn : Turn) :
    (hand n turn avoid).Nodup := by
  have hdue := nodup_due (Nat.le_refl 8) turn
  refine hdue.sublist (hand_sublist ?_)
  have hcount : ((due 8 turn).map some).count avoid ≤ if avoid = none then 0 else 1 := by
    split
    · rename_i hnone
      have hnot : avoid ∉ (due 8 turn).map some := by simp [hnone]
      rw [List.count_eq_zero_of_not_mem hnot]
    · exact List.nodup_iff_count_le_one.1 (hdue.map fun _ _ => Option.some.inj) avoid
  split at hn
  · rename_i hnone
    rw [if_pos hnone] at hcount
    omega
  · rename_i hsome
    rw [if_neg hsome] at hcount
    omega

theorem of_mem_hand {c : Rgb} (h : c ∈ hand n turn avoid) :
    (∃ i, c = color i) ∧ avoid ≠ some c := by
  induction n generalizing turn with
  | zero => cases h
  | succ n ih =>
    rcases List.mem_cons.1 h with rfl | h
    · exact ⟨pick_color turn avoid, pick_ne turn avoid⟩
    · exact ih h

theorem prefix_hand {l : List Rgb} (h : l <+: hand n turn avoid) :
    l = hand l.length turn avoid := by
  induction n generalizing turn l with
  | zero =>
    obtain rfl := List.prefix_nil.1 h
    rfl
  | succ n ih =>
    cases l with
    | nil => rfl
    | cons c l =>
      obtain ⟨rfl, hl⟩ := List.cons_prefix_cons.1 h
      rw [List.length_cons, hand, ← ih hl]

theorem exists_of_infix_hand {l : List Rgb} (h : l <:+: hand n turn avoid) :
    ∃ turn', l = hand l.length turn' avoid := by
  induction n generalizing turn with
  | zero =>
    obtain rfl := List.infix_nil.1 h
    exact ⟨turn, rfl⟩
  | succ n ih =>
    rcases List.infix_cons_iff.1 h with hfront | hbehind
    · have hfront : l <+: hand (n + 1) turn avoid := hfront
      exact ⟨turn, prefix_hand hfront⟩
    · exact ih hbehind

theorem exists_of_infix_map {l : List (Option Rgb)} {hand : List Rgb}
    (h : l <:+: hand.map some) : ∃ l', l' <:+: hand ∧ l = l'.map some := by
  obtain ⟨front, rest, hsplit⟩ := h
  obtain ⟨both, rest', rfl, hboth, -⟩ := List.map_eq_append_iff.1 hsplit.symm
  obtain ⟨front', l', rfl, -, rfl⟩ := List.map_eq_append_iff.1 hboth
  exact ⟨l', ⟨front', rest', rfl⟩, rfl⟩

end Palette

namespace Block

def outline (b : Block) : Outline := ⟨b.frame.color, b.frame.turn, Node.outlinesIn b.children⟩

def address (b : Block) (path : Path) : Address := Node.address path b.children

/-- Every nested block is found at the address of its path. -/
theorem at?_address {b : Block} {path : Path} {f : Frame} {inner : List Node}
    (h : b.node? path = some (.block f inner)) :
    b.outline.at? (b.address path) = some ⟨f.color, f.turn, Node.outlinesIn inner⟩ :=
  Node.at?_address h b.outline rfl

theorem outline_withChildren (b : Block) (cs : List Node) :
    (b.withChildren cs).outline = ⟨b.frame.color, b.frame.turn, Node.outlinesIn cs⟩ := by
  rw [outline, withChildren, Node.outlinesIn_reflowFrom]

end Block

namespace Document

/-- Actions that drop all blocks at once. -/
def Action.dropsBlocks : Action → Bool
  | .setText _ | .flatten | .splice .. => true
  | _ => false

/-- The address of the block that an action makes, if it makes one. -/
def makes? (d : Document) : Action → Option Address
  | .box start last => (d.box? start last).map fun _ => d.root.address (d.root.locate start).path
  | _ => none

/-- The address of the block that an action dissolves, if it dissolves one. -/
def dissolves? (d : Document) : Action → Option Address
  | .unbox path => (d.unbox? path).map fun _ => d.root.address path
  | .unboxAtCaret => d.unboxAtCaret?.map fun _ => d.root.address d.caret.focus.dropLast
  | _ => none

/-- Where the block of an address is after an action, unless it is dropped or dissolved. -/
def follow? (d : Document) (address : Address) (a : Action) : Option Address :=
  if a.dropsBlocks then none
  else match d.makes? a, d.dissolves? a with
    | some new, _ => some (address.afterMade new)
    | none, some gone => address.afterGone? gone
    | none, none => some address

/-- The colour of the block that an action makes right inside the one at `parent`, if it makes one
there. -/
def colorMade (d : Document) (parent : Address) (a : Action) : List (Option Rgb) :=
  match d.makes? a with
  | some new => if new.dropLast = parent then [(d.act a).root.outline.colorAt new] else []
  | none => []

/-- The colours of the blocks that a series of actions makes right inside one block, in the order
they are made. It ends where that block is dropped or dissolved. -/
def colorsMade (d : Document) (parent : Address) : List Action → List (Option Rgb)
  | [] => []
  | a :: actions => d.colorMade parent a ++
    match d.follow? parent a with
    | some parent => (d.act a).colorsMade parent actions
    | none => []

variable {d e : Document}

theorem outline_box? (h : d.Sound) {start last : Nat} (he : d.box? start last = some e) :
    Outline.Grows (d.root.address (d.root.locate start).path) d.root.outline e.root.outline := by
  obtain ⟨root, hroot, rfl⟩ := Option.map_eq_some_iff.1 he
  unfold Block.box? at hroot
  split at hroot
  · rename_i hle
    obtain ⟨⟨next, children⟩, hin, rfl⟩ := Option.map_eq_some_iff.1 hroot
    have hlt : start < d.root.length := by
      apply Nat.lt_of_not_le
      intro hbeyond
      rw [Node.boxIn_beyond hle hbeyond] at hin
      cases hin
    obtain ⟨b, t, a, hchar⟩ := h.root.charAt_locate hlt
    have hoffset := hchar.offset
    have hinside := hchar.inside
    exact Node.grows_boxIn hchar.leaves hle (by omega) (by omega) hin
  · cases hroot

theorem outline_unbox? {path : Path} (he : d.unbox? path = some e) :
    Outline.Shrinks (d.root.address path) d.root.outline e.root.outline := by
  obtain ⟨root, hroot, rfl⟩ := Option.map_eq_some_iff.1 he
  obtain ⟨children, hchildren, rfl⟩ := Option.map_eq_some_iff.1 hroot
  change Outline.Shrinks _ _ (d.root.withChildren children).outline
  rw [Block.outline_withChildren]
  exact Node.shrinks_unbox hchildren

theorem outline_modifyLeaf (g : Text → Text) (path : Path) (d : Document) :
    (d.modifyLeaf g path).root.outline = d.root.outline := by
  have hinside : Node.outlinesIn (Node.modifyLeaf g path d.root.children) =
      Node.outlinesIn d.root.children := by
    rw [← Node.outlinesIn_shapes, Node.shapes_modifyLeaf, Node.outlinesIn_shapes]
  rw [modifyLeaf, Block.outline_withChildren, hinside, Block.outline]

theorem outline_eraseAt? {p : Place} (he : d.eraseAt? p = some e) :
    e.root.outline = d.root.outline := by
  unfold eraseAt? at he
  split at he
  · split at he
    · obtain rfl := Option.some.inj he
      exact outline_modifyLeaf _ p.path d
    · cases he
  · cases he

theorem outline_insert (t : Text) (d : Document) : (d.insert t).root.outline = d.root.outline := by
  unfold insert
  split
  · rfl
  · exact outline_modifyLeaf _ d.caret.focus d

theorem outline_backspace? (he : d.backspace? = some e) : e.root.outline = d.root.outline := by
  unfold backspace? at he
  split at he
  · cases he
  · obtain ⟨erased, herased, rfl⟩ := Option.map_eq_some_iff.1 he
    have hsame := outline_eraseAt? herased
    exact hsame

theorem outline_delete? (he : d.delete? = some e) : e.root.outline = d.root.outline := by
  unfold delete? at he
  split at he
  · cases he
  · obtain ⟨erased, herased, rfl⟩ := Option.map_eq_some_iff.1 he
    have hsame := outline_eraseAt? herased
    exact hsame

/-- What an action does to the outline. -/
inductive Reshapes (d : Document) (a : Action) : Prop
  | made {new : Address} (hmakes : d.makes? a = some new)
    (hgrows : Outline.Grows new d.root.outline (d.act a).root.outline)
  | dissolved {gone : Address} (hmakes : d.makes? a = none)
    (hdissolves : d.dissolves? a = some gone)
    (hshrinks : Outline.Shrinks gone d.root.outline (d.act a).root.outline)
  | kept (hmakes : d.makes? a = none) (hdissolves : d.dissolves? a = none)
    (hsame : (d.act a).root.outline = d.root.outline)

theorem Reshapes.of_kept {a : Action} (hmakes : d.makes? a = none)
    (hdissolves : d.dissolves? a = none)
    (hsame : ∀ e, d.act? a = some e → e.root.outline = d.root.outline) : d.Reshapes a := by
  refine .kept hmakes hdissolves ?_
  cases hact : d.act? a with
  | none => rw [act_of_none hact]
  | some e => rw [act_of_some hact, hsame e hact]

theorem Reshapes.unbox {a : Action} {path : Path} (hact : d.act? a = d.unbox? path)
    (hmakes : d.makes? a = none)
    (hdissolves : d.dissolves? a = (d.unbox? path).map fun _ => d.root.address path) :
    d.Reshapes a := by
  cases hunbox : d.unbox? path with
  | none =>
    rw [hunbox] at hact hdissolves
    exact .of_kept hmakes hdissolves fun e he => by rw [hact] at he; cases he
  | some e =>
    rw [hunbox] at hact hdissolves
    refine .dissolved hmakes hdissolves ?_
    rw [act_of_some hact]
    exact outline_unbox? hunbox

theorem Sound.reshapes (h : d.Sound) {a : Action} (hkeeps : a.dropsBlocks = false) :
    d.Reshapes a := by
  cases a with
  | setText t => cases hkeeps
  | flatten => cases hkeeps
  | splice start stop new => cases hkeeps
  | box start last =>
    cases hbox : d.box? start last with
    | none =>
      have hmakes : d.makes? (.box start last) = none := by rw [makes?, hbox]; rfl
      exact .of_kept hmakes rfl fun e he => by cases hbox.symm.trans he
    | some e =>
      have hmakes : d.makes? (.box start last) =
          some (d.root.address (d.root.locate start).path) := by rw [makes?, hbox]; rfl
      refine .made hmakes ?_
      rw [act_of_some (a := .box start last) hbox]
      exact outline_box? h hbox
  | unbox path => exact .unbox rfl rfl rfl
  | unboxAtCaret => exact .unbox rfl rfl rfl
  | setCaret position => exact .kept rfl rfl (congrArg Block.outline (root_setCaret position d))
  | home => exact .kept rfl rfl (congrArg Block.outline (root_setCaret 0 d))
  | toEnd => exact .kept rfl rfl (congrArg Block.outline (root_setCaret d.length d))
  | left => exact .kept rfl rfl (congrArg Block.outline (root_step _ d))
  | right => exact .kept rfl rfl (congrArg Block.outline (root_step _ d))
  | insert t => exact .kept rfl rfl (outline_insert t d)
  | backspace => exact .of_kept rfl rfl fun e he => outline_backspace? he
  | delete => exact .of_kept rfl rfl fun e he => outline_delete? he
  | takeEvents => exact .kept rfl rfl rfl

section Following

variable {parent parent' : Address} {p : Outline} {a : Action}

theorem Reshapes.colorAt (h : d.Reshapes a) (hp : d.root.outline.at? parent = some p)
    {new : Address} (hnew : d.makes? a = some new) (hparent : new.dropLast = parent) :
    (d.act a).root.outline.colorAt new = some (Palette.pick p.turn p.color).1 := by
  cases h with
  | made hmakes hgrows =>
    obtain rfl := Option.some.inj (hmakes.symm.trans hnew)
    obtain ⟨q, hq, hat⟩ := hgrows.at?_new
    obtain rfl := Option.some.inj (hq.symm.trans (hparent ▸ hp))
    rw [Outline.colorAt, hat, Option.bind_some]
  | dissolved hmakes hdissolves hshrinks =>
    rw [hmakes] at hnew
    cases hnew
  | kept hmakes hdissolves hsame =>
    rw [hmakes] at hnew
    cases hnew

/-- A block that is followed keeps its colour. Only what is made right inside it takes a turn. -/
theorem Reshapes.follow? (h : d.Reshapes a) (hp : d.root.outline.at? parent = some p)
    (hfollow : d.follow? parent a = some parent') :
    ∃ p', (d.act a).root.outline.at? parent' = some p' ∧ p'.color = p.color ∧
      p'.turn = if (d.makes? a).any (·.dropLast = parent) then (Palette.pick p.turn p.color).2
        else p.turn := by
  unfold Document.follow? at hfollow
  split at hfollow
  · cases hfollow
  · cases h with
    | made hmakes hgrows =>
      rw [hmakes] at hfollow ⊢
      obtain rfl := Option.some.inj hfollow
      obtain ⟨p', hp', hcolor, hturn⟩ := hgrows.at?_afterMade hp
      exact ⟨p', hp', hcolor, by simpa using hturn⟩
    | dissolved hmakes hdissolves hshrinks =>
      rw [hmakes, hdissolves] at hfollow
      rw [hmakes]
      obtain ⟨p', hp', hcolor, hturn⟩ := hshrinks.at?_afterGone? hp hfollow
      exact ⟨p', hp', hcolor, hturn⟩
    | kept hmakes hdissolves hsame =>
      rw [hmakes, hdissolves] at hfollow
      rw [hmakes, hsame]
      obtain rfl := Option.some.inj hfollow
      exact ⟨p, hp, rfl, rfl⟩

theorem dropsBlocks_of_follow? (hfollow : d.follow? parent a = some parent') :
    a.dropsBlocks = false := by
  unfold Document.follow? at hfollow
  split at hfollow
  · cases hfollow
  · exact Bool.eq_false_iff.2 ‹_›

theorem Sound.colorMade_eq (h : d.Sound) (hp : d.root.outline.at? parent = some p) (a : Action) :
    d.colorMade parent a =
      if (d.makes? a).any (·.dropLast = parent) then [some (Palette.pick p.turn p.color).1]
      else [] := by
  rw [colorMade]
  cases hmakes : d.makes? a with
  | none => rfl
  | some new =>
    have hkeeps : a.dropsBlocks = false := by
      cases a with
      | box start last => rfl
      | _ => cases hmakes
    rw [Option.any_some]
    by_cases hparent : new.dropLast = parent
    · have hcolor := (h.reshapes hkeeps).colorAt hp hmakes hparent
      rw [if_pos (decide_eq_true hparent), ← hcolor]
      exact if_pos hparent
    · rw [if_neg (mt of_decide_eq_true hparent)]
      exact if_neg hparent

/-- What is made inside a block are the picks from its turn on. -/
theorem Sound.exists_colorsMade (h : d.Sound) (hp : d.root.outline.at? parent = some p)
    (actions : List Action) :
    ∃ n, d.colorsMade parent actions = (Palette.hand n p.turn p.color).map some := by
  induction actions generalizing d parent p with
  | nil => exact ⟨0, rfl⟩
  | cons a actions ih =>
    have hmade := h.colorMade_eq hp a
    have hrest : ∃ n, (match d.follow? parent a with
        | some parent => (d.act a).colorsMade parent actions
        | none => []) = (Palette.hand n (if (d.makes? a).any (·.dropLast = parent)
          then (Palette.pick p.turn p.color).2 else p.turn) p.color).map some := by
      cases hfollow : d.follow? parent a with
      | none => exact ⟨0, rfl⟩
      | some parent' =>
        have hreshapes := h.reshapes (dropsBlocks_of_follow? hfollow)
        obtain ⟨p', hp', hcolor, hturn⟩ := hreshapes.follow? hp hfollow
        obtain ⟨n, hn⟩ := ih (h.act a) hp'
        exact ⟨n, by rw [← hturn, ← hcolor, ← hn]⟩
    obtain ⟨n, hn⟩ := hrest
    rw [colorsMade, hmade, hn]
    split
    · exact ⟨n + 1, rfl⟩
    · exact ⟨n, rfl⟩

end Following

/-- Whatever is done, up to eight blocks that are made in the text itself one after the other, or up
to seven right inside a nested block, are of different colours, and none has the colour of the block
that it is in. What happens in between elsewhere does not matter, nor do edits and blocks that are
dissolved, as long as the block itself is there. -/
theorem run_colors_apart (t : Text) (before actions : List Action) {parent : Address} {p : Outline}
    (hparent : ((ofText t).run before).root.outline.at? parent = some p)
    {made : List (Option Rgb)}
    (hmade : made <:+: ((ofText t).run before).colorsMade parent actions)
    (hcount : made.length ≤ if parent = [] then 8 else 7) :
    made.Nodup ∧ ∀ color ∈ made, (∃ i, color = some (Palette.color i)) ∧ color ≠ p.color := by
  have h : ((ofText t).run before).Sound := sound_run t before
  obtain ⟨n, hn⟩ := h.exists_colorsMade hparent actions
  rw [hn] at hmade
  obtain ⟨hand, hpart, rfl⟩ := Palette.exists_of_infix_map hmade
  obtain ⟨turn, hturn⟩ := Palette.exists_of_infix_hand hpart
  rw [List.length_map] at hcount
  have hroot : parent = [] → p.color = none := by
    rintro rfl
    obtain rfl := Option.some.inj hparent
    exact h.root.color
  have hfew : hand.length ≤ if p.color = none then 8 else 7 := by
    split at hcount
    · rw [if_pos (hroot ‹_›)]
      exact hcount
    · split <;> omega
  have hnodup := Palette.nodup_hand hfew turn
  rw [← hturn] at hnodup
  refine ⟨hnodup.map fun _ _ => Option.some.inj, fun color hcolor => ?_⟩
  obtain ⟨c, hc, rfl⟩ := List.mem_map.1 hcolor
  obtain ⟨⟨i, hi⟩, hne⟩ := Palette.of_mem_hand (hpart.subset hc)
  exact ⟨⟨i, congrArg some hi⟩, hne.symm⟩

/-- In the block around `c` to `r` seven blocks are made; in between one is made inside the first of
them and one in front of all, the first is dissolved and something is typed. -/
theorem colors_apart_nested :
    let d := (ofText "abcdefghijklmnopqrst".toList).run [.box 2 17]
    let actions : List Action := [.box 3 5, .box 4 4, .box 0 0, .box 7 7, .box 9 9, .unbox [2, 1],
      .setCaret 13, .insert ['x'], .box 11 11, .box 15 15, .box 16 16, .box 18 18]
    let made := [1, 2, 3, 4, 5, 6, 7].map fun i => some (Palette.color i)
    (d.root.outline.at? [0] = some ⟨some (Palette.color 0), .first, []⟩ ∧
      d.colorsMade [0] actions = made) ∧
      made.Nodup ∧ ∀ color ∈ made, (∃ i, color = some (Palette.color i)) ∧
        color ≠ some (Palette.color 0) := by
  intro d actions made
  have hparent : d.root.outline.at? [0] = some ⟨some (Palette.color 0), .first, []⟩ := rfl
  have hmade : d.colorsMade [0] actions = made := by decide +kernel
  have hall : made <:+: d.colorsMade [0] actions :=
    Eq.subst (motive := fun colors => made <:+: colors) hmade.symm (List.infix_refl made)
  exact ⟨⟨hparent, hmade⟩, run_colors_apart _ _ actions hparent hall (by decide)⟩

end Document
end QueryLine
