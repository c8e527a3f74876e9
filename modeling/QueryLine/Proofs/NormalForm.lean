import QueryLine.Proofs.Extents

/-!
The normal form of grouped text: nothing is empty, no leaf stands beside another, and no block is
all of the block around it. Boxing and dissolving keep it, wherever they are tried.
-/

namespace QueryLine
namespace Node

/-- What a block holds: a leaf alone, or several nodes. -/
def Divided : List Node → Prop
  | [] => False
  | [c] => c.isLeaf = true
  | _ :: _ :: _ => True

mutual
/-- Every leaf holds text, and every block is divided. -/
def Solid : Node → Prop
  | leaf _ t => t ≠ []
  | block _ cs => Divided cs ∧ SolidIn cs

def SolidIn : List Node → Prop
  | [] => True
  | c :: cs => c.Solid ∧ SolidIn cs
end

theorem solidIn_iff {cs : List Node} : SolidIn cs ↔ ∀ c ∈ cs, c.Solid := by
  induction cs with
  | nil => simp [SolidIn]
  | cons c cs ih => simp [SolidIn, ih]

theorem Divided.ne_nil {cs : List Node} (h : Divided cs) : cs ≠ [] := by
  rintro rfl
  exact h

theorem divided_cons {c : Node} {cs : List Node} (h : cs ≠ []) : Divided (c :: cs) := by
  cases cs with
  | nil => exact absurd rfl h
  | cons d cs => trivial

theorem divided_of_leaf {cs : List Node} {c : Node} (hc : c ∈ cs) (hleaf : c.isLeaf = true) :
    Divided cs := by
  match cs with
  | [] => cases hc
  | [d] =>
    obtain rfl := List.mem_singleton.1 hc
    exact hleaf
  | _ :: _ :: _ => trivial

mutual
theorem Solid.text_ne_nil : (n : Node) → n.Solid → n.text ≠ []
  | leaf _ _, h => h
  | block _ cs, h => SolidIn.textOf_ne_nil cs h.1.ne_nil h.2

theorem SolidIn.textOf_ne_nil : (cs : List Node) → cs ≠ [] → SolidIn cs → textOf cs ≠ []
  | [], hne, _ => absurd rfl hne
  | c :: cs, _, h => by
    intro hnil
    exact Solid.text_ne_nil c h.1 (List.append_eq_nil_iff.1 hnil).1
end

theorem Solid.length_pos {n : Node} (h : n.Solid) : 0 < n.length :=
  List.length_pos_iff.2 (h.text_ne_nil n)

/-! Counting anew. -/

theorem isLeaf_reflow (start : Nat) (n : Node) : (n.reflow start).isLeaf = n.isLeaf := by
  cases n with
  | _ => rfl

theorem divided_reflowFrom {start : Nat} {cs : List Node} (h : Divided cs) :
    Divided (reflowFrom start cs) := by
  match cs with
  | [] => exact h
  | [c] => exact (isLeaf_reflow start c).trans h
  | _ :: _ :: _ => trivial

mutual
theorem solid_reflow (start : Nat) : (n : Node) → n.Solid → (n.reflow start).Solid
  | leaf .., h => h
  | block _ cs, h => ⟨divided_reflowFrom h.1, solidIn_reflowFrom 0 cs h.2⟩

theorem solidIn_reflowFrom (start : Nat) : (cs : List Node) → SolidIn cs →
    SolidIn (reflowFrom start cs)
  | [], _ => trivial
  | c :: cs, h => ⟨solid_reflow start c h.1, solidIn_reflowFrom _ cs h.2⟩
end

mutual
theorem spaced_reflow (start : Nat) : (n : Node) → n.Spaced → (n.reflow start).Spaced
  | leaf .., _ => trivial
  | block _ cs, h => spacedIn_reflowFrom false 0 cs h

theorem spacedIn_reflowFrom (behindLeaf : Bool) (start : Nat) : (cs : List Node) →
    SpacedIn behindLeaf cs → SpacedIn behindLeaf (reflowFrom start cs)
  | [], _ => trivial
  | c :: cs, ⟨hbehind, hc, hcs⟩ => by
    refine ⟨?_, spaced_reflow start c hc, ?_⟩
    · rw [isLeaf_reflow]
      exact hbehind
    · rw [isLeaf_reflow]
      exact spacedIn_reflowFrom c.isLeaf _ cs hcs
end

/-! Boxing. -/

/-- Nodes that may stand in place of a node, whatever is beside it. -/
structure Replaces (n : Node) (nodes : List Node) : Prop where
  inhabited : nodes ≠ []
  solid : SolidIn nodes
  spaced : ∀ {behindLeaf : Bool} {cs : List Node}, SpacedIn behindLeaf (n :: cs) →
    SpacedIn behindLeaf (nodes ++ cs)
  divided : ∀ {cs : List Node}, Divided (n :: cs) → Divided (nodes ++ cs)

variable {turn next : Palette.Turn} {around : Option Rgb} {offset first last : Nat}
  {nodes : List Node}

theorem solidIn_remnant {t : Text} {cs ds : List Node} (h : Remnant t cs) (hds : SolidIn ds) :
    SolidIn (cs ++ ds) := by
  rcases h with ⟨-, rfl⟩ | ⟨ht, p, rfl⟩
  · exact hds
  · exact ⟨ht, hds⟩

theorem replaces_split {p : Nat} {t : Text} (hle : first ≤ last) (hlast : last < t.length)
    (h : split turn around offset t first last = some (next, nodes)) :
    (leaf p t).Replaces nodes := by
  have hpart : ¬(first = 0 ∧ last + 1 = t.length) := by
    rw [← split_eq_none_iff hle hlast, h]
    exact Option.some_ne_none _
  obtain ⟨before, f, after, hbefore, hafter, rfl⟩ := exists_of_split h
  have hmiddle : (t.take (last + 1)).drop first ≠ [] := by
    apply List.ne_nil_of_length_pos
    rw [List.length_drop, List.length_take]
    omega
  refine ⟨by simp, ?_, fun {behindLeaf cs} hcs => ?_, fun {cs} _ => ?_⟩
  · apply solidIn_remnant hbefore
    refine ⟨⟨rfl, hmiddle, trivial⟩, ?_⟩
    have hnothing : SolidIn [] := trivial
    have hrest := solidIn_remnant hafter hnothing
    rwa [List.append_nil] at hrest
  · -- a leaf behind a leaf is not spaced, so what is cut is behind none
    obtain ⟨hbehind, -, hrest⟩ := hcs
    have hnone : behindLeaf = false := by
      apply Bool.eq_false_iff.2
      intro htrue
      cases hbehind htrue
    rw [hnone, List.append_assoc, List.cons_append]
    exact spaced_remnant hbefore hafter ⟨nofun, trivial, trivial⟩ hrest
  · rcases hbefore with ⟨hnil, rfl⟩ | ⟨-, q, rfl⟩
    · rcases hafter with ⟨hnil', rfl⟩ | ⟨-, q, rfl⟩
      · have hfirst := (isEmpty_take_iff (by omega)).1 (List.isEmpty_iff.2 hnil)
        have hwhole := (isEmpty_drop_iff hlast).1 (List.isEmpty_iff.2 hnil')
        exact absurd ⟨hfirst, hwhole⟩ hpart
      · trivial
    · trivial

mutual
/-- Boxing in a node puts nodes in its place that may stand there. -/
theorem replaces_box {first last : Nat} (hle : first ≤ last) : (n : Node) →
    {turn next : Palette.Turn} → {around : Option Rgb} → {offset : Nat} → {nodes : List Node} →
    last < n.length → n.Solid → n.Spaced →
    n.box turn around offset first last = some (next, nodes) → n.Replaces nodes
  | leaf _ _, _, _, _, _, _, hlast, _, _, h => replaces_split hle hlast h
  | block f cs, _, _, _, _, _, _, hsolid, hspaced, h => by
    simp only [box, Option.map_eq_some_iff, Prod.mk.injEq] at h
    obtain ⟨⟨next, inner⟩, h, -, rfl⟩ := h
    obtain ⟨-, hinner, hspacing, hdivided⟩ := normal_boxIn hle cs hsolid.2 hspaced h
    refine ⟨by simp, ⟨⟨hdivided hsolid.1, hinner⟩, trivial⟩, fun hcs => ?_, fun {ds} hds => ?_⟩
    · exact ⟨hcs.1, hspacing, hcs.2.2⟩
    · match ds with
      | [] => exact hds
      | _ :: _ => trivial

theorem normal_boxIn {first last : Nat} (hle : first ≤ last) : (cs : List Node) →
    {turn next : Palette.Turn} → {around : Option Rgb} → {offset : Nat} → {nodes : List Node} →
    {behindLeaf : Bool} → SolidIn cs → SpacedIn behindLeaf cs →
    boxIn turn around offset first last cs = some (next, nodes) →
    nodes ≠ [] ∧ SolidIn nodes ∧ SpacedIn behindLeaf nodes ∧ (Divided cs → Divided nodes)
  | [], _, _, _, _, _, _, _, _, h => by simp [boxIn] at h
  | c :: cs, _, _, _, _, _, _, hsolid, hspaced, h => by
    simp only [boxIn] at h
    split at h
    · split at h
      · rename_i hlast
        simp only [Option.map_eq_some_iff, Prod.mk.injEq] at h
        obtain ⟨⟨next, inner⟩, h, rfl, rfl⟩ := h
        have hreplaces := replaces_box hle c hlast hsolid.1 hspaced.2.1 h
        have hsolid' : SolidIn (inner ++ cs) := by
          rw [solidIn_iff]
          intro d hd
          rcases List.mem_append.1 hd with hd | hd
          · exact solidIn_iff.1 hreplaces.solid d hd
          · exact solidIn_iff.1 hsolid.2 d hd
        exact ⟨by simp [hreplaces.inhabited], hsolid', hreplaces.spaced hspaced, hreplaces.divided⟩
      · cases h
    · simp only [Option.map_eq_some_iff, Prod.mk.injEq] at h
      obtain ⟨⟨next, inner⟩, h, rfl, rfl⟩ := h
      obtain ⟨hne, hinner, hspacing, -⟩ := normal_boxIn (by omega) cs hsolid.2 hspaced.2.2 h
      exact ⟨by simp, ⟨hsolid.1, hinner⟩, ⟨hspaced.1, hspaced.2.1, hspacing⟩,
        fun _ => divided_cons hne⟩
end

/-! Dissolving. -/

theorem solidIn_set {cs : List Node} (i : Nat) {d : Node} (h : SolidIn cs) (hd : d.Solid) :
    SolidIn (cs.set i d) := by
  rw [solidIn_iff] at h ⊢
  intro c hc
  rcases List.mem_or_eq_of_mem_set hc with hmem | rfl
  · exact h c hmem
  · exact hd

theorem mergeLeaves_cons (c : Node) (cs : List Node) :
    (∃ s t p u more, c = leaf s t ∧ mergeLeaves cs = leaf p u :: more ∧
      mergeLeaves (c :: cs) = leaf s (t ++ u) :: more) ∨
    (mergeLeaves (c :: cs) = c :: mergeLeaves cs ∧
      (c.isLeaf = true → ∀ d ∈ (mergeLeaves cs).head?, d.isLeaf = false)) := by
  cases c with
  | block f inner => exact .inr ⟨rfl, nofun⟩
  | leaf s t =>
    cases hrest : mergeLeaves cs with
    | nil => exact .inr ⟨by simp [mergeLeaves, hrest], fun _ d hd => nomatch hd⟩
    | cons d more =>
      cases d with
      | leaf p u => exact .inl ⟨s, t, p, u, more, rfl, rfl, by simp [mergeLeaves, hrest]⟩
      | block f inner =>
        refine .inr ⟨by simp [mergeLeaves, hrest], fun _ d hd => ?_⟩
        obtain rfl := Option.some.inj hd
        rfl

theorem solidIn_mergeLeaves {cs : List Node} (h : SolidIn cs) : SolidIn (mergeLeaves cs) := by
  induction cs with
  | nil => exact h
  | cons c cs ih =>
    have hmerged := ih h.2
    rcases mergeLeaves_cons c cs with ⟨s, t, p, u, more, rfl, hrest, heq⟩ | ⟨heq, -⟩
    · rw [hrest] at hmerged
      rw [heq]
      exact ⟨fun hnil => h.1 (List.append_eq_nil_iff.1 hnil).1, hmerged.2⟩
    · rw [heq]
      exact ⟨h.1, hmerged⟩

theorem spaced_of_mem {behindLeaf : Bool} {cs : List Node} {c : Node} (h : SpacedIn behindLeaf cs)
    (hc : c ∈ cs) : c.Spaced := by
  induction cs generalizing behindLeaf with
  | nil => cases hc
  | cons d cs ih =>
    rcases List.mem_cons.1 hc with rfl | hc
    · exact h.2.1
    · exact ih h.2.2 hc

/-- However leaves and blocks come, once leaves are joined none stands beside another. -/
theorem spacedIn_mergeLeaves {cs : List Node} (h : ∀ c ∈ cs, c.Spaced) :
    SpacedIn false (mergeLeaves cs) := by
  induction cs with
  | nil => trivial
  | cons c cs ih =>
    have hmerged := ih fun d hd => h d (List.mem_cons_of_mem c hd)
    rcases mergeLeaves_cons c cs with ⟨s, t, p, u, more, rfl, hrest, heq⟩ | ⟨heq, hapart⟩
    · rw [hrest] at hmerged
      rw [heq]
      exact ⟨nofun, trivial, hmerged.2.2⟩
    · rw [heq]
      refine ⟨nofun, h c List.mem_cons_self, ?_⟩
      cases hrest : mergeLeaves cs with
      | nil => trivial
      | cons d more =>
        rw [hrest] at hmerged hapart
        exact ⟨fun hleaf => hapart hleaf d rfl, hmerged.2⟩

theorem exists_leaf_mergeLeaves {cs : List Node} (h : ∃ c ∈ cs, c.isLeaf = true) :
    ∃ c ∈ mergeLeaves cs, c.isLeaf = true := by
  induction cs with
  | nil => exact h
  | cons c cs ih =>
    rcases mergeLeaves_cons c cs with ⟨s, t, p, u, more, -, -, heq⟩ | ⟨heq, -⟩
    · rw [heq]
      exact ⟨_, List.mem_cons_self, rfl⟩
    · rw [heq]
      obtain ⟨d, hd, hleaf⟩ := h
      rcases List.mem_cons.1 hd with rfl | hd
      · exact ⟨d, List.mem_cons_self, hleaf⟩
      · obtain ⟨d', hd', hleaf'⟩ := ih ⟨d, hd, hleaf⟩
        exact ⟨d', List.mem_cons_of_mem c hd', hleaf'⟩

theorem spacedIn_set {behindLeaf : Bool} {cs : List Node} {i : Nat} {c d : Node}
    (h : SpacedIn behindLeaf cs) (hat : cs[i]? = some c) (hleaf : d.isLeaf = c.isLeaf)
    (hd : d.Spaced) : SpacedIn behindLeaf (cs.set i d) := by
  induction cs generalizing behindLeaf i with
  | nil => exact h
  | cons b cs ih =>
    cases i with
    | zero =>
      obtain rfl := Option.some.inj hat
      rw [List.set_cons_zero]
      refine ⟨?_, hd, ?_⟩
      · rw [hleaf]
        exact h.1
      · rw [hleaf]
        exact h.2.2
    | succ i =>
      rw [List.set_cons_succ]
      exact ⟨h.1, h.2.1, ih h.2.2 hat⟩

theorem divided_set {cs : List Node} {i : Nat} {c d : Node} (h : Divided cs)
    (hat : cs[i]? = some c) (hleaf : d.isLeaf = c.isLeaf) : Divided (cs.set i d) := by
  match cs, i with
  | [], _ => exact h
  | [b], 0 =>
    obtain rfl := Option.some.inj hat
    exact hleaf.trans h
  | [b], i + 1 => exact h
  | b :: b' :: cs, 0 => trivial
  | b :: b' :: cs, 1 => trivial
  | b :: b' :: cs, i + 2 => trivial

/-- Dissolving a block makes a leaf of it, and joins it to those beside it. -/
theorem normal_unbox (path : Path) {cs ds : List Node} (h : unbox path cs = some ds)
    (hsolid : SolidIn cs) (hspaced : SpacedIn false cs) (hdivided : Divided cs) :
    SolidIn ds ∧ SpacedIn false ds ∧ Divided ds := by
  fun_induction unbox path cs generalizing ds with
  | case2 i cs f inner hat =>
    obtain rfl := Option.some.inj h
    have hblock := solidIn_iff.1 hsolid _ (List.mem_of_getElem? hat)
    have hlt : i < cs.length := (List.getElem?_eq_some_iff.1 hat).1
    have htext : (leaf 0 (textOf inner)).Solid :=
      SolidIn.textOf_ne_nil inner hblock.1.ne_nil hblock.2
    refine ⟨solidIn_mergeLeaves (solidIn_set i hsolid htext), spacedIn_mergeLeaves ?_, ?_⟩
    · intro c hc
      rcases List.mem_or_eq_of_mem_set hc with hmem | rfl
      · exact spaced_of_mem hspaced hmem
      · trivial
    · have hmem : leaf 0 (textOf inner) ∈ cs.set i (leaf 0 (textOf inner)) :=
        List.mem_set hlt _
      obtain ⟨c, hc, hleaf⟩ := exists_leaf_mergeLeaves ⟨_, hmem, rfl⟩
      exact divided_of_leaf hc hleaf
  | case5 i j path cs f inner hat ih =>
    obtain ⟨inner', hinner, rfl⟩ := Option.map_eq_some_iff.1 h
    have hblock := solidIn_iff.1 hsolid _ (List.mem_of_getElem? hat)
    have hspacing : SpacedIn false inner := spaced_of_mem hspaced (List.mem_of_getElem? hat)
    obtain ⟨hsolid', hspaced', hdivided'⟩ := ih hinner hblock.2 hspacing hblock.1
    exact ⟨solidIn_set i hsolid ⟨hdivided', hsolid'⟩, spacedIn_set hspaced hat rfl hspaced',
      divided_set hdivided hat rfl⟩
  | _ => simp at h

end Node

/-- The normal form of all the text: a text of no characters is one leaf. -/
inductive Block.Normal (b : Block) : Prop
  | empty {s : Nat} (h : b.children = [.leaf s []])
  | filled (solid : Node.SolidIn b.children) (spaced : Node.SpacedIn false b.children)
    (divided : Node.Divided b.children)

namespace Block

variable {b c : Block}

theorem normal_ofText (t : Text) : (ofText t).Normal := by
  by_cases ht : t = []
  · subst ht
    exact .empty rfl
  · exact .filled ⟨ht, trivial⟩ ⟨nofun, trivial, trivial⟩ rfl

theorem Normal.box? (h : b.Normal) {start last : Nat} (hbox : b.box? start last = some c) :
    c.Normal := by
  unfold Block.box? at hbox
  split at hbox
  · rename_i hle
    obtain ⟨⟨next, children⟩, hin, rfl⟩ := Option.map_eq_some_iff.1 hbox
    cases h with
    | empty h =>
      rw [h] at hin
      simp [Node.boxIn, Node.length, Node.text] at hin
    | filled hsolid hspaced hdivided =>
      obtain ⟨-, hsolid', hspaced', hkeep⟩ := Node.normal_boxIn hle b.children hsolid hspaced hin
      exact .filled hsolid' hspaced' (hkeep hdivided)
  · cases hbox

theorem Normal.unbox? (h : b.Normal) {path : Path} (hunbox : b.unbox? path = some c) :
    c.Normal := by
  obtain ⟨children, hout, rfl⟩ := Option.map_eq_some_iff.1 hunbox
  cases h with
  | empty h =>
    -- a leaf alone has no block to dissolve
    rw [h] at hout
    match path with
    | [] => cases hout
    | [0] => cases hout
    | [i + 1] => cases hout
    | 0 :: j :: path => cases hout
    | (i + 1) :: j :: path => cases hout
  | filled hsolid hspaced hdivided =>
    obtain ⟨hsolid', hspaced', hdivided'⟩ := Node.normal_unbox path hout hsolid hspaced hdivided
    exact .filled (Node.solidIn_reflowFrom 0 children hsolid')
      (Node.spacedIn_reflowFrom false 0 children hspaced') (Node.divided_reflowFrom hdivided')

end Block
end QueryLine
