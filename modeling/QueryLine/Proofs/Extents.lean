import QueryLine.Proofs.Leaves
import QueryLine.Proofs.Spans

/-!
Boxing seen from the whole text. A block is known by the characters that it covers. Where spans are
boxed in the order of the text, the outer ones first, a span lies in one leaf, and it is boxed
unless it is all of that leaf.
-/

namespace QueryLine

instance (s outer : Span) : Decidable (s.Within outer) :=
  inferInstanceAs (Decidable (outer.start ≤ s.start ∧ s.stop ≤ outer.stop))

/-- In the order of the text `s` comes behind `x`, or it is inside and starts later. -/
def Span.Follows (s x : Span) : Prop :=
  x.stop ≤ s.start ∨ (x.start < s.start ∧ s.stop ≤ x.stop)

/-- A span from the start of all, or from where another ends, to the end of all, or of another that
starts before it. -/
def Span.Hemmed (s : Span) (start stop : Nat) (spans : List Span) : Prop :=
  (s.start = start ∨ ∃ x ∈ spans, x.stop = s.start) ∧
    (s.stop = stop ∨ ∃ x ∈ spans, x.start < s.start ∧ x.stop = s.stop)

theorem Span.hemmed_congr {s : Span} {start stop : Nat} {xs ys : List Span}
    (h : ∀ u, u.stop = s.start ∨ u.start < s.start → (u ∈ xs ↔ u ∈ ys)) :
    s.Hemmed start stop xs ↔ s.Hemmed start stop ys := by
  refine and_congr (or_congr_right ?_) (or_congr_right ?_)
  · exact exists_congr fun u => and_congr_left fun hat => h u (.inl hat)
  · exact exists_congr fun u => and_congr_left fun hat => h u (.inr hat.1)

/-- What a block covers of the whole text, and how many blocks it is in, itself included. -/
structure Extent where
  span : Span
  depth : Nat

/-- The blocks around a span. -/
def Extent.around (s : Span) (extents : List Extent) : List Extent :=
  extents.filter fun x => s.Within x.span

namespace Extent

theorem around_append (s : Span) (xs ys : List Extent) :
    around s (xs ++ ys) = around s xs ++ around s ys := List.filter_append xs ys

theorem around_cons {s : Span} {x : Extent} (h : s.Within x.span) (xs : List Extent) :
    around s (x :: xs) = x :: around s xs := List.filter_cons_of_pos (decide_eq_true h)

end Extent

/-- One of the leaves, of which the first is at `start`, is all of a span and nothing else. -/
def Leaf.Cover (s : Span) (start : Nat) (ls : List Leaf) : Prop :=
  ∃ b l a, ls = b ++ l :: a ∧ start + (spell b).length = s.start ∧ l.text.length = s.length

namespace Leaf.Cover

variable {s : Span} {start : Nat} {ls ms : List Leaf}

theorem under (h : Cover s start ls) (i : Nat) : Cover s start (ls.map (Leaf.under i)) := by
  obtain ⟨b, l, a, rfl, hstart, hlength⟩ := h
  refine ⟨b.map (Leaf.under i), l.under i, a.map (Leaf.under i), by simp, ?_, hlength⟩
  rwa [spell_under]

theorem append_left (h : Cover s start ls) : Cover s start (ls ++ ms) := by
  obtain ⟨b, l, a, rfl, hstart, hlength⟩ := h
  exact ⟨b, l, a ++ ms, by simp, hstart, hlength⟩

theorem append_right (h : Cover s (start + (spell ls).length) ms) : Cover s start (ls ++ ms) := by
  obtain ⟨b, l, a, rfl, hstart, hlength⟩ := h
  refine ⟨ls ++ b, l, a, by simp, ?_, hlength⟩
  rwa [spell_append, List.length_append, ← Nat.add_assoc]

end Leaf.Cover

namespace Node

mutual
/-- The blocks of a node that is at `start` of the whole text, with `depth` blocks around. -/
def extents (start depth : Nat) : Node → List Extent
  | leaf .. => []
  | block _ cs =>
    ⟨⟨start, (textOf cs).length⟩, depth + 1⟩ :: extentsIn start (depth + 1) cs

def extentsIn (start depth : Nat) : List Node → List Extent
  | [] => []
  | c :: cs => c.extents start depth ++ extentsIn (start + c.length) depth cs
end

mutual
/-- No leaf stands right behind another. -/
def Spaced : Node → Prop
  | leaf .. => True
  | block _ cs => SpacedIn false cs

/-- The same for children behind a leaf or behind none. -/
def SpacedIn (behindLeaf : Bool) : List Node → Prop
  | [] => True
  | c :: cs => (behindLeaf = true → c.isLeaf = false) ∧ c.Spaced ∧ SpacedIn c.isLeaf cs
end

/-- A span got a block in `nodes`: the last of them, and as deep as there are blocks around it. The
leaf that it was cut from, from `p` to `q`, was longer. -/
structure Granted (s : Span) (start stop depth : Nat) (behindLeaf : Bool) (old : List Extent)
    (nodes : List Node) : Prop where
  extents : extentsIn start depth nodes =
    old ++ [⟨s, depth + (Extent.around s old).length + 1⟩]
  spaced : SpacedIn behindLeaf nodes
  room : ∃ p q, start ≤ p ∧ p ≤ s.start ∧ s.stop ≤ q ∧ q ≤ stop ∧ (p < s.start ∨ s.stop < q) ∧
    ∀ x ∈ old, x.span.stop ≤ p ∨ (x.span.start ≤ p ∧ q ≤ x.span.stop)

/-- A span is all of a leaf, and hemmed by the blocks there are. -/
structure Refused (s : Span) (start stop : Nat) (old : List Extent) (ls : List Leaf) : Prop where
  cover : Leaf.Cover s start ls
  start_eq : s.start = start ∨ ∃ x ∈ old, x.span.stop = s.start
  stop_eq : s.stop = stop ∨ ∃ x ∈ old, x.span.start < s.start ∧ x.span.stop = s.stop

variable {s : Span} {turn : Palette.Turn} {around : Option Rgb}

mutual
theorem extents_within (start depth : Nat) : (n : Node) → ∀ x ∈ n.extents start depth,
    x.span.Within ⟨start, n.length⟩
  | leaf .., _, hx => nomatch hx
  | block _ cs, x, hx => by
    rcases List.mem_cons.1 hx with rfl | hx
    · exact ⟨Nat.le_refl _, Nat.le_refl _⟩
    · exact extentsIn_within start (depth + 1) cs x hx

theorem extentsIn_within (start depth : Nat) : (cs : List Node) → ∀ x ∈ extentsIn start depth cs,
    x.span.Within ⟨start, (textOf cs).length⟩
  | [], _, hx => nomatch hx
  | c :: cs, x, hx => by
    have hlength : (textOf (c :: cs)).length = c.length + (textOf cs).length :=
      List.length_append
    rcases List.mem_append.1 hx with hx | hx
    · obtain ⟨hstart, hstop⟩ := extents_within start depth c x hx
      refine ⟨hstart, Nat.le_trans hstop ?_⟩
      simp only [Span.stop]
      omega
    · obtain ⟨hstart, hstop⟩ := extentsIn_within (start + c.length) depth cs x hx
      simp only [Span.stop] at hstart hstop
      constructor
      · change start ≤ x.span.start
        omega
      · simp only [Span.stop]
        omega
end

theorem isEmpty_take_iff {t : Text} {first : Nat} (hfirst : first < t.length) :
    (t.take first).isEmpty = true ↔ first = 0 := by
  rw [List.isEmpty_iff_length_eq_zero, List.length_take]
  omega

theorem isEmpty_drop_iff {t : Text} {last : Nat} (hlast : last < t.length) :
    (t.drop (last + 1)).isEmpty = true ↔ last + 1 = t.length := by
  rw [List.isEmpty_iff_length_eq_zero, List.length_drop]
  omega

theorem split_eq_none_iff {t : Text} {offset first last : Nat} (hle : first ≤ last)
    (hlast : last < t.length) :
    split turn around offset t first last = none ↔ first = 0 ∧ last + 1 = t.length := by
  rw [← isEmpty_take_iff (Nat.lt_of_le_of_lt hle hlast), ← isEmpty_drop_iff hlast,
    ← Bool.and_eq_true]
  unfold split
  dsimp only
  split
  · rename_i hwhole
    exact iff_of_true rfl hwhole
  · rename_i hpart
    exact iff_of_false (Option.some_ne_none _) hpart

/-- What is left of a leaf on one side: a leaf, or nothing if there is no text. -/
def Remnant (t : Text) (cs : List Node) : Prop :=
  (t = [] ∧ cs = []) ∨ (t ≠ [] ∧ ∃ p, cs = [leaf p t])

theorem exists_of_split {t : Text} {offset first last : Nat} {next : Palette.Turn}
    {nodes : List Node} (h : split turn around offset t first last = some (next, nodes)) :
    ∃ before f after, Remnant (t.take first) before ∧ Remnant (t.drop (last + 1)) after ∧
      nodes = before ++ block f [leaf 0 ((t.take (last + 1)).drop first)] :: after := by
  have hremnant : ∀ (u : Text) (p : Nat), Remnant u (if u.isEmpty then [] else [leaf p u]) := by
    intro u p
    split
    · exact .inl ⟨List.isEmpty_iff.1 ‹_›, rfl⟩
    · rename_i htext
      exact .inr ⟨mt List.isEmpty_iff.2 htext, p, rfl⟩
  unfold split at h
  dsimp only at h
  split at h
  · cases h
  · obtain ⟨-, rfl⟩ := Prod.mk.inj (Option.some.inj h)
    exact ⟨_, _, _, hremnant _ _, hremnant _ _, rfl⟩

theorem extentsIn_remnant {t : Text} {cs d : List Node} (h : Remnant t cs) (start depth : Nat) :
    extentsIn start depth (cs ++ d) = extentsIn (start + t.length) depth d := by
  rcases h with ⟨rfl, rfl⟩ | ⟨-, p, rfl⟩
  · rfl
  · rfl

theorem SpacedIn.behind_none {behindLeaf : Bool} {cs : List Node} (h : SpacedIn behindLeaf cs) :
    SpacedIn false cs := by
  cases cs with
  | nil => trivial
  | cons c cs => exact ⟨nofun, h.2⟩

theorem spaced_remnant {t u : Text} {cs ds es inner : List Node} {f : Frame} (hcs : Remnant t cs)
    (hds : Remnant u ds) (hinner : SpacedIn false inner) (hes : SpacedIn true es) :
    SpacedIn false (cs ++ block f inner :: (ds ++ es)) := by
  have hblock : ∀ b, SpacedIn b (block f inner :: (ds ++ es)) := by
    intro b
    rcases hds with ⟨-, rfl⟩ | ⟨-, p, rfl⟩
    · exact ⟨fun _ => rfl, hinner, hes.behind_none⟩
    · exact ⟨fun _ => rfl, hinner, nofun, trivial, hes⟩
  rcases hcs with ⟨-, rfl⟩ | ⟨-, p, rfl⟩
  · exact hblock false
  · exact ⟨nofun, trivial, hblock true⟩

/-- The middle of a leaf becomes a block; the rest stays a leaf on each side. -/
theorem granted_of_split {t : Text} {start depth offset first last : Nat} {next : Palette.Turn}
    {nodes : List Node} (hle : first ≤ last) (hlast : last < t.length)
    (hstart : s.start = start + first) (hstop : s.stop = start + last + 1)
    (h : split turn around offset t first last = some (next, nodes)) :
    Granted s start (start + t.length) depth false [] nodes := by
  have hpart : ¬(first = 0 ∧ last + 1 = t.length) := by
    rw [← split_eq_none_iff hle hlast, h]
    exact Option.some_ne_none _
  obtain ⟨before, f, after, hbefore, hafter, rfl⟩ := exists_of_split h
  have hmiddle : ((t.take (last + 1)).drop first).length = s.length := by
    rw [List.length_drop, List.length_take]
    rw [Span.stop] at hstop
    omega
  have htake : (t.take first).length = first := List.length_take_of_le (by omega)
  have hafter' : ∀ p, extentsIn p depth after = [] := by
    intro p
    have hnone := extentsIn_remnant (d := []) hafter p depth
    rwa [List.append_nil] at hnone
  have hmiddleSpaced : SpacedIn false [leaf 0 ((t.take (last + 1)).drop first)] :=
    ⟨nofun, trivial, trivial⟩
  have hnothing : SpacedIn true [] := trivial
  have hspaced := spaced_remnant (f := f) hbefore hafter hmiddleSpaced hnothing
  rw [List.append_nil] at hspaced
  refine ⟨?_, hspaced, start, start + t.length, Nat.le_refl _, by omega, by omega, Nat.le_refl _,
    by omega, fun _ hx => nomatch hx⟩
  rw [extentsIn_remnant hbefore, htake, extentsIn, hafter', extents]
  simp only [textOf, text, List.append_nil, hmiddle, ← hstart]
  rfl

theorem Refused.hemmed {start stop : Nat} {old : List Extent} {ls : List Leaf}
    (h : Refused s start stop old ls) : s.Hemmed start stop (old.map Extent.span) :=
  ⟨h.start_eq.imp_right fun ⟨x, hx, hat⟩ => ⟨x.span, List.mem_map_of_mem hx, hat⟩,
    h.stop_eq.imp_right fun ⟨x, hx, hat⟩ => ⟨x.span, List.mem_map_of_mem hx, hat⟩⟩

/-- Where a span got a block the leaf around it went on, at its start or at its end. -/
theorem Granted.not_hemmed {start stop depth : Nat} {behindLeaf : Bool} {old : List Extent}
    {nodes : List Node} (h : Granted s start stop depth behindLeaf old nodes)
    (hpos : s.start < s.stop) : ¬s.Hemmed start stop (old.map Extent.span) := by
  obtain ⟨p, q, hlo, hp, hq, hhi, hmore, hroom⟩ := h.room
  rintro ⟨hstart, hstop⟩
  -- no block starts or ends inside of the leaf, so a block at the span's edge is at the leaf's
  have hpstart : p = s.start := by
    rcases hstart with hedge | ⟨u, hu, hat⟩
    · omega
    · obtain ⟨x, hx, rfl⟩ := List.mem_map.1 hu
      have hside := hroom x hx
      omega
  have hqstop : q = s.stop := by
    rcases hstop with hedge | ⟨u, hu, hlt, hat⟩
    · omega
    · obtain ⟨x, hx, rfl⟩ := List.mem_map.1 hu
      have hside := hroom x hx
      omega
  clear hstart hstop
  omega

/-- What becomes of a span among nodes from `start` to `stop`. -/
def Outcome (s : Span) (start stop depth : Nat) (behindLeaf : Bool) (old : List Extent)
    (ls : List Leaf) : Option (Palette.Turn × List Node) → Prop
  | none => Refused s start stop old ls
  | some (_, nodes) => Granted s start stop depth behindLeaf old nodes

section Outcome

variable {start stop depth offset first last i : Nat} {behindLeaf : Bool} {cs : List Node}
  {r : Option (Palette.Turn × List Node)}

theorem outcome_leaf {t : Text} {l : Leaf} (hl : l.text = t) (hle : first ≤ last)
    (hlast : last < t.length) (hstart : s.start = start + first)
    (hstop : s.stop = start + last + 1) :
    Outcome s start (start + t.length) depth false [] [l]
      (split turn around offset t first last) := by
  cases h : split turn around offset t first last with
  | some result => exact granted_of_split hle hlast hstart hstop h
  | none =>
    obtain ⟨rfl, hwhole⟩ := (split_eq_none_iff hle hlast).1 h
    have hlength : t.length = s.length := by
      rw [Span.stop] at hstop
      omega
    refine ⟨⟨[], l, [], rfl, hstart.symm, by rw [hl, hlength]⟩, .inl hstart, .inl ?_⟩
    omega

theorem Outcome.inside {f : Frame} {inner : List Node}
    (h : Outcome s start (start + (textOf inner).length) (depth + 1) false
      (extentsIn start (depth + 1) inner) (leavesFrom 0 inner) r)
    (hlength : ∀ result, r = some result → textOf result.2 = textOf inner)
    (hlt : start < s.start) (hstop : s.stop ≤ start + (textOf inner).length)
    (hcs : extentsIn (start + (textOf inner).length) depth cs = [])
    (hspaced : SpacedIn behindLeaf (block f inner :: cs)) :
    Outcome s start (start + (textOf (block f inner :: cs)).length) depth behindLeaf
      (extentsIn start depth (block f inner :: cs)) (leavesFrom i (block f inner :: cs))
      (r.map fun (next, nodes) => (turn, [block { f with turn := next } nodes] ++ cs)) := by
  have hold : extentsIn start depth (block f inner :: cs) =
      ⟨⟨start, (textOf inner).length⟩, depth + 1⟩ :: extentsIn start (depth + 1) inner := by
    change _ ++ extentsIn (start + (textOf inner).length) depth cs = _
    rw [hcs, List.append_nil]
    rfl
  have hwithin : s.Within ⟨start, (textOf inner).length⟩ := ⟨Nat.le_of_lt hlt, hstop⟩
  rw [hold]
  match r with
  | none =>
    obtain ⟨hcover, hstarts, hstops⟩ := h
    refine ⟨(hcover.under i).append_left, ?_, ?_⟩
    · -- the span starts later than the block, so it does not start at the block's edge
      rcases hstarts with hedge | ⟨x, hx, hedge⟩
      · omega
      · exact .inr ⟨x, List.mem_cons_of_mem _ hx, hedge⟩
    · rcases hstops with hedge | ⟨x, hx, hedge⟩
      · exact .inr ⟨_, List.mem_cons_self, hlt, hedge.symm⟩
      · exact .inr ⟨x, List.mem_cons_of_mem _ hx, hedge⟩
  | some (next, nodes) =>
    obtain ⟨hextents, hnodes, p, q, hp, hps, hsq, hq, hmore, hroom⟩ := h
    have htext : textOf nodes = textOf inner := hlength _ rfl
    refine ⟨?_, ⟨hspaced.1, hnodes, hspaced.2.2⟩, p, q, hp, hps, hsq, ?_, hmore, ?_⟩
    -- the block is one more around the span, and what is inside is counted one deeper
    · have haround : (Extent.around s (⟨⟨start, (textOf inner).length⟩, depth + 1⟩ ::
          extentsIn start (depth + 1) inner)).length =
            (Extent.around s (extentsIn start (depth + 1) inner)).length + 1 := by
        rw [Extent.around_cons hwithin, List.length_cons]
      change (⟨⟨start, (textOf nodes).length⟩, depth + 1⟩ :: extentsIn start (depth + 1) nodes) ++
        extentsIn (start + (textOf nodes).length) depth cs = _
      rw [htext, hcs, hextents, haround, List.append_nil, List.cons_append,
        Nat.add_right_comm depth 1, Nat.add_assoc depth]
    · rw [textOf, List.length_append, text]
      omega
    · intro x hx
      rcases List.mem_cons.1 hx with rfl | hx
      · exact .inr ⟨hp, hq⟩
      · exact hroom x hx

theorem Outcome.behind {c : Node}
    (h : Outcome s (start + c.length) stop depth c.isLeaf
      (extentsIn (start + c.length) depth cs) (leavesFrom (i + 1) cs) r)
    (hpos : s.start < s.stop)
    (hedge : s.start = start + c.length →
      ∃ x ∈ extentsIn start depth (c :: cs), x.span.stop = s.start)
    (hbehind : behindLeaf = true → c.isLeaf = false) (hc : c.Spaced) :
    Outcome s start stop depth behindLeaf (extentsIn start depth (c :: cs))
      (leavesFrom i (c :: cs)) (r.map fun (next, nodes) => (next, c :: nodes)) := by
  have hinside := extents_within start depth c
  match r with
  | none =>
    obtain ⟨hcover, hstarts, hstops⟩ := h
    refine ⟨?_, .inr ?_, ?_⟩
    · rw [leavesFrom]
      apply Leaf.Cover.append_right
      rwa [Leaf.spell_under, spell_leaves]
    · rcases hstarts with hat | ⟨x, hx, hat⟩
      · exact hedge hat
      · exact ⟨x, List.mem_append_right _ hx, hat⟩
    · rcases hstops with hat | ⟨x, hx, hat⟩
      · exact .inl hat
      · exact .inr ⟨x, List.mem_append_right _ hx, hat⟩
  | some (next, nodes) =>
    obtain ⟨hextents, hnodes, p, q, hp, hps, hsq, hq, hmore, hroom⟩ := h
    -- nothing of `c` is around the span, so its depth stays
    have hnone : Extent.around s (c.extents start depth) = [] := by
      rw [Extent.around, List.filter_eq_nil_iff]
      intro x hx hwithin
      have hstop := (hinside x hx).2
      have hover := (of_decide_eq_true hwithin).2
      simp only [Span.stop] at hstop hover hpos
      omega
    refine ⟨?_, ⟨hbehind, hc, hnodes⟩, p, q, by omega, hps, hsq, hq, hmore, ?_⟩
    · rw [extentsIn, extentsIn, hextents, ← List.append_assoc, Extent.around_append, hnone,
        List.nil_append]
    · intro x hx
      rcases List.mem_append.1 hx with hx | hx
      · exact .inl (Nat.le_trans (hinside x hx).2 hp)
      · exact hroom x hx

theorem exists_extent {c : Node} (h : c.isLeaf = false) (start depth : Nat) :
    ∃ x ∈ c.extents start depth, x.span = ⟨start, c.length⟩ := by
  cases c with
  | leaf p t => cases h
  | block f inner => exact ⟨_, List.mem_cons_self, rfl⟩

theorem exists_extent_behind_leaf (h : SpacedIn true cs) (hne : cs ≠ []) (start depth : Nat) :
    ∃ x ∈ extentsIn start depth cs, x.span.start = start := by
  cases cs with
  | nil => cases hne rfl
  | cons d ds =>
    obtain ⟨x, hx, hspan⟩ := exists_extent (h.1 rfl) start depth
    exact ⟨x, List.mem_append_left _ hx, by rw [hspan]⟩

/-- No block starts behind the start of a span that follows them all. -/
theorem extentsIn_eq_nil (hfollows : ∀ x ∈ extentsIn start depth cs, s.Follows x.span)
    (hlt : s.start < start) : extentsIn start depth cs = [] := by
  apply List.eq_nil_iff_forall_not_mem.2
  intro x hx
  have hstart : start ≤ x.span.start := (extentsIn_within start depth cs x hx).1
  have hle : x.span.start ≤ x.span.stop := Nat.le_add_right _ _
  rcases hfollows x hx with hbehind | ⟨hinside, -⟩
  · omega
  · omega

/-- A span that starts in a leaf ends there: a block behind the leaf would start too late. -/
theorem outcome_in_leaf {p : Nat} {t : Text} (hspaced : SpacedIn behindLeaf (leaf p t :: cs))
    (hnone : extentsIn (start + t.length) depth cs = []) (hle : first ≤ last)
    (hlast : last < (textOf (leaf p t :: cs)).length) (hstart : s.start = start + first)
    (hstop : s.stop = start + last + 1) :
    Outcome s start (start + (textOf (leaf p t :: cs)).length) depth behindLeaf
      (extentsIn start depth (leaf p t :: cs)) (leavesFrom i (leaf p t :: cs))
      (if last < t.length then (split turn around offset t first last).map fun (next, nodes) =>
        (next, nodes ++ cs) else none) := by
  obtain ⟨hbehind, -, hcs⟩ := hspaced
  -- behind a leaf comes a block, and none starts behind the span's start
  have hnil : cs = [] := by
    apply Decidable.byContradiction
    intro hne
    obtain ⟨x, hx, -⟩ := exists_extent_behind_leaf hcs hne (start + t.length) depth
    rw [hnone] at hx
    cases hx
  have hfirst : behindLeaf = false := by
    apply Bool.eq_false_iff.2
    intro htrue
    cases hbehind htrue
  subst hnil hfirst
  have ht : last < t.length := by simpa [textOf, text] using hlast
  have hleaf : Outcome s start (start + t.length) depth false [] [⟨[i], t⟩]
      (split turn around offset t first last) := outcome_leaf rfl hle ht hstart hstop
  simpa [ht, textOf, text, extentsIn, extents, leavesFrom, leaves, Leaf.under] using hleaf

/-- At the edge between two children that are not both leaves a block ends or is empty. -/
theorem exists_extent_at_edge {c : Node} (hcs : SpacedIn c.isLeaf cs) (hne : cs ≠ [])
    (hfollows : ∀ x ∈ extentsIn (start + c.length) depth cs, s.Follows x.span)
    (hedge : s.start = start + c.length) :
    ∃ x ∈ extentsIn start depth (c :: cs), x.span.stop = s.start := by
  by_cases hleaf : c.isLeaf = true
  · rw [hleaf] at hcs
    obtain ⟨x, hx, hat⟩ := exists_extent_behind_leaf hcs hne (start + c.length) depth
    refine ⟨x, List.mem_append_right _ hx, ?_⟩
    have hle : x.span.start ≤ x.span.stop := Nat.le_add_right _ _
    rcases hfollows x hx with hbefore | ⟨hinside, -⟩
    · omega
    · omega
  · obtain ⟨x, hx, hspan⟩ := exists_extent (Bool.eq_false_iff.2 hleaf) start depth
    exact ⟨x, List.mem_append_left _ hx, by rw [hspan, hedge]; rfl⟩

end Outcome

/-- Where the spans before it are boxed in the order of the text, a span is boxed or a leaf. -/
theorem boxIn_outcome : (cs : List Node) → {turn : Palette.Turn} → {around : Option Rgb} →
    {start depth offset first last i : Nat} → {behindLeaf : Bool} → first ≤ last →
    last < (textOf cs).length → s.start = start + first → s.stop = start + last + 1 →
    SpacedIn behindLeaf cs → (∀ x ∈ extentsIn start depth cs, s.Follows x.span) →
    Outcome s start (start + (textOf cs).length) depth behindLeaf (extentsIn start depth cs)
      (leavesFrom i cs) (boxIn turn around offset first last cs)
  | [], _, _, _, _, _, _, _, _, _, _, hlast, _, _, _, _ => by simp [textOf] at hlast
  | c :: cs, turn, around, start, depth, offset, first, last, i, behindLeaf, hle, hlast, hstart,
      hstop, hspaced, hfollows => by
    have hlength : (textOf (c :: cs)).length = c.length + (textOf cs).length :=
      List.length_append
    have hrest : ∀ x ∈ extentsIn (start + c.length) depth cs, s.Follows x.span :=
      fun x hx => hfollows x (List.mem_append_right _ hx)
    obtain ⟨hbehind, hc, hcs⟩ := hspaced
    rw [boxIn]
    split
    · rename_i hfirst
      have hnone := extentsIn_eq_nil hrest (by omega)
      cases c with
      | leaf p t => exact outcome_in_leaf ⟨hbehind, hc, hcs⟩ hnone hle hlast hstart hstop
      | block f inner =>
        -- the span starts inside of this block and follows it, so it ends there, too
        have hinside : start < s.start ∧ s.stop ≤ start + (textOf inner).length := by
          rcases hfollows _ (List.mem_append_left _ List.mem_cons_self) with hbefore | hinside
          · change start + (textOf inner).length ≤ s.start at hbefore
            change first < (textOf inner).length at hfirst
            omega
          · exact hinside
        have hlast' : last < (block f inner).length := by
          change last < (textOf inner).length
          omega
        have hin : Outcome s start (start + (textOf inner).length) (depth + 1) false
            (extentsIn start (depth + 1) inner) (leavesFrom 0 inner)
            (boxIn f.turn f.color 0 first last inner) :=
          boxIn_outcome inner hle hlast' hstart hstop hc fun x hx =>
            hfollows x (List.mem_append_left _ (List.mem_cons_of_mem _ hx))
        rw [if_pos hlast', box, Option.map_map]
        exact hin.inside (fun _ h => textOf_boxIn hle inner h) hinside.1 hinside.2 hnone
          ⟨hbehind, hc, hcs⟩
    · rename_i hfirst
      have hne : cs ≠ [] := by
        rintro rfl
        have hnil : (textOf []).length = 0 := rfl
        omega
      have hbehind' : Outcome s (start + c.length) (start + c.length + (textOf cs).length) depth
          c.isLeaf (extentsIn (start + c.length) depth cs) (leavesFrom (i + 1) cs)
          (boxIn turn around (offset + c.length) (first - c.length) (last - c.length) cs) :=
        boxIn_outcome cs (by omega) (by omega) (by omega) (by omega) hcs hrest
      rw [hlength, ← Nat.add_assoc]
      exact hbehind'.behind (by omega) (exists_extent_at_edge hcs hne hrest) hbehind hc

end Node
end QueryLine
