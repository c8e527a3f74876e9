import QueryLine.Proofs.Candidates
import QueryLine.Proofs.Session

/-!
The blocks that reading a text leads to. They are the candidates of its query in order, each as deep
as the candidates around it that have a block; a candidate is left out where a leaf is all of it.
-/

namespace QueryLine

/-- First and last character of a block, and its depth. -/
def BlockView.ends (v : BlockView) : Nat × Nat × Nat := (v.first, v.last, v.depth)

def Extent.ends (x : Extent) : Nat × Nat × Nat := (x.span.start, x.span.stop - 1, x.depth)

theorem Span.not_follows_self {s : Span} (h : 0 < s.length) : ¬s.Follows s := by
  intro hself
  have hlt : s.start < s.stop := Nat.lt_add_of_pos_right h
  rcases hself with hbehind | ⟨hinside, -⟩
  · omega
  · omega

namespace Node

mutual
theorem ends_blocks (start depth : Nat) (path : Path) {p : Nat} : (n : Node) → n.Placed p →
    (n.blocks start depth path).map BlockView.ends =
      (n.extents (start + p) depth).map Extent.ends
  | leaf .., _ => rfl
  | block f cs, h => by
    obtain ⟨rfl, hcs⟩ := h
    rw [blocks, extents, List.map_cons, List.map_cons, ends_blocksIn _ _ path 0 cs hcs]
    rfl

theorem ends_blocksIn (start depth : Nat) (path : Path) {p : Nat} (i : Nat) : (cs : List Node) →
    PlacedFrom p cs → (blocksIn start depth path i cs).map BlockView.ends =
      (extentsIn (start + p) depth cs).map Extent.ends
  | [], _ => rfl
  | c :: cs, h => by
    rw [blocksIn, extentsIn, List.map_append, List.map_append, ends_blocks start depth _ c h.1,
      ends_blocksIn start depth path (i + 1) cs h.2, Nat.add_assoc]
end

end Node

namespace Document

def extents (d : Document) : List Extent := Node.extentsIn 0 0 d.root.children

theorem Sound.ends_blocks {d : Document} (h : d.Sound) :
    d.blocks.map BlockView.ends = d.extents.map Extent.ends :=
  Node.ends_blocksIn 0 0 [] 0 d.root.children h.root.placed

/-- The spans that get a block when all are tried one after the other. -/
def taken (d : Document) : List Span → List Span
  | [] => []
  | s :: spans =>
    match d.box? s.start (s.stop - 1) with
    | some e => s :: e.taken spans
    | none => d.taken spans

/-- The document is boxed as far as `seen`; of that, the spans in `own` have a block. -/
structure Grouped (n : Nat) (seen own : List Span) (d : Document) : Prop where
  spaced : Node.SpacedIn false d.root.children
  length : d.length = n
  spans : d.extents.map Extent.span = own
  own_eq : own = seen.filter (· ∈ own)

variable {n : Nat} {seen own : List Span} {d e : Document} {c : Candidate}

theorem Grouped.mem_seen (h : d.Grouped n seen own) {s : Span} (hs : s ∈ own) : s ∈ seen := by
  rw [h.own_eq] at hs
  exact (List.mem_filter.1 hs).1

/-- The next candidate gets a block, or it is refused as all of a leaf. -/
theorem Grouped.box?_cases (h : d.Grouped n seen own) (hc : c.Next n seen) :
    (d.box? c.span.start (c.span.stop - 1) = none ∧
      Node.Refused c.span 0 n d.extents d.root.leaves) ∨
    ∃ e, d.box? c.span.start (c.span.stop - 1) = some e ∧ e.length = n ∧
      Node.Granted c.span 0 n 0 false d.extents e.root.children := by
  have hlt : c.span.start < c.span.stop := Nat.lt_add_of_pos_right hc.length_pos
  have hstop := hc.stop_le
  have hlength : (Node.textOf d.root.children).length = n := h.length
  have hfollows : ∀ x ∈ d.extents, c.span.Follows x.span := by
    intro x hx
    apply hc.follows
    apply h.mem_seen
    rw [← h.spans]
    exact List.mem_map_of_mem hx
  -- `boxIn` counts from the start of its nodes, which is where the text starts here
  have houtcome : Node.Outcome c.span 0 (0 + (Node.textOf d.root.children).length) 0 false
      d.extents d.root.leaves (Node.boxIn d.root.frame.turn d.root.frame.color 0 c.span.start
        (c.span.stop - 1) d.root.children) :=
    Node.boxIn_outcome d.root.children (by omega) (by omega) (by omega) (by omega) h.spaced hfollows
  rw [hlength, Nat.zero_add] at houtcome
  unfold box? Block.box?
  rw [if_pos (by omega)]
  cases hbox : Node.boxIn d.root.frame.turn d.root.frame.color 0 c.span.start (c.span.stop - 1)
      d.root.children with
  | none =>
    rw [hbox] at houtcome
    exact .inl ⟨rfl, houtcome⟩
  | some result =>
    obtain ⟨next, nodes⟩ := result
    rw [hbox] at houtcome
    refine .inr ⟨_, rfl, ?_, houtcome⟩
    change (Node.textOf nodes).length = n
    rw [Node.textOf_boxIn (by omega) d.root.children hbox, hlength]

theorem not_mem_of_next (hc : c.Next n seen) : c.span ∉ seen :=
  fun hmem => Span.not_follows_self hc.length_pos (hc.follows _ hmem)

theorem Grouped.length_around (h : d.Grouped n seen own) (hc : c.Next n seen) :
    (Extent.around c.span d.extents).length = (c.around.filter (· ∈ own)).length := by
  have hspans : (Extent.around c.span d.extents).map Extent.span =
      own.filter (c.span.Within ·) := by
    rw [← h.spans, List.filter_map]
    rfl
  have hcommute : own.filter (c.span.Within ·) = c.around.filter (· ∈ own) := by
    conv => lhs; rw [h.own_eq]
    rw [hc.around_eq, List.filter_filter, List.filter_filter]
    exact List.filter_congr fun x _ => Bool.and_comm _ _
  rw [← hcommute, ← hspans, List.length_map]

theorem filter_mem_append {α : Type} [DecidableEq α] {xs ys zs : List α}
    (h : ∀ x ∈ xs, x ∉ zs) : xs.filter (· ∈ ys ++ zs) = xs.filter (· ∈ ys) := by
  apply List.filter_congr
  intro x hx
  simp [h x hx]

theorem Grouped.grant (h : d.Grouped n seen own) (hc : c.Next n seen) (hlength : e.length = n)
    (hgranted : Node.Granted c.span 0 n 0 false d.extents e.root.children) :
    e.Grouped n (seen ++ [c.span]) (own ++ [c.span]) ∧
      e.extents = d.extents ++ [⟨c.span, 1 + (c.around.filter (· ∈ own)).length⟩] := by
  have hextents : e.extents = d.extents ++ [⟨c.span, 1 + (c.around.filter (· ∈ own)).length⟩] := by
    rw [← h.length_around hc, Nat.add_comm 1, extents, hgranted.extents, Nat.zero_add]
  have hnew : ∀ x ∈ seen, x ∉ [c.span] := by
    intro x hx hsame
    exact not_mem_of_next hc (List.mem_singleton.1 hsame ▸ hx)
  have hone : [c.span].filter (· ∈ own ++ [c.span]) = [c.span] := by simp
  refine ⟨⟨hgranted.spaced, hlength, ?_, ?_⟩, hextents⟩
  · rw [hextents, List.map_append, h.spans]
    rfl
  · rw [List.filter_append, hone, filter_mem_append hnew, ← h.own_eq]

theorem Grouped.refuse (h : d.Grouped n seen own) (hc : c.Next n seen) :
    d.Grouped n (seen ++ [c.span]) own := by
  have hone : [c.span].filter (· ∈ own) = [] := by
    simp [mt h.mem_seen (not_mem_of_next hc)]
  refine { h with own_eq := ?_ }
  rw [List.filter_append, hone, List.append_nil]
  exact h.own_eq

theorem taken_of_none {s : Span} (h : d.box? s.start (s.stop - 1) = none) (spans : List Span) :
    d.taken (s :: spans) = d.taken spans ∧ d.boxAll (s :: spans) = d.boxAll spans := by
  have hact : d.act (.box s.start (s.stop - 1)) = d := by
    rw [act, act?, h]
    rfl
  refine ⟨by rw [taken, h], ?_⟩
  rw [boxAll, List.foldl_cons, hact]
  rfl

theorem taken_of_some {s : Span} (h : d.box? s.start (s.stop - 1) = some e)
    (spans : List Span) :
    d.taken (s :: spans) = s :: e.taken spans ∧ d.boxAll (s :: spans) = e.boxAll spans := by
  have hact : d.act (.box s.start (s.stop - 1)) = e := by
    rw [act, act?, h]
    rfl
  refine ⟨by rw [taken, h], ?_⟩
  rw [boxAll, List.foldl_cons, hact]
  rfl

theorem taken_subset (spans : List Span) (d : Document) : d.taken spans ⊆ spans := by
  induction spans generalizing d with
  | nil => exact List.Subset.refl _
  | cons s spans ih =>
    cases h : d.box? s.start (s.stop - 1) with
    | none =>
      rw [(taken_of_none h spans).1]
      exact List.Subset.trans (ih d) (List.subset_cons_self s spans)
    | some e =>
      rw [(taken_of_some h spans).1]
      exact List.cons_subset_cons s (ih e)

theorem follows_of_inOrder {cs : List Candidate} (h : InOrder n seen cs) {s : Span}
    (hs : s ∈ cs.map Candidate.span) : 0 < s.length ∧ (∀ x ∈ seen, s.Follows x) := by
  induction cs generalizing seen with
  | nil => cases hs
  | cons c cs ih =>
    rcases List.mem_cons.1 hs with rfl | hs
    · exact ⟨h.1.length_pos, h.1.follows⟩
    · obtain ⟨hpos, hfollows⟩ := ih h.2 hs
      exact ⟨hpos, fun x hx => hfollows x (List.mem_append_left _ hx)⟩

theorem not_mem_of_inOrder {cs : List Candidate} (h : InOrder n seen cs) {s : Span}
    (hs : s ∈ cs.map Candidate.span) : s ∉ seen := by
  obtain ⟨hpos, hfollows⟩ := follows_of_inOrder h hs
  exact fun hmem => Span.not_follows_self hpos (hfollows s hmem)

/-- Boxing candidates in order adds a block for each that is taken. -/
theorem Grouped.boxAll {cs : List Candidate} (h : d.Grouped n seen own) (hcs : InOrder n seen cs) :
    let spans := cs.map Candidate.span
    let all := own ++ d.taken spans
    (d.boxAll spans).Grouped n (seen ++ spans) all ∧
      (d.boxAll spans).extents = d.extents ++ (cs.filter (·.span ∈ d.taken spans)).map
        fun c => ⟨c.span, 1 + (c.around.filter (· ∈ all)).length⟩ := by
  induction cs generalizing seen own d with
  | nil =>
    simp only [List.map_nil, List.filter_nil, List.append_nil]
    exact ⟨by rwa [taken, List.append_nil], rfl⟩
  | cons c cs ih =>
    obtain ⟨hc, hcs⟩ := hcs
    have hlater : ∀ s ∈ cs.map Candidate.span, s ≠ c.span ∧ s ∉ seen := by
      intro s hs
      have hnot := not_mem_of_inOrder hcs hs
      simp only [List.mem_append, List.mem_singleton, not_or] at hnot
      exact ⟨hnot.2, hnot.1⟩
    dsimp only
    rw [List.map_cons, List.append_cons seen]
    rcases h.box?_cases hc with ⟨hnone, -⟩ | ⟨e, hsome, hlength, hgranted⟩
    · obtain ⟨htaken, hbox⟩ := taken_of_none hnone (cs.map Candidate.span)
      have hleft : c.span ∉ d.taken (cs.map Candidate.span) :=
        fun hmem => (hlater _ (taken_subset _ d hmem)).1 rfl
      rw [htaken, hbox, List.filter_cons_of_neg (by simpa using hleft)]
      exact ih (h.refuse hc) hcs
    · obtain ⟨htaken, hbox⟩ := taken_of_some hsome (cs.map Candidate.span)
      obtain ⟨hgrouped, hextents⟩ := h.grant hc hlength hgranted
      obtain ⟨hafter, hblocks⟩ := ih hgrouped hcs
      rw [htaken, hbox, List.append_cons own]
      refine ⟨hafter, ?_⟩
      -- what is around `c` was tried before it, so its depth is settled when its turn comes
      have hown : c.around.filter (· ∈ own ++ [c.span] ++ e.taken (cs.map Candidate.span)) =
          c.around.filter (· ∈ own) := by
        rw [← List.append_cons]
        apply filter_mem_append
        intro x hx hmem
        rw [hc.around_eq] at hx
        have hseen := (List.mem_filter.1 hx).1
        rcases List.mem_cons.1 hmem with rfl | hmem
        · exact not_mem_of_next hc hseen
        · exact (hlater x (taken_subset _ e hmem)).2 hseen
      have hrest : cs.filter (·.span ∈ c.span :: e.taken (cs.map Candidate.span)) =
          cs.filter (·.span ∈ e.taken (cs.map Candidate.span)) := by
        apply List.filter_congr
        intro x hx
        simp [(hlater x.span (List.mem_map_of_mem hx)).1]
      rw [hblocks, hextents, List.filter_cons_of_pos (by simp), hrest, List.map_cons, hown,
        List.append_assoc]
      rfl

theorem taken_append (ss ts : List Span) (d : Document) :
    d.taken (ss ++ ts) = d.taken ss ++ (d.boxAll ss).taken ts := by
  induction ss generalizing d with
  | nil => rfl
  | cons s ss ih =>
    cases h : d.box? s.start (s.stop - 1) with
    | none =>
      rw [List.cons_append, (taken_of_none h _).1, (taken_of_none h _).1, (taken_of_none h _).2, ih]
    | some e =>
      rw [List.cons_append, (taken_of_some h _).1, (taken_of_some h _).1, (taken_of_some h _).2, ih,
        List.cons_append]

theorem grouped_setText (t : Text) (d : Document) : (d.setText t).Grouped t.length [] [] where
  spaced := ⟨nofun, trivial, trivial⟩
  length := congrArg List.length (text_setText t d)
  spans := rfl
  own_eq := rfl

section Moment

variable {before after : List Candidate}

theorem Grouped.at_candidate (h : d.Grouped n [] []) (hcs : InOrder n [] (before ++ c :: after)) :
    let spans := before.map Candidate.span
    (d.boxAll spans).Grouped n spans (d.taken spans) ∧ c.Next n spans ∧
      InOrder n (spans ++ [c.span]) after := by
  obtain ⟨hbefore, hc, hafter⟩ := inOrder_append.1 hcs
  exact ⟨(h.boxAll hbefore).1, hc, hafter⟩

theorem taken_at_candidate (before after : List Candidate) (c : Candidate) (d : Document) :
    d.taken ((before ++ c :: after).map Candidate.span) =
      d.taken (before.map Candidate.span) ++
        (d.boxAll (before.map Candidate.span)).taken (c.span :: after.map Candidate.span) := by
  rw [List.map_append, List.map_cons, taken_append]

theorem Grouped.mem_taken_iff_isSome (h : d.Grouped n [] [])
    (hcs : InOrder n [] (before ++ c :: after)) :
    c.span ∈ d.taken ((before ++ c :: after).map Candidate.span) ↔
      ((d.boxAll (before.map Candidate.span)).box? c.span.start (c.span.stop - 1)).isSome := by
  obtain ⟨-, hc, hafter⟩ := h.at_candidate hcs
  have hnot : c.span ∉ d.taken (before.map Candidate.span) :=
    fun hmem => not_mem_of_next hc (taken_subset _ d hmem)
  rw [taken_at_candidate, List.mem_append, or_iff_right hnot]
  cases hbox : (d.boxAll (before.map Candidate.span)).box? c.span.start (c.span.stop - 1) with
  | none =>
    rw [(taken_of_none hbox _).1]
    refine iff_of_false (fun hmem => ?_) (by simp)
    exact not_mem_of_inOrder hafter (taken_subset _ _ hmem) (by simp)
  | some e =>
    rw [(taken_of_some hbox _).1]
    exact iff_of_true List.mem_cons_self rfl

/-- At the edges of a candidate stand only blocks that were there when it was tried. -/
theorem mem_taken_at_edge (hc : c.Next n (before.map Candidate.span))
    (hafter : InOrder n (before.map Candidate.span ++ [c.span]) after) {s : Span}
    (hs : s ∈ d.taken ((before ++ c :: after).map Candidate.span))
    (hedge : s.stop = c.span.start ∨ s.start < c.span.start) :
    s ∈ d.taken (before.map Candidate.span) := by
  have hpos : c.span.start < c.span.stop := Nat.lt_add_of_pos_right hc.length_pos
  have hle : s.start ≤ s.stop := Nat.le_add_right _ _
  rw [taken_at_candidate] at hs
  rcases List.mem_append.1 hs with hearlier | hs
  · exact hearlier
  · exfalso
    rcases List.mem_cons.1 (taken_subset _ _ hs) with rfl | hlater
    · omega
    · -- a later candidate is behind `c` or inside it, so it does not start before and ends later
      rcases (follows_of_inOrder hafter hlater).2 c.span (by simp) with hbehind | ⟨hinside, -⟩
      · omega
      · omega

/-- A candidate has a block unless it is hemmed by others. -/
theorem Grouped.mem_taken_iff (h : d.Grouped n [] []) (hcs : InOrder n [] (before ++ c :: after)) :
    c.span ∈ d.taken ((before ++ c :: after).map Candidate.span) ↔
      ¬c.span.Hemmed 0 n (d.taken ((before ++ c :: after).map Candidate.span)) := by
  obtain ⟨hgrouped, hc, hafter⟩ := h.at_candidate hcs
  have hpos : c.span.start < c.span.stop := Nat.lt_add_of_pos_right hc.length_pos
  have hedges : c.span.Hemmed 0 n (d.taken ((before ++ c :: after).map Candidate.span)) ↔
      c.span.Hemmed 0 n (d.taken (before.map Candidate.span)) := by
    refine Span.hemmed_congr fun u hedge => ⟨fun hu => mem_taken_at_edge hc hafter hu hedge, ?_⟩
    rw [taken_at_candidate]
    exact List.mem_append_left _
  rw [hedges, ← hgrouped.spans, h.mem_taken_iff_isSome hcs]
  rcases hgrouped.box?_cases hc with ⟨hnone, hrefused⟩ | ⟨e, hsome, -, hgranted⟩
  · rw [hnone]
    exact iff_of_false (by simp) (not_not_intro hrefused.hemmed)
  · rw [hsome]
    exact iff_of_true rfl (hgranted.not_hemmed hpos)

end Moment

end Document
end QueryLine
