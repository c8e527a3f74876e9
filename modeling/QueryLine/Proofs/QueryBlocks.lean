import QueryLine.Proofs.Boxes

/-!
What blocks an editor has once it has read its text. They mirror the term of the query: of the
candidates each has a block unless there is a leaf for it already.
-/

namespace QueryLine

theorem Span.eq_of_ends {s u : Span} (hstart : s.start = u.start) (hstop : s.stop = u.stop) :
    s = u := by
  cases s
  cases u
  simp only [Span.stop] at hstart hstop
  simp only [Span.mk.injEq]
  omega

namespace Document

variable {n : Nat} {seen own : List Span} {d : Document}

theorem Grouped.exists_block_iff (h : d.Grouped n seen own) (hsound : d.Sound)
    (p : Nat → Nat → Prop) :
    (∃ v ∈ d.blocks, p v.first v.last) ↔ ∃ s ∈ own, p s.start (s.stop - 1) := by
  have hends : d.blocks.map (fun v => (v.first, v.last)) =
      own.map fun s => (s.start, s.stop - 1) := by
    have hfirst := congrArg (List.map fun x : Nat × Nat × Nat => (x.1, x.2.1)) hsound.ends_blocks
    rw [List.map_map, List.map_map] at hfirst
    rw [← h.spans, List.map_map]
    exact hfirst
  constructor
  · rintro ⟨v, hv, hp⟩
    have hmem := List.mem_map_of_mem (f := fun v : BlockView => (v.first, v.last)) hv
    rw [hends, List.mem_map] at hmem
    obtain ⟨s, hs, hsame⟩ := hmem
    obtain ⟨hstart, hstop⟩ := Prod.mk.inj hsame
    exact ⟨s, hs, by rwa [hstart, hstop]⟩
  · rintro ⟨s, hs, hp⟩
    have hmem := List.mem_map_of_mem (f := fun s : Span => (s.start, s.stop - 1)) hs
    rw [← hends, List.mem_map] at hmem
    obtain ⟨v, hv, hsame⟩ := hmem
    obtain ⟨hstart, hstop⟩ := Prod.mk.inj hsame
    exact ⟨v, hv, by rwa [hstart, hstop]⟩

end Document

namespace Editor

def candidates (e : Editor Keywords) : List Candidate :=
  (e.reparse.term.map Term.candidates).getD []

def owners (e : Editor Keywords) : List Span :=
  e.document.flatten.taken (e.candidates.map Candidate.span)

variable (e : Editor Keywords)

theorem spans_eq : e.spans = e.candidates.map Candidate.span := by
  change ((Query.ofText .filenames e.text).term.map Term.blockSpans).getD [] =
    (((Query.ofText .filenames e.text).term.map Term.candidates).getD []).map Candidate.span
  cases (Query.ofText .filenames e.text).term with
  | none => rfl
  | some t => exact (Term.span_candidates t).symm

theorem inOrder_candidates : InOrder e.text.length [] e.candidates := by
  have hterm : e.reparse.term = (Query.ofText .filenames e.text).term := rfl
  unfold candidates
  cases ht : e.reparse.term with
  | none => trivial
  | some t => exact Term.inOrder_candidates (Query.in_ofText (hterm.symm.trans ht)).faithful

theorem grouped_flatten : e.document.flatten.Grouped e.text.length [] [] :=
  Document.grouped_setText e.text e.document

/-- The document is boxed for all candidates, whatever the caret is. -/
theorem blocks_reparse : e.reparse.document.blocks =
    (e.document.flatten.boxAll (e.candidates.map Candidate.span)).blocks := by
  rw [document_reparse, spans_eq]
  exact congrArg Block.blocks (Document.root_setCaret _ _)

theorem sound_boxAll (spans : List Span) : (e.document.flatten.boxAll spans).Sound :=
  ((Document.Sound.setText e.text e.document).boxAll spans).1

theorem ends_blocks_reparse : e.reparse.document.blocks.map BlockView.ends =
    (e.candidates.filter (·.span ∈ e.owners)).map fun c =>
      (c.span.start, c.span.stop - 1, 1 + (c.around.filter (· ∈ e.owners)).length) := by
  have hextents := ((grouped_flatten e).boxAll (inOrder_candidates e)).2
  rw [blocks_reparse, (sound_boxAll e _).ends_blocks, hextents, List.map_append, List.map_map]
  rfl

/-- What has been boxed before a candidate ends in front of it or is around it. -/
theorem blocks_before {before after : List Candidate} {c : Candidate}
    (h : e.candidates = before ++ c :: after) :
    ∀ v ∈ (e.document.flatten.boxAll (before.map Candidate.span)).blocks,
      v.last < c.span.start ∨ (v.first < c.span.start ∧ c.span.stop - 1 ≤ v.last) := by
  have horder := inOrder_candidates e
  rw [h] at horder
  obtain ⟨hgrouped, hc, -⟩ := (grouped_flatten e).at_candidate horder
  intro v hv
  obtain ⟨s, hs, hfirst, hlast⟩ := (hgrouped.exists_block_iff (sound_boxAll e _)
    fun first last => first = v.first ∧ last = v.last).1 ⟨v, hv, rfl, rfl⟩
  have hseen := hgrouped.mem_seen hs
  have hpos := (Document.follows_of_inOrder (inOrder_append.1 horder).1 hseen).1
  have hlt : s.start < s.stop := Nat.lt_add_of_pos_right hpos
  rw [← hfirst, ← hlast]
  rcases hc.follows s hseen with hbehind | ⟨hinside, hstop⟩
  · exact .inl (by omega)
  · exact .inr ⟨hinside, by omega⟩

/-- The blocks are the candidates that own one, in order, each as deep as the owners around it. A
candidate owns a block if boxing it succeeds when its turn comes, which it does unless a leaf is all
of it: it never leaves the text and never crosses a block. -/
theorem reparse_mirrors_term :
    (e.reparse.document.blocks.map BlockView.ends =
      (e.candidates.filter (·.span ∈ e.owners)).map fun c =>
        (c.span.start, c.span.stop - 1, 1 + (c.around.filter (· ∈ e.owners)).length)) ∧
    ∀ before c after, e.candidates = before ++ c :: after →
      let tried := e.document.flatten.boxAll (before.map Candidate.span)
      (c.span ∈ e.owners ↔ (tried.box? c.span.start (c.span.stop - 1)).isSome) ∧
      (c.span ∉ e.owners → Leaf.Cover c.span 0 tried.root.leaves) ∧
      0 < c.span.length ∧ c.span.stop ≤ e.text.length ∧
      ∀ v ∈ tried.blocks,
        v.last < c.span.start ∨ (v.first < c.span.start ∧ c.span.stop - 1 ≤ v.last) := by
  refine ⟨ends_blocks_reparse e, fun before c after h => ?_⟩
  have horder := inOrder_candidates e
  rw [h] at horder
  obtain ⟨hgrouped, hc, -⟩ := (grouped_flatten e).at_candidate horder
  have howns := (grouped_flatten e).mem_taken_iff_isSome horder
  rw [← h] at howns
  refine ⟨howns, fun hnot => ?_, hc.length_pos, hc.stop_le, blocks_before e h⟩
  rcases hgrouped.box?_cases hc with ⟨-, hrefused⟩ | ⟨d, hsome, -⟩
  · exact hrefused.cover
  · exact absurd (howns.2 (by rw [hsome]; rfl)) hnot

theorem length_pos_of_owner {s : Span} (h : s ∈ e.owners) : 0 < s.length :=
  (Document.follows_of_inOrder (inOrder_candidates e) (Document.taken_subset _ _ h)).1

theorem exists_block_iff (p : Nat → Nat → Prop) :
    (∃ v ∈ e.reparse.document.blocks, p v.first (v.last + 1)) ↔
      ∃ s ∈ e.owners, p s.start s.stop := by
  have hgrouped := ((grouped_flatten e).boxAll (inOrder_candidates e)).1
  rw [blocks_reparse, hgrouped.exists_block_iff (sound_boxAll e _) fun first last =>
    p first (last + 1)]
  refine exists_congr fun s => and_congr_right fun hs => ?_
  have hstop : s.stop - 1 + 1 = s.stop := by
    have hlength := length_pos_of_owner e hs
    rw [Span.stop]
    omega
  rw [hstop]

/-- A candidate has a block of its own unless what is left between other blocks is just that: it
starts where the text or a block before it is at an end, and ends with the text or with a block
around it. -/
theorem owns_block_iff {c : Candidate} (hc : c ∈ e.candidates) :
    (∃ v ∈ e.reparse.document.blocks, v.first = c.span.start ∧ v.last = c.span.stop - 1) ↔
      ¬((c.span.start = 0 ∨ ∃ v ∈ e.reparse.document.blocks, v.last + 1 = c.span.start) ∧
        (c.span.stop = e.text.length ∨ ∃ v ∈ e.reparse.document.blocks,
          v.first < c.span.start ∧ v.last + 1 = c.span.stop)) := by
  obtain ⟨before, after, hsplit⟩ := List.append_of_mem hc
  have horder := inOrder_candidates e
  have hpos := (Document.follows_of_inOrder horder (List.mem_map_of_mem hc)).1
  rw [hsplit] at horder
  have howns := (grouped_flatten e).mem_taken_iff horder
  rw [← hsplit] at howns
  -- all three are put as starts and stops, for one lemma to pass from blocks to their spans
  have hlast : ∀ v : BlockView, v.last = c.span.stop - 1 ↔ v.last + 1 = c.span.stop := by
    intro v
    rw [Span.stop]
    omega
  have hself : (∃ s ∈ e.owners, s.start = c.span.start ∧ s.stop = c.span.stop) ↔
      c.span ∈ e.owners := by
    refine ⟨?_, fun hmem => ⟨c.span, hmem, rfl, rfl⟩⟩
    rintro ⟨s, hs, hstart, hstop⟩
    rwa [← Span.eq_of_ends hstart hstop]
  simp only [hlast]
  rw [exists_block_iff e fun first stop => first = c.span.start ∧ stop = c.span.stop,
    exists_block_iff e fun _ stop => stop = c.span.start,
    exists_block_iff e fun first stop => first < c.span.start ∧ stop = c.span.stop, hself]
  exact howns

/-- In `a:"x" b:1` both comparisons are apart and have their blocks. -/
theorem owns_block_apart :
    let start : Editor Keywords := .new (.new [] []) (.new [] ⟨0, by decide⟩) true
    let e := start.setText ['a', ':', '"', 'x', '"', ' ', 'b', ':', '1']
    ⟨⟨6, 3⟩, []⟩ ∈ e.candidates ∧
      ∃ v ∈ e.reparse.document.blocks, v.first = 6 ∧ v.last = 8 := by
  intro start e
  have hc : ⟨⟨6, 3⟩, []⟩ ∈ e.candidates := by decide +kernel
  have hapart : ¬((6 = 0 ∨ ∃ v ∈ e.reparse.document.blocks, v.last + 1 = 6) ∧
      (9 = e.text.length ∨ ∃ v ∈ e.reparse.document.blocks, v.first < 6 ∧ v.last + 1 = 9)) := by
    decide +kernel
  exact ⟨hc, (owns_block_iff e hc).2 hapart⟩

/-- In `a:"x"b:1` the first block leaves a leaf that is just the second comparison, so this one has
no block. -/
theorem glued_comparison_unboxed :
    let start : Editor Keywords := .new (.new [] []) (.new [] ⟨0, by decide⟩) true
    let e := start.setText ['a', ':', '"', 'x', '"', 'b', ':', '1']
    e.term = some (.conjunction ⟨0, 8⟩ [
      .comparison ⟨0, 5⟩ ['a'] .contains (.literal ⟨3, 1⟩ ['x']),
      .comparison ⟨5, 3⟩ ['b'] .contains (.literal ⟨7, 1⟩ ['1'])]) ∧
    ¬∃ v ∈ e.document.blocks, v.first = 5 ∧ v.last = 7 := by
  intro start e
  exact ⟨rfl, by decide +kernel⟩

end Editor
end QueryLine
