import QueryLine.Proofs.Patterns
import QueryLine.Proofs.Proposing

/-!
What a proposal stands for, and that it is made again once it was written. What is written is a text
that its own rule proposes for, and since it stands behind a blank it is read as if it stood alone.
-/

namespace QueryLine

def Text.StartsWord (t : Text) (n : Nat) : Prop :=
  EndsBlank (t.take n) ∧ ∃ c, t[n]? = some c ∧ isBlank c = false

theorem Text.startsWord_append {t : Text} (ht : t.EndsBlank) {c : Char} (hc : isBlank c = false)
    (rest : Text) : StartsWord (t ++ c :: rest) t.length := by
  refine ⟨?_, c, by simp, hc⟩
  rw [List.take_left]
  exact ht

namespace Rule

variable {r : Rule}

/-- For its pattern, as that is written without a value, a rule proposes from the start on, and
writing leaves the caret at the end. -/
theorem proposes_written : ∀ r ∈ all, let written := Pattern.written [] r.pattern
    Pattern.caretOffset none r.pattern = written.length ∧
      (r.proposal? written.length (Word.typed written)).any (·.span.start = 0) = true := by
  decide +kernel

theorem exists_offer_written (hr : r ∈ all) {front : Text} (hfront : front.EndsBlank)
    (rest : Text) : let text := front ++ Pattern.written [] r.pattern
    ∃ matched,
      r.offer text.length front.length matched ∈ Proposal.at (text ++ rest) text.length := by
  intro text
  obtain ⟨q, hq, hstart⟩ := (Option.any_eq_true _ _).1 (proposes_written r hr).2
  obtain ⟨w, more, matched, -, -, rfl⟩ := exists_suffix hq
  have hw : w.start = 0 := of_decide_eq_true hstart
  have hlength : text.length = (Pattern.written [] r.pattern).length + front.length := by
    rw [List.length_append, Nat.add_comm]
  refine ⟨matched, (mem_at_iff hr rfl).2 ?_⟩
  rw [List.take_left, Word.typed_append hfront, hlength]
  apply proposal?_append
  rw [proposal?_moved, hq, Option.map_some, hw, ← offer_moved, Nat.zero_add]

end Rule

namespace Proposal

variable {text : Text} {caret : Nat} {p : Proposal}

/-- A proposal stands for what is between the start of a word and the caret. Once it is written in
place of that, it is made again, from the same place to where the caret is then. -/
theorem renewed (h : p ∈ Proposal.at text caret) :
    (text.StartsWord p.span.start ∨ p.span.start = min caret text.length) ∧
      p.span.stop = min caret text.length ∧ p.matched < p.pattern.length ∧
      let edit := Edit.ofProposal p none
      ∃ q ∈ Proposal.at (Text.splice text edit.start edit.stop edit.replacement) edit.caret,
        q.pattern = p.pattern ∧ q.kind = p.kind ∧ q.description = p.description ∧
          q.span.start = p.span.start ∧ q.span.stop = edit.caret := by
  have hstop := stop_eq h
  obtain ⟨r, hr, matched, hmatched, front, word, rest, hsplit, hfront, hword, hrest, rfl⟩ :=
    exists_offer h
  have htext : text = front ++ (word ++ rest ++ text.drop caret) := by
    rw [← List.append_assoc, ← hsplit, List.take_append_drop]
  refine ⟨?_, hstop, hmatched, ?_⟩
  · cases word with
    | nil =>
      right
      rw [← List.length_take, hsplit, hrest rfl, List.append_nil, List.append_nil]
      rfl
    | cons c word =>
      left
      rw [htext]
      exact Text.startsWord_append hfront (hword c List.mem_cons_self) _
  · intro edit
    let written := Pattern.written [] r.pattern
    have hedit : edit = ⟨front.length, edit.stop, written, (front ++ written).length⟩ := by
      have hcaret := (Rule.proposes_written r hr).1
      simp only [edit, Edit.ofProposal_eq, List.length_append]
      rw [← hcaret]
      rfl
    have hspliced : Text.splice text edit.start edit.stop edit.replacement =
        front ++ written ++ text.drop (max front.length edit.stop) := by
      rw [hedit, Text.splice]
      congr 2
      rw [htext, List.take_left]
    have hlonger : front.length ≤ (front ++ written).length := by simp
    obtain ⟨m, hm⟩ := Rule.exists_offer_written hr hfront (text.drop (max front.length edit.stop))
    rw [hspliced, hedit]
    exact ⟨_, hm, rfl, rfl, rfl, rfl, Nat.add_sub_cancel' hlonger⟩

/-- The start of a property between two words. -/
theorem renewed_tag :
    let text : Text := "x ta y".toList
    let p : Proposal :=
      ⟨⟨2, 2⟩, [.fixed "tag:".toList, .placeholder], 0, .tag, "Tagged with".toList⟩
    p ∈ Proposal.at text 4 ∧ ∃ q ∈ Proposal.at "x tag: y".toList 6,
      q.pattern = p.pattern ∧ q.kind = .tag ∧ q.span.start = 2 ∧ q.span.stop = 6 := by
  intro text p
  have hp : p ∈ Proposal.at text 4 := by decide +kernel
  have hspliced : Text.splice text 2 4 "tag:".toList = "x tag: y".toList := by decide
  obtain ⟨-, -, -, q, hq, hpattern, hkind, -, hstart, hstop⟩ := renewed hp
  have hedit : Edit.ofProposal p none = ⟨2, 4, "tag:".toList, 6⟩ := by decide
  rw [hedit] at hq hstop
  rw [hspliced] at hq
  exact ⟨hp, q, hq, hpattern, hkind, hstart, hstop⟩

end Proposal

end QueryLine
