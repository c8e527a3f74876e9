import QueryLine.Proofs.Changes

/-!
An editor is never behind its text: what it knows of the query is what reading its text gives, with
every word that is a pattern taken for a name.
-/

namespace QueryLine
namespace Editor

variable {e f : Editor Keywords}

/-- Term and faults are those of the text as it is. -/
structure Informed (e : Editor Keywords) : Prop where
  term : e.term = (Query.ofText .filenames e.text).term
  faults : e.faults = (Query.ofText .filenames e.text).faults

theorem Informed.same (h : e.Informed) (hterm : f.term = e.term) (hfaults : f.faults = e.faults)
    (htext : f.text = e.text) : f.Informed where
  term := by rw [hterm, htext, h.term]
  faults := by rw [hfaults, htext, h.faults]

theorem informed_reparse (h : e.document.Sound) : e.reparse.Informed := by
  obtain ⟨-, hline⟩ := reparse_spec h
  have htext : e.reparse.text = e.text := hline.text
  have hread : (Analyzer.read e.text e.caret e.analyzer).1 = .ofText .filenames e.text := rfl
  exact ⟨by rw [htext, term_reparse, hread], by rw [htext, faults_reparse, hread]⟩

theorem Informed.change (h : e.Informed) (hchange : e.Change f) : f.Informed := by
  cases hchange with
  | read hd => exact informed_reparse hd.sound
  | regroup hd hgrouped => exact h.same rfl rfl hgrouped.text_eq
  | turn hturned => exact h.same rfl rfl rfl
  | tell autoOpen notice events notifications => exact h.same rfl rfl rfl

theorem informed_new (analyzer : Keywords) (picker : Picker) (autoOpen : Bool) :
    (new analyzer picker autoOpen).Informed where
  term := rfl
  faults := rfl

theorem Reachable.informed (h : e.Reachable) : e.Informed :=
  h.invariant informed_new (fun _ hchange he => he.change hchange)
    (fun _ he => he.same rfl rfl rfl)

/-- Whatever was done, the term and the faults are those of the text as it is now, and each of its
characters has a style. -/
theorem reachable_up_to_date (h : e.Reachable) :
    e.term = (Query.ofText .filenames e.text).term ∧
      e.faults = (Query.ofText .filenames e.text).faults ∧
      e.styles.length = e.text.length :=
  ⟨h.informed.term, h.informed.faults, length_highlight e.text e.term⟩

/-- Typed `(a* b)`, with the last parenthesis removed again: the pattern is a name and a fault is
found. -/
theorem up_to_date_unclosed :
    let start : Editor Keywords := .new (.new [] []) (.new [] ⟨0, by decide⟩) true
    let e := (start.perform (.insert ['(', 'a', '*', ' ', 'b', ')'])).perform .backspace
    (e.Reachable ∧ e.text = ['(', 'a', '*', ' ', 'b'] ∧ e.term.isSome ∧ e.faults ≠ []) ∧
      e.term = (Query.ofText .filenames e.text).term ∧
      e.faults = (Query.ofText .filenames e.text).faults ∧
      e.styles.length = e.text.length := by
  intro start e
  have hstart : start.Reachable := .new _ _ _
  have he : e.Reachable := (hstart.perform (.insert _) rfl).perform .backspace rfl
  have htext : e.text = ['(', 'a', '*', ' ', 'b'] := by decide +kernel
  have hterm : e.term.isSome := by decide +kernel
  have hfaults : e.faults ≠ [] := by decide +kernel
  exact ⟨⟨he, htext, hterm, hfaults⟩, reachable_up_to_date he⟩

end Editor
end QueryLine
