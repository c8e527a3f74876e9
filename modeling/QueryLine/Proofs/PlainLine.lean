import QueryLine.Proofs.Caret

/-!
A line of text with a caret and nothing else. Edits of a document do to its text and its caret
what the same edits do to such a line, whatever the nesting is and whichever leaf the caret is in.
-/

namespace QueryLine

open Leaf (spell)

structure PlainLine where
  text : Text
  caret : Nat
  deriving DecidableEq, Repr

namespace PlainLine

def insert (new : Text) (l : PlainLine) : PlainLine :=
  ⟨l.text.take l.caret ++ new ++ l.text.drop l.caret, l.caret + new.length⟩

def backspace? (l : PlainLine) : Option PlainLine :=
  if 0 < l.caret then some ⟨l.text.eraseIdx (l.caret - 1), l.caret - 1⟩ else none

def delete? (l : PlainLine) : Option PlainLine :=
  if l.caret < l.text.length then some ⟨l.text.eraseIdx l.caret, l.caret⟩ else none

/-- Bounds beyond the text, or out of order, are brought back. -/
def splice (start stop : Nat) (new : Text) (l : PlainLine) : PlainLine :=
  let first := min start l.text.length
  let text := l.text.take first ++ new ++ l.text.drop (max first (min stop l.text.length))
  ⟨text, min l.caret text.length⟩

end PlainLine

namespace Document

def line (d : Document) : PlainLine := ⟨d.text, d.caret.position⟩

@[simp] theorem text_line (d : Document) : d.line.text = d.text := rfl

@[simp] theorem caret_line (d : Document) : d.line.caret = d.caret.position := rfl

namespace Sound

variable {d : Document}

theorem line_insert (h : d.Sound) (new : Text) : (d.insert new).line = d.line.insert new := by
  by_cases hnew : new = []
  · simp [Document.insert, hnew, PlainLine.insert, line]
  · obtain ⟨b, t, a, hin⟩ := h.caret
    have hoffset := hin.offset h.root
    have hle := hin.offset_le h.root
    have htyped := leaves_modifyLeaf
      (Text.splice · d.caretPlace.offset d.caretPlace.offset new) hin.leaves
    have hcaret : (d.insert new).caret.position = d.caret.position + new.length := by
      rw [hin.insert_eq hnew]
      rfl
    have htext : (d.insert new).text =
        d.text.take d.caret.position ++ new ++ d.text.drop d.caret.position := by
      rw [hin.insert_eq hnew, hin.text, ← hoffset, List.take_length_add_append,
        List.drop_length_add_append, List.take_append_of_le_length hle,
        List.drop_append_of_le_length hle, text_queue, text_queue, Document.text,
        ← Block.spell_leaves, htyped]
      simp [Text.splice]
    rw [line, htext, hcaret]
    rfl

theorem line_backspace? (h : d.Sound) : d.backspace?.map line = d.line.backspace? := by
  rw [PlainLine.backspace?, caret_line, text_line]
  by_cases hpos : 0 < d.caret.position
  · obtain ⟨b, t, a, hchar⟩ := h.charAt_placeBefore hpos
    rw [h.backspace?_eq hpos, if_pos hpos]
    exact congrArg (fun u => some (PlainLine.mk u _)) (text_eraseAt hchar)
  · have hzero : d.caret.position = 0 := by omega
    simp [Document.backspace?, hzero]

theorem line_delete? (h : d.Sound) : d.delete?.map line = d.line.delete? := by
  have hlength : d.text.length = d.length := rfl
  rw [PlainLine.delete?, caret_line, text_line, hlength]
  by_cases hpos : d.caret.position < d.length
  · obtain ⟨b, t, a, hchar⟩ := h.charAt_placeAfter hpos
    rw [h.delete?_eq hpos, if_pos hpos]
    exact congrArg (fun u => some (PlainLine.mk u _)) (text_eraseAt hchar)
  · simp [Document.delete?, Nat.le_of_not_lt hpos, hpos]

end Sound

theorem line_splice (d : Document) (start stop : Nat) (new : Text) :
    (d.splice start stop new).line = d.line.splice start stop new := by
  have htext : Text.splice d.text start stop new = (d.line.splice start stop new).text := by
    have htake : d.text.take (min start d.text.length) = d.text.take start := by
      rw [List.take_eq_take_iff]
      omega
    -- bounds that are out of order or beyond the text leave nothing to take or to drop
    have hdrop : d.text.drop (max (min start d.text.length) (min stop d.text.length)) =
        d.text.drop (max start stop) := by
      rcases Nat.lt_or_ge (max start stop) d.text.length with hlt | hge
      · congr 1
        omega
      · rw [List.drop_eq_nil_of_le hge, List.drop_eq_nil_of_le (by omega)]
    simp only [Text.splice, PlainLine.splice, line, htake, hdrop]
  have hcaret : (d.splice start stop new).caret.position =
      min d.caret.position (d.splice start stop new).text.length := rfl
  rw [line, hcaret, text_splice, htext]
  rfl

/-- After any run, edits refine those of a plain line; one that is refused changes nothing. -/
theorem run_edits_refine_line (t : Text) (actions : List Action) :
    let d := (ofText t).run actions
    (∀ new, (d.insert new).line = d.line.insert new) ∧
    d.backspace?.map line = d.line.backspace? ∧
    d.delete?.map line = d.line.delete? ∧
    (∀ start stop new, (d.splice start stop new).line = d.line.splice start stop new) ∧
    (d.line.backspace? = none → d.act .backspace = d) ∧
    (d.line.delete? = none → d.act .delete = d) := by
  intro d
  have h : d.Sound := sound_run t actions
  refine ⟨h.line_insert, h.line_backspace?, h.line_delete?, line_splice d, fun hnone => ?_,
    fun hnone => ?_⟩
  · rw [← h.line_backspace?, Option.map_eq_none_iff] at hnone
    simp [act, act?, hnone]
  · rw [← h.line_delete?, Option.map_eq_none_iff] at hnone
    simp [act, act?, hnone]

end Document
end QueryLine
