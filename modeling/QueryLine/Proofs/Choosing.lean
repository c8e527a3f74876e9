import QueryLine.Proofs.Acceptance
import QueryLine.Proofs.Typing

/-!
Choosing a value for a proposal and typing it. The pattern is written with an empty value and the
value is typed behind it, or it is written with the value at once. In between the text is read once
more, but the line comes out the same, and only the line goes into what is read last.
-/

namespace QueryLine

namespace Pattern

/-- A value is asked for once, at the end. -/
def AsksLast (pattern : List PatternPart) : Prop :=
  pattern.getLast? = some .placeholder ∧ pattern.count .placeholder = 1

instance (pattern : List PatternPart) : Decidable (AsksLast pattern) :=
  inferInstanceAs (Decidable (_ ∧ _))

theorem AsksLast.exists_front {pattern : List PatternPart} (h : AsksLast pattern) :
    ∃ ps, pattern = ps ++ [.placeholder] ∧ .placeholder ∉ ps := by
  obtain ⟨hlast, honce⟩ := h
  obtain ⟨ps, rfl⟩ := List.getLast?_eq_some_iff.1 hlast
  refine ⟨ps, rfl, ?_⟩
  -- the one that there may be is at the end
  rw [List.count_append, List.count_singleton_self] at honce
  apply List.count_eq_zero.1
  omega

theorem AsksLast.written_eq {pattern : List PatternPart} (h : AsksLast pattern) (value : Text) :
    written value pattern = written [] pattern ++ value := by
  obtain ⟨ps, rfl, hps⟩ := h.exists_front
  clear h
  induction ps with
  | nil => rfl
  | cons p ps ih =>
    have hne : ps ++ [PatternPart.placeholder] ≠ [] := by simp
    cases p with
    | placeholder => exact absurd List.mem_cons_self hps
    | fixed t =>
      -- the gap hangs on what is in front of it, so it is the same with any value
      rw [List.cons_append, written_fixed hne, written_fixed hne,
        ih fun hmem => hps (List.mem_cons_of_mem _ hmem)]
      simp only [List.append_assoc]

theorem AsksLast.caretOffset_none {pattern : List PatternPart} (h : AsksLast pattern) :
    caretOffset none pattern = (written [] pattern).length := by
  obtain ⟨ps, rfl, hps⟩ := h.exists_front
  have hfixed : ∀ p ∈ ps, decide (p ≠ PatternPart.placeholder) = true := by
    intro p hp
    apply decide_eq_true
    rintro rfl
    exact hps hp
  have hfront : (ps ++ [PatternPart.placeholder]).takeWhile (· ≠ .placeholder) = ps := by
    rw [List.takeWhile_append_of_pos hfixed]
    simp
  rw [caretOffset, if_pos ⟨rfl, by simp⟩, beforeValue, hfront]

theorem caretOffset_some (value : Text) (pattern : List PatternPart) :
    caretOffset (some value) pattern = (written value pattern).length :=
  if_neg fun h => nomatch h.1

end Pattern

namespace Document

variable {d : Document}

theorem Settled.events_setCaret_splice (h : d.Settled) (start stop : Nat) (new : Text)
    (position : Nat) : ∀ event ∈ ((d.splice start stop new).setCaret position).events,
      event = .textChanged ∨ ∃ p, event = .caretMoved p := by
  have hplaced : ((d.splice start stop new).place position).events = [.textChanged] :=
    h.events_splice start stop new
  unfold setCaret
  dsimp only
  split
  · simp [hplaced]
  · simp [queue, hplaced, DocumentEvent.queue, DocumentEvent.isCaretMove]

end Document

namespace Editor

section Splicing

variable {σ : Type}

theorem document_withPicker (e : Editor σ) (picker : Picker) :
    (e.withPicker picker).document = e.document := rfl

theorem withPicker_withPicker (e : Editor σ) (picker : Picker) :
    (e.withPicker picker).withPicker e.picker = e := rfl

variable [Analyzer σ]

def splice (edit : Edit) (e : Editor σ) : Editor σ :=
  process { e with
    document := (e.document.splice edit.start edit.stop edit.replacement).setCaret edit.caret }

theorem applyProposal_eq (p : Proposal) (value : Option Text) (e : Editor σ) :
    e.applyProposal p value = (e.splice (.ofProposal p value)).withPicker
      (e.splice (.ofProposal p value)).picker.hide := rfl

theorem reachable_splice {e : Editor σ} (h : e.Reachable) (p : Proposal) (value : Option Text) :
    (e.splice (.ofProposal p value)).Reachable := by
  have happlied : (e.applyProposal p value).Reachable := h.act (.applyProposal p value) rfl
  have hshown := happlied.withPicker (e.splice (.ofProposal p value)).picker
  rwa [applyProposal_eq, withPicker_withPicker] at hshown

theorem perform_insert_nil {e : Editor σ} (h : e.document.Settled) : e.perform (.insert []) = e :=
  process_of_settled (e := e) h

end Splicing

theorem settings_splice (edit : Edit) (e : Editor Keywords) :
    (e.splice edit).autoOpen = e.autoOpen ∧ (e.splice edit).analyzer.tags = e.analyzer.tags ∧
      (e.splice edit).analyzer.contacts = e.analyzer.contacts :=
  settings_process (Document.sound_setCaret_splice _ _ _ _ _)
    (Document.textChanged_mem_setCaret_splice _ _ _ _ _)

variable {e f : Editor Keywords} {p : Proposal}

theorem current_splice (h : e.Reachable) (edit : Edit) : (e.splice edit).Current :=
  current_process (Document.sound_setCaret_splice _ _ _ _ _)
    (Document.textChanged_mem_setCaret_splice _ _ _ _ _) (h.settled.events_setCaret_splice _ _ _ _)

/-- The value comes to stand behind what is written without it, and the caret behind the value. -/
theorem line_applyProposal (hstop : p.span.stop ≤ e.text.length)
    (hlast : Pattern.AsksLast p.pattern) (value : Text) :
    (e.applyProposal p (some value)).document.line =
      (e.applyProposal p none).document.line.insert value := by
  -- without a value the caret stands between these two
  let before := e.text.take p.span.start ++ Pattern.written [] p.pattern
  let rest := e.text.drop p.span.stop
  have hbare := replaced_applyProposal p none e hstop
  have hchosen := replaced_applyProposal p (some value) e hstop
  have hstart : p.span.start ≤ e.text.length := (Nat.le_add_right _ _).trans hstop
  have hlength : before.length = p.span.start + (Pattern.written [] p.pattern).length := by
    rw [List.length_append, List.length_take_of_le hstart]
  have hline : (e.applyProposal p none).document.line = ⟨before ++ rest, before.length⟩ := by
    have hcaret : (e.applyProposal p none).caret = before.length := by
      rw [hbare.caret, hlast.caretOffset_none, hlength]
    exact congrArg₂ PlainLine.mk hbare.text hcaret
  have hvalue : (e.applyProposal p (some value)).document.line =
      ⟨before ++ value ++ rest, before.length + value.length⟩ := by
    have htext : (e.applyProposal p (some value)).text = before ++ value ++ rest := by
      rw [hchosen.text, Option.getD_some, hlast.written_eq, ← List.append_assoc]
    have hcaret : (e.applyProposal p (some value)).caret = before.length + value.length := by
      rw [hchosen.caret, Pattern.caretOffset_some, hlast.written_eq, List.length_append, hlength,
        Nat.add_assoc]
    exact congrArg₂ PlainLine.mk htext hcaret
  rw [hline, hvalue]
  unfold PlainLine.insert
  rw [List.take_left, List.drop_left]

theorem Wrote.withPicker {t : Text} (h : Wrote t e f) (picker : Picker) :
    Wrote t (e.withPicker picker) f :=
  ⟨h.reachable, h.line, h.autoOpen, h.tags, h.contacts, h.current⟩

/-- To write the value at once is to write it behind the proposal, and as current. -/
theorem wrote_splice (h : e.Reachable) (hstop : p.span.stop ≤ e.text.length)
    (hlast : Pattern.AsksLast p.pattern) (value : Text) :
    Wrote value (e.applyProposal p none) (e.splice (.ofProposal p (some value))) := by
  obtain ⟨hauto, htags, hcontacts⟩ := settings_splice (.ofProposal p none) e
  obtain ⟨hauto', htags', hcontacts'⟩ := settings_splice (.ofProposal p (some value)) e
  have hline := line_applyProposal hstop hlast value
  rw [applyProposal_eq, applyProposal_eq, document_withPicker, document_withPicker] at hline
  rw [applyProposal_eq]
  -- a hidden picker makes no difference to what is written
  apply Wrote.withPicker
  exact ⟨reachable_splice h p (some value), hline, hauto'.trans hauto.symm,
    htags'.trans htags.symm, hcontacts'.trans hcontacts.symm, current_splice h _⟩

/-- The same query in the same blocks, and the caret in the same leaf. The pickers may differ. -/
structure Agree (e f : Editor Keywords) : Prop where
  text : e.text = f.text
  root : e.document.root = f.document.root
  caret : e.document.caret = f.document.caret
  term : e.term = f.term
  faults : e.faults = f.faults
  notice : e.notice = f.notice

theorem Alike.agree (h : e.Alike f) : e.Agree f :=
  ⟨congrArg Block.text h.root, h.root, h.caret, h.term, h.faults, h.notice⟩

theorem Agree.withPicker (h : e.Agree f) (picker : Picker) : e.Agree (f.withPicker picker) :=
  ⟨h.text, h.root, h.caret, h.term, h.faults, h.notice⟩

theorem agree_insert (h : e.Reachable) (hstop : p.span.stop ≤ e.text.length)
    (hlast : Pattern.AsksLast p.pattern) (value : Text) :
    ((e.applyProposal p none).perform (.insert value)).Agree
      (e.applyProposal p (some value)) := by
  have hbare : (e.applyProposal p none).Reachable := h.act (.applyProposal p none) rfl
  by_cases hvalue : value = []
  · -- nothing is typed, so the text is not read again and the picker stays hidden
    subst hvalue
    have hedit : Edit.ofProposal p (some []) = .ofProposal p none := by
      rw [Edit.ofProposal_eq, Edit.ofProposal_eq, Pattern.caretOffset_some, hlast.caretOffset_none]
      rfl
    rw [perform_insert_nil hbare.settled, applyProposal, applyProposal, hedit]
    exact ⟨rfl, rfl, rfl, rfl, rfl, rfl⟩
  · have htyped := wrote_perform hbare hvalue
    have hread := htyped.alike (wrote_splice h hstop hlast value)
    rw [applyProposal_eq p (some value)]
    exact hread.agree.withPicker _

/-- Choosing a value for a proposal writes the pattern with the value, and does what taking the
proposal without a value and typing the value does. -/
theorem choosing_types (h : e.Reachable) (hstop : p.span.stop ≤ e.text.length)
    (hlast : Pattern.AsksLast p.pattern) (value : Text) :
    ∃ bare typed chosen, e.act (.applyProposal p none) = .ok (bare, true) ∧
      bare.act (.insert value) = .ok (typed, true) ∧
      e.act (.applyProposal p (some value)) = .ok (chosen, true) ∧ typed.Agree chosen ∧
      Replaced e.text p.span.start p.span.stop (Pattern.written value p.pattern)
        (p.span.start + (Pattern.written value p.pattern).length) chosen := by
  have hinsert : (e.applyProposal p none).act (.insert value) =
      .ok ((e.applyProposal p none).perform (.insert value), true) := act_of_onDocument? _ rfl
  have hchosen := replaced_applyProposal p (some value) e hstop
  rw [Pattern.caretOffset_some] at hchosen
  exact ⟨_, _, _, rfl, hinsert, rfl, agree_insert h hstop hlast value, hchosen⟩

/-- In `ta b` the tag `x` is chosen in place of `ta`. -/
theorem choosing_types_tag :
    let start : Editor Keywords := .new (.new [['x']] []) (.new [] ⟨0, by decide⟩) true
    let e := start.setText ['t', 'a', ' ', 'b']
    let p : Proposal :=
      ⟨⟨0, 2⟩, [.fixed ['t', 'a', 'g', ':'], .placeholder], 0, .tag, "Tagged with".toList⟩
    (e.Reachable ∧ p.span.stop ≤ e.text.length ∧ Pattern.AsksLast p.pattern) ∧
      ∃ bare typed chosen, e.act (.applyProposal p none) = .ok (bare, true) ∧
        bare.act (.insert ['x']) = .ok (typed, true) ∧
        e.act (.applyProposal p (some ['x'])) = .ok (chosen, true) ∧ typed.Agree chosen ∧
        chosen.text = ['t', 'a', 'g', ':', 'x', ' ', 'b'] ∧ chosen.caret = 5 := by
  intro start e p
  have he : e.Reachable := (Reachable.new _ _ _).setText _
  have hstop : p.span.stop ≤ e.text.length := by decide +kernel
  have hlast : Pattern.AsksLast p.pattern := by decide
  obtain ⟨bare, typed, chosen, hbare, htyped, hchosen, hagree, hreplaced⟩ :=
    choosing_types he hstop hlast ['x']
  refine ⟨⟨he, hstop, hlast⟩, bare, typed, chosen, hbare, htyped, hchosen, hagree, ?_, ?_⟩
  · rw [hreplaced.text]
    decide +kernel
  · rw [hreplaced.caret]
    decide +kernel

end Editor
end QueryLine
