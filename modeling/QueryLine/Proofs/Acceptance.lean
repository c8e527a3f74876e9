import QueryLine.Proofs.Matching
import QueryLine.Proofs.Patterns
import QueryLine.Proofs.Rereading

/-!
What accepting a choice makes of a query. What is proposed stays within the text until the text is
read again, so accepting it replaces those characters and no others.
-/

namespace QueryLine

theorem Proposal.stop_le {text : Text} {caret : Nat} {p : Proposal}
    (h : p ∈ Proposal.at text caret) : p.span.stop ≤ text.length := by
  rw [stop_eq h]
  exact Nat.min_le_right _ _

namespace Picker

theorem proposals_next (p : Picker) : p.next.proposals = p.proposals := by
  unfold next
  split
  · split
    · rfl
    · rfl
  · split
    · rfl
    · rfl
  · rfl

theorem proposals_previous (p : Picker) : p.previous.proposals = p.proposals := by
  unfold previous
  split
  · rfl
  · rfl
  · rfl

theorem proposals_reveal (p : Picker) : p.reveal.proposals = p.proposals := by
  unfold reveal
  split
  · rfl
  · rfl

theorem mem_of_withValue {picker : Picker} {t : Text} {p : Proposal} {value : Option Text}
    (h : picker.withValue t = .proposal p value) : p ∈ picker.proposals := by
  unfold withValue at h
  split at h
  · rename_i first more hproposals
    cases h
    rw [hproposals]
    exact List.mem_cons_self
  · cases h

theorem mem_of_selection {picker : Picker} {p : Proposal} {value : Option Text}
    (h : picker.selection = .ok (some (.proposal p value))) : p ∈ picker.proposals := by
  unfold selection at h
  split at h
  · obtain ⟨q, hq, heq⟩ := Option.map_eq_some_iff.1 (Except.ok.inj h)
    cases heq
    exact List.mem_of_getElem? hq
  · obtain ⟨t, -, heq⟩ := Option.map_eq_some_iff.1 (Except.ok.inj h)
    exact mem_of_withValue heq
  · obtain ⟨t, -, heq⟩ := Editor.exists_of_map_ok h
    exact mem_of_withValue (Option.some.inj heq)

/-- The format asks for nothing that a date cannot tell. -/
def WritesDates (picker : Picker) : Prop :=
  ∀ d : Date, ∃ t, d.format picker.dateFormat = .ok t

theorem writesDates_of_iso {picker : Picker} (h : picker.dateFormat = DateFormat.iso) :
    picker.WritesDates := by
  intro d
  rw [h]
  exact ⟨_, rfl⟩

theorem WritesDates.exists_selection {picker : Picker} (h : picker.WritesDates) :
    ∃ selected, picker.selection = .ok selected := by
  unfold selection
  split
  · exact ⟨_, rfl⟩
  · exact ⟨_, rfl⟩
  · obtain ⟨t, ht⟩ := h picker.date
    refine ⟨some (picker.withValue t), ?_⟩
    rw [dateText, ht]
    rfl

end Picker

namespace Editor

variable {σ : Type}

theorem mem_of_chosen {e : Editor σ} {p : Proposal} {value : Option Text}
    (h : e.chosen = .ok (some (.proposal p value))) : p ∈ e.picker.proposals := by
  unfold chosen at h
  split at h
  · exact Picker.mem_of_selection h
  · cases h

variable [Analyzer σ]

/-- What can be done with an editor from outside: its picker is filled by reading only, and moved by
commands. -/
inductive Operated : Editor σ → Prop
  | new (analyzer : σ) (dateFormat : Text) (date : Date) (autoOpen : Bool) :
    Operated (.new analyzer (.new dateFormat date) autoOpen)
  | act {e after : Editor σ} {done : Bool} (h : Operated e) (a : Action)
    (hact : e.act a = .ok (after, done)) : Operated after
  | obey {e after : Editor σ} {quit : Bool} (h : Operated e) (c : Command)
    (hobey : e.obey c = .ok (after, quit)) : Operated after
  | takeEvents {e : Editor σ} (h : Operated e) : Operated e.takeEvents.2
  | takeNotifications {e : Editor σ} (h : Operated e) : Operated e.takeNotifications.2

theorem Operated.reachable {e : Editor σ} (h : e.Operated) : e.Reachable := by
  induction h with
  | new analyzer dateFormat date autoOpen => exact .new _ _ _
  | act _ a hact ih => exact ih.act a hact
  | obey _ c hobey ih => exact ih.obey c hobey
  | takeEvents _ ih => exact ih.takeEvents
  | takeNotifications _ ih => exact ih.takeNotifications

theorem Operated.invariant {P : Editor σ → Prop} {e : Editor σ} (h : e.Operated)
    (hnew : ∀ (analyzer : σ) (dateFormat : Text) (date : Date) (autoOpen : Bool),
      P (.new analyzer (.new dateFormat date) autoOpen))
    (hchange : ∀ {e f : Editor σ}, e.document.Settled → e.Change f → P e → P f) : P e := by
  induction h with
  | new analyzer dateFormat date autoOpen => exact hnew analyzer dateFormat date autoOpen
  | act hr a hact ih =>
    exact (changes_act hr.reachable.settled a hact).keep hchange hr.reachable.settled ih
  | obey hr c hobey ih =>
    exact (changes_obey hr.reachable.settled c hobey).keep hchange hr.reachable.settled ih
  | takeEvents hr ih => exact hchange hr.reachable.settled (.tell _ _ _ _) ih
  | takeNotifications hr ih => exact hchange hr.reachable.settled (.tell _ _ _ _) ih

theorem proposals_pickerForOne (e : Editor σ) (p : Proposal) :
    (e.pickerForOne p).proposals = [p] := by
  unfold pickerForOne
  dsimp only
  split
  · rfl
  · split
    · rfl
    · rfl

theorem proposals_fillPicker (e : Editor σ) :
    e.fillPicker.picker.proposals = Analyzer.proposals e.analyzer := by
  have hshown : ∀ picker : Picker,
      (if e.autoOpen then picker.reveal else picker.hide).proposals = picker.proposals := by
    intro picker
    split
    · exact picker.proposals_reveal
    · rfl
  unfold fillPicker
  dsimp only
  split
  · rename_i hnone
    rw [hnone]
    rfl
  · rw [hshown]
    split
    · rename_i p hone
      rw [hone]
      exact proposals_pickerForOne e p
    · exact congrArg Picker.proposals (Picker.foldl_offer _ rfl)

/-- What is offered is within the text. -/
def Offers (e : Editor σ) : Prop := ∀ p ∈ e.picker.proposals, p.span.stop ≤ e.text.length

theorem Turned.proposals_subset {e : Editor σ} {picker : Picker} (h : e.Turned picker) :
    picker.proposals ⊆ e.picker.proposals := by
  cases h with
  | next =>
    rw [Picker.proposals_next]
    exact List.Subset.refl _
  | previous =>
    rw [Picker.proposals_previous]
    exact List.Subset.refl _
  | shift hshift =>
    obtain ⟨date, -, rfl⟩ := exists_of_map_ok hshift
    exact List.Subset.refl _
  | hide => exact List.Subset.refl _
  | reveal =>
    rw [Picker.proposals_reveal]
    exact List.Subset.refl _
  | listTags => exact List.nil_subset _

theorem offers_reparse {e : Editor Keywords} (h : e.document.Sound) : e.reparse.Offers := by
  obtain ⟨-, hline⟩ := reparse_spec h
  intro p hp
  have hproposals : e.reparse.picker.proposals = Proposal.at e.text e.caret :=
    proposals_fillPicker _
  rw [hproposals] at hp
  rw [show e.reparse.text = e.text from hline.text]
  exact Proposal.stop_le hp

theorem Change.offers {e f : Editor Keywords} (h : e.Change f) (he : e.Offers) : f.Offers := by
  cases h with
  | read hd => exact offers_reparse hd.sound
  | @regroup d hd hgrouped =>
    intro p hp
    have htext : d.text = e.text := hgrouped.text_eq
    change p.span.stop ≤ d.text.length
    rw [htext]
    exact he p hp
  | turn hturned => exact fun p hp => he p (hturned.proposals_subset hp)
  | tell _ _ _ _ => exact he

theorem Operated.offers {e : Editor Keywords} (h : e.Operated) : e.Offers :=
  h.invariant (P := Offers) (fun _ _ _ _ _ hp => nomatch hp)
    (fun _ hchange he => hchange.offers he)

/-- An editor with `new` in place of the characters of `t` from `start` up to `stop`, the caret at
`caret`, and no picker shown. -/
structure Replaced (t : Text) (start stop : Nat) (new : Text) (caret : Nat)
    (after : Editor σ) : Prop where
  text : after.text = t.take start ++ new ++ t.drop stop
  caret : after.caret = caret
  hidden : after.picker.visible = false

theorem replaced_apply {edit : Edit} {start stop caret : Nat} {new : Text} (e : Editor σ)
    (hedit : edit = ⟨start, stop, new, caret⟩) (hle : start ≤ stop) (hstop : stop ≤ e.text.length)
    (hcaret : caret ≤ start + new.length) :
    Replaced e.text start stop new caret (e.apply edit) := by
  subst hedit
  let d := e.document.splice start stop new
  have hd : d.Sound := (Document.Sound.setText _ _).queue _
  obtain ⟨htext, hposition⟩ :=
    process_spec (e := { e with document := d.setCaret caret }) (hd.setCaret caret)
  have hspliced : d.text = e.text.take start ++ new ++ e.text.drop stop := by
    have hmax : max start stop = stop := Nat.max_eq_right hle
    have hsplice : d.text = Text.splice e.text start stop new := Document.text_splice _ _ _ _
    rw [hsplice, Text.splice, hmax]
  refine ⟨htext.trans ((Document.text_setCaret _ d).trans hspliced), hposition.trans ?_, rfl⟩
  have hlength : d.length = start + new.length + (e.text.length - stop) := by
    change d.text.length = _
    rw [hspliced, List.length_append, List.length_append, List.length_take, List.length_drop]
    omega
  change (d.setCaret caret).caret.position = caret
  rw [Document.position_setCaret]
  omega

theorem replaced_applyProposal (p : Proposal) (value : Option Text) (e : Editor σ)
    (hstop : p.span.stop ≤ e.text.length) :
    Replaced e.text p.span.start p.span.stop (Pattern.written (value.getD []) p.pattern)
      (p.span.start + Pattern.caretOffset value p.pattern) (e.applyProposal p value) := by
  have hcaret := Pattern.caretOffset_le value p.pattern
  exact replaced_apply e (Edit.ofProposal_eq p value) (Nat.le_add_right _ _) hstop
    (Nat.add_le_add_left hcaret _)

theorem replaced_applyValue (t : Text) (e : Editor σ) (hcaret : e.caret ≤ e.text.length) :
    ∃ w, e.text.WordAt w e.caret ∧
      Replaced e.text w e.caret t (w + t.length) (e.applyValue t) := by
  obtain ⟨w, hword, hedit⟩ := Edit.exists_ofValue_eq hcaret t
  exact ⟨w, hword, replaced_apply e hedit hword.le hcaret (Nat.le_refl _)⟩

/-- What is to come of accepting a choice. A proposal is written in place of its characters, and the
caret goes behind it or to where its value is to be typed. A value is written in place of the word
in front of the caret. Where nothing is chosen, nothing changes. -/
def Accepts (e : Editor σ) : Option Selection → Prop
  | none => e.act .accept = .ok (e, false)
  | some (.proposal p value) =>
    p.span.stop ≤ e.text.length ∧ ∃ after, e.act .accept = .ok (after, true) ∧
      Replaced e.text p.span.start p.span.stop (Pattern.written (value.getD []) p.pattern)
        (p.span.start + Pattern.caretOffset value p.pattern) after
  | some (.value t) => ∃ w after, e.act .accept = .ok (after, true) ∧ e.text.WordAt w e.caret ∧
      Replaced e.text w e.caret t (w + t.length) after

/-- Accepting a choice changes the characters that it stands for and no others, and puts the caret
where writing goes on. -/
theorem operated_accepts {e : Editor Keywords} (h : e.Operated) (hdates : e.picker.WritesDates) :
    ∃ chosen, e.chosen = .ok chosen ∧ e.Accepts chosen := by
  have hselected : ∃ chosen, e.chosen = .ok chosen := by
    unfold Editor.chosen
    split
    · exact hdates.exists_selection
    · exact ⟨none, rfl⟩
  obtain ⟨chosen, hchosen⟩ := hselected
  have hact := act_accept e
  rw [hchosen] at hact
  let closed : Editor Keywords := { e with picker := e.picker.hide }
  refine ⟨chosen, hchosen, ?_⟩
  match chosen with
  | none => exact hact
  | some (.proposal p value) =>
    have hstop : p.span.stop ≤ e.text.length := h.offers p (mem_of_chosen hchosen)
    exact ⟨hstop, closed.applyProposal p value, hact, replaced_applyProposal p value closed hstop⟩
  | some (.value t) =>
    have hcaret : closed.caret ≤ closed.text.length := h.reachable.settled.sound.position_le
    obtain ⟨w, hword, hreplaced⟩ := replaced_applyValue t closed hcaret
    exact ⟨w, closed.applyValue t, hact, hword, hreplaced⟩

/-- Typed `ta` in front of another word: the tag's name is to be typed next. -/
theorem accepts_tag :
    let start : Editor Keywords := .new (.new [] []) (.new DateFormat.iso ⟨0, by decide⟩) true
    let e := ((start.setText ['t', 'a', ' ', 'b']).perform (.setCaret 2)).requestCompletion
    let p : Proposal :=
      ⟨⟨0, 2⟩, [.fixed ['t', 'a', 'g', ':'], .placeholder], 0, .tag, "Tagged with".toList⟩
    (e.Operated ∧ e.picker.WritesDates ∧ e.chosen = .ok (some (.proposal p none))) ∧
      ∃ after, e.act .accept = .ok (after, true) ∧
        after.text = ['t', 'a', 'g', ':', ' ', 'b'] ∧ after.caret = 4 ∧
        after.picker.visible = false := by
  intro start e p
  have hstart : start.Operated := .new _ _ _ _
  have htyped := (hstart.act (.setText ['t', 'a', ' ', 'b']) rfl).act (.setCaret 2) rfl
  have he : e.Operated := htyped.act .requestCompletion rfl
  have hformat : e.picker.dateFormat = DateFormat.iso := by decide +kernel
  have hdates : e.picker.WritesDates := Picker.writesDates_of_iso hformat
  have hchosen : e.chosen = .ok (some (.proposal p none)) := by decide +kernel
  obtain ⟨chosen, hchosen', haccepts⟩ := operated_accepts he hdates
  obtain rfl := Except.ok.inj (hchosen.symm.trans hchosen')
  obtain ⟨-, after, hact, hreplaced⟩ := haccepts
  refine ⟨⟨he, hdates, hchosen⟩, after, hact, ?_, ?_, hreplaced.hidden⟩
  · rw [hreplaced.text]
    decide +kernel
  · rw [hreplaced.caret]
    decide +kernel

end Editor
end QueryLine
