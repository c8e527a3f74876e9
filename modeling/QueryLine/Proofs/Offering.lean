import QueryLine.Proofs.Acceptance

/-!
What a visible picker offers. Filling it selects a row of a page that has one, and moving on keeps
the row on the page; only the list of tags may be turned to where there are none.
-/

namespace QueryLine

namespace Picker

/-- The selected rows are on their pages, the first one also where there is none. -/
structure InRange (p : Picker) : Prop where
  proposals : p.proposalIndex = 0 ∨ p.proposalIndex < p.proposals.length
  strings : p.stringIndex = 0 ∨ p.stringIndex < p.strings.length

namespace InRange

variable {p : Picker}

theorem new (dateFormat : Text) (date : Date) : (Picker.new dateFormat date).InRange :=
  ⟨.inl rfl, .inl rfl⟩

theorem hide (h : p.InRange) : p.hide.InRange := ⟨h.proposals, h.strings⟩

theorem reveal (h : p.InRange) : p.reveal.InRange := by
  unfold Picker.reveal
  split
  · exact h
  · exact ⟨h.proposals, h.strings⟩

theorem turnTo (h : p.InRange) (page : Page) : (p.turnTo page).InRange := by
  refine ⟨.inl rfl, ?_⟩
  unfold Picker.turnTo
  dsimp only
  split
  · exact .inl rfl
  · exact h.strings

theorem offer (h : p.InRange) (q : Proposal) : (p.offer q).InRange := ⟨.inl rfl, h.strings⟩

theorem addStrings (h : p.InRange) (values : List Text) (typed : Text) :
    (p.addStrings values typed).InRange := by
  refine ⟨h.proposals, ?_⟩
  unfold Picker.addStrings
  dsimp only
  cases hafter : List.findIdx? _ (Text.sort (p.strings ++ values)) with
  | none => exact .inl rfl
  | some i =>
    obtain ⟨hlt, -⟩ := List.findIdx?_eq_some_iff_getElem.1 hafter
    exact .inr hlt

theorem next (h : p.InRange) : p.next.InRange := by
  unfold Picker.next
  split
  · split
    · exact ⟨.inr ‹_›, h.strings⟩
    · exact h
  · split
    · exact ⟨h.proposals, .inr ‹_›⟩
    · exact h
  · exact ⟨h.proposals, h.strings⟩

theorem previous (h : p.InRange) : p.previous.InRange := by
  have hproposals := h.proposals
  have hstrings := h.strings
  unfold Picker.previous
  split
  · exact ⟨by dsimp only; omega, hstrings⟩
  · exact ⟨hproposals, by dsimp only; omega⟩
  · exact ⟨hproposals, hstrings⟩

end InRange

/-- Another row or another date on the same page. -/
def Moved (p q : Picker) : Prop := ∃ proposalIndex stringIndex date,
  q = { p with proposalIndex := proposalIndex, stringIndex := stringIndex, date := date }

theorem moved_next (p : Picker) : p.Moved p.next := by
  unfold next
  split
  · split
    · exact ⟨_, _, _, rfl⟩
    · exact ⟨_, _, _, rfl⟩
  · split
    · exact ⟨_, _, _, rfl⟩
    · exact ⟨_, _, _, rfl⟩
  · exact ⟨_, _, _, rfl⟩

theorem moved_previous (p : Picker) : p.Moved p.previous := by
  unfold previous
  split
  · exact ⟨_, _, _, rfl⟩
  · exact ⟨_, _, _, rfl⟩
  · exact ⟨_, _, _, rfl⟩

theorem isEmpty_reveal (p : Picker) : p.reveal.isEmpty = p.isEmpty := by
  unfold reveal
  split
  · rfl
  · rfl

theorem visible_reveal (p : Picker) : p.reveal.visible = (!p.isEmpty || p.visible) := by
  unfold reveal
  split
  · rename_i hempty
    simp [hempty]
  · rename_i hfull
    simp [hfull]

/-- Something is selected; on the page for a date that takes a format that dates can be written
in. -/
structure Offers (p : Picker) : Prop where
  notEmpty : p.isEmpty = false
  selected : (p.page = .date → ∃ t, p.dateText = .ok t) → ∃ s, p.selection = .ok (some s)

theorem InRange.offers {p : Picker} (h : p.InRange) (hfull : p.isEmpty = false) : p.Offers := by
  refine ⟨hfull, fun hdate => ?_⟩
  unfold isEmpty at hfull
  unfold selection
  cases hpage : p.page with
  | proposals =>
    rw [hpage] at hfull
    have hpos := List.length_pos_iff.2 (List.isEmpty_eq_false_iff.1 hfull)
    have hrow := h.proposals
    have hlt : p.proposalIndex < p.proposals.length := by omega
    exact ⟨.proposal p.proposals[p.proposalIndex] none, by simp [hlt]⟩
  | strings =>
    rw [hpage] at hfull
    have hpos := List.length_pos_iff.2 (List.isEmpty_eq_false_iff.1 hfull)
    have hrow := h.strings
    have hlt : p.stringIndex < p.strings.length := by omega
    exact ⟨p.withValue p.strings[p.stringIndex], by simp [hlt]⟩
  | date =>
    obtain ⟨t, ht⟩ := hdate hpage
    refine ⟨p.withValue t, ?_⟩
    rw [ht]
    rfl

end Picker

namespace Editor

variable {σ : Type} [Analyzer σ] {e f : Editor σ}

/-- The list of tags is on the page, and there are none. -/
structure ListsNothing (e : Editor σ) : Prop where
  page : e.picker.page = .strings
  strings : e.picker.strings = []
  tags : Analyzer.tags e.analyzer = []

/-- The rows selected are on their pages, and the page shown is one with rows or the list of no
tags. -/
structure Showing (e : Editor σ) : Prop where
  inRange : e.picker.InRange
  full : e.picker.visible = true → e.picker.isEmpty = false ∨ e.ListsNothing

theorem isEmpty_pickerForOne (e : Editor σ) (p : Proposal) :
    (e.pickerForOne p).isEmpty = false := by
  unfold pickerForOne
  dsimp only
  split
  · rfl
  · split
    · rfl
    · rename_i hvalues
      apply List.isEmpty_eq_false_iff.2
      apply Picker.addStrings_ne_nil
      exact fun hnil => hvalues (List.isEmpty_iff.2 hnil)

theorem inRange_pickerForOne (h : e.picker.InRange) (p : Proposal) :
    (e.pickerForOne p).InRange := by
  unfold pickerForOne
  dsimp only
  split
  · exact (h.turnTo _).offer p
  · split
    · exact (h.turnTo _).offer p
    · exact ((h.turnTo _).offer p).addStrings _ _

theorem Showing.of_filled {filled : Picker} (h : filled.InRange) (hfull : filled.isEmpty = false)
    (hpicker : f.picker = if e.autoOpen then filled.reveal else filled.hide) : f.Showing := by
  split at hpicker
  · refine ⟨?_, fun _ => .inl ?_⟩
    · rw [hpicker]
      exact h.reveal
    · rw [hpicker, Picker.isEmpty_reveal]
      exact hfull
  · refine ⟨?_, fun hvisible => ?_⟩
    · rw [hpicker]
      exact h.hide
    · rw [hpicker] at hvisible
      cases hvisible

/-- A picker that has been filled is hidden or offers something. -/
theorem showing_fillPicker (h : e.picker.InRange) : e.fillPicker.Showing := by
  match hproposals : Analyzer.proposals e.analyzer with
  | [] =>
    have hpicker : e.fillPicker.picker = (e.picker.turnTo .proposals).hide := by
      simp only [fillPicker, hproposals]
    refine ⟨?_, fun hvisible => ?_⟩
    · rw [hpicker]
      exact (h.turnTo _).hide
    · rw [hpicker] at hvisible
      cases hvisible
  | [p] =>
    apply Showing.of_filled (e := e) (inRange_pickerForOne h p) (e.isEmpty_pickerForOne p)
    simp only [fillPicker, hproposals]
  | p :: q :: ps =>
    have hfold := Picker.foldl_offer (p :: q :: ps) (p := e.picker.turnTo .proposals) rfl
    let filled : Picker := { e.picker.turnTo .proposals with proposals := p :: q :: ps }
    have hrange : filled.InRange := ⟨.inl rfl, (h.turnTo .proposals).strings⟩
    have hfull : filled.isEmpty = false := rfl
    apply Showing.of_filled (e := e) hrange hfull
    simp only [fillPicker, hproposals]
    rw [hfold]
    rfl

theorem Showing.reveal (h : e.Showing) : (e.withPicker e.picker.reveal).Showing := by
  refine ⟨h.inRange.reveal, fun hvisible => ?_⟩
  unfold withPicker at hvisible ⊢
  dsimp only at hvisible ⊢
  rw [Picker.isEmpty_reveal]
  cases hempty : e.picker.isEmpty with
  | false => exact .inl rfl
  | true =>
    -- an empty page is not revealed, so it was visible before
    have hsame : e.picker.reveal = e.picker := if_pos hempty
    have hfull : ¬e.picker.isEmpty = false := by simp [hempty]
    rw [hsame] at hvisible ⊢
    exact .inr ((h.full hvisible).resolve_left hfull)

theorem Showing.moved {picker : Picker} (h : e.Showing) (hrange : picker.InRange)
    (hmoved : e.picker.Moved picker) : (e.withPicker picker).Showing := by
  obtain ⟨i, j, date, rfl⟩ := hmoved
  exact ⟨hrange, fun hvisible => (h.full hvisible).imp id fun hnothing => { hnothing with }⟩

/-- The picker turned to the list of tags. -/
def tagList (e : Editor σ) : Picker :=
  (e.picker.turnTo .strings).addStrings (Analyzer.tags e.analyzer) e.typed

theorem strings_tagList_eq_nil_iff : e.tagList.strings = [] ↔ Analyzer.tags e.analyzer = [] := by
  constructor
  · intro hnone
    by_contra htags
    exact Picker.addStrings_ne_nil htags e.typed _ hnone
  · intro htags
    simp [tagList, Picker.addStrings, Picker.turnTo, Text.sort, htags]

theorem isEmpty_tagList : e.tagList.isEmpty = true ↔ Analyzer.tags e.analyzer = [] :=
  List.isEmpty_iff.trans strings_tagList_eq_nil_iff

theorem Showing.turn {picker : Picker} (h : e.Showing) (hturned : e.Turned picker) :
    (e.withPicker picker).Showing := by
  cases hturned with
  | next => exact h.moved h.inRange.next e.picker.moved_next
  | previous => exact h.moved h.inRange.previous e.picker.moved_previous
  | shift hshift =>
    obtain ⟨date, -, rfl⟩ := exists_of_map_ok hshift
    exact h.moved ⟨h.inRange.proposals, h.inRange.strings⟩ ⟨_, _, _, rfl⟩
  | hide => exact ⟨h.inRange.hide, fun hvisible => nomatch hvisible⟩
  | reveal => exact h.reveal
  | listTags =>
    refine ⟨(h.inRange.turnTo _).addStrings _ _, fun _ => ?_⟩
    by_cases htags : Analyzer.tags e.analyzer = []
    · exact .inr ⟨rfl, strings_tagList_eq_nil_iff.2 htags, htags⟩
    · exact .inl (Bool.eq_false_iff.2 fun hempty => htags (isEmpty_tagList.1 hempty))

theorem Change.showing (hchange : e.Change f) (h : e.Showing) : f.Showing := by
  cases hchange with
  | read _ => exact showing_fillPicker h.inRange
  | regroup _ _ => exact ⟨h.inRange, fun hvisible => (h.full hvisible).imp id ({ · with })⟩
  | turn hturned => exact h.turn hturned
  | tell _ _ _ _ => exact ⟨h.inRange, fun hvisible => (h.full hvisible).imp id ({ · with })⟩

theorem Operated.showing (h : e.Operated) : e.Showing :=
  h.invariant
    (fun _ _ _ _ => ⟨Picker.InRange.new _ _, fun hvisible => nomatch hvisible⟩)
    (fun _ hchange he => hchange.showing he)

theorem ListsNothing.not_offers (h : e.ListsNothing) : ¬e.picker.Offers := by
  intro hoffers
  have hempty : e.picker.isEmpty = true := by
    rw [Picker.isEmpty, h.page, h.strings]
    rfl
  exact Bool.false_ne_true (hoffers.notEmpty.symm.trans hempty)

/-- A picker that is shown offers something, unless it shows the list of tags and there are none.
Just that is what opening the list makes of a picker that is shown. -/
theorem operated_shows_offer (h : e.Operated) :
    (e.picker.visible = true → (e.picker.Offers ↔ ¬e.ListsNothing)) ∧
      (e.openTagList.picker.visible = true ∧ e.openTagList.picker.isEmpty = true ↔
        e.picker.visible = true ∧ Analyzer.tags e.analyzer = []) := by
  constructor
  · intro hvisible
    refine ⟨fun hoffers hnothing => hnothing.not_offers hoffers, fun hsome => ?_⟩
    apply h.showing.inRange.offers
    exact (h.showing.full hvisible).resolve_right hsome
  · have hpicker : e.openTagList.picker = e.tagList.reveal := rfl
    have hkept : e.tagList.visible = e.picker.visible := rfl
    rw [hpicker, Picker.visible_reveal, Picker.isEmpty_reveal, isEmpty_tagList, hkept]
    constructor
    · rintro ⟨hvisible, htags⟩
      rw [isEmpty_tagList.2 htags] at hvisible
      exact ⟨hvisible, htags⟩
    · rintro ⟨hvisible, htags⟩
      rw [hvisible, Bool.or_true]
      exact ⟨rfl, htags⟩

/-- Typed `tag:` where one tag is known: that tag is selected. -/
theorem shows_offer_tag :
    let start : Editor Keywords := .new (.new [['w']] []) (.new DateFormat.iso ⟨0, by decide⟩) true
    let e := start.perform (.insert ['t', 'a', 'g', ':'])
    (e.Operated ∧ e.picker.visible = true ∧ ¬e.ListsNothing) ∧ e.picker.Offers := by
  intro start e
  have he : e.Operated := (Operated.new _ _ _ _).act (.insert _) rfl
  have hvisible : e.picker.visible = true := by decide +kernel
  have htags : e.analyzer.tags = [['w']] := by decide +kernel
  have hsome : ¬e.ListsNothing := by
    intro hnothing
    have hnone : e.analyzer.tags = [] := hnothing.tags
    rw [htags] at hnone
    cases hnone
  exact ⟨⟨he, hvisible, hsome⟩, ((operated_shows_offer he).1 hvisible).2 hsome⟩

/-- Typed `ta` where no tag is known, the picker offers to go on. Turned to the list of tags it is
still shown, and nothing can be selected. -/
theorem tag_list_shown_empty :
    let start : Editor Keywords := .new (.new [] []) (.new DateFormat.iso ⟨0, by decide⟩) true
    let e := (start.perform (.insert ['t', 'a'])).openTagList
    e.Operated ∧ e.picker.visible = true ∧ e.picker.selection = .ok none := by
  intro start e
  have htyped : (start.perform (.insert ['t', 'a'])).Operated :=
    (Operated.new _ _ _ _).act (.insert _) rfl
  have hselection : e.picker.selection = .ok none := by decide +kernel
  exact ⟨htyped.act .openTagList rfl, by decide +kernel, hselection⟩

end Editor
end QueryLine
