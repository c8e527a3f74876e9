import QueryLine.Proofs.Changes

/-!
Reading the text again depends on nothing that went before: of blocks, caret leaf and picker only
the line, the words to choose from and whether the picker may open go in. So reading twice is
reading once, and after an edit there is nothing left to read.
-/

namespace QueryLine

attribute [ext] Editor

namespace Picker

/-- What is put up to choose from, on one page. -/
structure Offer where
  page : Page
  proposals : List Proposal
  strings : List Text
  stringIndex : Nat
  visible : Bool

/-- The picker with an offer in place of the last one; strings of another page stay as they are. -/
def putUp (o : Offer) (p : Picker) : Picker :=
  { p with
    page := o.page
    proposals := o.proposals
    proposalIndex := 0
    strings := if o.page = .strings then o.strings else p.strings
    stringIndex := if o.page = .strings then o.stringIndex else p.stringIndex
    visible := o.visible }

theorem putUp_putUp (o : Offer) (p : Picker) : (p.putUp o).putUp o = p.putUp o := by
  unfold putUp
  split <;> rfl

theorem foldl_offer (ps : List Proposal) {p : Picker} (hindex : p.proposalIndex = 0) :
    ps.foldl (fun picker q => picker.offer q) p = { p with proposals := p.proposals ++ ps } := by
  induction ps generalizing p with
  | nil => simp
  | cons q ps ih =>
    rw [List.foldl_cons, ih rfl]
    simp [offer, hindex]

theorem addStrings_ne_nil {values : List Text} (h : values ≠ []) (typed : Text) (p : Picker) :
    (p.addStrings values typed).strings ≠ [] := by
  intro hnil
  have hlength := congrArg List.length hnil
  simp only [addStrings, Text.sort, List.length_mergeSort, List.length_append,
    List.length_nil] at hlength
  exact h (List.length_eq_zero_iff.1 (by omega))

end Picker

namespace Editor

variable {σ : Type} [Analyzer σ]

theorem picker_fillPicker {e : Editor σ} {o : Picker.Offer} (filled : Picker)
    (hpicker : e.fillPicker.picker = if e.autoOpen then filled.reveal else filled.hide)
    (hempty : filled.isEmpty = false)
    (hfilled : { filled with visible := e.autoOpen } = e.picker.putUp o) :
    e.fillPicker.picker = e.picker.putUp o := by
  rw [hpicker, ← hfilled]
  cases e.autoOpen with
  | true => simp [Picker.reveal, hempty]
  | false => rfl

theorem pickerForOne_of_values {e : Editor σ} {p : Proposal} {values : List Text}
    (hdate : p.kind ≠ .date) (hvalues : e.values p.kind = values) : e.pickerForOne p =
      if values.isEmpty then (e.picker.turnTo .proposals).offer p
      else ((e.picker.turnTo .strings).offer p).addStrings values e.typed := by
  subst hvalues
  exact if_neg hdate

/-- What is put up hangs on the proposals and on what their values can be. -/
theorem exists_offer (proposals : List Proposal) (tags contacts : List Text) (typed : Text)
    (autoOpen : Bool) : ∃ o : Picker.Offer, ∀ e : Editor σ,
      Analyzer.proposals e.analyzer = proposals → Analyzer.tags e.analyzer = tags →
      Analyzer.contacts e.analyzer = contacts → e.typed = typed → e.autoOpen = autoOpen →
      e.fillPicker.picker = e.picker.putUp o := by
  match proposals with
  | [] =>
    refine ⟨⟨.proposals, [], [], 0, false⟩, fun e hproposals _ _ _ _ => ?_⟩
    simp [fillPicker, hproposals, Picker.turnTo, Picker.hide, Picker.putUp]
  | [p] =>
    -- the page hangs on the kind of value, and the strings on there being any
    by_cases hdate : p.kind = .date
    · refine ⟨⟨.date, [p], [], 0, autoOpen⟩, fun e hproposals _ _ _ hauto => ?_⟩
      apply picker_fillPicker (e.pickerForOne p)
      · simp [fillPicker, hproposals]
      · simp [pickerForOne, hdate, Picker.isEmpty, Picker.offer, Picker.turnTo]
      · simp [pickerForOne, hdate, Picker.offer, Picker.turnTo, Picker.putUp, hauto]
    · obtain ⟨values, hvalues⟩ : ∃ values, ∀ e : Editor σ, Analyzer.tags e.analyzer = tags →
          Analyzer.contacts e.analyzer = contacts → e.values p.kind = values := by
        cases p.kind with
        | tag => exact ⟨tags, fun e htags _ => htags⟩
        | contact => exact ⟨contacts, fun e _ hcontacts => hcontacts⟩
        | plain => exact ⟨[], fun e _ _ => rfl⟩
        | date => exact ⟨[], fun e _ _ => rfl⟩
      by_cases hnone : values = []
      · refine ⟨⟨.proposals, [p], [], 0, autoOpen⟩, fun e hproposals htags hcontacts _ hauto => ?_⟩
        have hone := pickerForOne_of_values hdate (hvalues e htags hcontacts)
        apply picker_fillPicker (e.pickerForOne p)
        · simp [fillPicker, hproposals]
        · simp [hone, hnone, Picker.isEmpty, Picker.offer, Picker.turnTo]
        · simp [hone, hnone, Picker.offer, Picker.turnTo, Picker.putUp, hauto]
      · let after := (Text.sort values).findIdx? fun s => decide (Text.lower typed < Text.lower s)
        refine ⟨⟨.strings, [p], Text.sort values, after.getD 0, autoOpen⟩,
          fun e hproposals htags hcontacts htyped hauto => ?_⟩
        have hone := pickerForOne_of_values hdate (hvalues e htags hcontacts)
        apply picker_fillPicker (e.pickerForOne p)
        · simp [fillPicker, hproposals]
        · have hstrings := Picker.addStrings_ne_nil hnone e.typed
            ((e.picker.turnTo .strings).offer p)
          rw [hone, List.isEmpty_eq_false_iff.2 hnone]
          exact List.isEmpty_eq_false_iff.2 hstrings
        · simp [hone, hnone, Picker.addStrings, Picker.offer, Picker.turnTo, Picker.putUp, hauto,
            htyped, after]
  | p :: q :: ps =>
    refine ⟨⟨.proposals, p :: q :: ps, [], 0, autoOpen⟩, fun e hproposals _ _ _ hauto => ?_⟩
    have hfold := Picker.foldl_offer (p :: q :: ps) (p := e.picker.turnTo .proposals) rfl
    apply picker_fillPicker _ (by simp only [fillPicker, hproposals]; rfl)
    · rw [hfold]
      rfl
    · rw [hfold]
      simp [Picker.turnTo, Picker.putUp, hauto]

end Editor

namespace Document

theorem SameLine.flatten_eq {d e : Document} (h : d.SameLine e) : d.flatten = e.flatten := by
  unfold flatten setText withRoot place
  rw [h.text, h.position, h.events]
  rfl

theorem Settled.sameLine {d e : Document} (hd : d.Settled) (he : e.Settled)
    (htext : d.text = e.text) (hposition : d.caret.position = e.caret.position) : d.SameLine e :=
  ⟨htext, hposition, hd.events.trans he.events.symm⟩

end Document

namespace Editor

/-- All that reading the text again asks for. -/
structure SameQuestion (e f : Editor Keywords) : Prop where
  line : e.document.SameLine f.document
  autoOpen : e.autoOpen = f.autoOpen
  tags : e.analyzer.tags = f.analyzer.tags
  contacts : e.analyzer.contacts = f.analyzer.contacts

namespace SameQuestion

variable {e f : Editor Keywords}

theorem read_eq (h : e.SameQuestion f) : Analyzer.read e.text e.caret e.analyzer =
    Analyzer.read f.text f.caret f.analyzer := by
  change (Query.ofText .filenames e.text,
    Keywords.mk e.analyzer.tags e.analyzer.contacts (Proposal.at e.text e.caret)) = _
  rw [h.tags, h.contacts, show e.text = f.text from h.line.text,
    show e.caret = f.caret from h.line.position]
  rfl

theorem document_eq (h : e.SameQuestion f) : e.reparse.document = f.reparse.document := by
  have hspans : e.spans = f.spans := by
    unfold spans
    rw [h.read_eq]
  rw [document_reparse, document_reparse, h.line.flatten_eq, hspans,
    show e.caret = f.caret from h.line.position]

theorem analyzer_eq (h : e.SameQuestion f) : e.reparse.analyzer = f.reparse.analyzer := by
  rw [analyzer_reparse, analyzer_reparse, h.read_eq]

theorem term_eq (h : e.SameQuestion f) : e.reparse.term = f.reparse.term := by
  rw [term_reparse, term_reparse, h.read_eq]

theorem faults_eq (h : e.SameQuestion f) : e.reparse.faults = f.reparse.faults := by
  rw [faults_reparse, faults_reparse, h.read_eq]

theorem notice_eq (h : e.SameQuestion f) : e.reparse.notice = f.reparse.notice := by
  rw [notice_reparse, notice_reparse, h.faults_eq]

theorem exists_offer (e : Editor Keywords) : ∃ o : Picker.Offer, ∀ f : Editor Keywords,
    f.SameQuestion e → f.document.Sound → f.reparse.picker = f.picker.putUp o := by
  obtain ⟨o, ho⟩ := Editor.exists_offer (σ := Keywords) (Proposal.at e.text e.caret)
    e.analyzer.tags e.analyzer.contacts e.typed e.autoOpen
  refine ⟨o, fun f h hf => ?_⟩
  obtain ⟨-, hline⟩ := reparse_spec hf
  -- the offer is made where the document has been read already
  let read : Editor Keywords := { f.reparse with picker := f.picker }
  have htext : f.text = e.text := h.line.text
  have hcaret : f.caret = e.caret := h.line.position
  have htyped : read.typed = e.typed := by
    change Edit.typedValue f.reparse.text f.reparse.caret = Edit.typedValue e.text e.caret
    rw [show f.reparse.text = f.text from hline.text,
      show f.reparse.caret = f.caret from hline.position, htext, hcaret]
  have hproposals : read.analyzer.proposals = Proposal.at e.text e.caret := by
    rw [← htext, ← hcaret]
    rfl
  exact ho read hproposals h.tags h.contacts htyped h.autoOpen

end SameQuestion

/-- What reading leaves, apart from the strings of a page that is not shown, from the date and from
what was told before. -/
structure Alike (e f : Editor Keywords) : Prop where
  root : e.document.root = f.document.root
  caret : e.document.caret = f.document.caret
  term : e.term = f.term
  faults : e.faults = f.faults
  notice : e.notice = f.notice
  page : e.picker.page = f.picker.page
  proposals : e.picker.proposals = f.picker.proposals
  row : e.picker.row = f.picker.row
  visible : e.picker.visible = f.picker.visible
  strings : e.picker.page = .strings → e.picker.strings = f.picker.strings

theorem Alike.of_sameQuestion {e f : Editor Keywords} (he : e.document.Sound)
    (hf : f.document.Sound) (h : e.SameQuestion f) : e.reparse.Alike f.reparse := by
  obtain ⟨o, ho⟩ := SameQuestion.exists_offer f
  have hpicker := ho e h he
  have hpicker' := ho f ⟨⟨rfl, rfl, rfl⟩, rfl, rfl, rfl⟩ hf
  refine ⟨congrArg _ h.document_eq, congrArg _ h.document_eq, h.term_eq, h.faults_eq, h.notice_eq,
    ?_, ?_, ?_, ?_, ?_⟩
  · rw [hpicker, hpicker']
    rfl
  · rw [hpicker, hpicker']
    rfl
  · rw [hpicker, hpicker']
    unfold Picker.row Picker.putUp
    split <;> rfl
  · rw [hpicker, hpicker']
    rfl
  · rw [hpicker, hpicker']
    intro hpage
    have hstrings : o.page = .strings := hpage
    simp [Picker.putUp, hstrings]

/-- An editor that has been changed where reading changes it reads as before. -/
theorem reparse_eq_of_sameQuestion {e f : Editor Keywords} (he : e.document.Sound)
    (hf : f.document.Sound) (h : f.SameQuestion e)
    (hpicker : f.picker = e.picker ∨ f.picker = e.reparse.picker)
    (hevents : f.events = e.events) (hnotifications : f.notifications = e.notifications) :
    f.reparse = e.reparse := by
  obtain ⟨o, ho⟩ := SameQuestion.exists_offer e
  have hputUp : f.reparse.picker = e.reparse.picker := by
    rw [ho f h hf]
    rcases hpicker with hsame | hread
    · rw [hsame, ho e ⟨⟨rfl, rfl, rfl⟩, rfl, rfl, rfl⟩ he]
    · rw [hread, ho e ⟨⟨rfl, rfl, rfl⟩, rfl, rfl, rfl⟩ he, Picker.putUp_putUp]
  exact Editor.ext h.document_eq h.analyzer_eq hputUp h.autoOpen h.term_eq h.faults_eq h.notice_eq
    hevents hnotifications

/-- There is nothing to read anew. -/
def Current (e : Editor Keywords) : Prop := e.reparse = e

theorem current_reparse {e : Editor Keywords} (h : e.document.Sound) : e.reparse.Current := by
  obtain ⟨hsound, hline⟩ := reparse_spec h
  exact reparse_eq_of_sameQuestion h hsound ⟨hline, rfl, rfl, rfl⟩ (.inr rfl) rfl rfl

theorem Current.told {e : Editor Keywords} (h : e.Current) (events : List DocumentEvent)
    (notifications : List Notification) :
    Current { e with events := events, notifications := notifications } := by
  have hread : ({ e with events := events, notifications := notifications } : Editor _).reparse =
      { e.reparse with events := events, notifications := notifications } := rfl
  rw [Current, hread, h]

theorem exists_dispatch_eq {σ : Type} (events : List DocumentEvent) (e : Editor σ)
    (h : ∀ event ∈ events, event = .textChanged ∨ ∃ p, event = .caretMoved p) :
    ∃ es ns, e.dispatch events = { e with events := es, notifications := ns } := by
  have hnotice : (events.foldl observe e).notice = e.notice := by
    induction events generalizing e with
    | nil => rfl
    | cons event events ih =>
      rw [List.foldl_cons, ih _ fun v hv => h v (List.mem_cons_of_mem event hv)]
      rcases h event List.mem_cons_self with rfl | ⟨p, rfl⟩
      · rfl
      · rfl
  refine ⟨e.events ++ events, (events.foldl observe e).notifications, ?_⟩
  rw [dispatch_eq, hnotice]

theorem current_process {e : Editor Keywords} (h : e.document.Sound)
    (hchanged : .textChanged ∈ e.document.events)
    (hevents : ∀ event ∈ e.document.events, event = .textChanged ∨ ∃ p, event = .caretMoved p) :
    e.process.Current := by
  have htaken := settled_takeEvents h
  -- the text is read before the events are told, and telling them changes nothing that is read
  obtain ⟨es, ns, hdispatch⟩ := exists_dispatch_eq e.document.events
    (reparse { e with document := e.document.takeEvents.2 }) hevents
  rw [process_of_changed h hchanged, hdispatch]
  exact Current.told (current_reparse htaken.sound) es ns

theorem current_setText (t : Text) {e : Editor Keywords} (he : e.document.Settled) :
    (e.setText t).Current := by
  let replaced : Editor Keywords := { e with document := e.document.setText t }
  have hreplaced : replaced.document.Settled := ⟨.setText t e.document, he.events⟩
  obtain ⟨es, ns, hdispatch⟩ := exists_dispatch_eq [.textChanged]
    replaced.reparse (by simp)
  rw [setText_eq t e he, hdispatch]
  exact Current.told (current_reparse hreplaced.sound) es ns

theorem perform_flatten {e : Editor Keywords} (h : e.document.Settled) :
    e.perform .flatten = { e with document := e.document.flatten } :=
  process_of_settled (e := { e with document := e.document.flatten })
    ⟨.setText e.document.text e.document, h.events⟩

/-- Typing, or removing a character, is one text change and at most one move of the caret. -/
theorem current_perform {e : Editor Keywords} (h : e.document.Settled) {d : Document}
    {a : Document.Action} (ha : e.document.act? a = some d)
    (hevents : (∃ p, d.events = [.caretMoved p, .textChanged]) ∨ d.events = [.textChanged]) :
    (e.perform a).Current := by
  have hact : e.document.act a = d := by
    rw [Document.act, ha]
    rfl
  have hsound : d.Sound := h.sound.act? ha
  unfold perform
  rw [hact]
  rcases hevents with ⟨p, hevents⟩ | hevents
  · exact current_process hsound (by simp [hevents]) (by simp [hevents])
  · exact current_process hsound (by simp [hevents]) (by simp [hevents])

end Editor

namespace Editor

/-- Reading the text again leads to the same, however two editors came to the same line and the same
settings. It changes nothing right after it was read, be it again, as new text or as an edit, and
blocks dissolved before make no difference. -/
theorem reparse_forgets {e f : Editor Keywords} (he : e.Reachable) (hf : f.Reachable)
    (htext : e.text = f.text) (hcaret : e.caret = f.caret) (hauto : e.autoOpen = f.autoOpen)
    (htags : e.analyzer.tags = f.analyzer.tags)
    (hcontacts : e.analyzer.contacts = f.analyzer.contacts) :
    e.reparse.Alike f.reparse ∧ e.reparse.reparse = e.reparse ∧
      (e.perform .flatten).reparse = e.reparse ∧
      (∀ t, (e.setText t).reparse = e.setText t) ∧
      (∀ t, t ≠ [] → (e.perform (.insert t)).reparse = e.perform (.insert t)) ∧
      (e.document.backspace?.isSome → (e.perform .backspace).reparse = e.perform .backspace) ∧
      (e.document.delete?.isSome → (e.perform .delete).reparse = e.perform .delete) := by
  have hsettled := he.settled
  have hline := hsettled.sameLine hf.settled htext hcaret
  refine ⟨.of_sameQuestion hsettled.sound hf.settled.sound ⟨hline, hauto, htags, hcontacts⟩,
    current_reparse hsettled.sound, ?_, fun t => current_setText t hsettled, fun t ht => ?_,
    fun hsome => ?_, fun hsome => ?_⟩
  · rw [perform_flatten hsettled]
    exact reparse_eq_of_sameQuestion hsettled.sound (.setText _ _)
      ⟨hsettled.sound.sameLine_flatten, rfl, rfl, rfl⟩ (.inl rfl) rfl rfl
  · exact current_perform hsettled (a := .insert t) rfl (.inl (hsettled.events_insert ht))
  · obtain ⟨d, hd⟩ := Option.isSome_iff_exists.1 hsome
    exact current_perform hsettled (a := .backspace) hd (.inl (hsettled.events_backspace? hd))
  · obtain ⟨d, hd⟩ := Option.isSome_iff_exists.1 hsome
    exact current_perform hsettled (a := .delete) hd (.inr (hsettled.events_delete? hd))

/-- The query `a:1 b`, set at once and boxed by hand, and the same typed in two goes. -/
theorem reparse_forgets_boxing :
    let start : Editor Keywords := .new (.new [] []) (.new [] ⟨0, by decide⟩) true
    let e := (start.setText ['a', ':', '1', ' ', 'b']).perform (.box 1 1)
    let f := ((start.perform (.insert ['a', ':', '1'])).perform (.insert [' ', 'b'])).perform .home
    (e.Reachable ∧ f.Reachable ∧ e.text = f.text ∧ e.caret = f.caret ∧ e.autoOpen = f.autoOpen ∧
      e.analyzer.tags = f.analyzer.tags ∧ e.analyzer.contacts = f.analyzer.contacts ∧
      e.document.blocks.length = 2 ∧ f.document.blocks.length = 1) ∧
    e.reparse.Alike f.reparse ∧ e.reparse.reparse = e.reparse := by
  intro start e f
  have hstart : start.Reachable := .new _ _ _
  have he : e.Reachable := (hstart.setText _).perform (.box 1 1) rfl
  have hf : f.Reachable := ((hstart.perform (.insert _) rfl).perform (.insert _) rfl).perform .home
    rfl
  have htext : e.text = f.text := by decide +kernel
  have hcaret : e.caret = f.caret := by decide +kernel
  have hauto : e.autoOpen = f.autoOpen := by decide +kernel
  have htags : e.analyzer.tags = f.analyzer.tags := by decide +kernel
  have hcontacts : e.analyzer.contacts = f.analyzer.contacts := by decide +kernel
  have hblocks : e.document.blocks.length = 2 := by decide +kernel
  have hblock : f.document.blocks.length = 1 := by decide +kernel
  obtain ⟨halike, htwice, -⟩ := reparse_forgets he hf htext hcaret hauto htags hcontacts
  exact ⟨⟨he, hf, htext, hcaret, hauto, htags, hcontacts, hblocks, hblock⟩, halike, htwice⟩

end Editor
end QueryLine
