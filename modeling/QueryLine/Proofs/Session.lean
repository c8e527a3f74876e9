import QueryLine.Editor.Key
import QueryLine.Proofs.Caret

/-!
What can be done with an editor. Reading the text again and processing what happened to the document
keep its text and caret, and leave it sound with no event waiting.
-/

namespace QueryLine

namespace Document

/-- Sound, and every event was taken. -/
structure Settled (d : Document) : Prop where
  sound : d.Sound
  events : d.events = []

/-- The same text, caret position and events, whatever the blocks are. -/
structure SameLine (d e : Document) : Prop where
  text : d.text = e.text
  position : d.caret.position = e.caret.position
  events : d.events = e.events

theorem root_setCaret (position : Nat) (d : Document) : (d.setCaret position).root = d.root := by
  unfold setCaret
  dsimp only
  split
  · rfl
  · rfl

theorem position_setCaret (position : Nat) (d : Document) :
    (d.setCaret position).caret.position = min position d.length := by
  unfold setCaret
  dsimp only
  split
  · rfl
  · rfl

namespace Sound

variable {d : Document}

theorem position_le (h : d.Sound) : d.caret.position ≤ d.length := by
  obtain ⟨b, t, a, hin⟩ := h.caret
  exact hin.position_le

theorem setCaret_self (h : d.Sound) : d.setCaret d.caret.position = d.place d.caret.position := by
  have hposition : (d.place d.caret.position).caret.position = d.caret.position :=
    Nat.min_eq_left h.position_le
  unfold Document.setCaret
  exact if_pos hposition

theorem sameLine_withRoot (h : d.Sound) {root : Block} (htext : root.text = d.text) :
    (d.withRoot root).SameLine d where
  text := htext
  position := by
    have hlength : root.length = d.length := congrArg List.length htext
    have hle := h.position_le
    change min d.caret.position root.length = d.caret.position
    omega
  events := rfl

theorem sameLine_flatten (h : d.Sound) : d.flatten.SameLine d :=
  h.sameLine_withRoot (Block.text_ofText d.text)

theorem sameLine_box (h : d.Sound) (start last : Nat) : (d.act (.box start last)).SameLine d := by
  unfold Document.act
  cases hbox : d.act? (.box start last) with
  | none => exact ⟨rfl, rfl, rfl⟩
  | some e =>
    obtain ⟨root, hroot, rfl⟩ := Option.map_eq_some_iff.1 hbox
    exact h.sameLine_withRoot (Block.text_box? hroot)

theorem boxAll (h : d.Sound) (spans : List Span) :
    (d.boxAll spans).Sound ∧ (d.boxAll spans).SameLine d := by
  induction spans generalizing d with
  | nil => exact ⟨h, rfl, rfl, rfl⟩
  | cons s spans ih =>
    obtain ⟨hsound, hline⟩ := ih (h.act (.box s.start (s.stop - 1)))
    have hbox := h.sameLine_box s.start (s.stop - 1)
    exact ⟨hsound, hline.text.trans hbox.text, hline.position.trans hbox.position,
      hline.events.trans hbox.events⟩

end Sound
end Document

namespace Editor

variable {σ : Type} {e : Editor σ}

theorem dispatch_eq (told : List DocumentEvent) (e : Editor σ) : e.dispatch told =
    { e with
      notice := (told.foldl observe e).notice
      events := e.events ++ told
      notifications := (told.foldl observe e).notifications } := by
  have hfold : told.foldl observe e =
      { e with
        notice := (told.foldl observe e).notice
        notifications := (told.foldl observe e).notifications } := by
    induction told generalizing e with
    | nil => rfl
    | cons event told ih =>
      rw [List.foldl_cons]
      refine (ih (e.observe event)).trans ?_
      cases event with
      | _ => rfl
  unfold dispatch
  dsimp only
  rw [hfold]

theorem document_dispatch (events : List DocumentEvent) (e : Editor σ) :
    (e.dispatch events).document = e.document := by
  rw [dispatch_eq]

theorem dispatch_nil (e : Editor σ) : e.dispatch [] = e := by
  change { e with events := e.events ++ [] } = e
  rw [List.append_nil]

variable [Analyzer σ]

/-- What reading the text boxes. -/
def spans (e : Editor σ) : List Span :=
  ((Analyzer.read e.text e.caret e.analyzer).1.term.map Term.blockSpans).getD []

theorem document_reparse (e : Editor σ) :
    e.reparse.document = (e.document.flatten.boxAll e.spans).setCaret e.caret := rfl

theorem analyzer_reparse (e : Editor σ) :
    e.reparse.analyzer = (Analyzer.read e.text e.caret e.analyzer).2 := rfl

theorem term_reparse (e : Editor σ) :
    e.reparse.term = (Analyzer.read e.text e.caret e.analyzer).1.term := rfl

theorem faults_reparse (e : Editor σ) :
    e.reparse.faults = (Analyzer.read e.text e.caret e.analyzer).1.faults := rfl

theorem notice_reparse (e : Editor σ) :
    e.reparse.notice = e.reparse.faults.head?.map fun f => ⟨f.message.toList, .error⟩ := rfl

theorem reparse_spec (h : e.document.Sound) :
    e.reparse.document.Sound ∧ e.reparse.document.SameLine e.document := by
  have hflat := h.sameLine_flatten
  obtain ⟨hsound, hline⟩ := (Document.Sound.setText e.text e.document).boxAll e.spans
  have hposition := hline.position.trans hflat.position
  -- boxing leaves the caret where it was, so no event is told when it is set there
  have hcaret : e.reparse.document = (e.document.flatten.boxAll e.spans).place e.caret := by
    rw [document_reparse, caret, ← hposition]
    exact hsound.setCaret_self
  rw [hcaret]
  refine ⟨Document.sound_place hsound.root e.caret, hline.text.trans hflat.text, ?_,
    hline.events.trans hflat.events⟩
  have hle := h.position_le
  have hlength : (e.document.flatten.boxAll e.spans).length = e.document.length :=
    congrArg List.length (hline.text.trans hflat.text)
  change min e.document.caret.position _ = e.document.caret.position
  omega

theorem settled_reparse (h : e.document.Settled) : e.reparse.document.Settled := by
  obtain ⟨hsound, hline⟩ := reparse_spec h.sound
  exact ⟨hsound, hline.events.trans h.events⟩

theorem settled_takeEvents {d : Document} (h : d.Sound) : d.takeEvents.2.Settled :=
  ⟨h.act .takeEvents, rfl⟩

theorem takeEvents_of_settled {d : Document} (h : d.Settled) : d.takeEvents = ([], d) := by
  have hevents := h.events
  cases d with | mk root caret events =>
  dsimp only at hevents
  rw [hevents]
  rfl

theorem process_of_unchanged (h : .textChanged ∉ e.document.events) :
    e.process = dispatch e.document.events { e with document := e.document.takeEvents.2 } :=
  if_neg h

theorem process_of_changed (h : e.document.Sound) (hchanged : .textChanged ∈ e.document.events) :
    e.process =
      (reparse { e with document := e.document.takeEvents.2 }).dispatch e.document.events := by
  let taken : Editor σ := { e with document := e.document.takeEvents.2 }
  have hread : taken.reparse.document.Settled := settled_reparse (settled_takeEvents h)
  refine (if_pos hchanged).trans ?_
  change dispatch (e.document.events ++ taken.reparse.document.takeEvents.1.filter _)
    { taken.reparse with document := taken.reparse.document.takeEvents.2 } = _
  rw [takeEvents_of_settled hread, List.filter_nil, List.append_nil]

theorem process_of_settled (h : e.document.Settled) : e.process = e := by
  have hnone : .textChanged ∉ e.document.events := by simp [h.events]
  rw [process_of_unchanged hnone, takeEvents_of_settled h, h.events, dispatch_nil]

theorem process_spec (h : e.document.Sound) :
    e.process.text = e.text ∧ e.process.caret = e.caret := by
  by_cases hchanged : .textChanged ∈ e.document.events
  · obtain ⟨-, hline⟩ := reparse_spec (settled_takeEvents h).sound
      (e := { e with document := e.document.takeEvents.2 })
    unfold text caret
    rw [process_of_changed h hchanged, document_dispatch]
    exact ⟨hline.text, hline.position⟩
  · unfold text caret
    rw [process_of_unchanged hchanged, document_dispatch]
    exact ⟨rfl, rfl⟩

theorem setText_eq (t : Text) (e : Editor σ) (h : e.document.Settled) :
    e.setText t =
      (reparse { e with document := e.document.setText t }).dispatch [.textChanged] := by
  apply process_of_settled
  rw [document_dispatch]
  exact settled_reparse ⟨.setText t e.document, h.events⟩

/-- The picker is revealed where the text has been read, and nothing more comes of it. -/
theorem requestCompletion_eq (h : e.document.Settled) :
    e.requestCompletion = { e.reparse with picker := e.reparse.picker.reveal } :=
  process_of_settled (e := { e.reparse with picker := e.reparse.picker.reveal }) (settled_reparse h)

theorem exists_of_map_ok {ε α β : Type} {f : α → β} {x : Except ε α} {b : β}
    (h : x.map f = .ok b) : ∃ a, x = .ok a ∧ f a = b := by
  cases x with
  | error fault => cases h
  | ok a =>
    cases h
    exact ⟨a, rfl, rfl⟩

theorem act_of_onDocument? {a : Action} {action : Document.Action} (e : Editor σ)
    (h : a.onDocument? = some action) :
    e.act a = .ok (e.perform action, (e.document.act? action).isSome) := by
  cases a <;> cases h <;> rfl

/-- What is selected, if the picker shows anything. -/
def chosen (e : Editor σ) : Except CalendarFault (Option Selection) :=
  if e.picker.visible then e.picker.selection else .ok none

theorem accept?_eq (e : Editor σ) : e.accept? = e.chosen.map fun chosen =>
    chosen.map fun s => choose s { e with picker := e.picker.hide } := by
  unfold accept? chosen
  split
  · rfl
  · rfl

theorem act_accept (e : Editor σ) : e.act .accept = e.chosen.map fun
    | none => (e, false)
    | some s => (choose s { e with picker := e.picker.hide }, true) := by
  change e.accept?.map _ = _
  rw [accept?_eq]
  cases e.chosen with
  | error fault => rfl
  | ok chosen =>
    cases chosen with
    | none => rfl
    | some s => rfl

theorem accept_cases {f : Editor σ} {done : Bool} (h : e.act .accept = .ok (f, done)) :
    f = e ∧ done = false ∨
      ∃ s, f = choose s { e with picker := e.picker.hide } ∧ done = true := by
  rw [act_accept] at h
  obtain ⟨chosen, -, hafter⟩ := exists_of_map_ok h
  cases chosen with
  | none =>
    cases hafter
    exact .inl ⟨rfl, rfl⟩
  | some s =>
    cases hafter
    exact .inr ⟨s, rfl, rfl⟩

/-- What can be done with an editor: actions, commands, anything to its picker, and taking what it
tells. -/
inductive Reachable : Editor σ → Prop
  | new (analyzer : σ) (picker : Picker) (autoOpen : Bool) :
    Reachable (.new analyzer picker autoOpen)
  | act {e after : Editor σ} {done : Bool} (h : Reachable e) (a : Action)
    (hact : e.act a = .ok (after, done)) : Reachable after
  | obey {e after : Editor σ} {quit : Bool} (h : Reachable e) (c : Command)
    (hobey : e.obey c = .ok (after, quit)) : Reachable after
  | withPicker {e : Editor σ} (h : Reachable e) (picker : Picker) : Reachable (e.withPicker picker)
  | takeEvents {e : Editor σ} (h : Reachable e) : Reachable e.takeEvents.2
  | takeNotifications {e : Editor σ} (h : Reachable e) : Reachable e.takeNotifications.2

theorem Reachable.setText (h : e.Reachable) (t : Text) : (e.setText t).Reachable :=
  h.act (.setText t) rfl

theorem Reachable.perform (h : e.Reachable) (a : Action) {action : Document.Action}
    (ha : a.onDocument? = some action) : (e.perform action).Reachable :=
  h.act a (act_of_onDocument? e ha)

end Editor
end QueryLine
