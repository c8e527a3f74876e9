import QueryLine.Proofs.Pending

/-!
What observers are told of the text. However many changes an operation makes, a document keeps one
of them until it is asked, so the text is told once, as it is in the end.
-/

namespace QueryLine

theorem Document.Settled.count_act {d : Document} (h : d.Settled) {a : Editor.Action}
    {action : Document.Action} (ha : a.onDocument? = some action) :
    (d.act action).events.count .textChanged ≤ 1 := by
  obtain ⟨-, htakes⟩ := Document.kept_of_onDocument? ha
  exact ((h.sound.queues_act htakes).merged h.merged).text

/-- The text that observers were told, if it was the text. -/
def Notification.text? : Notification → Option Text
  | text t => some t
  | caret _ => none

theorem DocumentEvent.texts_news (t : Text) (events : List DocumentEvent) :
    (events.filterMap (news? t)).filterMap Notification.text? =
      List.replicate (events.count .textChanged) t := by
  induction events with
  | nil => rfl
  | cons event events ih =>
    cases event with
    | textChanged =>
      rw [List.count_cons_self, List.replicate_succ, ← ih]
      rfl
    | _ => exact ih

namespace Editor

open DocumentEvent (news?)

variable {σ : Type} {e f : Editor σ}

/-- On the way from one state to the other the observers of the text are told at most once. They are
told where it is another text, and what they are told is the text there is in the end. -/
def TellsText (e f : Editor σ) : Prop :=
  ∃ told, f.notifications = e.notifications ++ told ∧
    (told.filterMap Notification.text? = [f.text] ∨
      told.filterMap Notification.text? = [] ∧ f.text = e.text)

namespace TellsText

theorem of_silent (hnotifications : f.notifications = e.notifications) (htext : f.text = e.text) :
    TellsText e f :=
  ⟨[], by rw [hnotifications, List.append_nil], .inr ⟨rfl, htext⟩⟩

/-- Events are told with at most one text change among them, which is there if the text is
another. -/
theorem of_events {events : List DocumentEvent}
    (hnotifications : f.notifications = e.notifications ++ events.filterMap (news? f.text))
    (hcount : events.count .textChanged ≤ 1)
    (hchanged : .textChanged ∈ events ∨ f.text = e.text) : TellsText e f := by
  refine ⟨_, hnotifications, ?_⟩
  rw [DocumentEvent.texts_news]
  by_cases hmem : DocumentEvent.textChanged ∈ events
  · have hpos := List.count_pos_iff.2 hmem
    have hone : events.count .textChanged = 1 := by omega
    rw [hone]
    exact .inl rfl
  · rw [List.count_eq_zero.2 hmem]
    exact .inr ⟨rfl, hchanged.resolve_left hmem⟩

end TellsText

variable [Analyzer σ]

theorem notifications_process (h : e.document.Sound) :
    e.process.notifications =
      e.notifications ++ e.document.events.filterMap (news? e.process.text) := by
  have htext : e.process.text = e.text := (process_spec h).1
  rw [htext]
  by_cases hchanged : .textChanged ∈ e.document.events
  · obtain ⟨-, hline⟩ := reparse_spec (e := { e with document := e.document.takeEvents.2 })
      (settled_takeEvents h).sound
    have hread : (reparse { e with document := e.document.takeEvents.2 }).text = e.text :=
      hline.text
    rw [process_of_changed h hchanged, notifications_dispatch, hread, notifications_reparse]
  · rw [process_of_unchanged hchanged, notifications_dispatch]
    rfl

theorem tellsText_perform {a : Action} {action : Document.Action} (h : e.document.Settled)
    (ha : a.onDocument? = some action) : TellsText e (e.perform action) := by
  let acted : Editor σ := { e with document := e.document.act action }
  have hsound : acted.document.Sound := h.sound.act action
  have htext : (e.perform action).text = acted.text := (process_spec hsound).1
  have htold : (e.perform action).notifications = e.notifications ++ _ :=
    notifications_process (e := acted) hsound
  apply TellsText.of_events htold (h.count_act ha)
  rcases h.edited_or_regrouped ha with hedited | hgrouped
  · exact .inl hedited
  · exact .inr (htext.trans hgrouped.text_eq)

theorem tellsText_apply (edit : Edit) (h : e.document.Settled) : TellsText e (e.apply edit) := by
  let spliced := e.document.splice edit.start edit.stop edit.replacement
  let d := spliced.setCaret edit.caret
  have hsound : d.Sound := Document.sound_setCaret_splice _ _ _ _ _
  have hmerged : DocumentEvent.Merged spliced.events := h.merged_splice _ _ _
  have hcount : d.events.count .textChanged ≤ 1 :=
    ((Document.queues_setCaret edit.caret spliced).merged hmerged).text
  exact TellsText.of_events (notifications_process (e := { e with document := d }) hsound) hcount
    (.inl (Document.textChanged_mem_setCaret_splice _ _ _ _ _))

theorem tellsText_choose (s : Selection) (h : e.document.Settled) : TellsText e (e.choose s) := by
  cases s with
  | proposal p value => exact tellsText_apply _ h
  | value t => exact tellsText_apply _ h

theorem tellsText_setText (t : Text) (h : e.document.Settled) : TellsText e (e.setText t) := by
  rw [setText_eq t e h]
  have hcount : [DocumentEvent.textChanged].count .textChanged ≤ 1 := Nat.le_refl 1
  refine .of_events ?_ hcount (.inl (List.mem_singleton_self _))
  rw [notifications_dispatch, notifications_reparse]
  unfold text
  rw [document_dispatch]

theorem tellsText_reparse (h : e.document.Settled) : TellsText e e.reparse :=
  .of_silent rfl (reparse_spec h.sound).2.text

theorem tellsText_requestCompletion (h : e.document.Settled) : TellsText e e.requestCompletion := by
  rw [requestCompletion_eq h]
  exact .of_silent rfl (reparse_spec h.sound).2.text

theorem tellsText_act {a : Action} {done : Bool} (h : e.document.Settled)
    (hact : e.act a = .ok (f, done)) : TellsText e f := by
  cases honDocument : a.onDocument? with
  | some action =>
    rw [act_of_onDocument? e honDocument] at hact
    cases hact
    exact tellsText_perform h honDocument
  | none =>
    cases a with
    | setText t =>
      cases hact
      exact tellsText_setText t h
    | accept =>
      rcases accept_cases hact with ⟨rfl, -⟩ | ⟨s, rfl, -⟩
      · exact .of_silent rfl rfl
      · exact tellsText_choose (e := { e with picker := e.picker.hide }) s h
    | applyProposal p value =>
      cases hact
      exact tellsText_apply _ h
    | applyValue t =>
      cases hact
      exact tellsText_apply _ h
    | reparse =>
      cases hact
      exact tellsText_reparse h
    | requestCompletion =>
      cases hact
      exact tellsText_requestCompletion h
    | openTagList =>
      cases hact
      exact .of_silent rfl rfl
    | setAutoOpen on =>
      cases hact
      exact .of_silent rfl rfl
    | setNotice notice =>
      cases hact
      exact .of_silent rfl rfl
    | _ => cases honDocument

theorem tellsText_obey {c : Command} {quit : Bool} (h : e.document.Settled)
    (hobey : e.obey c = .ok (f, quit)) : TellsText e f := by
  rcases obey_cases hobey with rfl | ⟨picker, -, rfl⟩ | ⟨a, acted, done, notice, hact, rfl⟩
  · exact .of_silent rfl rfl
  · exact .of_silent rfl rfl
  · have hacted := tellsText_act h hact
    exact hacted

/-- One operation on an editor: an action, a key, a command, anything to its picker, or taking its
events. -/
inductive Operation (e : Editor σ) : Editor σ → Prop
  | act {f : Editor σ} {done : Bool} (a : Action) (hact : e.act a = .ok (f, done)) : e.Operation f
  | press {f : Editor σ} {quit : Bool} (k : Key) (hpress : e.press k = .ok (f, quit)) :
    e.Operation f
  | obey {f : Editor σ} {quit : Bool} (c : Command) (hobey : e.obey c = .ok (f, quit)) :
    e.Operation f
  | withPicker (picker : Picker) : e.Operation (e.withPicker picker)
  | takeEvents : e.Operation e.takeEvents.2

theorem Operation.reachable (h : e.Operation f) (he : e.Reachable) : f.Reachable := by
  cases h with
  | act a hact => exact he.act a hact
  | press k hpress => exact he.obey _ hpress
  | obey c hobey => exact he.obey c hobey
  | withPicker picker => exact he.withPicker picker
  | takeEvents => exact he.takeEvents

/-- An operation tells the observers of the text at most once, always where the text is another, and
then the text there is when it is done. No event waits before it or after it, so nothing is told
late or again. -/
theorem operation_tells_text (he : e.Reachable) (h : e.Operation f) :
    e.document.events = [] ∧ TellsText e f ∧ f.document.events = [] := by
  have hsettled := he.settled
  refine ⟨hsettled.events, ?_, (h.reachable he).settled.events⟩
  cases h with
  | act a hact => exact tellsText_act hsettled hact
  | press k hpress => exact tellsText_obey hsettled hpress
  | obey c hobey => exact tellsText_obey hsettled hobey
  | withPicker picker => exact .of_silent rfl rfl
  | takeEvents => exact .of_silent rfl rfl

/-- The key `b` typed behind `(a`, which is read anew and has a fault: one text is told. -/
theorem tells_text_typed :
    let start : Editor Keywords := .new (.new [] []) (.new [] ⟨0, by decide⟩) true
    let e := start.perform (.insert ['(', 'a'])
    ∃ f, (e.Reachable ∧ e.Operation f) ∧ f.text = ['(', 'a', 'b'] ∧ TellsText e f := by
  intro start e
  let f := e.perform (.insert ['b'])
  have he : e.Reachable := (Reachable.new _ _ _).perform (.insert _) rfl
  have hpress : e.press (.char 'b') = .ok (f, false) := rfl
  have hoperation : e.Operation f := .press (.char 'b') hpress
  exact ⟨f, ⟨he, hoperation⟩, by decide +kernel, (operation_tells_text he hoperation).2.1⟩

end Editor
end QueryLine
