import QueryLine.Proofs.Changes

/-!
What observers are told of the caret. A document keeps the last of its moves until it is asked, so
where the caret has moved by itself its position is told; where it was pushed by a text that got too
short, it is not.
-/

namespace QueryLine

namespace Document

open DocumentEvent (Merged lastMove?)

variable {d e : Document} {start : Nat}

/-- One move waits at most, and it is to where the caret is. Where none waits, the caret is at
`start`. -/
structure Tracked (start : Nat) (d : Document) : Prop where
  merged : Merged d.events
  caret : lastMove? d.events = some d.caret.position ∨
    lastMove? d.events = none ∧ d.caret.position = start

theorem lastMove?_setCaret (h : Merged d.events) (position : Nat) :
    lastMove? (d.setCaret position).events =
      if (d.setCaret position).caret.position = d.caret.position then lastMove? d.events
      else some (d.setCaret position).caret.position := by
  by_cases hsame : (d.place position).caret.position = d.caret.position
  · have hset : d.setCaret position = d.place position := if_pos hsame
    rw [hset, if_pos hsame]
    rfl
  · have hset : d.setCaret position =
        (d.place position).queue (.caretMoved (d.place position).caret.position) := if_neg hsame
    have hmoved : (d.setCaret position).caret.position ≠ d.caret.position := by
      rw [hset]
      exact hsame
    rw [if_neg hmoved, hset]
    exact h.lastMove?_queue _

namespace Tracked

theorem queue (h : d.Tracked start) {event : DocumentEvent} (hother : event.position? = none) :
    (d.queue event).Tracked start := by
  have hlast : lastMove? (d.queue event).events = lastMove? d.events :=
    DocumentEvent.lastMove?_queue_of_other hother d.events
  refine ⟨h.merged.queue event, ?_⟩
  rw [hlast]
  exact h.caret

/-- A caret that is where the move just queued says is tracked, whatever was told before. -/
theorem of_caretMoved (h : Merged d.events) {position : Nat}
    (hposition : d.caret.position = position) :
    (d.queue (.caretMoved position)).Tracked start := by
  have hlast : lastMove? (d.queue (.caretMoved position)).events = some position :=
    h.lastMove?_queue position
  exact ⟨h.queue (.caretMoved position), .inl (hlast.trans (congrArg some hposition.symm))⟩

theorem setCaret (h : d.Tracked start) (position : Nat) : (d.setCaret position).Tracked start := by
  unfold Document.setCaret
  dsimp only
  split
  · rename_i hsame
    exact ⟨h.merged, by rw [hsame]; exact h.caret⟩
  · refine of_caretMoved ?_ rfl
    exact h.merged

theorem step (h : d.Tracked start) (s : Step) : (d.step s).Tracked start := by
  cases s with
  | moved p =>
    refine of_caretMoved ?_ rfl
    exact h.merged
  | beforeStart => exact h.queue rfl
  | afterEnd => exact h.queue rfl
  | nowhere => exact h

end Tracked

theorem SameLine.tracked (hline : d.SameLine e) (h : e.Tracked start) : d.Tracked start := by
  refine ⟨?_, ?_⟩
  · rw [hline.events]
    exact h.merged
  · rw [hline.events, hline.position]
    exact h.caret

namespace Tracked

theorem insert (h : d.Tracked start) (t : Text) : (d.insert t).Tracked start := by
  unfold Document.insert
  split
  · exact h
  · refine (of_caretMoved ?_ rfl).queue rfl
    exact h.merged

theorem eraseAt? (h : d.Tracked start) {p : Place} (he : d.eraseAt? p = some e) :
    e.Tracked start := by
  unfold Document.eraseAt? at he
  split at he
  · split at he
    · cases he
      exact ⟨h.merged, h.caret⟩
    · cases he
  · cases he

theorem backspace? (h : d.Tracked start) (he : d.backspace? = some e) : e.Tracked start := by
  unfold Document.backspace? at he
  split at he
  · cases he
  · obtain ⟨erased, herased, rfl⟩ := Option.map_eq_some_iff.1 he
    refine (of_caretMoved ?_ rfl).queue rfl
    exact (h.eraseAt? herased).merged

theorem delete? (h : d.Tracked start) (he : d.delete? = some e) : e.Tracked start := by
  unfold Document.delete? at he
  split at he
  · cases he
  · obtain ⟨erased, herased, rfl⟩ := Option.map_eq_some_iff.1 he
    exact (h.eraseAt? herased).queue rfl

theorem unbox? (h : d.Tracked start) (hd : d.Sound) {path : Path} (he : d.unbox? path = some e) :
    e.Tracked start := by
  obtain ⟨root, hroot, rfl⟩ := Option.map_eq_some_iff.1 he
  exact ((hd.sameLine_withRoot (Block.text_unbox? hroot)).tracked h).queue rfl

theorem act {action : Action} (h : d.Tracked start)
    (hdone : ∀ e, d.act? action = some e → e.Tracked start) : (d.act action).Tracked start := by
  cases hact : d.act? action with
  | none =>
    rw [act_of_none hact]
    exact h
  | some e =>
    rw [act_of_some hact]
    exact hdone e hact

end Tracked

/-- Actions that write the text anew, under a caret that is pushed where the text got too short. -/
def Action.replacesText : Action → Bool
  | .setText _ | .splice .. => true
  | _ => false

/-- Any other action leaves the caret tracked, unless it takes the events. -/
theorem Sound.tracked_act (h : d.Sound) {action : Action} (hkept : action.replacesText = false)
    (htakes : action ≠ .takeEvents) (htracked : d.Tracked start) :
    (d.act action).Tracked start := by
  cases action with
  | setText t => cases hkept
  | splice first last new => cases hkept
  | takeEvents => exact absurd rfl htakes
  | setCaret position => exact htracked.setCaret position
  | home => exact htracked.setCaret 0
  | toEnd => exact htracked.setCaret d.length
  | left => exact htracked.step _
  | right => exact htracked.step _
  | box first last => exact (h.sameLine_box first last).tracked htracked
  | flatten => exact h.sameLine_flatten.tracked htracked
  | unbox path => exact htracked.act fun e he => htracked.unbox? h he
  | unboxAtCaret => exact htracked.act fun e he => htracked.unbox? h he
  | insert t => exact htracked.insert t
  | backspace => exact htracked.act fun e he => htracked.backspace? he
  | delete => exact htracked.act fun e he => htracked.delete? he

theorem kept_of_onDocument? {a : Editor.Action} {action : Action}
    (ha : a.onDocument? = some action) :
    action.replacesText = false ∧ action ≠ .takeEvents := by
  cases a with
  | _ => cases ha <;> exact ⟨rfl, nofun⟩

/-- What an editor does with its document leaves the caret tracked. -/
theorem Sound.tracked (h : d.Sound) {a : Editor.Action} {action : Action}
    (ha : a.onDocument? = some action) (htracked : d.Tracked start) :
    (d.act action).Tracked start := by
  obtain ⟨hkept, htakes⟩ := kept_of_onDocument? ha
  exact h.tracked_act hkept htakes htracked

theorem Settled.tracked (h : d.Settled) : d.Tracked d.caret.position := by
  refine ⟨h.merged, .inr ⟨?_, rfl⟩⟩
  rw [h.events]
  rfl

end Document

namespace Notification

def position? : Notification → Option Nat
  | text _ => none
  | caret position => some position

/-- The position of the caret that was told last. -/
def lastCaret? (told : List Notification) : Option Nat := (told.filterMap position?).getLast?

end Notification

namespace DocumentEvent

/-- What observers of an editor are told of an event. -/
def news? (t : Text) : DocumentEvent → Option Notification
  | textChanged => some (.text t)
  | caretMoved position => some (.caret position)
  | _ => none

theorem lastCaret?_news (t : Text) (events : List DocumentEvent) :
    Notification.lastCaret? (events.filterMap (news? t)) = lastMove? events := by
  have hposition : ∀ event : DocumentEvent,
      (event.news? t).bind Notification.position? = event.position? := by
    intro event
    cases event with
    | _ => rfl
  unfold Notification.lastCaret? lastMove?
  rw [List.filterMap_filterMap]
  simp only [hposition]

end DocumentEvent

namespace Editor

open DocumentEvent (lastMove? news?)

variable {σ : Type} {e f : Editor σ}

theorem notifications_dispatch (events : List DocumentEvent) (e : Editor σ) :
    (e.dispatch events).notifications = e.notifications ++ events.filterMap (news? e.text) := by
  change (events.foldl observe e).notifications = _
  induction events generalizing e with
  | nil => simp
  | cons event events ih =>
    have htext : (e.observe event).text = e.text := by
      cases event with
      | _ => rfl
    rw [List.foldl_cons, ih, htext]
    cases event with
    | textChanged => simp [observe, news?]
    | caretMoved position => simp [observe, news?]
    | _ => rfl

/-- Between the two states observers were told, the last position of the caret being this one. -/
def Told (e f : Editor σ) (last : Option Nat) : Prop :=
  ∃ told, f.notifications = e.notifications ++ told ∧ Notification.lastCaret? told = last

theorem told_dispatch {e f : Editor σ} (h : f.notifications = e.notifications)
    (events : List DocumentEvent) : Told e (f.dispatch events) (lastMove? events) := by
  refine ⟨events.filterMap (news? f.text), ?_, DocumentEvent.lastCaret?_news f.text events⟩
  rw [notifications_dispatch, h]

variable [Analyzer σ]

theorem notifications_reparse (e : Editor σ) : e.reparse.notifications = e.notifications := rfl

theorem told_process (h : e.document.Sound) : Told e e.process (lastMove? e.document.events) := by
  by_cases hchanged : .textChanged ∈ e.document.events
  · rw [process_of_changed h hchanged]
    exact told_dispatch (notifications_reparse _) _
  · rw [process_of_unchanged hchanged]
    exact told_dispatch rfl _

/-- Actions that write a whole text anew, under a caret that waits where it was. -/
def Action.replacesText : Action → Bool
  | .setText _ | .accept | .applyProposal .. | .applyValue _ => true
  | _ => false

theorem Action.replacesText_of_onDocument? {a : Action} {action : Document.Action}
    (ha : a.onDocument? = some action) : a.replacesText = false := by
  cases a with
  | setText t => cases ha
  | accept => cases ha
  | applyProposal p value => cases ha
  | applyValue t => cases ha
  | _ => rfl

theorem told_perform {a : Action} {action : Document.Action} (h : e.document.Settled)
    (ha : a.onDocument? = some action) (hmoved : (e.perform action).caret ≠ e.caret) :
    Told e (e.perform action) (some (e.perform action).caret) := by
  let acted : Editor σ := { e with document := e.document.act action }
  have hsound : acted.document.Sound := h.sound.act action
  have hcaret : (e.perform action).caret = acted.caret := (process_spec hsound).2
  have hlast : lastMove? acted.document.events = some acted.caret := by
    apply (h.sound.tracked ha h.tracked).caret.resolve_right
    rintro ⟨-, hstays⟩
    exact hmoved (hcaret.trans hstays)
  rw [hcaret, ← hlast]
  exact told_process (e := acted) hsound

/-- The caret of `f`, unless it is just where the text of `f` pushes the caret of `e`. -/
def unpushed? (e f : Editor σ) : Option Nat :=
  if f.caret = min e.caret f.text.length then none else some f.caret

theorem told_apply (edit : Edit) (h : e.document.Settled) :
    Told e (e.apply edit) (e.unpushed? (e.apply edit)) := by
  let d := e.document.splice edit.start edit.stop edit.replacement
  have hd : d.Sound := (Document.Sound.setText _ _).queue _
  have hset := hd.setCaret edit.caret
  obtain ⟨htext, hcaret⟩ := process_spec (e := { e with document := d.setCaret edit.caret }) hset
  have hpushed : d.caret.position = min e.caret (d.setCaret edit.caret).text.length := by
    rw [Document.text_setCaret]
    rfl
  have hmerged : DocumentEvent.Merged d.events := h.merged_splice _ _ _
  have hnone : lastMove? d.events = none := by
    rw [h.events_splice]
    rfl
  have hlast := Document.lastMove?_setCaret hmerged edit.caret
  rw [hnone, hpushed] at hlast
  have htold : Told e (e.apply edit) (lastMove? (d.setCaret edit.caret).events) :=
    told_process (e := { e with document := d.setCaret edit.caret }) hset
  have hafter : (e.apply edit).caret = (d.setCaret edit.caret).caret.position := hcaret
  have hlength : (e.apply edit).text = (d.setCaret edit.caret).text := htext
  unfold unpushed?
  rw [hafter, hlength, ← hlast]
  exact htold

theorem told_choose (s : Selection) (h : e.document.Settled) :
    Told e (e.choose s) (e.unpushed? (e.choose s)) := by
  cases s with
  | proposal p value => exact told_apply _ h
  | value t => exact told_apply _ h

/-- A new text is told, and the caret that it pushes to its end is not. -/
theorem told_setText (t : Text) (h : e.document.Settled) :
    Told e (e.setText t) (e.unpushed? (e.setText t)) := by
  have hd : Document.Settled (e.document.setText t) := ⟨.setText t e.document, h.events⟩
  obtain ⟨-, hline⟩ := reparse_spec (e := { e with document := e.document.setText t }) hd.sound
  have hpushed : (e.setText t).caret = min e.caret (e.setText t).text.length := by
    unfold caret text
    rw [setText_eq t e h, document_dispatch, hline.position, hline.text]
    rfl
  unfold unpushed?
  rw [if_pos hpushed, setText_eq t e h]
  exact told_dispatch rfl [.textChanged]

theorem caret_requestCompletion (h : e.document.Settled) : e.requestCompletion.caret = e.caret := by
  rw [requestCompletion_eq h]
  exact (reparse_spec h.sound).2.position

/-- A caret that an action has moved is told where it came to, and this is told last. Only a caret
that stays where a text written anew has pushed it is not told of. -/
theorem act_tells_caret {a : Action} {done : Bool} (h : e.Reachable)
    (hact : e.act a = .ok (f, done)) (hmoved : f.caret ≠ e.caret) :
    Told e f (if a.replacesText then e.unpushed? f else some f.caret) := by
  have hsettled := h.settled
  -- an action on the document leaves the caret tracked; of the others only edits move it
  cases honDocument : a.onDocument? with
  | some action =>
    rw [act_of_onDocument? e honDocument] at hact
    obtain ⟨rfl, -⟩ := Prod.mk.inj (Except.ok.inj hact)
    rw [Action.replacesText_of_onDocument? honDocument]
    exact told_perform hsettled honDocument hmoved
  | none =>
    cases a with
    | setText t =>
      cases hact
      exact told_setText t hsettled
    | accept =>
      rcases accept_cases hact with ⟨rfl, -⟩ | ⟨s, rfl, -⟩
      · exact absurd rfl hmoved
      · exact told_choose (e := { e with picker := e.picker.hide }) s hsettled
    | applyProposal p value =>
      cases hact
      exact told_apply _ hsettled
    | applyValue t =>
      cases hact
      exact told_apply _ hsettled
    | reparse =>
      cases hact
      exact absurd (reparse_spec hsettled.sound).2.position hmoved
    | requestCompletion =>
      cases hact
      exact absurd (caret_requestCompletion hsettled) hmoved
    | openTagList =>
      cases hact
      exact absurd rfl hmoved
    | setAutoOpen on =>
      cases hact
      exact absurd rfl hmoved
    | setNotice notice =>
      cases hact
      exact absurd rfl hmoved
    | _ => cases honDocument

/-- Typed `abc` and gone back one character: that is told, as nothing has pushed the caret. -/
theorem tells_caret_left :
    let start : Editor Keywords := .new (.new [] []) (.new [] ⟨0, by decide⟩) true
    let e := start.perform (.insert ['a', 'b', 'c'])
    let f := e.perform .left
    (e.Reachable ∧ e.act .left = .ok (f, true) ∧ f.caret ≠ e.caret) ∧ Told e f (some 2) := by
  intro start e f
  have he : e.Reachable := (Reachable.new _ _ _).perform (.insert _) rfl
  have hact : e.act .left = .ok (f, true) := rfl
  have hmoved : f.caret ≠ e.caret := by decide +kernel
  have hcaret : f.caret = 2 := by decide +kernel
  have htold : Told e f (some f.caret) := act_tells_caret he hact hmoved
  rw [hcaret] at htold
  exact ⟨⟨he, hact, hmoved⟩, htold⟩

/-- Typed `abc` with `a` written in its place: the caret has come from 3 to 1, and only the text is
told. -/
theorem caret_pushed_untold :
    let start : Editor Keywords := .new (.new [] []) (.new [] ⟨0, by decide⟩) true
    let e := start.perform (.insert ['a', 'b', 'c'])
    ∃ f, e.Reachable ∧ e.act (.applyValue ['a']) = .ok (f, true) ∧ e.caret = 3 ∧ f.caret = 1 ∧
      f.notifications = e.notifications ++ [.text ['a']] := by
  intro start e
  have he : e.Reachable := (Reachable.new _ _ _).perform (.insert _) rfl
  have hcaret : (e.applyValue ['a']).caret = 1 := by decide +kernel
  exact ⟨e.applyValue ['a'], he, rfl, by decide +kernel, hcaret, by decide +kernel⟩

end Editor
end QueryLine
