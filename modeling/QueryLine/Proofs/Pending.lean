import QueryLine.Proofs.Observers
import QueryLine.Proofs.Walk

/-!
The events that wait, and what was done since the last were taken. Text changes and moves of the
caret are merged; every step that was refused and every block that was dissolved has an event of
its own.
-/

namespace QueryLine

/-- What an action comes to, beside where the caret is then. -/
inductive Effect
  | edited
  /-- A step that found no character and no leaf on its left. -/
  | stoppedLeft
  | stoppedRight
  | dissolved
  | other
  deriving DecidableEq, Repr

/-- The event that tells an effect. -/
def Effect.event? : Effect → Option DocumentEvent
  | edited => some .textChanged
  | stoppedLeft => some .beforeStart
  | stoppedRight => some .afterEnd
  | dissolved => some .blockClosed
  | other => none

/-- The events that wait say what was done. -/
structure Summarizes (effects : List Effect) (events : List DocumentEvent) : Prop where
  merged : DocumentEvent.Merged events
  edited : .textChanged ∈ events ↔ .edited ∈ effects
  stoppedLeft : events.count .beforeStart = effects.count .stoppedLeft
  stoppedRight : events.count .afterEnd = effects.count .stoppedRight
  dissolved : events.count .blockClosed = effects.count .dissolved

namespace Summarizes

open DocumentEvent (count_queue textChanged_mem_queue_iff queueAll)

variable {effects : List Effect} {events : List DocumentEvent}

theorem nil : Summarizes [] [] := by
  refine ⟨.nil, ?_, rfl, rfl, rfl⟩
  exact iff_of_false List.not_mem_nil List.not_mem_nil

theorem queue_move (h : Summarizes effects events) (position : Nat) :
    Summarizes effects ((DocumentEvent.caretMoved position).queue events) := by
  refine ⟨h.merged.queue _, ?_, ?_, ?_, ?_⟩
  · rw [textChanged_mem_queue_iff, or_iff_left nofun]
    exact h.edited
  · rw [count_queue (x := .beforeStart) rfl]
    exact h.stoppedLeft
  · rw [count_queue (x := .afterEnd) rfl]
    exact h.stoppedRight
  · rw [count_queue (x := .blockClosed) rfl]
    exact h.dissolved

theorem queue_moves (h : Summarizes effects events) (moves : List Nat) :
    Summarizes effects (queueAll (moves.map .caretMoved) events) := by
  induction moves generalizing events with
  | nil => exact h
  | cons position moves ih => exact ih (h.queue_move position)

theorem queue_event (h : Summarizes effects events) {effect : Effect} {event : DocumentEvent}
    (hevent : effect.event? = some event) :
    Summarizes (effects ++ [effect]) (event.queue events) := by
  refine ⟨h.merged.queue _, ?_, ?_, ?_, ?_⟩
  · rw [textChanged_mem_queue_iff, h.edited, List.mem_append, List.mem_singleton]
    cases effect with
    | _ => cases hevent <;> simp
  · rw [count_queue (x := .beforeStart) rfl, h.stoppedLeft, List.count_append]
    cases effect with
    | _ => cases hevent <;> rfl
  · rw [count_queue (x := .afterEnd) rfl, h.stoppedRight, List.count_append]
    cases effect with
    | _ => cases hevent <;> rfl
  · rw [count_queue (x := .blockClosed) rfl, h.dissolved, List.count_append]
    cases effect with
    | _ => cases hevent <;> rfl

theorem other (h : Summarizes effects events) : Summarizes (effects ++ [.other]) events := by
  refine ⟨h.merged, ?_, ?_, ?_, ?_⟩
  · rw [h.edited, List.mem_append, List.mem_singleton, or_iff_left nofun]
  · rw [h.stoppedLeft, List.count_append]
    rfl
  · rw [h.stoppedRight, List.count_append]
    rfl
  · rw [h.dissolved, List.count_append]
    rfl

end Summarizes

namespace Document

open DocumentEvent (queueAll)

variable {d e : Document}

/-- What is done where `d` is asked for an action. A step that leaves the caret as it is was
refused. -/
def effect (d : Document) : Action → Effect
  | .insert t => if t = [] then .other else .edited
  | .backspace => if d.backspace?.isSome then .edited else .other
  | .delete => if d.delete?.isSome then .edited else .other
  | .splice .. => .edited
  | .left => if d.left.caret = d.caret then .stoppedLeft else .other
  | .right => if d.right.caret = d.caret then .stoppedRight else .other
  | .unbox path => if (d.unbox? path).isSome then .dissolved else .other
  | .unboxAtCaret => if d.unboxAtCaret?.isSome then .dissolved else .other
  | _ => .other

/-- The effects of a series of actions, in order. -/
def effects (d : Document) : List Action → List Effect
  | [] => []
  | a :: actions => d.effect a :: (d.act a).effects actions

/-- All that happens to the events on the way is that moves of the caret are queued, and then the
event of an effect. -/
def Queues (effect : Effect) (d e : Document) : Prop :=
  ∃ moves : List Nat, e.events =
    queueAll (moves.map .caretMoved ++ effect.event?.toList) d.events

theorem Queues.none (h : e.events = d.events) : Queues .other d e := ⟨[], h⟩

theorem queues_setCaret (position : Nat) (d : Document) :
    Queues .other d (d.setCaret position) := by
  unfold setCaret
  dsimp only
  split
  · exact .none rfl
  · exact ⟨[(d.place position).caret.position], rfl⟩

theorem Goes.caret_ne {s : Spot} (h : d.Goes s e) (hs : s ≠ d.spot) : e.caret ≠ d.caret := by
  intro hcaret
  apply hs
  rw [← h.spot, Document.spot, Document.spot, caretPlace, caretPlace, h.root, hcaret]

/-- A walk that goes on is told as a move, one that does not by the event of its stop. -/
theorem queues_walk {next : Option Spot} {stop : Effect} {event : DocumentEvent}
    (hstop : stop.event? = some event)
    (hwalks : match next with
      | some s => d.Goes s e
      | none => e = d.queue event)
    (hne : ∀ s, next = some s → s ≠ d.spot) :
    Queues (if e.caret = d.caret then stop else .other) d e := by
  cases next with
  | some s =>
    rw [if_neg (hwalks.caret_ne (hne s rfl))]
    exact ⟨[e.caret.position], hwalks.events⟩
  | none =>
    have hqueue : e = d.queue event := hwalks
    have hstays : e.caret = d.caret := by
      rw [hqueue]
      rfl
    rw [if_pos hstays, hqueue]
    refine ⟨[], ?_⟩
    rw [hstop]
    rfl

theorem Sound.queues_insert (h : d.Sound) (t : Text) :
    Queues (if t = [] then .other else .edited) d (d.insert t) := by
  by_cases ht : t = []
  · subst ht
    exact .none rfl
  · obtain ⟨b, u, a, hin⟩ := h.caret
    rw [if_neg ht, hin.insert_eq ht]
    exact ⟨[_], rfl⟩

theorem events_eraseAt? {p : Place} (h : d.eraseAt? p = some e) : e.events = d.events := by
  unfold eraseAt? at h
  split at h
  · split at h
    · cases h
      rfl
    · cases h
  · cases h

theorem queues_backspace? (h : d.backspace? = some e) : Queues .edited d e := by
  unfold backspace? at h
  split at h
  · cases h
  · obtain ⟨erased, herased, rfl⟩ := Option.map_eq_some_iff.1 h
    refine ⟨[d.caret.position - 1], ?_⟩
    rw [← events_eraseAt? herased]
    rfl

theorem queues_delete? (h : d.delete? = some e) : Queues .edited d e := by
  unfold delete? at h
  split at h
  · cases h
  · obtain ⟨erased, herased, rfl⟩ := Option.map_eq_some_iff.1 h
    refine ⟨[], ?_⟩
    rw [← events_eraseAt? herased]
    rfl

theorem queues_box? {start last : Nat} (h : d.box? start last = some e) : Queues .other d e := by
  obtain ⟨root, -, rfl⟩ := Option.map_eq_some_iff.1 h
  exact .none rfl

theorem queues_unbox? {path : Path} (h : d.unbox? path = some e) : Queues .dissolved d e := by
  obtain ⟨root, -, rfl⟩ := Option.map_eq_some_iff.1 h
  exact ⟨[], rfl⟩

theorem queues_of_act? {a : Action} {effect : Effect}
    (h : ∀ e, d.act? a = some e → Queues effect d e) :
    Queues (if (d.act? a).isSome then effect else .other) d (d.act a) := by
  cases ha : d.act? a with
  | none =>
    rw [act_of_none ha]
    exact .none rfl
  | some e =>
    rw [act_of_some ha]
    exact h e ha

/-- An action that does not take the events only adds to them. -/
theorem Sound.queues_act (h : d.Sound) {a : Action} (ha : a ≠ .takeEvents) :
    Queues (d.effect a) d (d.act a) := by
  cases a with
  | setText t => exact .none rfl
  | flatten => exact .none rfl
  | box start last =>
    have hbox := queues_of_act? (d := d) (a := .box start last) fun e he => queues_box? he
    rwa [ite_self] at hbox
  | unbox path => exact queues_of_act? (a := .unbox path) fun e he => queues_unbox? he
  | unboxAtCaret => exact queues_of_act? (a := .unboxAtCaret) fun e he => queues_unbox? he
  | setCaret position => exact queues_setCaret position d
  | left => exact queues_walk rfl h.left_walks fun s hs => Spot.left?_ne hs
  | right => exact queues_walk rfl h.right_walks fun s hs => Spot.right?_ne hs
  | home => exact queues_setCaret 0 d
  | toEnd => exact queues_setCaret d.length d
  | insert t => exact h.queues_insert t
  | backspace => exact queues_of_act? (a := .backspace) fun e he => queues_backspace? he
  | delete => exact queues_of_act? (a := .delete) fun e he => queues_delete? he
  | splice start stop new => exact ⟨[], rfl⟩
  | takeEvents => exact absurd rfl ha

theorem Queues.merged {effect : Effect} (h : Queues effect d e)
    (hd : DocumentEvent.Merged d.events) : DocumentEvent.Merged e.events := by
  obtain ⟨moves, hevents⟩ := h
  rw [hevents]
  exact hd.queueAll _

theorem Queues.summarizes {effect : Effect} (h : Queues effect d e) {effects : List Effect}
    (hd : Summarizes effects d.events) : Summarizes (effects ++ [effect]) e.events := by
  obtain ⟨moves, hevents⟩ := h
  have hmoved := hd.queue_moves moves
  rw [hevents, queueAll, List.foldl_append]
  cases hevent : effect.event? with
  | some event => exact hmoved.queue_event hevent
  | none =>
    cases effect with
    | other => exact hmoved.other
    | _ => cases hevent

theorem Sound.summarizes_run (h : d.Sound) {actions : List Action}
    (hkeep : ∀ a ∈ actions, a ≠ .takeEvents) {done : List Effect}
    (hd : Summarizes done d.events) :
    Summarizes (done ++ d.effects actions) (d.run actions).events := by
  induction actions generalizing d done with
  | nil =>
    rw [effects, List.append_nil]
    exact hd
  | cons a actions ih =>
    obtain ⟨ha, hkeep⟩ := List.forall_mem_cons.1 hkeep
    rw [effects, List.append_cons]
    exact ih (h.act a) hkeep ((h.queues_act ha).summarizes hd)

theorem Sound.tracked_run (h : d.Sound) {actions : List Action}
    (hkeep : ∀ a ∈ actions, a ≠ .takeEvents) (hkept : ∀ a ∈ actions, a.replacesText = false)
    {start : Nat} (htracked : d.Tracked start) : (d.run actions).Tracked start := by
  induction actions generalizing d with
  | nil => exact htracked
  | cons a actions ih =>
    obtain ⟨ha, hkeep⟩ := List.forall_mem_cons.1 hkeep
    obtain ⟨ha', hkept⟩ := List.forall_mem_cons.1 hkept
    exact ih (h.act a) hkeep hkept (h.tracked_act ha' ha htracked)

/-- However many actions there were since the events were last taken, the events that wait say what
was done. Where the text was not written anew in one go, a caret that is elsewhere now has a move
that waits, and a move that waits is to where the caret is. -/
theorem run_summarized (t : Text) (before : List Action) {actions : List Action}
    (hempty : ((ofText t).run before).events = []) (hkeep : ∀ a ∈ actions, a ≠ .takeEvents) :
    let d := (ofText t).run before
    let e := d.run actions
    Summarizes (d.effects actions) e.events ∧
      ((∀ a ∈ actions, a.replacesText = false) →
        (e.caret.position ≠ d.caret.position → .caretMoved e.caret.position ∈ e.events) ∧
        ∀ position, .caretMoved position ∈ e.events → position = e.caret.position) := by
  intro d e
  have h : d.Sound := sound_run t before
  have hnone : Summarizes [] d.events := by
    rw [hempty]
    exact .nil
  have hsummary : Summarizes (d.effects actions) e.events := h.summarizes_run hkeep hnone
  refine ⟨hsummary, fun hkept => ?_⟩
  have htracked := h.tracked_run hkeep hkept (Settled.tracked ⟨h, hempty⟩)
  refine ⟨fun hmoved => ?_, fun position hposition => ?_⟩
  · have htold := htracked.caret.resolve_right fun hstays => hmoved hstays.2
    exact DocumentEvent.exists_of_lastMove? htold
  · have hlast := htracked.merged.lastMove?_eq hposition
    rcases htracked.caret with hcaret | ⟨hnone, -⟩
    · exact Option.some.inj (hlast.symm.trans hcaret)
    · rw [hlast] at hnone
      cases hnone

/-- In `ab`, with a block around the `a` and the caret at the end: refused to the right, typed `x`,
gone left of it, the block dissolved and the `b` removed. -/
theorem summarized_session :
    let before : List Action := [.box 0 0, .toEnd, .takeEvents]
    let actions : List Action := [.right, .insert ['x'], .left, .unbox [0], .backspace]
    let d := (ofText ['a', 'b']).run before
    let e := d.run actions
    (d.events = [] ∧ (∀ a ∈ actions, a ≠ .takeEvents) ∧ ∀ a ∈ actions, a.replacesText = false) ∧
      Summarizes [.stoppedRight, .edited, .other, .dissolved, .edited] e.events ∧
      .caretMoved e.caret.position ∈ e.events := by
  intro before actions
  have hempty : ((ofText ['a', 'b']).run before).events = [] := by decide +kernel
  have hkeep : ∀ a ∈ actions, a ≠ .takeEvents := by simp [actions]
  have hkept : ∀ a ∈ actions, a.replacesText = false := by simp [actions, Action.replacesText]
  have heffects : ((ofText ['a', 'b']).run before).effects actions =
      [.stoppedRight, .edited, .other, .dissolved, .edited] := by decide +kernel
  obtain ⟨hsummary, hcaret⟩ := run_summarized ['a', 'b'] before hempty hkeep
  rw [heffects] at hsummary
  exact ⟨⟨hempty, hkeep, hkept⟩, hsummary, (hcaret hkept).1 (by decide +kernel)⟩

end Document
end QueryLine
