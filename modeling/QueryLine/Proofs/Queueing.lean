import QueryLine.Document.Basic

/-!
How events wait. One that is queued is dropped, takes the place of another, or comes last; so one
text change waits at most, and one move of the caret, which is the last there was.
-/

namespace QueryLine.DocumentEvent

variable {e x old : DocumentEvent} {events : List DocumentEvent} {position : Nat}

/-- An event is dropped where a text change waits, takes the place of the first move that waits, or
comes last. -/
theorem queue_cases (e : DocumentEvent) (events : List DocumentEvent) :
    (e = textChanged ∧ textChanged ∈ events ∧ e.queue events = events) ∨
    (e.isCaretMove = true ∧ ∃ front old rest, events = front ++ old :: rest ∧
      (∀ waits ∈ front, waits.isCaretMove = false) ∧ old.isCaretMove = true ∧
      e.queue events = front ++ e :: rest) ∨
    ((e = textChanged → textChanged ∉ events) ∧
      (e.isCaretMove = true → ∀ waits ∈ events, waits.isCaretMove = false) ∧
      e.queue events = events ++ [e]) := by
  cases e with
  | textChanged =>
    by_cases hwaits : textChanged ∈ events
    · exact .inl ⟨rfl, hwaits, if_pos hwaits⟩
    · exact .inr (.inr ⟨fun _ => hwaits, nofun, if_neg hwaits⟩)
  | caretMoved position =>
    cases hfind : events.findIdx? isCaretMove with
    | none =>
      have hnone := List.findIdx?_eq_none_iff.1 hfind
      exact .inr (.inr ⟨nofun, fun _ => hnone, by rw [queue, hfind]⟩)
    | some i =>
      obtain ⟨hlt, hmove, hfirst⟩ := List.findIdx?_eq_some_iff_getElem.1 hfind
      have hsplit : events = events.take i ++ events[i] :: events.drop (i + 1) := by
        rw [← List.drop_eq_getElem_cons hlt, List.take_append_drop]
      refine .inr (.inl ⟨rfl, _, _, _, hsplit, fun waits hwaits => ?_, hmove, ?_⟩)
      · obtain ⟨j, hj, rfl⟩ := List.mem_take_iff_getElem.1 hwaits
        exact Bool.eq_false_iff.2 (hfirst j (Nat.lt_min.1 hj).1)
      · rw [queue, hfind]
        dsimp only
        rw [List.set_eq_take_append_cons_drop, if_pos hlt]
  | _ => exact .inr (.inr ⟨nofun, nofun, rfl⟩)

theorem count_moved (he : e.isCaretMove = true) (hold : old.isCaretMove = true)
    (hx : x.isCaretMove = false) (front rest : List DocumentEvent) :
    (front ++ e :: rest).count x = (front ++ old :: rest).count x := by
  have hne : ∀ move : DocumentEvent, move.isCaretMove = true → move ≠ x := by
    rintro move hmove rfl
    rw [hx] at hmove
    cases hmove
  rw [List.count_append, List.count_append, List.count_cons_of_ne (hne e he),
    List.count_cons_of_ne (hne old hold)]

/-- An event that is never merged with another. -/
def isKept : DocumentEvent → Bool
  | textChanged | caretMoved _ => false
  | _ => true

theorem count_queue (hx : x.isKept = true) (e : DocumentEvent) (events : List DocumentEvent) :
    (e.queue events).count x = events.count x + [e].count x := by
  rcases queue_cases e events with ⟨rfl, -, hqueue⟩ | ⟨he, _, _, _, rfl, -, hold, hqueue⟩ |
    ⟨-, -, hqueue⟩
  · have hnone : x ∉ [textChanged] := by
      rw [List.mem_singleton]
      rintro rfl
      cases hx
    rw [hqueue, List.count_eq_zero_of_not_mem hnone, Nat.add_zero]
  · have hstays : x.isCaretMove = false := by
      cases x with
      | caretMoved position => cases hx
      | _ => rfl
    have hnone : x ∉ [e] := by
      rw [List.mem_singleton]
      rintro rfl
      rw [hstays] at he
      cases he
    rw [hqueue, count_moved he hold hstays, List.count_eq_zero_of_not_mem hnone, Nat.add_zero]
  · rw [hqueue, List.count_append]

theorem textChanged_mem_queue_iff :
    textChanged ∈ e.queue events ↔ textChanged ∈ events ∨ e = textChanged := by
  rcases queue_cases e events with ⟨rfl, hwaits, hqueue⟩ | ⟨he, _, _, _, rfl, -, hold, hqueue⟩ |
    ⟨-, -, hqueue⟩
  · rw [hqueue]
    exact ⟨.inl, fun _ => hwaits⟩
  · have hne : e ≠ textChanged := by
      rintro rfl
      cases he
    rw [hqueue, ← List.count_pos_iff, count_moved he hold rfl, List.count_pos_iff]
    exact ⟨.inl, fun h => h.resolve_right hne⟩
  · rw [hqueue, List.mem_append, List.mem_singleton, eq_comm (a := textChanged)]

theorem caretMoved_mem_queue (position : Nat) (events : List DocumentEvent) :
    caretMoved position ∈ (caretMoved position).queue events := by
  rcases queue_cases (caretMoved position) events with ⟨h, -⟩ | ⟨-, _, _, _, -, -, -, hqueue⟩ |
    ⟨-, -, hqueue⟩
  · cases h
  · rw [hqueue]
    exact List.mem_append_right _ List.mem_cons_self
  · rw [hqueue]
    exact List.mem_append_right _ List.mem_cons_self

/-- A text change waits once at most, and a move of the caret too. -/
structure Merged (events : List DocumentEvent) : Prop where
  text : events.count textChanged ≤ 1
  caret : events.countP isCaretMove ≤ 1

theorem Merged.nil : Merged [] := ⟨Nat.zero_le 1, Nat.zero_le 1⟩

theorem Merged.queue (h : Merged events) (e : DocumentEvent) : Merged (e.queue events) := by
  rcases queue_cases e events with ⟨-, -, hqueue⟩ | ⟨he, _, _, _, rfl, -, hold, hqueue⟩ |
    ⟨htext, hcaret, hqueue⟩
  · rwa [hqueue]
  -- a move in place of another is counted as that one was
  · have hmoves := h.caret
    rw [List.countP_append, List.countP_cons_of_pos hold] at hmoves
    rw [hqueue]
    refine ⟨?_, ?_⟩
    · rw [count_moved he hold rfl]
      exact h.text
    · rwa [List.countP_append, List.countP_cons_of_pos he]
  · rw [hqueue]
    refine ⟨?_, ?_⟩
    · rw [List.count_append]
      by_cases he : e = textChanged
      · rw [List.count_eq_zero_of_not_mem (htext he), Nat.zero_add]
        exact List.count_le_length
      · have hnone : textChanged ∉ [e] := fun hmem => he (List.mem_singleton.1 hmem).symm
        rw [List.count_eq_zero_of_not_mem hnone]
        exact h.text
    · rw [List.countP_append]
      by_cases he : e.isCaretMove = true
      · have hnone : events.countP isCaretMove = 0 :=
          List.countP_eq_zero.2 fun waits hwaits => by simp [hcaret he waits hwaits]
        rw [hnone, Nat.zero_add]
        exact List.countP_le_length
      · rw [List.countP_singleton, if_neg he]
        exact h.caret

def queueAll (news waiting : List DocumentEvent) : List DocumentEvent :=
  news.foldl (fun waiting event => event.queue waiting) waiting

theorem Merged.queueAll (h : Merged events) (news : List DocumentEvent) :
    Merged (DocumentEvent.queueAll news events) := by
  induction news generalizing events with
  | nil => exact h
  | cons event news ih => exact ih (h.queue event)

def position? : DocumentEvent → Option Nat
  | caretMoved position => some position
  | _ => none

/-- Where the caret is said to have moved last. -/
def lastMove? (events : List DocumentEvent) : Option Nat := (events.filterMap position?).getLast?

theorem exists_of_lastMove? (h : lastMove? events = some position) :
    caretMoved position ∈ events := by
  obtain ⟨event, hevent, hposition⟩ := List.mem_filterMap.1 (List.mem_of_getLast? h)
  cases event with
  | caretMoved other =>
    cases hposition
    exact hevent
  | _ => cases hposition

theorem Merged.lastMove?_eq (h : Merged events) (hmoved : caretMoved position ∈ events) :
    lastMove? events = some position := by
  have hmem : position ∈ events.filterMap position? := List.mem_filterMap.2 ⟨_, hmoved, rfl⟩
  have hmoves : ∀ event : DocumentEvent, (event.position?).isSome = event.isCaretMove := by
    intro event
    cases event with
    | _ => rfl
  have hlength : (events.filterMap position?).length ≤ 1 := by
    rw [List.length_filterMap_eq_countP, funext hmoves]
    exact h.caret
  obtain ⟨other, hone⟩ := List.length_eq_one_iff.1
    (Nat.le_antisymm hlength (List.length_pos_of_mem hmem))
  rw [hone, List.mem_singleton] at hmem
  rw [lastMove?, hone, hmem]
  rfl

theorem Merged.lastMove?_queue (h : Merged events) (position : Nat) :
    lastMove? ((caretMoved position).queue events) = some position :=
  (h.queue _).lastMove?_eq (caretMoved_mem_queue position events)

theorem lastMove?_queue_of_other (he : e.position? = none) (events : List DocumentEvent) :
    lastMove? (e.queue events) = lastMove? events := by
  rcases queue_cases e events with ⟨-, -, hqueue⟩ | ⟨hmove, -⟩ | ⟨-, -, hqueue⟩
  · rw [hqueue]
  · cases e with
    | caretMoved position => cases he
    | _ => cases hmove
  · simp [hqueue, lastMove?, he]

end QueryLine.DocumentEvent
