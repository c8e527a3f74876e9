import Mathlib.Logic.Relation
import QueryLine.Proofs.Queueing
import QueryLine.Proofs.Session

/-!
What operations are made of. Whatever is done with an editor is a series of changes of four kinds:
its text is read, blocks and caret change over the same text, the picker turns, or something is
told. So an invariant is one of all states once each of these keeps it.
-/

namespace QueryLine

/-- The same text in other blocks, or in the same. -/
inductive Block.Regrouped (b : Block) : Block → Prop
  | same : b.Regrouped b
  | flat : b.Regrouped (.ofText b.text)
  | box {c : Block} {start last : Nat} (h : b.box? start last = some c) : b.Regrouped c
  | unbox {c : Block} {path : Path} (h : b.unbox? path = some c) : b.Regrouped c

theorem Block.Regrouped.text_eq {b c : Block} (h : b.Regrouped c) : c.text = b.text := by
  cases h with
  | same => rfl
  | flat => exact Block.text_ofText b.text
  | box h => exact Block.text_box? h
  | unbox h => exact Block.text_unbox? h

namespace Document

variable {d e : Document}

theorem root_step (s : Step) (d : Document) : (d.step s).root = d.root := by
  cases s with
  | _ => rfl

theorem textChanged_mem_setCaret (h : .textChanged ∈ d.events) (position : Nat) :
    .textChanged ∈ (d.setCaret position).events := by
  unfold setCaret
  dsimp only
  split
  · exact h
  · exact (DocumentEvent.textChanged_mem_queue_iff (e := .caretMoved _)).2 (.inl h)

theorem sound_setCaret_splice (start stop : Nat) (new : Text) (position : Nat) (d : Document) :
    ((d.splice start stop new).setCaret position).Sound :=
  ((Sound.setText _ d).queue .textChanged).setCaret position

theorem textChanged_mem_setCaret_splice (start stop : Nat) (new : Text) (position : Nat)
    (d : Document) : .textChanged ∈ ((d.splice start stop new).setCaret position).events :=
  textChanged_mem_setCaret (DocumentEvent.textChanged_mem_queue_iff.2 (.inr rfl)) position

theorem act_of_none {a : Action} (h : d.act? a = none) : d.act a = d := by
  rw [act, h, Option.getD_none]

theorem act_of_some {a : Action} (h : d.act? a = some e) : d.act a = e := by
  rw [act, h, Option.getD_some]

theorem Settled.events_insert (h : d.Settled) {t : Text} (ht : t ≠ []) :
    ∃ p, (d.insert t).events = [.caretMoved p, .textChanged] := by
  obtain ⟨b, u, a, hin⟩ := h.sound.caret
  rw [hin.insert_eq ht]
  refine ⟨d.caret.position + t.length, ?_⟩
  simp [queue, DocumentEvent.queue, modifyLeaf, h.events]

theorem Settled.events_backspace? (h : d.Settled) (he : d.backspace? = some e) :
    ∃ p, e.events = [.caretMoved p, .textChanged] := by
  by_cases hpos : d.caret.position = 0
  · simp [Document.backspace?, hpos] at he
  · rw [h.sound.backspace?_eq (by omega)] at he
    obtain rfl := Option.some.inj he
    refine ⟨d.caret.position - 1, ?_⟩
    simp [queue, DocumentEvent.queue, modifyLeaf, h.events]

theorem Settled.events_delete? (h : d.Settled) (he : d.delete? = some e) :
    e.events = [.textChanged] := by
  by_cases hpos : d.caret.position < d.length
  · rw [h.sound.delete?_eq hpos] at he
    obtain rfl := Option.some.inj he
    simp [queue, DocumentEvent.queue, modifyLeaf, h.events]
  · simp [Document.delete?, Nat.le_of_not_lt hpos] at he

theorem Settled.events_splice (h : d.Settled) (start stop : Nat) (new : Text) :
    (d.splice start stop new).events = [.textChanged] := by
  change DocumentEvent.textChanged.queue d.events = _
  rw [h.events]
  rfl

theorem Settled.merged (h : d.Settled) : DocumentEvent.Merged d.events := by
  rw [h.events]
  exact .nil

theorem Settled.merged_splice (h : d.Settled) (start stop : Nat) (new : Text) :
    DocumentEvent.Merged (d.splice start stop new).events := h.merged.queue .textChanged

theorem regrouped_of_none {a : Action} (h : d.act? a = none) : d.root.Regrouped (d.act a).root := by
  rw [act_of_none h]
  exact .same

theorem regrouped_box (start last : Nat) (d : Document) :
    d.root.Regrouped (d.act (.box start last)).root := by
  cases hbox : d.act? (.box start last) with
  | none => exact regrouped_of_none hbox
  | some e =>
    rw [act_of_some hbox]
    obtain ⟨root, hroot, rfl⟩ := Option.map_eq_some_iff.1 hbox
    exact .box hroot

theorem regrouped_unboxAtCaret (d : Document) :
    d.root.Regrouped (d.act .unboxAtCaret).root := by
  cases hunbox : d.act? .unboxAtCaret with
  | none => exact regrouped_of_none hunbox
  | some e =>
    rw [act_of_some hunbox]
    obtain ⟨root, hroot, rfl⟩ := Option.map_eq_some_iff.1 hunbox
    exact .unbox hroot

/-- What an action of an editor does to its document is an edit, or it only regroups the text. -/
theorem Settled.edited_or_regrouped (h : d.Settled) {a : Editor.Action} {action : Action}
    (ha : a.onDocument? = some action) :
    .textChanged ∈ (d.act action).events ∨ d.root.Regrouped (d.act action).root := by
  have hsame : ∀ {action}, (d.act action).root = d.root → d.root.Regrouped (d.act action).root := by
    intro action hroot
    rw [hroot]
    exact .same
  cases a with
  | setCaret position =>
    cases ha
    exact .inr (hsame (root_setCaret position d))
  | box start last =>
    cases ha
    exact .inr (regrouped_box start last d)
  | flatten =>
    cases ha
    exact .inr .flat
  | insert t =>
    cases ha
    by_cases ht : t = []
    · subst ht
      exact .inr .same
    · obtain ⟨p, hevents⟩ := h.events_insert ht
      apply Or.inl
      change .textChanged ∈ (d.insert t).events
      simp [hevents]
  | backspace =>
    cases ha
    -- a removal that is refused changes nothing, and any other one queues a text change
    cases hback : d.act? .backspace with
    | none => exact .inr (regrouped_of_none hback)
    | some e =>
      obtain ⟨p, hevents⟩ := h.events_backspace? hback
      rw [act_of_some hback, hevents]
      exact .inl (by simp)
  | delete =>
    cases ha
    cases hdelete : d.act? .delete with
    | none => exact .inr (regrouped_of_none hdelete)
    | some e =>
      rw [act_of_some hdelete, h.events_delete? hdelete]
      exact .inl (by simp)
  | left =>
    cases ha
    exact .inr (hsame (root_step _ d))
  | right =>
    cases ha
    exact .inr (hsame (root_step _ d))
  | home =>
    cases ha
    exact .inr (hsame (root_setCaret 0 d))
  | toEnd =>
    cases ha
    exact .inr (hsame (root_setCaret d.length d))
  | unbox =>
    cases ha
    exact .inr (regrouped_unboxAtCaret d)
  | _ => cases ha

end Document

namespace Editor

variable {σ : Type} [Analyzer σ] {e f : Editor σ}

/-- What an operation may make of the picker beside filling it. -/
inductive Turned (e : Editor σ) : Picker → Prop
  | next : e.Turned e.picker.next
  | previous : e.Turned e.picker.previous
  | shift {days : Int} {picker : Picker} (h : e.picker.shift days = .ok picker) : e.Turned picker
  | hide : e.Turned e.picker.hide
  | reveal : e.Turned e.picker.reveal
  | listTags :
    e.Turned ((e.picker.turnTo .strings).addStrings (Analyzer.tags e.analyzer) e.typed)

/-- One change of an editor. -/
inductive Change (e : Editor σ) : Editor σ → Prop
  | read {d : Document} (hd : d.Settled) : e.Change (reparse { e with document := d })
  | regroup {d : Document} (hd : d.Settled) (h : e.document.root.Regrouped d.root) :
    e.Change { e with document := d }
  | turn {picker : Picker} (h : e.Turned picker) : e.Change (e.withPicker picker)
  | tell (autoOpen : Bool) (notice : Option Notice) (events : List DocumentEvent)
    (notifications : List Notification) :
    e.Change { e with autoOpen, notice, events, notifications }

abbrev Changes : Editor σ → Editor σ → Prop := Relation.ReflTransGen Change

theorem Change.settled (h : e.Change f) (he : e.document.Settled) : f.document.Settled := by
  cases h with
  | read hd => exact settled_reparse hd
  | regroup hd _ => exact hd
  | turn _ => exact he
  | tell _ _ _ _ => exact he

theorem Changes.settled (h : Changes e f) (he : e.document.Settled) : f.document.Settled := by
  induction h with
  | refl => exact he
  | tail _ hchange ih => exact hchange.settled ih

theorem Changes.keep {P : Editor σ → Prop}
    (hP : ∀ {e f : Editor σ}, e.document.Settled → e.Change f → P e → P f)
    (h : Changes e f) (he : e.document.Settled) (hpe : P e) : P f := by
  induction h with
  | refl => exact hpe
  | tail hchanges hchange ih => exact hP (Changes.settled hchanges he) hchange ih

theorem change_dispatch (events : List DocumentEvent) (e : Editor σ) :
    e.Change (e.dispatch events) := by
  rw [dispatch_eq]
  exact .tell _ _ _ _

theorem changes_process {d : Document} (hd : d.Sound)
    (h : .textChanged ∈ d.events ∨ e.document.root.Regrouped d.root) :
    Changes e (process { e with document := d }) := by
  have htaken := settled_takeEvents hd
  by_cases hchanged : .textChanged ∈ d.events
  · rw [process_of_changed (e := { e with document := d }) hd hchanged]
    exact .tail (.single (.read htaken)) (change_dispatch _ _)
  · rw [process_of_unchanged (e := { e with document := d }) hchanged]
    exact .tail (.single (.regroup htaken (h.resolve_left hchanged))) (change_dispatch _ _)

theorem changes_apply (edit : Edit) (e : Editor σ) : Changes e (e.apply edit) := by
  let d := (e.document.splice edit.start edit.stop edit.replacement).setCaret edit.caret
  have hchanged : .textChanged ∈ d.events := Document.textChanged_mem_setCaret_splice _ _ _ _ _
  have hread : Changes e (process { e with document := d }) :=
    changes_process (Document.sound_setCaret_splice _ _ _ _ _) (.inl hchanged)
  exact hread.tail (.turn .hide)

theorem changes_choose (s : Selection) (e : Editor σ) : Changes e (e.choose s) := by
  cases s with
  | proposal p value => exact changes_apply _ e
  | value t => exact changes_apply _ e

/-- An action is a series of changes. -/
theorem changes_act {done : Bool} (h : e.document.Settled) (a : Action)
    (hact : e.act a = .ok (f, done)) : Changes e f := by
  cases honDocument : a.onDocument? with
  | some action =>
    rw [act_of_onDocument? e honDocument] at hact
    cases hact
    exact changes_process (h.sound.act action) (h.edited_or_regrouped honDocument)
  | none =>
    cases a with
    | setText t =>
      cases hact
      rw [setText_eq t e h]
      exact .tail (.single (.read ⟨.setText t e.document, h.events⟩)) (change_dispatch _ _)
    | reparse =>
      cases hact
      exact .single (.read h)
    | requestCompletion =>
      cases hact
      rw [requestCompletion_eq h]
      exact .tail (.single (.read h)) (.turn .reveal)
    | openTagList =>
      cases hact
      exact .tail (.single (.turn .listTags)) (.turn .reveal)
    | accept =>
      rcases accept_cases hact with ⟨rfl, -⟩ | ⟨s, rfl, -⟩
      · exact .refl
      · exact .head (.turn .hide) (changes_choose s _)
    | applyProposal p value =>
      cases hact
      exact changes_apply _ e
    | applyValue t =>
      cases hact
      exact changes_apply _ e
    | setAutoOpen on =>
      cases hact
      exact .single (.tell _ _ _ _)
    | setNotice notice =>
      cases hact
      exact .single (.tell _ _ _ _)
    | _ => cases honDocument

/-- A command does nothing, turns the picker, or is an action that something may be noted of. -/
theorem obey_cases {c : Command} {quit : Bool} (h : e.obey c = .ok (f, quit)) :
    f = e ∨ (∃ picker, e.Turned picker ∧ f = e.withPicker picker) ∨
      ∃ a acted done notice, e.act a = .ok (acted, done) ∧ f = { acted with notice } := by
  unfold obey at h
  split at h
  · cases h
    exact .inl rfl
  · cases h
    exact .inr (.inl ⟨_, .next, rfl⟩)
  · cases h
    exact .inr (.inl ⟨_, .previous, rfl⟩)
  · obtain ⟨picker, hshift, hafter⟩ := exists_of_map_ok h
    cases hafter
    exact .inr (.inl ⟨_, .shift hshift, rfl⟩)
  · obtain ⟨picker, hshift, hafter⟩ := exists_of_map_ok h
    cases hafter
    exact .inr (.inl ⟨_, .shift hshift, rfl⟩)
  · cases h
    exact .inr (.inl ⟨_, .hide, rfl⟩)
  · split at h
    · cases h
      exact .inl rfl
    · rename_i a _
      obtain ⟨⟨acted, done⟩, hact, hafter⟩ := exists_of_map_ok h
      dsimp only at hafter
      split at hafter
      · cases hafter
        exact .inr (.inr ⟨a, acted, done, _, hact, rfl⟩)
      · cases hafter
        exact .inr (.inr ⟨a, f, done, f.notice, hact, rfl⟩)

theorem changes_obey {quit : Bool} (h : e.document.Settled) (c : Command)
    (hobey : e.obey c = .ok (f, quit)) : Changes e f := by
  rcases obey_cases hobey with rfl | ⟨picker, hturned, rfl⟩ | ⟨a, acted, done, notice, hact, rfl⟩
  · exact .refl
  · exact .single (.turn hturned)
  · exact (changes_act h a hact).tail (.tell _ _ _ _)

/-- Between two operations every event was taken. -/
theorem Reachable.settled (h : e.Reachable) : e.document.Settled := by
  induction h with
  | new analyzer picker autoOpen => exact ⟨Document.sound_ofText [], rfl⟩
  | act _ a hact ih => exact (changes_act ih a hact).settled ih
  | obey _ c hobey ih => exact (changes_obey ih c hobey).settled ih
  | withPicker _ picker ih => exact ih
  | takeEvents _ ih => exact ih
  | takeNotifications _ ih => exact ih

/-- An invariant of every editor that can be reached. -/
theorem Reachable.invariant {P : Editor σ → Prop} (h : e.Reachable)
    (hnew : ∀ (analyzer : σ) (picker : Picker) (autoOpen : Bool), P (.new analyzer picker autoOpen))
    (hchange : ∀ {e f : Editor σ}, e.document.Settled → e.Change f → P e → P f)
    (hpicker : ∀ {e : Editor σ} (picker : Picker), P e → P (e.withPicker picker)) : P e := by
  induction h with
  | new analyzer picker autoOpen => exact hnew analyzer picker autoOpen
  | act hr a hact ih => exact (changes_act hr.settled a hact).keep hchange hr.settled ih
  | obey hr c hobey ih => exact (changes_obey hr.settled c hobey).keep hchange hr.settled ih
  | withPicker _ picker ih => exact hpicker picker ih
  | takeEvents hr ih => exact hchange hr.settled (.tell _ _ _ _) ih
  | takeNotifications hr ih => exact hchange hr.settled (.tell _ _ _ _) ih

end Editor
end QueryLine
