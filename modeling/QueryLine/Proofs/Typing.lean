import QueryLine.Proofs.PlainLine
import QueryLine.Proofs.Rereading

/-!
Typing. Between two characters the text is read, blocks come and go, and the picker may open and
turn its pages; but after each character all of this is what reading the line gives, so a text typed
one character at a time leaves what it leaves when it is inserted at once.
-/

namespace QueryLine

theorem PlainLine.insert_insert {l : PlainLine} (h : l.caret ≤ l.text.length) (t u : Text) :
    (l.insert t).insert u = l.insert (t ++ u) := by
  have hfront : (l.text.take l.caret ++ t).length = l.caret + t.length := by
    rw [List.length_append, List.length_take_of_le h]
  have htext : (l.text.take l.caret ++ t ++ l.text.drop l.caret).take (l.caret + t.length) ++ u ++
      (l.text.take l.caret ++ t ++ l.text.drop l.caret).drop (l.caret + t.length) =
        l.text.take l.caret ++ (t ++ u) ++ l.text.drop l.caret := by
    rw [List.take_left' hfront, List.drop_left' hfront]
    simp only [List.append_assoc]
  unfold insert
  dsimp only
  rw [htext, List.length_append, Nat.add_assoc]

namespace Editor

section Keys

variable {σ : Type} [Analyzer σ]

/-- Presses keys one after the other, until one of them leaves the editor. -/
def pressAll (e : Editor σ) : List Key → Except CalendarFault (Editor σ × Bool)
  | [] => .ok (e, false)
  | k :: ks =>
    match e.press k with
    | .ok (after, false) => after.pressAll ks
    | ended => ended

theorem pressAll_cons {e f : Editor σ} {k : Key} (h : e.press k = .ok (f, false)) (ks : List Key) :
    e.pressAll (k :: ks) = f.pressAll ks := by
  rw [pressAll, h]

theorem press_char {c : Char} (h : Text.isControl c = false) (e : Editor σ) :
    e.press (.char c) = .ok (e.perform (.insert [c]), false) := by
  have hcommand : e.command (.char c) = .insert c := by
    -- a tab and a line break mean something else, but they are control characters
    have htab : c ≠ '\t' := by
      rintro rfl
      contradiction
    have hnewline : c ≠ '\n' := by
      rintro rfl
      contradiction
    unfold command Key.command
    split <;> simp_all
  rw [press, hcommand]
  rfl

end Keys

variable {e f g : Editor Keywords} {t u : Text}

theorem settings_process (h : e.document.Sound) (hchanged : .textChanged ∈ e.document.events) :
    e.process.autoOpen = e.autoOpen ∧ e.process.analyzer.tags = e.analyzer.tags ∧
      e.process.analyzer.contacts = e.analyzer.contacts := by
  rw [process_of_changed h hchanged, dispatch_eq]
  exact ⟨rfl, rfl, rfl⟩

/-- `f` is `e` with `t` written at the caret, and nothing is left to read in it. -/
structure Wrote (t : Text) (e f : Editor Keywords) : Prop where
  reachable : f.Reachable
  line : f.document.line = e.document.line.insert t
  autoOpen : f.autoOpen = e.autoOpen
  tags : f.analyzer.tags = e.analyzer.tags
  contacts : f.analyzer.contacts = e.analyzer.contacts
  current : f.Current

theorem wrote_perform (h : e.Reachable) (ht : t ≠ []) : Wrote t e (e.perform (.insert t)) := by
  have hsettled := h.settled
  obtain ⟨p, hevents⟩ := hsettled.events_insert ht
  have hsound : (e.document.act (.insert t)).Sound := hsettled.sound.act _
  have hchanged : .textChanged ∈ (e.document.act (.insert t)).events := by
    change .textChanged ∈ (e.document.insert t).events
    simp [hevents]
  obtain ⟨htext, hcaret⟩ :=
    process_spec (e := { e with document := e.document.act (.insert t) }) hsound
  obtain ⟨hauto, htags, hcontacts⟩ :=
    settings_process (e := { e with document := e.document.act (.insert t) }) hsound hchanged
  refine ⟨h.perform (.insert t) rfl, ?_, hauto, htags, hcontacts,
    current_perform hsettled (a := .insert t) rfl (.inl ⟨p, hevents⟩)⟩
  calc (e.perform (.insert t)).document.line = (e.document.insert t).line :=
      congrArg₂ PlainLine.mk htext hcaret
    _ = e.document.line.insert t := hsettled.sound.line_insert t

theorem Wrote.append (h : e.Reachable) (ht : Wrote t e f) (hu : Wrote u f g) :
    Wrote (t ++ u) e g := by
  refine ⟨hu.reachable, ?_, hu.autoOpen.trans ht.autoOpen, hu.tags.trans ht.tags,
    hu.contacts.trans ht.contacts, hu.current⟩
  rw [hu.line, ht.line, PlainLine.insert_insert h.settled.sound.position_le]

/-- What is written alike reads alike. -/
theorem Wrote.alike (hf : Wrote t e f) (hg : Wrote t e g) : f.Alike g := by
  have hline := hf.line.trans hg.line.symm
  have hsame : f.SameQuestion g :=
    ⟨hf.reachable.settled.sameLine hg.reachable.settled (congrArg PlainLine.text hline)
      (congrArg PlainLine.caret hline), hf.autoOpen.trans hg.autoOpen.symm,
      hf.tags.trans hg.tags.symm, hf.contacts.trans hg.contacts.symm⟩
  have halike := Alike.of_sameQuestion hf.reachable.settled.sound hg.reachable.settled.sound hsame
  rwa [show f.reparse = f from hf.current, show g.reparse = g from hg.current] at halike

theorem exists_typed (h : e.Reachable) (ht : t ≠ [])
    (hprints : ∀ c ∈ t, Text.isControl c = false) :
    ∃ f, e.pressAll (t.map .char) = .ok (f, false) ∧ Wrote t e f := by
  induction t generalizing e with
  | nil => exact absurd rfl ht
  | cons c t ih =>
    have hfirst : Wrote [c] e (e.perform (.insert [c])) := wrote_perform h (List.cons_ne_nil c [])
    have hpress := pressAll_cons (press_char (hprints c List.mem_cons_self) e) (t.map .char)
    rw [List.map_cons, hpress]
    by_cases hlast : t = []
    · subst hlast
      exact ⟨_, rfl, hfirst⟩
    · obtain ⟨f, htyped, hrest⟩ := ih hfirst.reachable hlast fun d hd =>
        hprints d (List.mem_cons_of_mem c hd)
      exact ⟨f, htyped, hfirst.append h hrest⟩

/-- Typing a text one character at a time does what inserting it at once does. -/
theorem typing_inserts (h : e.Reachable) (ht : t ≠ [])
    (hprints : ∀ c ∈ t, Text.isControl c = false) :
    ∃ typed inserted, e.pressAll (t.map .char) = .ok (typed, false) ∧
      e.act (.insert t) = .ok (inserted, true) ∧
      typed.document.line = e.document.line.insert t ∧ typed.Alike inserted := by
  obtain ⟨typed, hpressed, htyped⟩ := exists_typed h ht hprints
  have hinserted := wrote_perform h ht
  exact ⟨typed, _, hpressed, rfl, htyped.line, htyped.alike hinserted⟩

/-- In front of `:w b`, with the caret at the start, `a:1 tag` makes a second comparison. -/
theorem typing_inserts_comparison :
    let start : Editor Keywords := .new (.new [['w']] []) (.new [] ⟨0, by decide⟩) true
    let e := (start.setText [':', 'w', ' ', 'b']).perform .home
    let t : Text := ['a', ':', '1', ' ', 't', 'a', 'g']
    (e.Reachable ∧ t ≠ [] ∧ (∀ c ∈ t, Text.isControl c = false)) ∧
      ∃ typed inserted, e.pressAll (t.map .char) = .ok (typed, false) ∧
        e.act (.insert t) = .ok (inserted, true) ∧
        typed.document.line = e.document.line.insert t ∧ typed.Alike inserted := by
  intro start e t
  have he : e.Reachable := ((Reachable.new _ _ _).setText _).perform .home rfl
  have ht : t ≠ [] := by decide
  have hprints : ∀ c ∈ t, Text.isControl c = false := by simp [t, Text.isControl]
  exact ⟨⟨he, ht, hprints⟩, typing_inserts he ht hprints⟩

end Editor
end QueryLine
