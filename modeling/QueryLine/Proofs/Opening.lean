import QueryLine.Proofs.Selecting

/-!
When the picker opens. Where it does not open by itself, reading the text fills it and leaves it
hidden. So it is shown only once it was asked for, and only until the text changes.
-/

namespace QueryLine
namespace Editor

/-- Something that may be asked of an editor or of its picker. -/
inductive Request
  | act (a : Action)
  | pick (op : Picker.Operation)

namespace Request

def opens : Request → Bool
  | act .requestCompletion => true
  | act .openTagList => true
  | pick .reveal => true
  | _ => false

/-- Says whether the picker opens by itself. -/
def sets : Request → Bool
  | act (.setAutoOpen _) => true
  | _ => false

end Request

/-- Changes the text, where `done` says that it was carried out. The text may come out the same. -/
def Action.edits (done : Bool) : Action → Bool
  | setText _ => true
  | insert t => !t.isEmpty
  | backspace => done
  | delete => done
  | accept => done
  | applyProposal _ _ => true
  | applyValue _ => true
  | _ => false

variable {σ : Type} {e f : Editor σ}

/-- The picker is hidden, and does not open by itself. -/
structure Quiet (e : Editor σ) : Prop where
  autoOpen : e.autoOpen = false
  hidden : e.picker.visible = false

theorem Quiet.dispatch (h : e.Quiet) (events : List DocumentEvent) : (e.dispatch events).Quiet := by
  rw [dispatch_eq]
  exact ⟨h.autoOpen, h.hidden⟩

variable [Analyzer σ]

def carry (e : Editor σ) : Request → Except CalendarFault (Editor σ)
  | .act a => (e.act a).map (·.1)
  | .pick op => (e.picker.operate op).map e.withPicker

def carryAll (e : Editor σ) (requests : List Request) : Except CalendarFault (Editor σ) :=
  requests.foldlM carry e

theorem reachable_carry {r : Request} (h : e.Reachable) (hcarry : e.carry r = .ok f) :
    f.Reachable := by
  cases r with
  | act a =>
    obtain ⟨⟨after, done⟩, hact, rfl⟩ := exists_of_map_ok hcarry
    exact h.act a hact
  | pick op =>
    obtain ⟨picker, -, rfl⟩ := exists_of_map_ok hcarry
    exact h.withPicker picker

theorem isEmpty_fillPicker (e : Editor σ) :
    e.fillPicker.picker.isEmpty = (Analyzer.proposals e.analyzer).isEmpty := by
  have hshown : ∀ picker : Picker,
      (if e.autoOpen then picker.reveal else picker.hide).isEmpty = picker.isEmpty := by
    intro picker
    split
    · exact picker.isEmpty_reveal
    · rfl
  unfold fillPicker
  dsimp only
  split
  · rename_i hnone
    rw [hnone]
    rfl
  · rename_i hsome
    rw [hshown, List.isEmpty_eq_false_iff.2 hsome]
    split
    · exact e.isEmpty_pickerForOne _
    · rw [Picker.foldl_offer _ rfl]
      exact List.isEmpty_eq_false_iff.2 hsome

theorem visible_fillPicker (h : e.autoOpen = false) : e.fillPicker.picker.visible = false := by
  unfold fillPicker
  dsimp only
  rw [h]
  split
  · rfl
  · rfl

theorem quiet_reparse (h : e.autoOpen = false) : e.reparse.Quiet := ⟨h, visible_fillPicker h⟩

theorem quiet_process (h : e.autoOpen = false) (hsound : e.document.Sound)
    (hchanged : .textChanged ∈ e.document.events) : e.process.Quiet := by
  rw [process_of_changed hsound hchanged]
  exact (quiet_reparse (e := { e with document := e.document.takeEvents.2 }) h).dispatch _

theorem autoOpen_process (h : e.document.Sound) : e.process.autoOpen = e.autoOpen := by
  by_cases hchanged : .textChanged ∈ e.document.events
  · rw [process_of_changed h hchanged, dispatch_eq]
    rfl
  · rw [process_of_unchanged hchanged, dispatch_eq]

theorem quiet_apply (edit : Edit) (h : e.autoOpen = false) : (e.apply edit).Quiet :=
  ⟨(autoOpen_process (Document.sound_setCaret_splice _ _ _ _ _)).trans h, rfl⟩

theorem quiet_choose (s : Selection) (h : e.autoOpen = false) : (e.choose s).Quiet := by
  cases s with
  | proposal p value => exact quiet_apply _ h
  | value t => exact quiet_apply _ h

theorem textChanged_of_edits {d : Document} {a : Action} {action : Document.Action}
    (h : d.Settled) (ha : a.onDocument? = some action)
    (hedits : a.edits (d.act? action).isSome = true) : .textChanged ∈ (d.act action).events := by
  cases a with
  | insert t =>
    cases ha
    have ht : t ≠ [] := by simpa [Action.edits] using hedits
    obtain ⟨p, hevents⟩ := h.events_insert ht
    change .textChanged ∈ (d.insert t).events
    simp [hevents]
  | backspace =>
    cases ha
    obtain ⟨erased, herased⟩ := Option.isSome_iff_exists.1 hedits
    obtain ⟨p, hevents⟩ := h.events_backspace? herased
    rw [Document.act_of_some herased, hevents]
    simp
  | delete =>
    cases ha
    obtain ⟨erased, herased⟩ := Option.isSome_iff_exists.1 hedits
    rw [Document.act_of_some herased, h.events_delete? herased]
    simp
  | _ => cases ha <;> cases hedits

/-- The same text, picker and setting. -/
structure Untouched (e f : Editor σ) : Prop where
  text : f.text = e.text
  picker : f.picker = e.picker
  autoOpen : f.autoOpen = e.autoOpen

theorem perform_hides_or_spares {a : Action} {action : Document.Action} (h : e.document.Settled)
    (hauto : e.autoOpen = false) (ha : a.onDocument? = some action) :
    (e.perform action).Quiet ∨
      a.edits (e.document.act? action).isSome = false ∧ e.Untouched (e.perform action) := by
  have hsound := h.sound.act action
  by_cases hchanged : .textChanged ∈ (e.document.act action).events
  · exact .inl (quiet_process (e := { e with document := e.document.act action }) hauto hsound
      hchanged)
  · -- nothing is read, so the picker is not filled
    refine .inr ⟨Bool.eq_false_iff.2 fun hedits => hchanged (textChanged_of_edits h ha hedits), ?_⟩
    have hgrouped := (h.edited_or_regrouped ha).resolve_left hchanged
    have htext := (process_spec (e := { e with document := e.document.act action }) hsound).1
    have hpicker : (e.perform action).picker = e.picker := by
      rw [perform, process_of_unchanged hchanged, dispatch_eq]
    exact ⟨htext.trans hgrouped.text_eq, hpicker, autoOpen_process hsound⟩

/-- What does not ask for the picker hides it, or it edits nothing and spares the picker. -/
theorem act_hides_or_spares {a : Action} {done : Bool} (h : e.document.Settled)
    (hauto : e.autoOpen = false) (hopens : (Request.act a).opens = false)
    (hsets : (Request.act a).sets = false) (hact : e.act a = .ok (f, done)) :
    f.Quiet ∨ a.edits done = false ∧ e.Untouched f := by
  cases honDocument : a.onDocument? with
  | some action =>
    rw [act_of_onDocument? e honDocument] at hact
    cases hact
    exact perform_hides_or_spares h hauto honDocument
  | none =>
    cases a with
    | setText t =>
      cases hact
      rw [setText_eq t e h]
      have hread := quiet_reparse (e := { e with document := e.document.setText t }) hauto
      exact .inl (hread.dispatch _)
    | reparse =>
      cases hact
      exact .inl (quiet_reparse hauto)
    | accept =>
      rcases accept_cases hact with ⟨rfl, rfl⟩ | ⟨s, rfl, -⟩
      · exact .inr ⟨rfl, rfl, rfl, rfl⟩
      · exact .inl (quiet_choose s hauto)
    | applyProposal p value =>
      cases hact
      exact .inl (quiet_apply _ hauto)
    | applyValue t =>
      cases hact
      exact .inl (quiet_apply _ hauto)
    | setNotice notice =>
      cases hact
      exact .inr ⟨rfl, rfl, rfl, rfl⟩
    | requestCompletion => cases hopens
    | openTagList => cases hopens
    | setAutoOpen on => cases hsets
    | _ => cases honDocument

theorem act_asks {a : Action} {done : Bool} (h : e.document.Settled)
    (hopens : (Request.act a).opens = true) (hact : e.act a = .ok (f, done)) :
    a.edits done = false ∧ f.text = e.text ∧ f.autoOpen = e.autoOpen := by
  cases a with
  | requestCompletion =>
    cases hact
    rw [requestCompletion_eq h]
    exact ⟨rfl, (reparse_spec h.sound).2.text, rfl⟩
  | openTagList =>
    cases hact
    exact ⟨rfl, rfl, rfl⟩
  | _ => cases hopens

/-- An edit hides the picker, and so does whatever makes another text. -/
theorem quiet_of_edit {a : Action} {done : Bool} (h : e.document.Settled)
    (hauto : e.autoOpen = false) (hact : e.act a = .ok (f, done))
    (hedit : a.edits done = true ∨ f.text ≠ e.text) : f.Quiet := by
  -- every other outcome of an action neither edits nor makes another text
  have hnone : ¬(a.edits done = false ∧ f.text = e.text) := by
    rintro ⟨hedits, htext⟩
    rcases hedit with hedit | hedit
    · rw [hedits] at hedit
      cases hedit
    · exact hedit htext
  cases hopens : (Request.act a).opens with
  | true =>
    obtain ⟨hedits, htext, -⟩ := act_asks h hopens hact
    exact absurd ⟨hedits, htext⟩ hnone
  | false =>
    cases hsets : (Request.act a).sets with
    | true =>
      cases a with
      | setAutoOpen on =>
        cases hact
        exact absurd ⟨rfl, rfl⟩ hnone
      | _ => cases hsets
    | false =>
      rcases act_hides_or_spares h hauto hopens hsets hact with hquiet | ⟨hedits, huntouched⟩
      · exact hquiet
      · exact absurd ⟨hedits, huntouched.text⟩ hnone

theorem autoOpen_carry {r : Request} (h : e.document.Settled) (hauto : e.autoOpen = false)
    (hsets : r.sets = false) (hcarry : e.carry r = .ok f) : f.autoOpen = false := by
  cases r with
  | act a =>
    obtain ⟨⟨after, done⟩, hact, rfl⟩ := exists_of_map_ok hcarry
    cases hopens : (Request.act a).opens with
    | true => exact (act_asks h hopens hact).2.2.trans hauto
    | false =>
      rcases act_hides_or_spares h hauto hopens hsets hact with hquiet | ⟨-, huntouched⟩
      · exact hquiet.autoOpen
      · exact huntouched.autoOpen.trans hauto
  | pick op =>
    obtain ⟨picker, -, rfl⟩ := exists_of_map_ok hcarry
    exact hauto

theorem Quiet.carry {r : Request} (hquiet : e.Quiet) (h : e.document.Settled)
    (hopens : r.opens = false) (hsets : r.sets = false) (hcarry : e.carry r = .ok f) : f.Quiet := by
  refine ⟨autoOpen_carry h hquiet.autoOpen hsets hcarry, ?_⟩
  cases r with
  | act a =>
    obtain ⟨⟨after, done⟩, hact, rfl⟩ := exists_of_map_ok hcarry
    rcases act_hides_or_spares h hquiet.autoOpen hopens hsets hact with hhides | ⟨-, huntouched⟩
    · exact hhides.hidden
    · rw [huntouched.picker]
      exact hquiet.hidden
  | pick op =>
    obtain ⟨picker, hoperate, rfl⟩ := exists_of_map_ok hcarry
    have hop : op ≠ .reveal := by
      rintro rfl
      cases hopens
    exact (Picker.operate_spec hoperate).2 hop hquiet.hidden

theorem visible_requestCompletion (h : e.document.Settled) (hauto : e.autoOpen = false) :
    e.requestCompletion.picker.visible = !(Analyzer.proposals e.reparse.analyzer).isEmpty := by
  rw [requestCompletion_eq h, Picker.visible_reveal, (quiet_reparse hauto).hidden, Bool.or_false]
  exact congrArg (!·) (isEmpty_fillPicker _)

/-- Where the picker does not open by itself, it is hidden until it is asked for. Asked for where
there is anything to propose it is shown, and the next edit hides it again. -/
theorem opens_on_request {requests : List Request} (he : e.Reachable) (hauto : e.autoOpen = false)
    (hsets : ∀ r ∈ requests, r.sets = false) (hcarry : e.carryAll requests = .ok f) :
    f.autoOpen = false ∧
      (e.picker.visible = false → (∀ r ∈ requests, r.opens = false) →
        f.picker.visible = false) ∧
      (f.requestCompletion.picker.visible =
        !(Analyzer.proposals f.reparse.analyzer).isEmpty) ∧
      ∀ a g done, f.act a = .ok (g, done) → (a.edits done = true ∨ g.text ≠ f.text) →
        g.picker.visible = false := by
  have hreaches : f.Reachable ∧ f.autoOpen = false :=
    foldlM_invariant (fun (_ : Unit) _ => ()) (P := fun _ g => g.Reachable ∧ g.autoOpen = false)
      (a := ()) (fun hr hg hstep =>
        ⟨reachable_carry hg.1 hstep, autoOpen_carry hg.1.settled hg.2 (hsets _ hr) hstep⟩)
      ⟨he, hauto⟩ hcarry
  obtain ⟨hf, hkept⟩ := hreaches
  refine ⟨hkept, fun hhidden hopens => ?_, visible_requestCompletion hf.settled hkept,
    fun a g done hact hedit => (quiet_of_edit hf.settled hkept hact hedit).hidden⟩
  have hquiet : f.Reachable ∧ f.Quiet :=
    foldlM_invariant (fun (_ : Unit) _ => ()) (P := fun _ g => g.Reachable ∧ g.Quiet) (a := ())
      (fun hr hg hstep => ⟨reachable_carry hg.1 hstep,
        hg.2.carry hg.1.settled (hopens _ hr) (hsets _ hr) hstep⟩)
      ⟨he, hauto, hhidden⟩ hcarry
  exact hquiet.2.hidden

/-- Typed `tag:` where one tag is known: the list of tags is shown once it was asked for, and hidden
when the colon is erased. -/
theorem opens_on_request_tag :
    let start : Editor Keywords := .new (.new [['w']] []) (.new DateFormat.iso ⟨0, by decide⟩) false
    let typed : List Request := [.act (.insert ['t', 'a', 'g', ':'])]
    let asked : List Request := [.act .requestCompletion, .pick .previous]
    ∃ e f g, (start.Reachable ∧ start.autoOpen = false ∧ start.picker.visible = false) ∧
      start.carryAll typed = .ok e ∧ e.picker.visible = false ∧
      e.carryAll asked = .ok f ∧ f.picker.visible = true ∧
      f.act .backspace = .ok (g, true) ∧ g.picker.visible = false := by
  intro start typed asked
  let e := start.perform (.insert ['t', 'a', 'g', ':'])
  let f := e.requestCompletion.withPicker e.requestCompletion.picker.previous
  have hstart : start.Reachable := .new _ _ _
  have he : e.Reachable := hstart.perform (.insert _) rfl
  -- said of any editor, since this one would be evaluated
  have htypes : ∀ s : Editor Keywords, s.carryAll typed =
      .ok (s.perform (.insert ['t', 'a', 'g', ':'])) := fun _ => rfl
  have hasks : ∀ s : Editor Keywords, s.carryAll asked =
      .ok (s.requestCompletion.withPicker s.requestCompletion.picker.previous) := fun _ => rfl
  have hbackspace : ∀ s : Editor Keywords, (s.document.act? .backspace).isSome = true →
      s.act .backspace = .ok (s.perform .backspace, true) := by
    intro s hdone
    rw [act_of_onDocument? s (a := .backspace) rfl, hdone]
  have hshown : f.picker.visible = true := by decide +kernel
  have hback := hbackspace f (by decide +kernel)
  obtain ⟨hauto, hhidden, -, -⟩ :=
    opens_on_request hstart rfl (by simp [typed, Request.sets]) (htypes start)
  obtain ⟨-, -, -, hedits⟩ :=
    opens_on_request he hauto (by simp [asked, Request.sets]) (hasks e)
  exact ⟨e, f, _, ⟨hstart, rfl, rfl⟩, htypes start, hhidden rfl (by simp [typed, Request.opens]),
    hasks e, hshown, hback, hedits .backspace _ true hback (.inl rfl)⟩

end Editor
end QueryLine
