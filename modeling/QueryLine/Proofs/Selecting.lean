import QueryLine.Proofs.Offering

/-!
What is done to a picker, whatever the order. The pages share their rows and proposals, so what is
selected is said of whole series of operations: the strings are those added since their page was
turned to, in order, and the selected row is one of the page.
-/

namespace QueryLine

/-- What each step keeps is kept by all of them, beside a record of the steps. -/
theorem foldlM_invariant {ε α β γ : Type} {step : β → γ → Except ε β} (record : α → γ → α)
    {P : α → β → Prop} {cs : List γ}
    (hstep : ∀ {a c b after}, c ∈ cs → P a b → step b c = .ok after → P (record a c) after)
    {a : α} {b after : β} (h : P a b) (hrun : cs.foldlM step b = .ok after) :
    P (cs.foldl record a) after := by
  induction cs generalizing a b with
  | nil =>
    cases hrun
    exact h
  | cons c cs ih =>
    cases hfirst : step b c with
    | error fault =>
      rw [List.foldlM_cons, hfirst] at hrun
      cases hrun
    | ok next =>
      rw [List.foldlM_cons, hfirst] at hrun
      have hnext := hstep List.mem_cons_self h hfirst
      exact ih (fun hc => hstep (List.mem_cons_of_mem _ hc)) hnext hrun

namespace Picker

/-- Something that may be done to a picker. -/
inductive Operation
  | turnTo (page : Page)
  | offer (new : Proposal)
  | addStrings (new : List Text) (typed : Text)
  | setDate (date : Date)
  | shift (days : Int)
  | reveal
  | hide
  | next
  | previous

namespace Operation

/-- Counts no more days than can be counted. -/
def Representable : Operation → Prop
  | shift days => days.natAbs ≤ Date.maxShift
  | _ => True

/-- The strings added since their page was turned to, with one more operation. -/
def added (before : List Text) : Operation → List Text
  | turnTo .strings => []
  | addStrings new _ => before ++ new
  | _ => before

end Operation

def operate (p : Picker) : Operation → Except CalendarFault Picker
  | .turnTo page => .ok (p.turnTo page)
  | .offer new => .ok (p.offer new)
  | .addStrings new typed => .ok (p.addStrings new typed)
  | .setDate date => .ok { p with date }
  | .shift days => p.shift days
  | .reveal => .ok p.reveal
  | .hide => .ok p.hide
  | .next => .ok p.next
  | .previous => .ok p.previous

def run (p : Picker) (ops : List Operation) : Except CalendarFault Picker := ops.foldlM operate p

variable {p q : Picker}

theorem shift_of_representable {days : Int} (h : days.natAbs ≤ Date.maxShift) (p : Picker) :
    p.shift days = .ok { p with date := p.date.plus days } := by
  rw [shift, Date.shift, if_pos h]
  rfl

theorem exists_operate {op : Operation} (h : op.Representable) (p : Picker) :
    ∃ q, p.operate op = .ok q := by
  cases op with
  | shift days => exact ⟨_, shift_of_representable h p⟩
  | _ => exact ⟨_, rfl⟩

theorem run_cons {op : Operation} (h : p.operate op = .ok q) (ops : List Operation) :
    p.run (op :: ops) = q.run ops := by
  rw [run, List.foldlM_cons, h]
  rfl

theorem exists_run {ops : List Operation} (h : ∀ op ∈ ops, op.Representable) (p : Picker) :
    ∃ q, p.run ops = .ok q := by
  induction ops generalizing p with
  | nil => exact ⟨p, rfl⟩
  | cons op ops ih =>
    obtain ⟨q, hq⟩ := exists_operate (h op List.mem_cons_self) p
    rw [run_cons hq]
    exact ih (fun other hother => h other (List.mem_cons_of_mem op hother)) q

/-- The selected rows are on their pages, and the strings are those that were added, in order. -/
structure Holds (p : Picker) (added : List Text) : Prop where
  inRange : p.InRange
  sorted : p.strings.Pairwise fun s t => ¬t < s
  perm : p.strings.Perm added

theorem holds_new (dateFormat : Text) (date : Date) : (Picker.new dateFormat date).Holds [] :=
  ⟨.new dateFormat date, .nil, .nil⟩

namespace Holds

variable {added : List Text}

theorem of_strings (h : p.Holds added) (hrange : q.InRange) (hstrings : q.strings = p.strings) :
    q.Holds added :=
  ⟨hrange, hstrings ▸ h.sorted, hstrings ▸ h.perm⟩

theorem turnTo (h : p.Holds added) (page : Page) :
    (p.turnTo page).Holds ((Operation.turnTo page).added added) := by
  have hrange := h.inRange.turnTo page
  cases page with
  | strings => exact ⟨hrange, .nil, .nil⟩
  | proposals => exact h.of_strings hrange rfl
  | date => exact h.of_strings hrange rfl

theorem addStrings (h : p.Holds added) (new : List Text) (typed : Text) :
    (p.addStrings new typed).Holds (added ++ new) :=
  ⟨h.inRange.addStrings new typed, Text.pairwise_sort _,
    (Text.sort_perm _).trans (h.perm.append_right new)⟩

end Holds

theorem Moved.strings (h : p.Moved q) : q.strings = p.strings := by
  obtain ⟨_, _, _, rfl⟩ := h
  rfl

theorem Moved.visible (h : p.Moved q) : q.visible = p.visible := by
  obtain ⟨_, _, _, rfl⟩ := h
  rfl

theorem Moved.dateFormat (h : p.Moved q) : q.dateFormat = p.dateFormat := by
  obtain ⟨_, _, _, rfl⟩ := h
  rfl

theorem exists_reveal (p : Picker) : ∃ visible, p.reveal = { p with visible } := by
  unfold reveal
  split
  · exact ⟨p.visible, rfl⟩
  · exact ⟨true, rfl⟩

/-- No operation sets another format for dates, and none but revealing a picker shows it. -/
theorem operate_spec {op : Operation} (h : p.operate op = .ok q) :
    q.dateFormat = p.dateFormat ∧ (op ≠ .reveal → p.visible = false → q.visible = false) := by
  cases op with
  | shift days =>
    obtain ⟨date, -, rfl⟩ := Editor.exists_of_map_ok h
    exact ⟨rfl, fun _ => id⟩
  | reveal =>
    cases h
    obtain ⟨visible, hreveal⟩ := p.exists_reveal
    rw [hreveal]
    exact ⟨rfl, fun hne => absurd rfl hne⟩
  | hide =>
    cases h
    exact ⟨rfl, fun _ _ => rfl⟩
  | next =>
    cases h
    exact ⟨p.moved_next.dateFormat, fun _ => p.moved_next.visible.trans⟩
  | previous =>
    cases h
    exact ⟨p.moved_previous.dateFormat, fun _ => p.moved_previous.visible.trans⟩
  | _ =>
    cases h
    exact ⟨rfl, fun _ => id⟩

theorem Holds.operate {added : List Text} {op : Operation} (h : p.Holds added)
    (hop : p.operate op = .ok q) : q.Holds (op.added added) := by
  cases op with
  | turnTo page =>
    cases hop
    exact h.turnTo page
  | offer new =>
    cases hop
    exact h.of_strings (h.inRange.offer new) rfl
  | addStrings new typed =>
    cases hop
    exact h.addStrings new typed
  | setDate date =>
    cases hop
    exact h.of_strings ⟨h.inRange.proposals, h.inRange.strings⟩ rfl
  -- what a date is shifted to is no matter to rows and strings
  | shift days =>
    obtain ⟨date, -, rfl⟩ := Editor.exists_of_map_ok hop
    exact h.of_strings ⟨h.inRange.proposals, h.inRange.strings⟩ rfl
  | reveal =>
    cases hop
    obtain ⟨visible, hreveal⟩ := p.exists_reveal
    exact h.of_strings h.inRange.reveal (hreveal ▸ rfl)
  | hide =>
    cases hop
    exact h.of_strings h.inRange.hide rfl
  | next =>
    cases hop
    exact h.of_strings h.inRange.next p.moved_next.strings
  | previous =>
    cases hop
    exact h.of_strings h.inRange.previous p.moved_previous.strings

theorem Holds.run {added : List Text} {ops : List Operation} (h : p.Holds added)
    (hrun : p.run ops = .ok q) : q.Holds (ops.foldl Operation.added added) :=
  foldlM_invariant Operation.added (P := fun added q => q.Holds added)
    (fun _ => Holds.operate) h hrun

/-- A value by itself, or for the first of the proposals that wait. -/
inductive Pairs (p : Picker) (t : Text) : Selection → Prop
  | alone (h : p.proposals = []) : p.Pairs t (.value t)
  | first {q : Proposal} (h : p.proposals.head? = some q) : p.Pairs t (.proposal q (some t))

/-- What the selected row of the page stands for, or the date. -/
inductive Selects (p : Picker) : Selection → Prop
  | proposal {q : Proposal} (hpage : p.page = .proposals) (hrow : p.proposals[p.row]? = some q) :
    p.Selects (.proposal q none)
  | string {t : Text} {s : Selection} (hpage : p.page = .strings)
    (hrow : p.strings[p.row]? = some t) (h : p.Pairs t s) : p.Selects s
  | date {t : Text} {s : Selection} (hpage : p.page = .date) (hdate : p.dateText = .ok t)
    (h : p.Pairs t s) : p.Selects s

theorem pairs_iff {t : Text} {s : Selection} : p.Pairs t s ↔ p.withValue t = s := by
  unfold withValue
  constructor
  · rintro (hnone | @⟨q, hfirst⟩)
    · rw [hnone]
    · obtain ⟨more, hproposals⟩ := List.head?_eq_some_iff.1 hfirst
      rw [hproposals]
  · rintro rfl
    split
    · rename_i first more hproposals
      exact .first (by rw [hproposals]; rfl)
    · exact .alone ‹_›

theorem selection_eq_some_iff {s : Selection} : p.selection = .ok (some s) ↔ p.Selects s := by
  constructor
  · intro h
    unfold selection at h
    split at h
    · rename_i hpage
      obtain ⟨q, hrow, rfl⟩ := Option.map_eq_some_iff.1 (Except.ok.inj h)
      exact .proposal hpage (by simpa [row, hpage] using hrow)
    · rename_i hpage
      obtain ⟨t, hrow, hvalue⟩ := Option.map_eq_some_iff.1 (Except.ok.inj h)
      exact .string hpage (by simpa [row, hpage] using hrow) (pairs_iff.2 hvalue)
    · obtain ⟨t, hdate, hvalue⟩ := Editor.exists_of_map_ok h
      exact .date ‹_› hdate (pairs_iff.2 (Option.some.inj hvalue))
  · intro h
    unfold selection
    cases h with
    | proposal hpage hrow => simp_all [row]
    | string hpage hrow h =>
      rw [pairs_iff] at h
      simp_all [row]
    | date hpage hdate h =>
      rw [hpage, hdate, ← pairs_iff.1 h]
      rfl

theorem isEmpty_iff : p.isEmpty = true ↔
    p.page = .proposals ∧ p.proposals = [] ∨ p.page = .strings ∧ p.strings = [] := by
  unfold isEmpty
  cases p.page with
  | proposals => simp
  | strings => simp
  | date => simp

theorem InRange.selection_eq_none_iff (h : p.InRange) :
    p.selection = .ok none ↔ p.isEmpty = true := by
  constructor
  · intro hnone
    by_contra hfull
    have hnoDate : p.page ≠ .date := by
      intro hpage
      rw [selection, hpage] at hnone
      obtain ⟨t, -, ht⟩ := Editor.exists_of_map_ok hnone
      cases ht
    obtain ⟨s, hs⟩ := (h.offers (Bool.eq_false_iff.2 hfull)).selected fun hpage =>
      absurd hpage hnoDate
    rw [hs] at hnone
    cases hnone
  · intro hempty
    rcases isEmpty_iff.1 hempty with ⟨hpage, hnone⟩ | ⟨hpage, hnone⟩
    · simp [selection, hpage, hnone]
    · simp [selection, hpage, hnone]

theorem selection_eq_error_iff {fault : CalendarFault} :
    p.selection = .error fault ↔ p.page = .date ∧ p.dateText = .error fault := by
  unfold selection
  cases hpage : p.page with
  | proposals => simp
  | strings => simp
  | date => cases p.dateText <;> simp [Except.map]

/-- However a picker got to where it is, its strings are those added since their page was turned to,
in order, and a row of each page is selected. So something is selected unless the page has nothing,
and it is that row, or the date if it can be written. -/
theorem run_selects_row (dateFormat : Text) (date : Date) {ops : List Operation}
    (h : ∀ op ∈ ops, op.Representable) :
    ∃ p, (Picker.new dateFormat date).run ops = .ok p ∧
      (p.strings.Pairwise fun s t => ¬t < s) ∧
      p.strings.Perm (ops.foldl Operation.added []) ∧ p.InRange ∧
      (p.selection = .ok none ↔
        p.page = .proposals ∧ p.proposals = [] ∨ p.page = .strings ∧ p.strings = []) ∧
      (∀ s, p.selection = .ok (some s) ↔ p.Selects s) ∧
      ∀ fault, p.selection = .error fault ↔ p.page = .date ∧ p.dateText = .error fault := by
  obtain ⟨p, hrun⟩ := exists_run h (Picker.new dateFormat date)
  have hholds := (holds_new dateFormat date).run hrun
  exact ⟨p, hrun, hholds.sorted, hholds.perm, hholds.inRange,
    hholds.inRange.selection_eq_none_iff.trans isEmpty_iff, fun _ => selection_eq_some_iff,
    fun _ => selection_eq_error_iff⟩

/-- Strings stay behind on their page, and a week less three days on, the date is for the proposal
that waits. -/
theorem run_selects_date :
    let q : Proposal := ⟨⟨0, 6⟩, [.fixed "before".toList, .placeholder], 0, .date, []⟩
    let ops : List Operation := [.addStrings [['c']] [], .turnTo .strings,
      .addStrings [['b'], ['a']] [], .turnTo .date, .offer q, .shift (-3), .next]
    (∀ op ∈ ops, op.Representable) ∧
      ∃ p, (Picker.new DateFormat.iso ⟨0, by decide⟩).run ops = .ok p ∧
        (p.strings.Pairwise fun s t => ¬t < s) ∧ p.strings.Perm [['b'], ['a']] ∧
        p.selection = .ok (some (.proposal q (some "1970-01-05".toList))) := by
  intro q ops
  have hops : ∀ op ∈ ops, op.Representable := by
    simp [ops, Operation.Representable, Date.maxShift]
  obtain ⟨p, hrun, hsorted, hperm, -, -, hselects, -⟩ :=
    run_selects_row DateFormat.iso ⟨0, by decide⟩ hops
  refine ⟨hops, p, hrun, hsorted, hperm, (hselects _).2 ?_⟩
  obtain rfl := Except.ok.inj hrun
  exact .date rfl (by decide +kernel) (.first rfl)

end Picker
end QueryLine
