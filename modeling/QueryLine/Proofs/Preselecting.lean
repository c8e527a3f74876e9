import QueryLine.Completion.Picker

/-!
Which string is selected for what is typed. The strings are in the order of their characters, but
the first one behind what is typed is looked for in lower case, so a string that goes on with what
is typed can stand behind one that has nothing to do with it.
-/

namespace QueryLine

namespace Text

/-- A text in front of another is in front of all that goes on with it, or goes on with it too. -/
theorem lt_of_lt_of_not_prefix {p s t : Text} (hs : p <+: s) (hlt : p < t) (ht : ¬p <+: t) :
    s < t := by
  induction p generalizing s t with
  | nil => exact absurd (List.nil_prefix) ht
  | cons c p ih =>
    cases s with
    | nil => cases List.prefix_nil.1 hs
    | cons a s =>
      cases t with
      | nil => exact absurd hlt (List.not_lt_nil _)
      | cons b t =>
        obtain ⟨rfl, hrest⟩ := List.cons_prefix_cons.1 hs
        rcases List.cons_lt_cons_iff.1 hlt with hfirst | ⟨rfl, hbehind⟩
        · exact List.cons_lt_cons_iff.2 (.inl hfirst)
        · have hnot : ¬p <+: t := fun h => ht (List.cons_prefix_cons.2 ⟨rfl, h⟩)
          exact List.cons_lt_cons_iff.2 (.inr ⟨rfl, ih hrest hbehind hnot⟩)

theorem lt_of_prefix_of_ne {p s : Text} (h : p <+: s) (hne : p ≠ s) : p < s := by
  apply Decidable.byContradiction
  intro hnot
  exact hne (List.le_antisymm h.le (List.not_lt.1 hnot))

theorem startsWithLoosely_iff {s typed : Text} :
    s.startsWithLoosely typed = true ↔ lower typed <+: lower s := List.isPrefixOf_iff_prefix

/-- Goes on with what is typed, whatever the case. -/
structure Continues (typed s : Text) : Prop where
  starts : s.startsWithLoosely typed = true
  more : lower s ≠ lower typed

/-- Behind what is typed in lower case, and behind all that goes on with it. -/
structure Passes (typed s : Text) : Prop where
  behind : lower typed < lower s
  differs : s.startsWithLoosely typed = false

instance (typed s : Text) : Decidable (typed.Continues s) :=
  decidable_of_iff (s.startsWithLoosely typed = true ∧ lower s ≠ lower typed)
    ⟨fun h => ⟨h.1, h.2⟩, fun h => ⟨h.1, h.2⟩⟩

instance (typed s : Text) : Decidable (typed.Passes s) :=
  decidable_of_iff (lower typed < lower s ∧ s.startsWithLoosely typed = false)
    ⟨fun h => ⟨h.1, h.2⟩, fun h => ⟨h.1, h.2⟩⟩

theorem Continues.behind {typed s : Text} (h : typed.Continues s) : lower typed < lower s :=
  lt_of_prefix_of_ne (startsWithLoosely_iff.1 h.starts) h.more.symm

theorem Passes.lt {typed s t : Text} (hs : typed.Continues s) (ht : typed.Passes t) :
    lower s < lower t := by
  apply lt_of_lt_of_not_prefix (startsWithLoosely_iff.1 hs.starts) ht.behind
  intro hprefix
  rw [← startsWithLoosely_iff, ht.differs] at hprefix
  contradiction

theorem continues_or_passes {typed s : Text} (h : lower typed < lower s) :
    typed.Continues s ∨ typed.Passes s := by
  cases hstarts : s.startsWithLoosely typed with
  | false => exact .inr ⟨h, hstarts⟩
  | true =>
    refine .inl ⟨hstarts, fun heq => ?_⟩
    rw [heq] at h
    exact List.lt_irrefl _ h

/-- The first of the strings, in the order of their characters, that is behind what is typed where
both are in lower case. -/
structure FirstBehind (typed : Text) (strings : List Text) (s : Text) : Prop where
  mem : s ∈ strings
  behind : lower typed < lower s
  first : ∀ t ∈ strings, lower typed < lower t → ¬t < s

namespace FirstBehind

variable {typed s : Text} {strings : List Text}

theorem unique {t : Text} (hs : FirstBehind typed strings s) (ht : FirstBehind typed strings t) :
    s = t :=
  List.le_antisymm (List.not_lt.1 (hs.first t ht.mem ht.behind))
    (List.not_lt.1 (ht.first s hs.mem hs.behind))

/-- The first one goes on with what is typed, unless the strings that pass it begin before those
that go on with it. -/
theorem starts_iff (h : FirstBehind typed strings s) : s.startsWithLoosely typed = true ↔
    ∀ t ∈ strings, typed.Passes t → ∃ u ∈ strings, typed.Continues u ∧ u < t := by
  rcases continues_or_passes h.behind with hs | hs
  · refine iff_of_true hs.starts fun t ht hpasses => ⟨s, h.mem, hs, ?_⟩
    apply Decidable.byContradiction
    intro hnot
    have hle := List.not_lt.1 (h.first t ht hpasses.behind)
    obtain rfl := List.le_antisymm hle (List.not_lt.1 hnot)
    exact List.lt_irrefl _ (hpasses.lt hs)
  · have hnot : ¬s.startsWithLoosely typed = true := by simp [hs.differs]
    refine iff_of_false hnot fun hbefore => ?_
    obtain ⟨u, hu, hcontinues, hlt⟩ := hbefore s h.mem hs
    exact h.first u hu hcontinues.behind hlt

theorem starts_of_monotone (h : FirstBehind typed strings s)
    (hsome : ∃ t ∈ strings, typed.Continues t)
    (hcase : ∀ t ∈ strings, ∀ u ∈ strings, lower t < lower u → t < u) :
    s.startsWithLoosely typed = true := by
  obtain ⟨t, ht, hcontinues⟩ := hsome
  exact h.starts_iff.2 fun u hu hpasses =>
    ⟨t, ht, hcontinues, hcase t ht u hu (hpasses.lt hcontinues)⟩

end FirstBehind
end Text

namespace Picker

theorem exists_firstBehind {strings : List Text} {typed : Text} (p : Picker)
    (h : ∃ s ∈ strings, Text.lower typed < Text.lower s) :
    ∃ selected, ((p.turnTo .strings).addStrings strings typed).selection =
        .ok (some (.value selected)) ∧ typed.FirstBehind strings selected := by
  obtain ⟨s, hs, hbehind⟩ := h
  have hmem : ∀ t, t ∈ Text.sort strings ↔ t ∈ strings := fun t => (Text.sort_perm strings).mem_iff
  cases hfind : (Text.sort strings).findIdx? fun t => decide (Text.lower typed < Text.lower t) with
  | none =>
    have hnone := List.findIdx?_eq_none_iff.1 hfind s ((hmem s).2 hs)
    simp [hbehind] at hnone
  | some i =>
    obtain ⟨hi, hfound, hbefore⟩ := List.findIdx?_eq_some_iff_getElem.1 hfind
    rw [decide_eq_true_eq] at hfound
    have hin : (Text.sort strings)[i] ∈ strings := (hmem _).1 (List.getElem_mem hi)
    refine ⟨(Text.sort strings)[i], ?_, hin, hfound, fun t ht hafter => ?_⟩
    · simp [selection, addStrings, turnTo, withValue, hfind, hi]
    · -- what is behind what is typed is not found before the first one
      obtain ⟨j, hj, rfl⟩ := List.getElem_of_mem ((hmem t).2 ht)
      by_cases hji : j < i
      · exact absurd (decide_eq_true hafter) (hbefore j hji)
      · rcases Nat.eq_or_lt_of_le (Nat.le_of_not_lt hji) with rfl | hij
        · exact List.lt_irrefl _
        · exact List.pairwise_iff_getElem.1 (Text.pairwise_sort strings) i j hi hj hij

/-- Where a string goes on with what is typed, the first string behind what is typed is selected,
with both in lower case. It goes on with what is typed as well exactly if no string that passes it
begins before all that go on with it, and so always where the order does not hang on the case. -/
theorem preselects_typed_iff {strings : List Text} {typed : Text} (p : Picker)
    (h : ∃ s ∈ strings, typed.Continues s) :
    ∃ selected, ((p.turnTo .strings).addStrings strings typed).selection =
        .ok (some (.value selected)) ∧
      typed.FirstBehind strings selected ∧
      (selected.startsWithLoosely typed = true ↔
        ∀ s ∈ strings, typed.Passes s → ∃ t ∈ strings, typed.Continues t ∧ t < s) ∧
      ((∀ s ∈ strings, ∀ t ∈ strings, Text.lower s < Text.lower t → s < t) →
        selected.startsWithLoosely typed = true) := by
  obtain ⟨s, hs, hcontinues⟩ := h
  obtain ⟨selected, hselection, hfirst⟩ := p.exists_firstBehind ⟨s, hs, hcontinues.behind⟩
  have hsome : ∃ s ∈ strings, typed.Continues s := ⟨s, hs, hcontinues⟩
  exact ⟨selected, hselection, hfirst, hfirst.starts_iff, hfirst.starts_of_monotone hsome⟩

/-- Typed `ap`: `Apfel` is selected, for it is in front of `Zeta`, and `apple` is not. -/
theorem preselects_typed_capital :
    let typed : Text := ['a', 'p']
    let strings : List Text :=
      [['a', 'p', 'p', 'l', 'e'], ['Z', 'e', 't', 'a'], ['A', 'p', 'f', 'e', 'l']]
    let p := Picker.new DateFormat.iso ⟨0, by decide⟩
    (∃ s ∈ strings, typed.Continues s) ∧
      ∃ selected, ((p.turnTo .strings).addStrings strings typed).selection =
          .ok (some (.value selected)) ∧ selected.startsWithLoosely typed = true := by
  intro typed strings p
  have hsome : ∃ s ∈ strings, typed.Continues s := by decide +kernel
  obtain ⟨selected, hselection, -, hstarts, -⟩ := preselects_typed_iff p hsome
  exact ⟨hsome, selected, hselection, hstarts.2 (by decide +kernel)⟩

/-- Typed `ap` where there is `apple`: `Zeta` is selected, for capitals are in front. -/
theorem preselects_other_capital :
    let typed : Text := ['a', 'p']
    let strings : List Text := [['a', 'p', 'p', 'l', 'e'], ['Z', 'e', 't', 'a']]
    let p := Picker.new DateFormat.iso ⟨0, by decide⟩
    (∃ s ∈ strings, typed.Continues s) ∧
      ∃ selected, ((p.turnTo .strings).addStrings strings typed).selection =
          .ok (some (.value selected)) ∧ selected.startsWithLoosely typed = false := by
  intro typed strings p
  have hsome : ∃ s ∈ strings, typed.Continues s := by decide +kernel
  have hzeta : typed.FirstBehind strings ['Z', 'e', 't', 'a'] :=
    ⟨by decide +kernel, by decide +kernel, by decide +kernel⟩
  obtain ⟨selected, hselection, hfirst⟩ := p.exists_firstBehind ⟨_, hzeta.mem, hzeta.behind⟩
  obtain rfl := hfirst.unique hzeta
  exact ⟨hsome, _, hselection, by decide +kernel⟩

end Picker
end QueryLine
