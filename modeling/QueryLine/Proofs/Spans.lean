import QueryLine.Proofs.Consecutive
import QueryLine.Proofs.Words
import QueryLine.Query.Reading

/-!
The spans of terms. A term fits its text if it says what its span covers and its parts lie inside;
what is read from the words between two positions fits, and stands between them.
-/

namespace QueryLine

namespace Span

def cut (s : Span) (text : Text) : Text := (text.drop s.start).take s.length

def Within (s outer : Span) : Prop := outer.start ≤ s.start ∧ s.stop ≤ outer.stop

theorem between_add (start length : Nat) : between start (start + length) = ⟨start, length⟩ := by
  rw [between, Nat.add_sub_cancel_left]

theorem stop_between {start stop : Nat} (h : start ≤ stop) : (between start stop).stop = stop :=
  Nat.add_sub_cancel' h

theorem cut_of_prefix {text w : Text} {start : Nat} (h : w <+: text.drop start) :
    (⟨start, w.length⟩ : Span).cut text = w := (List.prefix_iff_eq_take.1 h).symm

theorem prefix_cut {text w : Text} {s : Span} (h : w <+: text.drop s.start)
    (hlength : w.length ≤ s.length) : w <+: s.cut text := List.prefix_take_iff.2 ⟨h, hlength⟩

end Span

namespace Term

def parts : Term → List Term
  | comparison _ _ _ value => [value]
  | negation _ operand => [operand]
  | conjunction _ members | disjunction _ members => members
  | literal .. | resource .. | resourceType .. => []

/-- The terms of `t`: itself and those below it, at any depth. -/
inductive Within (t : Term) : Term → Prop
  | self : Within t t
  | part {u v : Term} (hu : Within t u) (hv : v ∈ u.parts) : Within t v

/-- A word that is a pattern for names of files. Its value is the word, too. -/
def IsNamePattern (mode : Mode) : Term → Prop
  | comparison s property comparator (literal s' w) =>
    mode = .filenames ∧ property = "filename".toList ∧ comparator = .contains ∧ s' = s ∧
      ∃ c ∈ w, c = '*' ∨ c = '?'
  | _ => False

/-- Several members, one behind the other, from the start of a span to its end. -/
structure Fill (members : List Term) (s : Span) : Prop where
  several : 2 ≤ members.length
  ordered : members.Pairwise fun t u =>
    t.span.start < u.span.start ∧ t.stop ≤ u.span.start ∧ t.stop < u.stop
  start_eq : members.head?.map (·.span.start) = some s.start
  stop_eq : members.getLast?.map stop = some s.stop

/-- The term says what its span covers. -/
def Quotes (mode : Mode) (text : Text) : Term → Prop
  | comparison s property comparator value =>
    IsNamePattern mode (comparison s property comparator value) ∨
      ∃ spelling, (spelling, comparator) ∈ Comparator.spellings ∧
        property ++ spelling <+: s.cut text ∧
        s.start + (property ++ spelling).length ≤ value.span.start
  | negation .. => True
  | conjunction s members | disjunction s members => Fill members s
  | literal s w => s.cut text = w
  | resource s uri => s.cut text = '<' :: uri ++ ['>']
  | resourceType s name => name ≠ [] ∧ name <:+ s.cut text

structure Fits (mode : Mode) (text : Text) (t : Term) : Prop where
  stop_le : t.stop ≤ text.length
  parts_within : ∀ u ∈ t.parts, u.span.Within t.span
  quotes : t.Quotes mode text

/-- The term fits, and all below it. -/
def Faithful (mode : Mode) (text : Text) (t : Term) : Prop :=
  ∀ u, t.Within u → u.Fits mode text

/-- A faithful term between two positions. At the end of the text nothing may be left for it, as in
quotes that are opened and not closed. -/
structure In (mode : Mode) (text : Text) (lo : Nat) (t : Term) (hi : Nat) : Prop where
  faithful : t.Faithful mode text
  lo_le : lo ≤ t.span.start
  lo_lt : lo < t.stop
  stop_le : t.stop ≤ hi
  start_lt : t.span.start < hi ∨ text.length ≤ hi

variable {mode : Mode} {text : Text} {lo mid hi : Nat} {t u : Term}

theorem Within.exists_part (h : t.Within u) : u = t ∨ ∃ p ∈ t.parts, p.Within u := by
  induction h with
  | self => exact .inl rfl
  | part hu hv ih =>
    rcases ih with rfl | ⟨p, hp, hpu⟩
    · exact .inr ⟨_, hv, .self⟩
    · exact .inr ⟨p, hp, .part hpu hv⟩

theorem Within.trans {v : Term} (htu : t.Within u) (huv : u.Within v) : t.Within v := by
  induction huv with
  | self => exact htu
  | part _ hv ih => exact .part ih hv

theorem Faithful.fits (h : t.Faithful mode text) : t.Fits mode text := h t .self

theorem Faithful.part (h : t.Faithful mode text) (hu : u ∈ t.parts) : u.Faithful mode text :=
  fun v hv => h v (Within.trans (.part .self hu) hv)

theorem Faithful.of_parts (h : t.Fits mode text) (hparts : ∀ p ∈ t.parts, p.Faithful mode text) :
    t.Faithful mode text := by
  intro u hu
  rcases hu.exists_part with rfl | ⟨p, hp, hpu⟩
  · exact h
  · exact hparts p hp u hpu

theorem extends_in (mode : Mode) (text : Text) : Extends (In mode text) :=
  fun _ _ _ _ hle h =>
    { h with
      lo_le := Nat.le_trans hle h.lo_le
      lo_lt := Nat.lt_of_le_of_lt hle h.lo_lt }

theorem In.to_le (h : t.In mode text lo mid) (hle : mid ≤ hi) : t.In mode text lo hi := by
  have hstop := h.stop_le
  have hstart := h.start_lt
  exact { h with stop_le := by omega, start_lt := by omega }

theorem In.of_bounds {start stop : Nat} (h : t.Faithful mode text) (hstart : t.span.start = start)
    (hstop : t.stop = stop) (hlt : start < stop) : t.In mode text start stop := by
  subst hstart hstop
  exact ⟨h, Nat.le_refl _, hlt, Nat.le_refl _, .inl hlt⟩

theorem In.before (ht : t.In mode text lo mid) (hu : u.In mode text mid hi) :
    t.span.start < u.span.start ∧ t.stop ≤ u.span.start ∧ t.stop < u.stop := by
  obtain ⟨-, -, -, htstop, htstart⟩ := ht
  obtain ⟨hfaithful, hule, hult, -, -⟩ := hu
  -- `t` starts before `mid`, or `mid` is the end of the text, where `u` cannot stand
  have hlength := hfaithful.fits.stop_le
  omega

section Leaf

variable {w : Text} {start : Nat}

/-- Without parts a term only has to say what its span covers. -/
theorem faithful_of_quotes (hparts : t.parts = []) (hstop : t.stop ≤ text.length)
    (hquotes : t.Quotes mode text) : t.Faithful mode text := by
  refine .of_parts ⟨hstop, ?_, hquotes⟩ ?_
  · simp [hparts]
  · simp [hparts]

theorem faithful_literal (h : w <+: text.drop start) (hstart : start ≤ text.length) :
    (literal ⟨start, w.length⟩ w).Faithful mode text := by
  have hlength := h.length_le
  rw [List.length_drop] at hlength
  refine faithful_of_quotes rfl ?_ (Span.cut_of_prefix h)
  change start + w.length ≤ text.length
  omega

theorem faithful_resourceType {name : Text} (h : w <+: text.drop start) (hne : name ≠ [])
    (hname : name <:+ w) : (resourceType ⟨start, w.length⟩ name).Faithful mode text := by
  have hlength := h.length_le
  have hpos := List.length_pos_iff.2 hne
  have hle := hname.length_le
  rw [List.length_drop] at hlength
  refine faithful_of_quotes rfl ?_ ⟨hne, ?_⟩
  · change start + w.length ≤ text.length
    omega
  · rwa [Span.cut_of_prefix h]

theorem faithful_namePattern (h : w <+: text.drop start) (hwild : ∃ c ∈ w, c = '*' ∨ c = '?') :
    (comparison ⟨start, w.length⟩ "filename".toList .contains
      (literal ⟨start, w.length⟩ w)).Faithful .filenames text := by
  have hpos : 0 < w.length := hwild.elim fun c h => List.length_pos_of_mem h.1
  have hlength := h.length_le
  rw [List.length_drop] at hlength
  have hliteral : (literal ⟨start, w.length⟩ w).Faithful .filenames text :=
    faithful_literal h (by omega)
  refine .of_parts ⟨hliteral.fits.stop_le, ?_, .inl ⟨rfl, rfl, rfl, rfl, hwild⟩⟩ ?_
  · simp only [parts, List.mem_singleton, forall_eq]
    exact ⟨Nat.le_refl _, Nat.le_refl _⟩
  · simpa [parts] using hliteral

theorem faithful_negation (h : t.Faithful mode text) (hstart : start ≤ t.span.start) :
    (negation (.between start t.stop) t).Faithful mode text := by
  have hle : t.span.start ≤ t.stop := Nat.le_add_right _ _
  have hends : (Span.between start t.stop).stop = t.stop := Span.stop_between (by omega)
  refine .of_parts ⟨by rw [stop, span, hends]; exact h.fits.stop_le, ?_, trivial⟩ ?_
  · simp only [parts, List.mem_singleton, forall_eq]
    exact ⟨hstart, Nat.le_of_eq hends.symm⟩
  · simpa [parts] using h

theorem faithful_comparison {property spelling : Text} {comparator : Comparator} {stop : Nat}
    (hspelling : (spelling, comparator) ∈ Comparator.spellings)
    (hfront : property ++ spelling <+: text.drop start) (hvalue : t.Faithful mode text)
    (hfrom : start + (property ++ spelling).length ≤ t.span.start) (hto : t.stop ≤ stop)
    (hstop : stop ≤ text.length) :
    (comparison (.between start stop) property comparator t).Faithful mode text := by
  have hle : t.span.start ≤ t.stop := Nat.le_add_right _ _
  have hends : (Span.between start stop).stop = stop := Span.stop_between (by omega)
  refine .of_parts ⟨by rwa [Term.stop, span, hends], ?_, .inr ⟨spelling, hspelling, ?_, hfrom⟩⟩ ?_
  · simp only [parts, List.mem_singleton, forall_eq]
    refine ⟨Nat.le_trans (Nat.le_add_right start _) hfrom, ?_⟩
    rw [span, hends]
    exact hto
  · apply Span.prefix_cut hfront
    change _ ≤ stop - start
    omega
  · simpa [parts] using hvalue

end Leaf

end Term

namespace Restriction

theorem exists_spelling {w : Text} {r : Restriction} (h : ofWord? w = some r) :
    ∃ spelling, (spelling, r.comparator) ∈ Comparator.spellings ∧
      w = r.property ++ spelling ++ r.value := by
  unfold ofWord? at h
  dsimp only at h
  split at h
  · cases h
  · obtain ⟨⟨comparator, value⟩, hcomparator, rfl⟩ := Option.map_eq_some_iff.1 h
    obtain ⟨⟨spelling, c⟩, hspelling, hfound⟩ := List.exists_of_findSome?_eq_some hcomparator
    dsimp only at hfound
    split at hfound
    · rename_i hfront
      obtain ⟨rfl, rfl⟩ := Prod.mk.inj (Option.some.inj hfound)
      refine ⟨spelling, hspelling, ?_⟩
      obtain ⟨value, hvalue⟩ := List.isPrefixOf_iff_prefix.1 hfront
      have htake := List.prefix_iff_eq_append.1 (List.takeWhile_prefix isPropertyChar (l := w))
      conv => lhs; rw [← htake, ← hvalue]
      rw [← hvalue, List.drop_left, List.append_assoc]
    · cases hfound

end Restriction

namespace Operand

/-- An operand between two positions, its term as far as its last token reaches. -/
structure In (mode : Mode) (text : Text) (lo : Nat) (o : Operand) (hi : Nat) : Prop where
  lo_lt : lo < o.stop
  stop_le : o.stop ≤ hi
  term_in : ∀ t, o.term = some t → t.In mode text lo o.stop

variable {mode : Mode} {text : Text} {lo mid hi start : Nat} {w : Text} {o : Operand}

theorem extends_in (mode : Mode) (text : Text) : Extends (In mode text) :=
  fun _ _ _ _ hle h =>
    { h with
      lo_lt := Nat.lt_of_le_of_lt hle h.lo_lt
      term_in := fun t ht => Term.extends_in mode text hle (h.term_in t ht) }

theorem in_of_term {t : Term} {valueAt : Option Nat} (h : t.In mode text lo hi) (hlt : lo < hi) :
    (⟨some t, [], hi, valueAt⟩ : Operand).In mode text lo hi := by
  refine ⟨hlt, Nat.le_refl _, ?_⟩
  rintro u ⟨⟩
  exact h

theorem in_ofPlainWord (hne : w ≠ []) (hw : w <+: text.drop start) :
    (ofPlainWord mode start w).In mode text start (start + w.length) := by
  have hpos := List.length_pos_iff.2 hne
  have hlength := hw.length_le
  rw [List.length_drop] at hlength
  have hlt : start < start + w.length := Nat.lt_add_of_pos_right hpos
  apply in_of_term _ hlt
  split
  · rename_i hpattern
    rw [Bool.and_eq_true, decide_eq_true_eq, List.any_eq_true] at hpattern
    obtain ⟨rfl, c, hc, hwild⟩ := hpattern
    rw [Bool.or_eq_true, decide_eq_true_eq, decide_eq_true_eq] at hwild
    exact .of_bounds (Term.faithful_namePattern hw ⟨c, hc, hwild⟩) rfl rfl hlt
  · exact .of_bounds (Term.faithful_literal hw (by omega)) rfl rfl hlt

section Restriction

variable {r : Restriction} {spelling : Text}

theorem prefix_drop (hsplit : w = r.property ++ spelling ++ r.value) (hw : w <+: text.drop start) :
    r.property ++ spelling <+: text.drop start ∧
      r.value <+: text.drop (start + w.length - r.value.length) := by
  obtain ⟨rest, hrest⟩ := hw
  have hvalue : start + w.length - r.value.length =
      start + (r.property ++ spelling).length := by
    simp only [hsplit, List.length_append]
    omega
  rw [hvalue, ← List.drop_drop, ← hrest, hsplit, List.append_assoc, List.drop_left]
  exact ⟨List.prefix_append _ _, List.prefix_append _ _⟩

theorem in_comparison {value : Term} {stop : Nat} (hr : Restriction.ofWord? w = some r)
    (hw : w <+: text.drop start) (hvalue : value.Faithful mode text)
    (hfrom : start + w.length ≤ value.span.start + r.value.length) (hto : value.stop ≤ stop)
    (hstop : stop ≤ text.length) : (Term.comparison (.between start stop) r.property r.comparator
      value).In mode text start stop := by
  obtain ⟨spelling, hspelling, hsplit⟩ := Restriction.exists_spelling hr
  have hpos : 0 < spelling.length :=
    List.length_pos_iff.2 (Restriction.spelling_signs _ hspelling).1
  have hsum : w.length = (r.property ++ spelling).length + r.value.length := by
    rw [hsplit, List.length_append]
  have hle : value.span.start ≤ value.stop := Nat.le_add_right _ _
  have hlt : start < stop := by
    rw [List.length_append] at hsum
    omega
  exact .of_bounds (Term.faithful_comparison hspelling (prefix_drop hsplit hw).1 hvalue (by omega)
    hto hstop) rfl (Span.stop_between (Nat.le_of_lt hlt)) hlt

theorem faithful_value (hr : Restriction.ofWord? w = some r) (hw : w <+: text.drop start)
    (hstart : start ≤ text.length) :
    (Term.literal ⟨start + w.length - r.value.length, r.value.length⟩ r.value).Faithful
      mode text := by
  obtain ⟨spelling, -, hsplit⟩ := Restriction.exists_spelling hr
  have hlength := hw.length_le
  rw [List.length_drop] at hlength
  exact Term.faithful_literal (prefix_drop hsplit hw).2 (by omega)

theorem in_ofRestriction (hr : Restriction.ofWord? w = some r) (hw : w <+: text.drop start)
    (hne : w ≠ []) : (ofRestriction start w r none).In mode text start (start + w.length) := by
  obtain ⟨spelling, -, hsplit⟩ := Restriction.exists_spelling hr
  have hpos := List.length_pos_iff.2 hne
  have hlength := hw.length_le
  rw [List.length_drop] at hlength
  have hlt : start < start + w.length := Nat.lt_add_of_pos_right hpos
  have hsuffix : r.value <:+ w := by
    rw [hsplit]
    exact List.suffix_append _ _
  unfold ofRestriction
  dsimp only
  split
  · rename_i htype
    -- a type has a name, so its term is not empty
    have hname : r.value ≠ [] := by
      rw [Restriction.namesType, Bool.and_eq_true, Bool.and_eq_true] at htype
      simpa using htype.1.1
    exact in_of_term (.of_bounds (Term.faithful_resourceType hw hname hsuffix) rfl rfl hlt) hlt
  · have hvalue : start + w.length - r.value.length + r.value.length = start + w.length := by
      have := hsuffix.length_le
      omega
    have hin : (Term.comparison ⟨start, w.length⟩ r.property r.comparator (.literal
        ⟨start + w.length - r.value.length, r.value.length⟩ r.value)).In mode text start
          (start + w.length) := by
      rw [← Span.between_add start w.length]
      exact in_comparison hr hw (faithful_value hr hw (by omega)) (Nat.le_of_eq hvalue.symm)
        (Nat.le_of_eq hvalue) (by omega)
    exact in_of_term hin hlt

/-- The operand behind the word is its value; if that is an empty group, the value is empty. -/
theorem in_ofRestriction_some (hr : Restriction.ofWord? w = some r) (hw : w <+: text.drop start)
    (hne : w ≠ []) (hempty : r.value = []) (ho : o.In mode text mid hi)
    (hmid : start + w.length ≤ mid) (hhi : hi ≤ text.length) :
    (ofRestriction start w r (some o)).In mode text start hi := by
  obtain ⟨hlo, hstop, hterm⟩ := ho
  have hpos := List.length_pos_iff.2 hne
  have htype : r.namesType = false := by simp [Restriction.namesType, hempty]
  have hlt : start < o.stop := by omega
  have hmax : max o.stop (start + w.length) = o.stop := Nat.max_eq_left (by omega)
  unfold ofRestriction
  simp only [htype, Span.stop, hmax, Bool.false_eq_true, if_false]
  refine ⟨hlt, hstop, ?_⟩
  rintro t ⟨⟩
  cases hvalue : o.term with
  | none =>
    -- an empty group has no term, so the value is the nothing at the end of the word
    refine in_comparison hr hw (faithful_value hr hw (by omega)) ?_ ?_ (by omega)
    · simp [Term.span, hempty]
    · simp [Term.stop, Term.span, Span.stop, hempty]
      omega
  | some t =>
    obtain ⟨hfaithful, hfrom, -, hto, -⟩ := hterm t hvalue
    exact in_comparison hr hw hfaithful (by simp [hempty]; omega) hto (by omega)

end Restriction

end Operand

end QueryLine
