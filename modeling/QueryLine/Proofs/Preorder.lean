import QueryLine.Proofs.Faithful

/-!
The terms of a query in preorder, and which of them are around a character. Their spans being nested
or apart, those around one character are each inside the one before, so the innermost of them is the
last.
-/

namespace QueryLine

def Span.Covers (s : Span) (i : Nat) : Prop := s.start ≤ i ∧ i < s.stop

instance (s : Span) (i : Nat) : Decidable (s.Covers i) :=
  inferInstanceAs (Decidable (s.start ≤ i ∧ i < s.stop))

namespace Span.Covers

variable {s outer : Span} {i : Nat}

theorem mono (h : s.Covers i) (hs : s.Within outer) : outer.Covers i :=
  ⟨Nat.le_trans hs.1 h.1, Nat.lt_of_lt_of_le h.2 hs.2⟩

theorem start (h : s.Covers i) : s.Covers s.start :=
  ⟨Nat.le_refl _, Nat.lt_of_le_of_lt h.1 h.2⟩

end Span.Covers

namespace Term

mutual
/-- A term and all below it, each before its parts, and these in order. -/
def preorder : Term → List Term
  | comparison s property comparator value =>
    comparison s property comparator value :: value.preorder
  | negation s operand => negation s operand :: operand.preorder
  | conjunction s members => conjunction s members :: preorderAll members
  | disjunction s members => disjunction s members :: preorderAll members
  | literal s w => [literal s w]
  | resource s uri => [resource s uri]
  | resourceType s name => [resourceType s name]

def preorderAll : List Term → List Term
  | [] => []
  | t :: ts => t.preorder ++ preorderAll ts
end

theorem preorderAll_eq (ts : List Term) : preorderAll ts = ts.flatMap preorder := by
  induction ts with
  | nil => rfl
  | cons t ts ih => rw [preorderAll, ih, List.flatMap_cons]

theorem preorder_eq (t : Term) : t.preorder = t :: t.parts.flatMap preorder := by
  rw [← preorderAll_eq]
  cases t with
  | comparison s property comparator value => simp [preorder, preorderAll, parts]
  | negation s operand => simp [preorder, preorderAll, parts]
  | _ => rfl

theorem sizeOf_part {t p : Term} (h : p ∈ t.parts) : sizeOf p < sizeOf t := by
  cases t with
  | comparison s property comparator value =>
    obtain rfl := List.mem_singleton.1 h
    rw [comparison.sizeOf_spec]
    omega
  | negation s operand =>
    obtain rfl := List.mem_singleton.1 h
    rw [negation.sizeOf_spec]
    omega
  | conjunction s members =>
    have hmember : sizeOf p < sizeOf members := List.sizeOf_lt_of_mem h
    rw [conjunction.sizeOf_spec]
    omega
  | disjunction s members =>
    have hmember : sizeOf p < sizeOf members := List.sizeOf_lt_of_mem h
    rw [disjunction.sizeOf_spec]
    omega
  | _ => cases h

theorem induction_parts {P : Term → Prop} (h : ∀ t, (∀ p ∈ t.parts, P p) → P t) (t : Term) : P t :=
  h t fun p _ => induction_parts h p
termination_by sizeOf t
decreasing_by exact sizeOf_part ‹_›

/-- Somewhere below `t`, but not `t` itself. -/
def Below (t u : Term) : Prop := ∃ p ∈ t.parts, p.Within u

variable {mode : Mode} {text : Text} {i : Nat} {t u : Term}

theorem Below.within (h : t.Below u) : t.Within u := by
  obtain ⟨p, hp, hu⟩ := h
  exact Within.trans (.part .self hp) hu

theorem Within.sizeOf_le (h : t.Within u) : sizeOf u ≤ sizeOf t := by
  induction h with
  | self => exact Nat.le_refl _
  | part _ hv ih => exact Nat.le_trans (Nat.le_of_lt (sizeOf_part hv)) ih

theorem Within.not_below (h : t.Within u) : ¬u.Below t := by
  rintro ⟨p, hp, ht⟩
  have hpart := sizeOf_part hp
  have hup := h.sizeOf_le
  have hdown := ht.sizeOf_le
  omega

theorem mem_preorder (t : Term) : u ∈ t.preorder ↔ t.Within u := by
  induction t using induction_parts with
  | h t ih =>
    rw [preorder_eq, List.mem_cons, List.mem_flatMap]
    constructor
    · rintro (rfl | ⟨p, hp, hu⟩)
      · exact .self
      · exact Below.within ⟨p, hp, (ih p hp).1 hu⟩
    · intro hu
      refine hu.exists_part.imp id ?_
      rintro ⟨p, hp, hpu⟩
      exact ⟨p, hp, (ih p hp).2 hpu⟩

theorem Faithful.span_within (h : t.Faithful mode text) (hu : t.Within u) :
    u.span.Within t.span := by
  induction hu with
  | self => exact ⟨Nat.le_refl _, Nat.le_refl _⟩
  | part hu hv ih =>
    have hpart := (h _ hu).parts_within _ hv
    exact ⟨Nat.le_trans ih.1 hpart.1, Nat.le_trans hpart.2 ih.2⟩

theorem Fits.parts_apart (h : t.Fits mode text) :
    t.parts.Pairwise fun p q => p.stop ≤ q.span.start := by
  cases t with
  | comparison s property comparator value => exact List.pairwise_singleton _ _
  | negation s operand => exact List.pairwise_singleton _ _
  | conjunction s members => exact h.quotes.ordered.imp fun hordered => hordered.2.1
  | disjunction s members => exact h.quotes.ordered.imp fun hordered => hordered.2.1
  | _ => exact List.Pairwise.nil

/-- Of two terms around a character the later one is below the other. -/
theorem Faithful.pairwise_below (h : t.Faithful mode text) (i : Nat) :
    t.preorder.Pairwise fun u v => u.span.Covers i → v.span.Covers i → u.Below v := by
  induction t using induction_parts with
  | h t ih =>
    rw [preorder_eq, List.pairwise_cons, List.pairwise_flatMap]
    refine ⟨fun v hv _ _ => ?_, fun p hp => ih p hp (h.part hp), ?_⟩
    · obtain ⟨p, hp, hpv⟩ := List.mem_flatMap.1 hv
      exact ⟨p, hp, (mem_preorder p).1 hpv⟩
    · -- terms of two parts are not around the same character
      apply h.fits.parts_apart.imp_of_mem
      intro p q hp hq hapart u hu v hv hui hvi
      have hpi := hui.mono ((h.part hp).span_within ((mem_preorder p).1 hu))
      have hqi := hvi.mono ((h.part hq).span_within ((mem_preorder q).1 hv))
      exact absurd (Nat.lt_of_lt_of_le hpi.2 hapart) (Nat.not_lt.2 hqi.1)

/-- Of the terms `us` the one around the character at `i` that is below all others there. -/
structure Innermost (us : List Term) (i : Nat) (u : Term) : Prop where
  mem : u ∈ us
  covers : u.span.Covers i
  inside : ∀ v ∈ us, v.span.Covers i → v.Within u

/-- The last of the terms around the character at `i`, with its number. -/
def last? (us : List Term) (i : Nat) : Option (Term × Nat) :=
  (us.zipIdx.filter fun (u, _) => u.span.Covers i).getLast?

theorem last?_append_singleton (us : List Term) (u : Term) (i : Nat) :
    last? (us ++ [u]) i = if u.span.Covers i then some (u, us.length) else last? us i := by
  unfold last?
  rw [List.zipIdx_append, List.filter_append]
  by_cases hu : u.span.Covers i
  · simp [hu]
  · simp [hu]

theorem last?_eq_none_iff {us : List Term} :
    last? us i = none ↔ ∀ u ∈ us, ¬u.span.Covers i := by
  unfold last?
  rw [List.getLast?_eq_none_iff, List.filter_eq_nil_iff]
  constructor
  · intro h u hu hui
    obtain ⟨k, hk⟩ := List.getElem?_of_mem hu
    exact h (u, k) (List.mem_zipIdx_iff_getElem?.2 hk) (decide_eq_true hui)
  · rintro h ⟨u, k⟩ hu hui
    exact h u (List.fst_mem_of_mem_zipIdx hu) (of_decide_eq_true hui)

/-- Among terms each below those before it the innermost is the last. -/
theorem last?_eq_some_iff {us : List Term} {k : Nat}
    (h : us.Pairwise fun u v => u.span.Covers i → v.span.Covers i → u.Below v) :
    last? us i = some (u, k) ↔ us[k]? = some u ∧ Innermost us i u := by
  let around := us.zipIdx.filter fun (u, _) => u.span.Covers i
  have hmem : ∀ v j, (v, j) ∈ around ↔ us[j]? = some v ∧ v.span.Covers i := by
    intro v j
    rw [List.mem_filter, List.mem_zipIdx_iff_getElem?, decide_eq_true_eq]
  have hbelow : around.Pairwise fun a b => a.1.Below b.1 := by
    rw [← List.zipIdx_map_fst 0 us, List.pairwise_map] at h
    apply (h.filter _).imp_of_mem
    intro a b ha hb hab
    exact hab ((hmem a.1 a.2).1 ha).2 ((hmem b.1 b.2).1 hb).2
  constructor
  · intro hlast
    obtain ⟨before, hbefore⟩ := List.getLast?_eq_some_iff.1 hlast
    change around = before ++ [(u, k)] at hbefore
    rw [hbefore] at hmem hbelow
    obtain ⟨hk, hui⟩ := (hmem u k).1 (List.mem_append_right _ (List.mem_singleton_self _))
    refine ⟨hk, List.mem_of_getElem? hk, hui, ?_⟩
    intro v hv hvi
    obtain ⟨j, hj⟩ := List.getElem?_of_mem hv
    rcases List.mem_append.1 ((hmem v j).2 ⟨hj, hvi⟩) with hfirst | hself
    · have hvu := (List.pairwise_append.1 hbelow).2.2 _ hfirst _ (List.mem_singleton_self _)
      exact hvu.within
    · obtain ⟨rfl, -⟩ := Prod.mk.inj (List.mem_singleton.1 hself)
      exact .self
  · rintro ⟨hk, hu⟩
    have hin := (hmem u k).2 ⟨hk, hu.covers⟩
    -- whatever is last is around the character, so `u` is below it or is it
    obtain ⟨before, last, hbefore⟩ :=
      (List.eq_nil_or_concat around).resolve_left (List.ne_nil_of_mem hin)
    rw [List.concat_eq_append] at hbefore
    change around.getLast? = some (u, k)
    rw [hbefore] at hmem hbelow hin ⊢
    rw [List.getLast?_concat]
    rcases List.mem_append.1 hin with hfirst | hself
    · have hbehind := (List.pairwise_append.1 hbelow).2.2 _ hfirst _ (List.mem_singleton_self _)
      obtain ⟨hj, hlast⟩ :=
        (hmem last.1 last.2).1 (List.mem_append_right _ (List.mem_singleton_self _))
      exact absurd hbehind (hu.inside last.1 (List.mem_of_getElem? hj) hlast).not_below
    · rw [List.mem_singleton.1 hself]

end Term
end QueryLine
