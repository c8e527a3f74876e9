import QueryLine.Editor.Basic
import QueryLine.Proofs.Extents
import QueryLine.Proofs.Faithful

/-!
What a query asks to have boxed, in the order in which it is asked for. Each candidate comes behind
those before it or inside, for the spans of terms do.
-/

namespace QueryLine

/-- A span to box, with the spans around it that are to be boxed too, outermost first. -/
structure Candidate where
  span : Span
  around : List Span
  deriving DecidableEq, Repr

namespace Term

mutual
/-- The restrictions inside a term that are members of a conjunction or disjunction, each before
those inside it, where `around` are the spans of those that the term is in. -/
def nested (around : List Span) : Term → List Candidate
  | comparison _ _ _ value => value.nested around
  | negation _ operand => operand.nested around
  | conjunction _ members | disjunction _ members => nestedAll around members
  | literal .. | resource .. | resourceType .. => []

def nestedAll (around : List Span) : List Term → List Candidate
  | [] => []
  | t :: ts =>
    (if t.isRestriction && 0 < t.span.length
      then ⟨t.span, around⟩ :: t.nested (around ++ [t.span])
      else t.nested around) ++ nestedAll around ts
end

/-- All that a query asks to have boxed. A query of a single term asks for that. -/
def candidates (t : Term) : List Candidate :=
  match t with
  | conjunction .. | disjunction .. | negation .. => t.nested []
  | _ => if 0 < t.span.length then [⟨t.span, []⟩] else []

mutual
theorem span_nested (around : List Span) : (t : Term) →
    (t.nested around).map Candidate.span = t.innerSpans
  | comparison _ _ _ value => span_nested around value
  | negation _ operand => span_nested around operand
  | conjunction _ members => span_nestedAll around members
  | disjunction _ members => span_nestedAll around members
  | literal .. | resource .. | resourceType .. => rfl

theorem span_nestedAll (around : List Span) : (ts : List Term) →
    (nestedAll around ts).map Candidate.span = memberSpans ts
  | [] => rfl
  | t :: ts => by
    rw [nestedAll, memberSpans, List.map_append, span_nestedAll around ts]
    split
    · rw [List.map_cons, span_nested _ t]
      rfl
    · rw [span_nested around t]
      rfl
end

theorem span_candidates (t : Term) : t.candidates.map Candidate.span = t.blockSpans := by
  cases t with
  | conjunction s members => exact span_nested [] (conjunction s members)
  | disjunction s members => exact span_nested [] (disjunction s members)
  | negation s operand => exact span_nested [] (negation s operand)
  | _ => exact apply_ite (List.map Candidate.span) _ _ _

end Term

structure Candidate.Next (n : Nat) (seen : List Span) (c : Candidate) : Prop where
  length_pos : 0 < c.span.length
  stop_le : c.span.stop ≤ n
  follows : ∀ x ∈ seen, c.span.Follows x
  around_eq : c.around = seen.filter (c.span.Within ·)

/-- Each candidate may come next after those before it. -/
def InOrder (n : Nat) : List Span → List Candidate → Prop
  | _, [] => True
  | seen, c :: cs => c.Next n seen ∧ InOrder n (seen ++ [c.span]) cs

/-- Whatever is between `lo` and `hi` may come next, and `around` is around it. -/
def Ready (seen around : List Span) (lo hi : Nat) : Prop :=
  ∀ s : Span, 0 < s.length → lo ≤ s.start → s.stop ≤ hi →
    (∀ x ∈ seen, s.Follows x) ∧ around = seen.filter (s.Within ·)

theorem inOrder_append {n : Nat} {seen : List Span} {cs ds : List Candidate} :
    InOrder n seen (cs ++ ds) ↔
      InOrder n seen cs ∧ InOrder n (seen ++ cs.map Candidate.span) ds := by
  induction cs generalizing seen with
  | nil => simp [InOrder]
  | cons c cs ih =>
    rw [List.cons_append, InOrder, InOrder, ih, and_assoc, List.map_cons, List.append_assoc]
    rfl

/-- Candidates in order, none of which ends behind `hi`. -/
structure Listed (n : Nat) (seen : List Span) (hi : Nat) (cs : List Candidate) : Prop where
  inOrder : InOrder n seen cs
  stop_le : ∀ c ∈ cs, c.span.stop ≤ hi

namespace Listed

variable {n mid hi : Nat} {seen : List Span} {c : Candidate} {cs ds : List Candidate}

theorem nil : Listed n seen hi [] := ⟨trivial, nofun⟩

theorem cons (hc : c.Next n seen) (hle : c.span.stop ≤ hi)
    (h : Listed n (seen ++ [c.span]) hi cs) : Listed n seen hi (c :: cs) := by
  refine ⟨⟨hc, h.inOrder⟩, fun d hd => ?_⟩
  rcases List.mem_cons.1 hd with rfl | hd
  · exact hle
  · exact h.stop_le d hd

theorem append (hcs : Listed n seen mid cs) (hle : mid ≤ hi)
    (hds : Listed n (seen ++ cs.map Candidate.span) hi ds) : Listed n seen hi (cs ++ ds) := by
  refine ⟨inOrder_append.2 ⟨hcs.inOrder, hds.inOrder⟩, fun d hd => ?_⟩
  rcases List.mem_append.1 hd with hd | hd
  · exact Nat.le_trans (hcs.stop_le d hd) hle
  · exact hds.stop_le d hd

end Listed

namespace Ready

variable {seen around : List Span} {lo mid hi : Nat}

theorem behind {n : Nat} {cs : List Candidate} (h : Ready seen around lo hi) (hmid : lo ≤ mid)
    (hcs : Listed n seen mid cs) : Ready (seen ++ cs.map Candidate.span) around mid hi := by
  intro s hpos hlo hhi
  obtain ⟨hfollows, haround⟩ := h s hpos (Nat.le_trans hmid hlo) hhi
  have hspans : ∀ x ∈ cs.map Candidate.span, x.stop ≤ mid := by
    intro x hx
    obtain ⟨c, hc, rfl⟩ := List.mem_map.1 hx
    exact hcs.stop_le c hc
  have hnone : (cs.map Candidate.span).filter (s.Within ·) = [] := by
    rw [List.filter_eq_nil_iff]
    intro x hx hwithin
    have hstop := hspans x hx
    have hover := (of_decide_eq_true hwithin).2
    have hlt : s.start < s.stop := Nat.lt_add_of_pos_right hpos
    omega
  refine ⟨fun x hx => ?_, by rw [List.filter_append, hnone, List.append_nil, haround]⟩
  rcases List.mem_append.1 hx with hx | hx
  · exact hfollows x hx
  · exact .inl (Nat.le_trans (hspans x hx) hlo)

theorem inside {s : Span} (h : Ready seen around s.start s.stop) :
    Ready (seen ++ [s]) (around ++ [s]) (s.start + 1) s.stop := by
  intro u hpos hlo hhi
  obtain ⟨hfollows, haround⟩ := h u hpos (Nat.le_of_succ_le hlo) hhi
  have hwithin : u.Within s := ⟨Nat.le_of_succ_le hlo, hhi⟩
  refine ⟨fun x hx => ?_, ?_⟩
  · rcases List.mem_append.1 hx with hx | hx
    · exact hfollows x hx
    · rw [List.mem_singleton.1 hx]
      exact .inr ⟨hlo, hhi⟩
  · have hone : [s].filter (u.Within ·) = [s] :=
      List.filter_cons_of_pos (decide_eq_true hwithin)
    rw [List.filter_append, ← haround, hone]

theorem mono {lo' hi' : Nat} (h : Ready seen around lo hi) (hlo : lo ≤ lo') (hhi : hi' ≤ hi) :
    Ready seen around lo' hi' :=
  fun s hpos hstart hstop => h s hpos (Nat.le_trans hlo hstart) (Nat.le_trans hstop hhi)

end Ready

namespace Term

variable {mode : Mode} {text : Text}

theorem parts_inside {t : Term} (h : t.Faithful mode text) (ht : t.isRestriction = true) :
    (∀ around, t.nested around = []) ∨ ∀ p ∈ t.parts, t.span.start + 1 ≤ p.span.start := by
  cases t with
  | comparison s property comparator value =>
    rcases h.fits.quotes with hpattern | ⟨spelling, hspelling, -, hfrom⟩
    · -- a pattern starts where its value does, but the value has no parts
      cases value with
      | literal => exact .inl fun _ => rfl
      | _ => cases hpattern
    · -- at least the comparator stands in front of the value
      have hpos : 0 < spelling.length :=
        List.length_pos_iff.2 (Restriction.spelling_signs _ hspelling).1
      rw [List.length_append] at hfrom
      refine .inr fun p hp => ?_
      rw [List.mem_singleton.1 hp]
      change s.start + 1 ≤ value.span.start
      omega
  | resourceType => exact .inl fun _ => rfl
  | _ => cases ht

theorem parts_between {t u : Term} {lo hi : Nat} (ht : t.Faithful mode text) (hu : u ∈ t.parts)
    (h : ∀ p ∈ t.parts, lo ≤ p.span.start ∧ p.stop ≤ hi) :
    ∀ p ∈ u.parts, lo ≤ p.span.start ∧ p.stop ≤ hi := by
  intro p hp
  obtain ⟨hlo, hhi⟩ := h u hu
  obtain ⟨hstart, hstop⟩ := (ht.part hu).fits.parts_within p hp
  exact ⟨Nat.le_trans hlo hstart, Nat.le_trans hstop hhi⟩

mutual
theorem listed_nested : (t : Term) → {seen around : List Span} → {lo hi : Nat} →
    t.Faithful mode text → (∀ p ∈ t.parts, lo ≤ p.span.start ∧ p.stop ≤ hi) →
    Ready seen around lo hi → Listed text.length seen hi (t.nested around)
  | comparison _ _ _ value, _, _, _, _, ht, hparts, hready =>
    listed_nested value (ht.part (List.mem_singleton_self value))
      (parts_between ht (List.mem_singleton_self value) hparts) hready
  | negation _ operand, _, _, _, _, ht, hparts, hready =>
    listed_nested operand (ht.part (List.mem_singleton_self operand))
      (parts_between ht (List.mem_singleton_self operand) hparts) hready
  | conjunction _ members, _, _, _, _, ht, hparts, hready =>
    listed_nestedAll members (fun t hm => ⟨ht.part hm, hparts t hm⟩)
      (ht.fits.quotes.ordered.imp fun h => h.2.1) hready
  | disjunction _ members, _, _, _, _, ht, hparts, hready =>
    listed_nestedAll members (fun t hm => ⟨ht.part hm, hparts t hm⟩)
      (ht.fits.quotes.ordered.imp fun h => h.2.1) hready
  | literal .., _, _, _, _, _, _, _ => .nil
  | resource .., _, _, _, _, _, _, _ => .nil
  | resourceType .., _, _, _, _, _, _, _ => .nil

theorem listed_nestedAll : (ts : List Term) → {seen around : List Span} → {lo hi : Nat} →
    (∀ t ∈ ts, t.Faithful mode text ∧ lo ≤ t.span.start ∧ t.stop ≤ hi) →
    (ts.Pairwise fun t u => t.stop ≤ u.span.start) → Ready seen around lo hi →
    Listed text.length seen hi (nestedAll around ts)
  | [], _, _, _, _, _, _, _ => .nil
  | t :: ts, seen, around, lo, hi, hts, hpairs, hready => by
    obtain ⟨ht, hlo, hhi⟩ := hts t List.mem_cons_self
    obtain ⟨hfirst, hpairs⟩ := List.pairwise_cons.1 hpairs
    have hhere := hready.mono hlo hhi
    have hmember : Listed text.length seen t.stop (if t.isRestriction && 0 < t.span.length
        then ⟨t.span, around⟩ :: t.nested (around ++ [t.span]) else t.nested around) := by
      split
      · rename_i hcandidate
        rw [Bool.and_eq_true, decide_eq_true_eq] at hcandidate
        obtain ⟨hrestriction, hpos⟩ := hcandidate
        obtain ⟨hfollows, haround⟩ := hhere t.span hpos (Nat.le_refl _) (Nat.le_refl _)
        refine .cons ⟨hpos, ht.fits.stop_le, hfollows, haround⟩ (Nat.le_refl _) ?_
        rcases parts_inside ht hrestriction with hnone | hparts
        · rw [hnone]
          exact .nil
        · exact listed_nested t ht (fun p hp => ⟨hparts p hp, (ht.fits.parts_within p hp).2⟩)
            hhere.inside
      -- a member that is no candidate may start where its first part does
      · exact listed_nested t ht (fun p hp => ht.fits.parts_within p hp) hhere
    have hrest : ∀ u ∈ ts, u.Faithful mode text ∧ t.stop ≤ u.span.start ∧ u.stop ≤ hi := by
      intro u hu
      obtain ⟨hfaithful, -, hstop⟩ := hts u (List.mem_cons_of_mem t hu)
      exact ⟨hfaithful, hfirst u hu, hstop⟩
    exact hmember.append hhi (listed_nestedAll ts hrest hpairs
      (hready.behind (Nat.le_trans hlo (Nat.le_add_right _ _)) hmember))
end

/-- The candidates of a query come in order, each inside the text. -/
theorem inOrder_candidates {t : Term} (h : t.Faithful mode text) :
    InOrder text.length [] t.candidates := by
  have hready : ∀ lo hi, Ready [] [] lo hi := fun lo hi s _ _ _ => ⟨nofun, rfl⟩
  have hnested : InOrder text.length [] (t.nested []) :=
    (listed_nested t h h.fits.parts_within (hready _ _)).inOrder
  have hwhole : InOrder text.length []
      (if 0 < t.span.length then [⟨t.span, []⟩] else []) := by
    split
    · exact ⟨⟨‹_›, h.fits.stop_le, nofun, rfl⟩, trivial⟩
    · trivial
  cases t with
  | conjunction | disjunction | negation => exact hnested
  | _ => exact hwhole

end Term

end QueryLine
