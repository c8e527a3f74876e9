import Mathlib.Data.List.DropRight
import QueryLine.Completion.Edit
import QueryLine.Proofs.Words

/-!
What a choice writes. A pattern is written piece by piece, with a space between two pieces unless
the first is glued to the next; a value is written in place of a word.
-/

namespace QueryLine
namespace Pattern

/-- The pieces of a pattern, each with whether it is glued to the next: of fixed text what is in
front of a bar, glued where it ends in a sign of a comparator, and for the first placeholder
`value`. -/
def pieces (value : Text) : List PatternPart → List (Text × Bool)
  | [] => []
  | .fixed t :: ps =>
    let first := t.takeWhile (· ≠ '|')
    (first, first.getLast?.any (· ∈ Comparator.signs)) :: pieces value ps
  | .placeholder :: ps => (value, false) :: pieces [] ps

def join : List (Text × Bool) → Text
  | [] => []
  | [(t, _)] => t
  | (t, glued) :: p :: ps => t ++ (if glued then [] else [' ']) ++ join (p :: ps)

/-- The pattern with `value` for its placeholder. -/
def written (value : Text) (pattern : List PatternPart) : Text := join (pieces value pattern)

/-- What is written in front of the first placeholder. -/
def beforeValue (pattern : List PatternPart) : Text :=
  written [] (pattern.takeWhile (· ≠ .placeholder) ++ [.placeholder])

/-- Where the caret is put in what is written: at the placeholder if there is no value for it, and
else at the end. -/
def caretOffset (value : Option Text) (pattern : List PatternPart) : Nat :=
  if value = none ∧ .placeholder ∈ pattern then (beforeValue pattern).length
  else (written (value.getD []) pattern).length

theorem first_eq (t : Text) : (PatternPart.fixed t).first?.getD [] = t.takeWhile (· ≠ '|') := by
  change (Text.splitAt '|' t).head?.getD [] = t.takeWhile (· ≠ '|')
  induction t with
  | nil => rfl
  | cons c t ih =>
    by_cases hc : c = '|'
    · simp [Text.splitAt, hc]
    · rw [List.takeWhile_cons_of_pos (by simpa using hc), ← ih, Text.splitAt, if_neg hc]
      cases Text.splitAt '|' t with
      | nil => rfl
      | cons piece more => rfl

theorem bindsNext_eq (t : Text) : bindsNext t = t.getLast?.any (· ∈ Comparator.signs) := by
  unfold bindsNext
  cases t.getLast? with
  | none => rfl
  | some c => simp [isOperator, Comparator.signs, Bool.or_assoc]

theorem join_cons (t : Text) (glued : Bool) (ps : List (Text × Bool)) :
    join ((t, glued) :: ps) = t ++ ((if ps = [] then [] else gap glued) ++ join ps) := by
  cases ps with
  | nil => exact (List.append_nil t).symm
  | cons p ps => exact List.append_assoc _ _ _

theorem pieces_eq_nil_iff {value : Text} {ps : List PatternPart} :
    pieces value ps = [] ↔ ps = [] := by
  match ps with
  | [] => simp [pieces]
  | .fixed t :: ps => simp [pieces]
  | .placeholder :: ps => simp [pieces]

theorem write_spec (value : Text) (bound filled : Bool) (ps : List PatternPart) :
    write value bound filled ps =
      (if ps = [] then [] else gap bound) ++ written (if filled then [] else value) ps := by
  induction ps generalizing value bound filled with
  | nil => rfl
  | cons p ps ih =>
    rw [if_neg (List.cons_ne_nil p ps)]
    cases p with
    | fixed t =>
      rw [write, written, pieces, join_cons, ih, first_eq, bindsNext_eq, List.append_assoc]
      simp only [pieces_eq_nil_iff]
      rfl
    | placeholder =>
      rw [write, written, pieces, join_cons, ih, List.append_assoc]
      simp only [pieces_eq_nil_iff]
      rfl

theorem write_eq (value : Text) (pattern : List PatternPart) :
    write value true false pattern = written value pattern := by
  rw [write_spec]
  cases pattern with
  | nil => rfl
  | cons p ps => rfl

theorem written_fixed {ps : List PatternPart} (h : ps ≠ []) (value t : Text) :
    written value (.fixed t :: ps) =
      let first := t.takeWhile (· ≠ '|')
      first ++ (gap (first.getLast?.any (· ∈ Comparator.signs)) ++ written value ps) := by
  unfold written
  rw [pieces, join_cons, if_neg (mt pieces_eq_nil_iff.1 h)]

theorem beforeValue_fixed (t : Text) (ps : List PatternPart) :
    beforeValue (.fixed t :: ps) =
      let first := t.takeWhile (· ≠ '|')
      first ++ (gap (first.getLast?.any (· ∈ Comparator.signs)) ++ beforeValue ps) := by
  have hne : ps.takeWhile (· ≠ .placeholder) ++ [.placeholder] ≠ [] := by simp
  unfold beforeValue
  rw [List.takeWhile_cons_of_pos (by simp), List.cons_append, written_fixed hne]

theorem placeholderAt?_spec (bound : Bool) (ps : List PatternPart) :
    placeholderAt? bound ps =
      if .placeholder ∈ ps then some ((gap bound).length + (beforeValue ps).length) else none := by
  induction ps generalizing bound with
  | nil => rfl
  | cons p ps ih =>
    cases p with
    | fixed t =>
      have hmem : PatternPart.placeholder ∈ PatternPart.fixed t :: ps ↔ .placeholder ∈ ps := by
        simp
      rw [placeholderAt?, ih, first_eq, bindsNext_eq, beforeValue_fixed]
      by_cases hvalue : .placeholder ∈ ps
      · rw [if_pos hvalue, if_pos (hmem.2 hvalue)]
        simp only [Option.map_some, List.length_append, Nat.add_assoc]
      · rw [if_neg hvalue, if_neg (mt hmem.1 hvalue)]
        rfl
    | placeholder =>
      rw [if_pos List.mem_cons_self]
      rfl

theorem placeholderAt?_eq (pattern : List PatternPart) :
    placeholderAt? true pattern =
      if .placeholder ∈ pattern then some (beforeValue pattern).length else none := by
  rw [placeholderAt?_spec]
  simp [gap]

theorem prefix_written (ps qs : List PatternPart) : written [] ps <+: written [] (ps ++ qs) := by
  induction ps with
  | nil => exact List.nil_prefix
  | cons p ps ih =>
    have hcons : ∀ (t : Text) (glued : Bool), join ((t, glued) :: pieces [] ps) <+:
        join ((t, glued) :: pieces [] (ps ++ qs)) := by
      intro t glued
      rw [join_cons, join_cons]
      apply (List.prefix_append_right_inj t).2
      by_cases hps : ps = []
      · subst hps
        exact List.nil_prefix
      · have hmore : ps ++ qs ≠ [] := mt (fun h => (List.append_eq_nil_iff.1 h).1) hps
        rw [if_neg (mt pieces_eq_nil_iff.1 hps), if_neg (mt pieces_eq_nil_iff.1 hmore)]
        exact (List.prefix_append_right_inj _).2 ih
    cases p with
    | fixed t => exact hcons _ _
    | placeholder => exact hcons _ _

theorem exists_rest {pattern : List PatternPart} (h : .placeholder ∈ pattern) :
    ∃ rest, pattern.takeWhile (· ≠ .placeholder) ++ [.placeholder] ++ rest = pattern := by
  induction pattern with
  | nil => cases h
  | cons p ps ih =>
    cases p with
    | placeholder => exact ⟨ps, by simp⟩
    | fixed t =>
      obtain ⟨rest, hrest⟩ := ih (by simpa using h)
      refine ⟨rest, ?_⟩
      rw [List.takeWhile_cons_of_pos (by simp), List.cons_append, List.cons_append, hrest]

theorem prefix_beforeValue {pattern : List PatternPart} (h : .placeholder ∈ pattern) :
    beforeValue pattern <+: written [] pattern := by
  obtain ⟨rest, hrest⟩ := exists_rest h
  have hprefix := prefix_written (pattern.takeWhile (· ≠ .placeholder) ++ [.placeholder]) rest
  rwa [hrest] at hprefix

theorem caretOffset_le (value : Option Text) (pattern : List PatternPart) :
    caretOffset value pattern ≤ (written (value.getD []) pattern).length := by
  unfold caretOffset
  split
  · rename_i h
    obtain ⟨rfl, hplaceholder⟩ := h
    exact (prefix_beforeValue hplaceholder).length_le
  · exact Nat.le_refl _

end Pattern

namespace Text

/-- The characters of `t` from `w` up to `c` are the end of a word, and all of it that is there. -/
structure WordAt (t : Text) (w c : Nat) : Prop where
  le : w ≤ c
  unbroken : ∀ x ∈ (t.take c).drop w, isBlank x = false
  bounded : w = 0 ∨ ∃ x, t[w - 1]? = some x ∧ isBlank x = true

end Text

namespace Edit

theorem wordAt_wordBefore {t : Text} {c : Nat} (hc : c ≤ t.length) :
    t.WordAt (c - (wordBefore t c).length) c := by
  let rest := (t.take c).rdropWhile (!Text.isBlank ·)
  have hsplit : rest ++ wordBefore t c = t.take c := List.rdropWhile_append_rtakeWhile
  have hlength : rest.length + (wordBefore t c).length = c := by
    rw [← List.length_append, hsplit, List.length_take_of_le hc]
  have hw : c - (wordBefore t c).length = rest.length := by omega
  rw [hw]
  refine ⟨by omega, ?_, ?_⟩
  · intro x hx
    rw [← hsplit, List.drop_left] at hx
    simpa using List.mem_rtakeWhile_imp hx
  · by_cases hrest : rest = []
    · exact .inl (List.length_eq_zero_iff.2 hrest)
    · have hblank := List.rdropWhile_last_not (!Text.isBlank ·) (t.take c) hrest
      refine .inr ⟨rest.getLast hrest, ?_, by simpa using hblank⟩
      have hpos := List.length_pos_iff.2 hrest
      have htake : (t.take c)[rest.length - 1]? = t[rest.length - 1]? :=
        List.getElem?_take_of_lt (by omega)
      rw [← htake, ← hsplit, List.getElem?_append_left (by omega), List.getLast_eq_getElem,
        List.getElem?_eq_getElem]

/-- What is written of a proposal, and where the caret is put, is what its pattern says. -/
theorem ofProposal_eq (p : Proposal) (value : Option Text) :
    ofProposal p value = ⟨p.span.start, p.span.stop, Pattern.written (value.getD []) p.pattern,
      p.span.start + Pattern.caretOffset value p.pattern⟩ := by
  unfold ofProposal Pattern.caretOffset
  rw [Pattern.write_eq, Pattern.placeholderAt?_eq]
  cases value with
  | none =>
    by_cases hplaceholder : .placeholder ∈ p.pattern
    · simp [hplaceholder]
    · simp [hplaceholder]
  | some t => simp

theorem exists_ofValue_eq {t : Text} {c : Nat} (hc : c ≤ t.length) (value : Text) :
    ∃ w, t.WordAt w c ∧ ofValue t c value = ⟨w, c, value, w + value.length⟩ := by
  refine ⟨c - (wordBefore t c).length, wordAt_wordBefore hc, ?_⟩
  have hmin : min c t.length = c := Nat.min_eq_left hc
  unfold ofValue
  rw [hmin]

end Edit
end QueryLine
