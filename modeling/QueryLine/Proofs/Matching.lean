import Mathlib.Data.List.Basic
import Mathlib.Data.List.Forall2
import QueryLine.Proofs.Moving
import QueryLine.Proofs.TypedWords

/-!
What rules make of words. The last words are tried from the fewest on, so what a rule proposes for
some words it proposes behind other words too, and more words count only if fewer match nothing.
-/

namespace QueryLine

def Proposal.moved (n : Nat) (p : Proposal) : Proposal := { p with span := p.span.moved n }

namespace Rule

variable {r : Rule} {caret : Nat}

/-- The proposal of a rule that matches from `start` on. -/
def offer (r : Rule) (caret start matched : Nat) : Proposal :=
  ⟨.between start caret, r.pattern, matched, r.kind, r.description⟩

theorem offer_moved (n : Nat) (r : Rule) (caret start matched : Nat) :
    r.offer (caret + n) (start + n) matched = (r.offer caret start matched).moved n := by
  rw [offer, Span.between_moved]
  rfl

theorem proposal?_nil (r : Rule) (caret : Nat) : r.proposal? caret [] = none := by
  rw [proposal?, List.length_nil, Nat.min_zero]
  rfl

theorem proposalFor?_cons (r : Rule) (caret : Nat) (w : Word) (more : List Word) :
    r.proposalFor? caret (w :: more) = (r.match? (w :: more)).map (r.offer caret w.start) := by
  unfold proposalFor?
  cases r.match? (w :: more) with
  | none => rfl
  | some matched => rfl

theorem proposal?_cons (r : Rule) (caret : Nat) (w : Word) (more : List Word) :
    r.proposal? caret (w :: more) = (r.proposal? caret more).or
      (if more.length < r.pattern.length then (r.match? (w :: more)).map (r.offer caret w.start)
        else none) := by
  let attempt (words : List Word) (n : Nat) : Option Proposal :=
    r.proposalFor? caret (words.drop (words.length - (n + 1)))
  have hproposal : ∀ words, r.proposal? caret words =
      ((List.range (min r.pattern.length words.length)).map (attempt words)).findSome? id := by
    intro words
    rw [List.findSome?_map]
    rfl
  -- shorter ends of the words are the same without `w`
  have hshorter : ∀ k ≤ more.length, (List.range k).map (attempt (w :: more)) =
      (List.range k).map (attempt more) := by
    intro k hk
    apply List.map_congr_left
    intro n hn
    have hlt : n < k := List.mem_range.1 hn
    have hdrop : (w :: more).drop ((w :: more).length - (n + 1)) =
        more.drop (more.length - (n + 1)) := by
      rw [List.length_cons, show more.length + 1 - (n + 1) = more.length - (n + 1) + 1 by omega,
        List.drop_succ_cons]
    simp only [attempt, hdrop]
  -- only the longest end of the words has `w` in it
  have hwhole : attempt (w :: more) more.length =
      (r.match? (w :: more)).map (r.offer caret w.start) := by
    simp only [attempt, List.length_cons, Nat.sub_self, List.drop_zero]
    exact proposalFor?_cons r caret w more
  rw [hproposal, hproposal, List.length_cons]
  by_cases hlength : more.length < r.pattern.length
  · have hmin : min r.pattern.length (more.length + 1) = more.length + 1 := by omega
    have hmin' : min r.pattern.length more.length = more.length := by omega
    rw [hmin, hmin', if_pos hlength, List.range_succ, List.map_append, List.findSome?_append,
      hshorter _ (Nat.le_refl _), List.map_singleton, hwhole]
    simp
  · have hmin : min r.pattern.length (more.length + 1) = r.pattern.length := by omega
    have hmin' : min r.pattern.length more.length = r.pattern.length := by omega
    rw [hmin, hmin', if_neg hlength, hshorter _ (Nat.le_of_not_lt hlength), Option.or_none]

theorem proposal?_singleton (hpattern : r.pattern ≠ []) (w : Word) :
    r.proposal? caret [w] = (r.match? [w]).map (r.offer caret w.start) := by
  rw [proposal?_cons, proposal?_nil, Option.none_or, if_pos]
  exact List.length_pos_iff.2 hpattern

theorem proposal?_append {words : List Word} {p : Proposal} (h : r.proposal? caret words = some p)
    (front : List Word) : r.proposal? caret (front ++ words) = some p := by
  induction front with
  | nil => exact h
  | cons w front ih => rw [List.cons_append, proposal?_cons, ih, Option.some_or]

theorem match?_moved (n : Nat) (words : List Word) :
    r.match? (words.map (Word.moved n)) = r.match? words := by
  unfold match?
  rw [List.getLast?_map, ← List.map_dropLast, List.map_map]
  cases words.getLast? with
  | none => rfl
  | some w => rfl

theorem proposal?_moved (n : Nat) (words : List Word) :
    r.proposal? (caret + n) (words.map (Word.moved n)) =
      (r.proposal? caret words).map (Proposal.moved n) := by
  induction words with
  | nil =>
    rw [List.map_nil, proposal?_nil, proposal?_nil]
    rfl
  | cons w more ih =>
    have hoffer : r.offer (caret + n) (w.moved n).start =
        Proposal.moved n ∘ r.offer caret w.start :=
      funext fun matched => offer_moved n r caret w.start matched
    rw [List.map_cons, proposal?_cons, proposal?_cons, ih, ← List.map_cons, match?_moved,
      List.length_map, hoffer, ← Option.map_map]
    cases r.proposal? caret more with
    | some p => rfl
    | none =>
      split
      · rfl
      · rfl

theorem exists_suffix {words : List Word} {p : Proposal} (h : r.proposal? caret words = some p) :
    ∃ w more matched, w :: more <:+ words ∧ r.match? (w :: more) = some matched ∧
      p = r.offer caret w.start matched := by
  induction words with
  | nil =>
    rw [proposal?_nil] at h
    cases h
  | cons w more ih =>
    rw [proposal?_cons, Option.or_eq_some_iff] at h
    rcases h with h | ⟨-, h⟩
    · obtain ⟨u, rest, matched, hsuffix, hmatch⟩ := ih h
      exact ⟨u, rest, matched, hsuffix.trans (List.suffix_cons w more), hmatch⟩
    · split at h
      · obtain ⟨matched, hmatch, rfl⟩ := Option.map_eq_some_iff.1 h
        exact ⟨w, more, matched, List.suffix_refl _, hmatch, rfl⟩
      · cases h

theorem match?_append_singleton {t : Text} {ps : List PatternPart}
    (hpattern : r.pattern = .fixed t :: ps) (words : List Word) (w : Word) :
    r.match? (words ++ [w]) = matched? r.pattern (words.map (·.text)) w.text := by
  unfold match?
  rw [List.getLast?_concat, List.dropLast_concat, hpattern]
  exact if_neg fun h => nomatch h.2

theorem exists_last {words : List Word} {n : Nat} (h : r.match? words = some n) :
    ∃ before last, words = before ++ [last] ∧
      matched? r.pattern (before.map (·.text)) last.text = some n := by
  obtain ⟨last, hlast, hn⟩ := Option.bind_eq_some_iff.1 h
  refine ⟨words.dropLast, last, (List.dropLast_append_getLast? last hlast).symm, ?_⟩
  dsimp only at hn
  split at hn
  · cases hn
  · exact hn

/-- Words that stand for the first parts leave the others to be matched. -/
theorem matched?_append {ps qs : List PatternPart} {ws before : List Text} {typed : Text}
    (h : List.Forall₂ (fun w p => covers p w = true) ws ps) :
    matched? (ps ++ qs) (ws ++ before) typed = (matched? qs before typed).map (· + ps.length) := by
  induction h with
  | nil => simp
  | @cons w p ws ps hcovers _ ih =>
    rw [List.cons_append, List.cons_append, matched?, if_pos hcovers, ih, Option.map_map]
    rfl

theorem matched?_of_not_covers {p : PatternPart} {ps : List PatternPart} {w : Text}
    (h : covers p w = false) (ws : List Text) (typed : Text) :
    matched? (p :: ps) (w :: ws) typed = none := by
  rw [matched?, h]
  rfl

/-- How a word that is typed reaches a part: it starts the part, or it goes on from a text that
binds it into the next. -/
theorem reach_cases {next : Option PatternPart} {typed alternative : Text} {n : Nat}
    (h : reach next typed alternative = some n) :
    n = 0 ∨ n = 1 ∧ next.isSome = true ∧ bindsNext alternative = true ∧
      alternative.length < typed.length ∧ Text.startsWithLoosely typed alternative = true := by
  unfold reach at h
  split at h
  · exact .inl (Option.some.inj h).symm
  · split at h
    · rename_i hreach
      simp only [Bool.and_eq_true, decide_eq_true_eq] at hreach
      obtain ⟨⟨⟨hbinds, hlength⟩, hstarts⟩, hnext⟩ := hreach
      have hsome : next.isSome = true := by
        cases next with
        | none => cases hnext
        | some p => rfl
      exact .inr ⟨(Option.some.inj h).symm, hsome, hbinds, hlength, hstarts⟩
    · cases h

/-- Which part is matched last: the one for the word that is typed, or the one behind it, if the
word goes on into that. -/
theorem matched?_cases {pattern : List PatternPart} {before : List Text} {typed : Text} {n : Nat}
    (h : matched? pattern before typed = some n) :
    n < pattern.length ∧ (n = before.length ∨ n = before.length + 1 ∧
      ∃ p, pattern[before.length]? = some p ∧ ∃ a ∈ p.alternatives, bindsNext a = true ∧
        a.length < typed.length ∧ Text.startsWithLoosely typed a = true) := by
  induction pattern generalizing before n with
  | nil => cases h
  | cons p ps ih =>
    cases before with
    | cons w before =>
      rw [matched?] at h
      split at h
      · obtain ⟨m, hm, rfl⟩ := Option.map_eq_some_iff.1 h
        obtain ⟨hlt, hcases⟩ := ih hm
        refine ⟨Nat.succ_lt_succ hlt, hcases.imp (congrArg (· + 1)) ?_⟩
        exact fun ⟨hnext, hbound⟩ => ⟨congrArg (· + 1) hnext, hbound⟩
      · cases h
    | nil =>
      cases p with
      | placeholder =>
        obtain rfl := Option.some.inj h
        exact ⟨Nat.zero_lt_succ _, .inl rfl⟩
      | fixed t =>
        rw [matched?] at h
        split at h
        · cases h
        · obtain ⟨a, ha, hreach⟩ := List.exists_of_findSome?_eq_some h
          rcases reach_cases hreach with rfl | ⟨rfl, hnext, hbound⟩
          · exact ⟨Nat.zero_lt_succ _, .inl rfl⟩
          · refine ⟨?_, .inr ⟨rfl, _, rfl, a, ha, hbound⟩⟩
            cases ps with
            | nil => cases hnext
            | cons q qs => exact Nat.succ_lt_succ (Nat.zero_lt_succ _)

theorem matched?_first {t typed : Text} {ps : List PatternPart} (hne : typed ≠ [])
    (hbinds : ∀ a ∈ (PatternPart.fixed t).alternatives, bindsNext a = false) :
    matched? (.fixed t :: ps) [] typed =
      if (PatternPart.fixed t).alternatives.any (Text.startsWithLoosely · typed) then some 0
      else none := by
  have hempty : typed.isEmpty = false := by simpa using hne
  rw [matched?, hempty]
  simp only [Bool.false_eq_true, if_false]
  generalize (PatternPart.fixed t).alternatives = alternatives at hbinds
  induction alternatives with
  | nil => rfl
  | cons a more ih =>
    obtain ⟨ha, hmore⟩ := List.forall_mem_cons.1 hbinds
    have hreach : reach ps.head? typed a =
        if Text.startsWithLoosely a typed then some 0 else none := by
      rw [reach, ha]
      rfl
    rw [List.findSome?_cons, hreach, List.any_cons, ih hmore]
    cases Text.startsWithLoosely a typed with
    | true => rfl
    | false => rfl

theorem proposal?_of_not_covers {t : Text} {ps : List PatternPart}
    (hpattern : r.pattern = .fixed t :: ps) {words : List Word}
    (h : ∀ w ∈ words, covers (.fixed t) w.text = false) (last : Word) :
    r.proposal? caret (words ++ [last]) = r.proposal? caret [last] := by
  induction words with
  | nil => rfl
  | cons w words ih =>
    obtain ⟨hw, hwords⟩ := List.forall_mem_cons.1 h
    have hmatch : r.match? (w :: (words ++ [last])) = none := by
      rw [← List.cons_append, match?_append_singleton hpattern, hpattern]
      exact matched?_of_not_covers hw _ _
    rw [List.cons_append, proposal?_cons, hmatch, ih hwords]
    split
    · exact Option.or_none
    · exact Option.or_none

end Rule

namespace Proposal

variable {text : Text} {caret : Nat} {p : Proposal}

/-- A proposal is what some rule offers from a word on, which is empty only at the caret. -/
theorem exists_offer (h : p ∈ Proposal.at text caret) :
    ∃ r ∈ Rule.all, ∃ matched < r.pattern.length, ∃ front word rest : Text,
      text.take caret = front ++ (word ++ rest) ∧ front.EndsBlank ∧ word.Unbroken ∧
      (word = [] → rest = []) ∧ p = r.offer (text.take caret).length front.length matched := by
  obtain ⟨r, hr, hp⟩ := List.mem_filterMap.1 h
  obtain ⟨w, more, matched, hsuffix, hmatch, rfl⟩ := Rule.exists_suffix hp
  obtain ⟨before, last, -, hmatched⟩ := Rule.exists_last hmatch
  obtain ⟨front, rest, hsplit, hstart, hfront, hw, hrest⟩ :=
    Word.exists_of_mem_typed (hsuffix.subset List.mem_cons_self)
  refine ⟨r, hr, matched, (Rule.matched?_cases hmatched).1, front, w.text, rest, hsplit, hfront, hw,
    hrest, ?_⟩
  rw [hstart]

theorem stop_eq (h : p ∈ Proposal.at text caret) : p.span.stop = min caret text.length := by
  obtain ⟨r, -, matched, -, front, word, rest, hsplit, -, -, -, rfl⟩ := exists_offer h
  have hle : front.length ≤ (text.take caret).length := by
    rw [hsplit, List.length_append]
    exact Nat.le_add_right _ _
  rw [← List.length_take]
  exact Nat.add_sub_cancel' hle

end Proposal
end QueryLine
