import QueryLine.Query.Proposal
import QueryLine.Text.Lowercase

/-!
Texts compared without case. No character but an operator becomes one in lower case, so a text that
starts like one that ends in an operator has the same operator at the same place.
-/

namespace QueryLine
namespace Text

theorem lower_ascii : ∀ n < 128, isOperator (Char.ofNat n).toLower = true →
    (Char.ofNat n).toLower = Char.ofNat n := by decide

/-- Operators are in front of all that the runs lead to. -/
theorem runs_behind_operators :
    (lowercaseRuns.all fun r => decide (62 < (r.first : Int) + r.shift)) = true := by
  decide +kernel

theorem isOperator_ofNat {n : Nat} (h : 62 < n) : isOperator (Char.ofNat n) = false := by
  apply Bool.eq_false_iff.2
  intro hoperator
  have hle : ∀ c, isOperator c = true → c.toNat ≠ 0 ∧ c.toNat ≤ 62 := by
    intro c hc
    simp only [isOperator, Bool.or_eq_true, decide_eq_true_eq] at hc
    rcases hc with ((rfl | rfl) | rfl) | rfl
    all_goals decide
  obtain ⟨hne, hle⟩ := hle _ hoperator
  by_cases hvalid : n.isValidChar
  · have hnat : (Char.ofNat n).toNat = n := by
      rw [Char.ofNat, dif_pos hvalid]
      rfl
    omega
  · rw [Char.ofNat, dif_neg hvalid] at hne
    exact hne rfl

/-- A dotted capital becomes two characters, every other one, and an operator only from itself. -/
theorem lowerChar_cases (c : Char) : lowerChar c = ['i', '\u0307'] ∨
    ∃ d, lowerChar c = [d] ∧ (isOperator d = true → c = d) := by
  unfold lowerChar
  split
  · rename_i hascii
    refine .inr ⟨_, rfl, fun hoperator => ?_⟩
    have hlower := lower_ascii c.toNat hascii
    rw [Char.ofNat_toNat] at hlower
    exact (hlower hoperator).symm
  · split
    · exact .inl rfl
    · split
      · rename_i r hfind
        have hcovers := List.find?_some hfind
        simp only [CaseRun.covers, Bool.and_eq_true, decide_eq_true_eq] at hcovers
        have hrun := List.all_eq_true.1 runs_behind_operators r (List.mem_of_find?_eq_some hfind)
        rw [decide_eq_true_eq] at hrun
        have hbehind : 62 < (c.toNat + r.shift).toNat := by omega
        refine .inr ⟨_, rfl, fun hoperator => ?_⟩
        rw [isOperator_ofNat hbehind] at hoperator
        cases hoperator
      · exact .inr ⟨c, rfl, fun _ => rfl⟩

theorem exists_lowerAfter (before : Text) (c : Char) (rest : Text) : ∃ piece,
    lowerAfter before (c :: rest) = piece ++ lowerAfter (c :: before) rest ∧
      (piece = ['i', '\u0307'] ∨ ∃ d, piece = [d] ∧ (isOperator d = true → c = d)) := by
  refine ⟨_, rfl, ?_⟩
  split
  · -- neither small sigma is an operator
    split
    · exact .inr ⟨'ς', rfl, fun h => nomatch h⟩
    · exact .inr ⟨'σ', rfl, fun h => nomatch h⟩
  · exact lowerChar_cases c

theorem lowerAfter_ne_nil (before : Text) (c : Char) (rest : Text) :
    lowerAfter before (c :: rest) ≠ [] := by
  obtain ⟨piece, hpiece, rfl | ⟨d, rfl, -⟩⟩ := exists_lowerAfter before c rest
  · rw [hpiece]
    exact List.cons_ne_nil _ _
  · rw [hpiece]
    exact List.cons_ne_nil _ _

/-- Only a sigma hangs on what is behind it. -/
theorem lowerAfter_append {t : Text} (ht : 'Σ' ∉ t) (before rest : Text) :
    lowerAfter before (t ++ rest) =
      lowerAfter before t ++ lowerAfter (t.reverse ++ before) rest := by
  induction t generalizing before with
  | nil => rfl
  | cons c t ih =>
    obtain ⟨hc, hmore⟩ := List.ne_and_not_mem_of_not_mem_cons ht
    rw [List.cons_append, lowerAfter, lowerAfter, if_neg (Ne.symm hc), if_neg (Ne.symm hc),
      ih hmore, List.append_assoc, List.reverse_cons, List.append_assoc]
    rfl

theorem startsWithLoosely_append {t : Text} (ht : 'Σ' ∉ t) (rest : Text) :
    startsWithLoosely (t ++ rest) t = true := by
  rw [startsWithLoosely, List.isPrefixOf_iff_prefix, lower, lower, lowerAfter_append ht]
  exact List.prefix_append _ _

theorem not_startsWithLoosely_append {t rest : Text} (ht : 'Σ' ∉ t) (hrest : rest ≠ []) :
    startsWithLoosely t (t ++ rest) = false := by
  obtain ⟨c, more, rfl⟩ := List.exists_cons_of_ne_nil hrest
  have hpos := List.length_pos_iff.2 (lowerAfter_ne_nil (t.reverse ++ []) c more)
  apply Bool.eq_false_iff.2
  intro hprefix
  rw [startsWithLoosely, List.isPrefixOf_iff_prefix, lower, lower, lowerAfter_append ht] at hprefix
  have hle := hprefix.length_le
  rw [List.length_append] at hle
  omega

theorem exists_operator {s : Text} {d : Char} (hs : '\u0307' ∉ s) (hd : isOperator d = true)
    {before w : Text} (h : s ++ [d] <+: lowerAfter before w) :
    ∃ u rest, w = u ++ d :: rest ∧ u.length = s.length := by
  induction s generalizing before w with
  | nil =>
    cases w with
    | nil => cases List.prefix_nil.1 h
    | cons c rest =>
      obtain ⟨piece, hpiece, hcases⟩ := exists_lowerAfter before c rest
      rw [hpiece] at h
      -- an operator is the lower case of itself alone
      rcases hcases with rfl | ⟨x, rfl, hx⟩
      · obtain rfl := (List.cons_prefix_cons.1 h).1
        cases hd
      · obtain rfl := (List.cons_prefix_cons.1 h).1
        exact ⟨[], rest, congrArg (· :: rest) (hx hd), rfl⟩
  | cons a s ih =>
    obtain ⟨-, hmore⟩ := List.ne_and_not_mem_of_not_mem_cons hs
    cases w with
    | nil => cases List.prefix_nil.1 h
    | cons c rest =>
      obtain ⟨piece, hpiece, hcases⟩ := exists_lowerAfter before c rest
      rw [hpiece] at h
      rcases hcases with rfl | ⟨x, rfl, -⟩
      · -- the dot would be the next character of the text
        have hdot := (List.cons_prefix_cons.1 h).2
        cases s with
        | nil =>
          obtain rfl := (List.cons_prefix_cons.1 hdot).1
          cases hd
        | cons b s =>
          obtain rfl := (List.cons_prefix_cons.1 hdot).1
          exact absurd List.mem_cons_self hmore
      · obtain ⟨u, behind, rfl, hlength⟩ := ih hmore (List.cons_prefix_cons.1 h).2
        exact ⟨c :: u, behind, rfl, congrArg (· + 1) hlength⟩

theorem isOperator_toLower (c : Char) : isOperator c.toLower = isOperator c := by
  by_cases hascii : c.toNat < 128
  · have hall : ∀ n < 128, isOperator (Char.ofNat n).toLower = isOperator (Char.ofNat n) := by
      decide
    have hc := hall c.toNat hascii
    rwa [Char.ofNat_toNat] at hc
  · have hlower : c.toLower = c := by
      apply dif_neg
      intro hupper
      have hle : c.toNat ≤ 90 := hupper.2
      omega
    rw [hlower]

/-- What is the same but for case ends in an operator if one of them does. -/
theorem exists_operator_of_same {s w : Text} {d : Char} (hd : isOperator d = true)
    (h : sameAscii (s ++ [d]) w = true) :
    ∃ u e, w = u ++ [e] ∧ u.length = s.length ∧ isOperator e = true := by
  have hmap : w.map Char.toLower = s.map Char.toLower ++ [d.toLower] := by
    rw [← List.map_singleton, ← List.map_append]
    exact (beq_iff_eq.1 h).symm
  obtain ⟨u, last, rfl, hu, hlast⟩ := List.map_eq_append_iff.1 hmap
  obtain ⟨e, rfl, he⟩ := List.map_eq_singleton_iff.1 hlast
  refine ⟨u, e, rfl, ?_, ?_⟩
  · rw [← List.length_map Char.toLower, hu, List.length_map]
  · rw [← isOperator_toLower, he, isOperator_toLower, hd]

end Text
end QueryLine
