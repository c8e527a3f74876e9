import QueryLine.Proofs.Scanning

/-!
Whole tokens overwritten with blanks. Blanks keep all places, so the other tokens stay where and
what they are: none of them grows over what was there.
-/

namespace QueryLine

namespace Text

/-- The text at `position` with blanks in the hidden places. -/
def blankOut (hidden : Nat → Bool) : Nat → Text → Text
  | _, [] => []
  | position, c :: rest =>
    (if hidden position then ' ' else c) :: blankOut hidden (position + 1) rest

variable {hidden : Nat → Bool}

theorem blankOut_append (position : Nat) (t rest : Text) :
    blankOut hidden position (t ++ rest) =
      blankOut hidden position t ++ blankOut hidden (position + t.length) rest := by
  induction t generalizing position with
  | nil => rfl
  | cons c t ih =>
    rw [List.cons_append, blankOut, blankOut, ih, List.length_cons, Nat.add_right_comm]
    rfl

theorem blankOut_shown {position : Nat} {t : Text}
    (h : ∀ i, position ≤ i → i < position + t.length → hidden i = false) :
    blankOut hidden position t = t := by
  induction t generalizing position with
  | nil => rfl
  | cons c t ih =>
    rw [List.length_cons] at h
    have hfirst : hidden position = false := h position (Nat.le_refl _) (by omega)
    have hrest : blankOut hidden (position + 1) t = t :=
      ih fun i hlo hhi => h i (by omega) (by omega)
    simp only [blankOut, hfirst, hrest, Bool.false_eq_true, if_false]

theorem prefix_of_blankOut {position : Nat} {w t rest : Text} (hw : ∀ c ∈ w, isBlank c = false)
    (h : w <+: t ++ blankOut hidden position rest) : w <+: t ++ rest := by
  induction w generalizing position t rest with
  | nil => exact List.nil_prefix
  | cons c w ih =>
    obtain ⟨hc, hw⟩ := List.forall_mem_cons.1 hw
    cases t with
    | cons d t =>
      obtain ⟨rfl, hmore⟩ := List.cons_prefix_cons.1 h
      exact List.cons_prefix_cons.2 ⟨rfl, ih hw hmore⟩
    | nil =>
      cases rest with
      | nil => exact h
      | cons d rest =>
        obtain ⟨hcd, hmore⟩ := List.cons_prefix_cons.1 h
        cases hhidden : hidden position with
        | true =>
          rw [hhidden] at hcd
          subst hcd
          cases hc
        | false =>
          rw [hhidden] at hcd
          exact List.cons_prefix_cons.2 ⟨hcd, @ih (position + 1) [] rest hw hmore⟩

end Text

namespace Lexeme

open Text (blankOut)

theorem uri?_eq_some_iff {t u : Text} : uri? t = some u ↔
    u ≠ [] ∧ (∀ c ∈ u, Text.isBlank c = false ∧ c ≠ '>') ∧ u ++ ['>'] <+: t := by
  constructor
  · intro h
    have hprefix := prefix_of_uri? h
    unfold uri? at h
    dsimp only at h
    split at h
    · rename_i hends
      obtain rfl := Option.some.inj h
      rw [Bool.and_eq_true] at hends
      refine ⟨by simpa using hends.1, fun c hc => ?_, hprefix⟩
      have hinside := List.all_eq_true.1 List.all_takeWhile c hc
      simpa using hinside
    · cases h
  · rintro ⟨hne, hu, rest, rfl⟩
    have htake : (u ++ ['>'] ++ rest).takeWhile (fun c => !Text.isBlank c && c ≠ '>') = u := by
      rw [List.append_assoc]
      apply takeWhile_exact
      · intro c hc
        simp [hu c hc]
      · simp
    simp only [uri?, htake]
    simp [hne]

theorem apart_blankOut {hidden : Nat → Bool} {position : Nat} {rest : Text} (h : Apart rest) :
    Apart (blankOut hidden position rest) := by
  cases rest with
  | nil => exact apart_nil
  | cons c rest =>
    apply apart_cons
    split
    · decide
    · exact h c rfl

/-- Why a lexeme is what it is. -/
theorem starting_spec (c : Char) (rest : Text) :
    match starting c rest with
    | opening => c = '('
    | closing => c = ')'
    | quoted w _ => c = '"' ∧ w = rest.takeWhile (· ≠ '"')
    | uri u => c = '<' ∧ uri? rest = some u
    | word w => w = c :: rest.takeWhile isWordChar ∧ c ≠ '(' ∧ c ≠ ')' ∧ c ≠ '"' ∧
        (if c = '<' then uri? rest else none) = none := by
  by_cases hopening : c = '('
  · simp [starting, hopening]
  by_cases hclosing : c = ')'
  · simp [starting, hclosing]
  by_cases hquote : c = '"'
  · simp [starting, hquote]
  simp only [starting, hopening, hclosing, hquote, if_false]
  cases huri : if c = '<' then uri? rest else none with
  | none => exact ⟨rfl, hopening, hclosing, hquote, rfl⟩
  | some u =>
    split at huri
    · rename_i hc
      exact ⟨hc, huri⟩
    · cases huri

theorem apart_of_takeWhile {t rest : Text} (h : (t ++ rest).takeWhile isWordChar = t) :
    (∀ c ∈ t, isWordChar c = true) ∧ Apart rest := by
  have hall : ∀ c ∈ t, isWordChar c = true := by
    rw [← h]
    exact List.all_eq_true.1 List.all_takeWhile
  refine ⟨hall, ?_⟩
  rw [List.takeWhile_append_of_pos hall, List.append_right_eq_self] at h
  cases rest with
  | nil => exact apart_nil
  | cons c rest =>
    apply apart_cons
    rw [List.takeWhile_cons] at h
    split at h
    · cases h
    · rename_i hc
      exact Bool.eq_false_iff.2 hc

/-- A lexeme is the same when what stands behind it is blanked. -/
theorem starting_blankOut {c : Char} {t rest : Text}
    (h : (starting c (t ++ rest)).spelling = c :: t) (hidden : Nat → Bool) (position : Nat) :
    starting c (t ++ blankOut hidden position rest) = starting c (t ++ rest) := by
  have hspec := starting_spec c (t ++ rest)
  cases hlexeme : starting c (t ++ rest) with
  | opening =>
    rw [hlexeme] at hspec
    obtain rfl : c = '(' := hspec
    rfl
  | closing =>
    rw [hlexeme] at hspec
    obtain rfl : c = ')' := hspec
    rfl
  | quoted w closed =>
    rw [hlexeme] at h hspec
    obtain ⟨rfl, hw⟩ : c = '"' ∧ w = (t ++ rest).takeWhile (· ≠ '"') := hspec
    cases closed with
    | true =>
      obtain rfl : w ++ ['"'] = t := (List.cons.inj h).2
      have hinside : '"' ∉ w := by
        intro hmem
        rw [hw] at hmem
        simpa using List.all_eq_true.1 List.all_takeWhile _ hmem
      rw [List.append_assoc]
      exact starting_quoted hinside _
    | false =>
      -- a quote left open has nothing behind it
      have hall := (spelling_starting '"' (t ++ rest)).2.2 w hlexeme
      rw [hlexeme, h, List.cons_inj_right, List.self_eq_append_right] at hall
      rw [← hlexeme, hall]
      rfl
  | uri u =>
    rw [hlexeme] at h hspec
    obtain ⟨rfl, huri⟩ : c = '<' ∧ uri? (t ++ rest) = some u := hspec
    obtain ⟨hne, hu, -⟩ := uri?_eq_some_iff.1 huri
    obtain rfl : u ++ ['>'] = t := (List.cons.inj h).2
    rw [List.append_assoc]
    exact starting_uri hne hu _
  | word w =>
    rw [hlexeme] at h hspec
    obtain ⟨hw, hopening, hclosing, hquote, huri⟩ := hspec
    obtain rfl : w = c :: t := h
    obtain ⟨hall, hapart⟩ := apart_of_takeWhile (List.cons.inj hw).2.symm
    have htake : (t ++ blankOut hidden position rest).takeWhile isWordChar = t :=
      takeWhile_exact hall (apart_blankOut hapart)
    have hnone : (if c = '<' then uri? (t ++ blankOut hidden position rest) else none) = none := by
      split
      · rename_i hc
        rw [if_pos hc] at huri
        -- a resource has no blank inside, so one found now was there before
        apply Option.eq_none_iff_forall_ne_some.2
        intro u hu
        obtain ⟨hne, hinside, hprefix⟩ := uri?_eq_some_iff.1 hu
        have hshown : ∀ c ∈ u ++ ['>'], Text.isBlank c = false := by
          intro d hd
          rcases List.mem_append.1 hd with hd | hd
          · exact (hinside d hd).1
          · obtain rfl := List.mem_singleton.1 hd
            decide
        have hbefore := uri?_eq_some_iff.2 ⟨hne, hinside, Text.prefix_of_blankOut hshown hprefix⟩
        rw [huri] at hbefore
        cases hbefore
      · rfl
    simp only [starting, hopening, hclosing, hquote, if_false, hnone, htake]

end Lexeme

namespace Token

open Text (blankOut)

def covers (t : Token) (i : Nat) : Bool := t.start ≤ i && i < t.stop

theorem start_le_of_mem_scan (position : Nat) (text : Text) :
    ∀ t ∈ scan position 0 text, position ≤ t.start := by
  induction position, text using scan_induction with
  | nil position => exact fun t ht => nomatch ht
  | blank position c rest hc ih =>
    rw [cuts.blank hc]
    exact fun t ht => Nat.le_of_succ_le (ih t ht)
  | lexeme position c t rest hc hspelling ih =>
    rw [scan_starting hc hspelling]
    intro u hu
    rcases List.mem_cons.1 hu with rfl | hu
    · exact Nat.le_refl _
    · exact Nat.le_trans (Nat.le_add_right _ _) (ih u hu)

theorem scan_hidden {hidden : Nat → Bool} {position : Nat} {t : Text}
    (h : ∀ i, position ≤ i → i < position + t.length → hidden i = true) (rest : Text) :
    scan position 0 (blankOut hidden position t ++ rest) = scan (position + t.length) 0 rest := by
  induction t generalizing position with
  | nil => rfl
  | cons c t ih =>
    rw [List.length_cons] at h
    have hfirst : hidden position = true := h position (Nat.le_refl _) (by omega)
    have hrest := @ih (position + 1) fun i hlo hhi => h i (by omega) (by omega)
    rw [blankOut, hfirst, if_pos rfl, List.cons_append, cuts.blank (by decide), hrest,
      List.length_cons]
    congr 1
    omega

/-- Blanks over some of the tokens take these away and leave the others. -/
theorem scan_blankOut (gone : Token → Bool) {hidden : Nat → Bool} (position : Nat) (text : Text)
    (h : ∀ i, position ≤ i →
      hidden i = (scan position 0 text).any fun t => gone t && t.covers i) :
    scan position 0 (blankOut hidden position text) =
      (scan position 0 text).filter fun t => !gone t := by
  induction position, text using scan_induction with
  | nil position => rfl
  | blank position c rest hc ih =>
    rw [cuts.blank hc] at h ⊢
    rw [← ih fun i hi => h i (Nat.le_of_succ_le hi)]
    apply cuts.blank
    split
    · decide
    · exact hc
  | lexeme position c t rest hc hspelling ih =>
    let token : Token := ⟨position, Lexeme.starting c (t ++ rest)⟩
    let behind := position + (t.length + 1)
    have hstop : token.stop = behind := by
      rw [Token.stop, Token.length, hspelling]
      rfl
    rw [scan_starting hc hspelling] at h ⊢
    -- the places of this token are hidden all or none: those behind start further on
    have hfirst : ∀ i, position ≤ i → i < position + (c :: t).length →
        hidden i = gone token := by
      intro i hlo hhi
      change i < behind at hhi
      have hcovers : token.covers i = true := by simp [covers, hstop, token, hlo, hhi]
      have hothers : ((scan behind 0 rest).any fun u => gone u && u.covers i) = false := by
        apply List.any_eq_false.2
        intro u hu
        have hstart := start_le_of_mem_scan behind rest u hu
        simp [covers, Nat.not_le.2 (Nat.lt_of_lt_of_le hhi hstart)]
      rw [h i hlo, List.any_cons, hcovers, hothers, Bool.and_true, Bool.or_false]
    have hrest : scan behind 0 (blankOut hidden behind rest) =
        (scan behind 0 rest).filter fun t => !gone t := by
      apply ih
      intro i hi
      have hover : ¬ i < token.stop := Nat.not_lt.2 (hstop ▸ hi)
      have hcovers : token.covers i = false := by simp [covers, hover]
      rw [h i (Nat.le_trans (Nat.le_add_right _ _) hi), List.any_cons, hcovers, Bool.and_false,
        Bool.false_or]
    rw [← List.cons_append, Text.blankOut_append, List.length_cons]
    cases hgone : gone token with
    | true =>
      rw [List.filter_cons_of_neg (by simp [token, hgone]), ← hrest]
      exact scan_hidden (fun i hlo hhi => (hfirst i hlo hhi).trans hgone) _
    | false =>
      rw [List.filter_cons_of_pos (by simp [token, hgone]), ← hrest,
        Text.blankOut_shown fun i hlo hhi => (hfirst i hlo hhi).trans hgone]
      have hsame := Lexeme.starting_blankOut hspelling hidden behind
      rw [List.cons_append, scan_starting hc (by rw [hsame, hspelling]), hsame]

theorem ofText_blankOut (gone : Token → Bool) (text : Text) :
    ofText (blankOut (fun i => (ofText text).any fun t => gone t && t.covers i) 0 text) =
      (ofText text).filter fun t => !gone t :=
  scan_blankOut gone 0 text fun _ _ => rfl

end Token
end QueryLine
