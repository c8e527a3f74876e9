import QueryLine.Proofs.Blanking

/-!
Nothing but blanks is lost when a text is cut into tokens: they stand in it one behind the other,
each spells the characters at its place, and each goes on as far as one of its kind can.
-/

namespace QueryLine

namespace Lexeme

/-- A lexeme is made of the characters of its kind and stops where `rest` goes on. Only a quote
that takes everything lacks its end. -/
def StopsAt (rest : Text) : Lexeme → Prop
  | opening | closing => True
  | quoted w closed => '"' ∉ w ∧ (closed = false → rest = [])
  | uri u => u ≠ [] ∧ ∀ c ∈ u, Text.isBlank c = false ∧ c ≠ '>'
  | word w => (∀ c ∈ w, isWordChar c = true) ∧ Apart rest

theorem stopsAt_starting {c : Char} {t rest : Text} (hc : Text.isBlank c = false)
    (hspelling : (starting c (t ++ rest)).spelling = c :: t) :
    (starting c (t ++ rest)).StopsAt rest := by
  have hspec := starting_spec c (t ++ rest)
  cases hlexeme : starting c (t ++ rest) with
  | opening => trivial
  | closing => trivial
  | quoted w closed =>
    rw [hlexeme] at hspec
    obtain ⟨-, hw⟩ : c = '"' ∧ w = (t ++ rest).takeWhile (· ≠ '"') := hspec
    refine ⟨fun hquote => ?_, ?_⟩
    · rw [hw] at hquote
      simpa using List.all_eq_true.1 List.all_takeWhile _ hquote
    · rintro rfl
      have hall := (spelling_starting c (t ++ rest)).2.2 w hlexeme
      rwa [hspelling, List.cons_inj_right, List.self_eq_append_right] at hall
  | uri u =>
    rw [hlexeme] at hspec
    obtain ⟨-, huri⟩ : c = '<' ∧ uri? (t ++ rest) = some u := hspec
    obtain ⟨hne, hinside, -⟩ := uri?_eq_some_iff.1 huri
    exact ⟨hne, hinside⟩
  | word w =>
    rw [hlexeme] at hspec hspelling
    obtain ⟨hw, hopening, hclosing, hquote, -⟩ := hspec
    obtain rfl : w = c :: t := hspelling
    obtain ⟨hmore, hapart⟩ := apart_of_takeWhile (List.cons.inj hw).2.symm
    have hfirst : isWordChar c = true := by simp [isWordChar, hc, hopening, hclosing, hquote]
    exact ⟨List.forall_mem_cons.2 ⟨hfirst, hmore⟩, hapart⟩

end Lexeme

namespace Token

/-- The tokens are in the text, one behind the other, and say all of it but blanks. The last may be
a quote that is never closed, and then this is the one fault told. -/
structure Lossless (text : Text) (ts : List Token) : Prop where
  within : ∀ t ∈ ts, t.start < t.stop ∧ t.stop ≤ text.length
  ordered : ts.Pairwise fun t u => t.stop ≤ u.start
  blank : ∀ i c, text[i]? = some c → (∀ t ∈ ts, t.covers i = false) → Text.isBlank c = true
  spelled : ∀ t ∈ ts, text.drop t.start = t.lexeme.spelling ++ text.drop t.stop
  stopsAt : ∀ t ∈ ts, t.lexeme.StopsAt (text.drop t.stop)
  closed : ∀ t ∈ ts.dropLast, t.isOpen = false
  faults : faults ts = ((ts.getLast?.filter isOpen).map fun t => .unquoted t.start).toList

theorem exists_covers_scan (position : Nat) (text : Text) {i : Nat} {c : Char}
    (hi : text[i]? = some c) (hc : Text.isBlank c = false) :
    ∃ t ∈ scan position 0 text, t.covers (position + i) = true := by
  induction position, text using scan_induction generalizing i with
  | nil position => cases hi
  | blank position d rest hd ih =>
    rw [cuts.blank hd]
    cases i with
    | zero =>
      obtain rfl := Option.some.inj hi
      rw [hd] at hc
      cases hc
    | succ i =>
      obtain ⟨t, ht, hcovers⟩ := ih hi
      rw [Nat.add_right_comm] at hcovers
      exact ⟨t, ht, hcovers⟩
  | lexeme position d t rest hd hspelling ih =>
    rw [scan_starting hd hspelling]
    by_cases hinside : i < t.length + 1
    · refine ⟨_, List.mem_cons_self, ?_⟩
      simp [covers, stop, length, hspelling, hinside]
    · -- behind this lexeme
      have hbehind : rest[i - (t.length + 1)]? = some c := by
        rwa [← List.cons_append, List.getElem?_append_right (Nat.le_of_not_lt hinside)] at hi
      obtain ⟨u, hu, hcovers⟩ := ih hbehind
      refine ⟨u, List.mem_cons_of_mem _ hu, ?_⟩
      rwa [show position + (t.length + 1) + (i - (t.length + 1)) = position + i by omega] at hcovers

theorem exists_of_mem_scan (position : Nat) (text : Text) :
    ∀ t ∈ scan position 0 text, ∃ before rest,
      text = before ++ (t.lexeme.spelling ++ rest) ∧ t.start = position + before.length ∧
        t.lexeme.spelling ≠ [] ∧ t.lexeme.StopsAt rest := by
  induction position, text using scan_induction with
  | nil position => exact fun t ht => nomatch ht
  | blank position c rest hc ih =>
    rw [cuts.blank hc]
    intro t ht
    obtain ⟨before, behind, rfl, hstart, hspelled⟩ := ih t ht
    exact ⟨c :: before, behind, rfl, by rw [hstart, List.length_cons]; omega, hspelled⟩
  | lexeme position c t rest hc hspelling ih =>
    rw [scan_starting hc hspelling]
    intro u hu
    rcases List.mem_cons.1 hu with rfl | hu
    · refine ⟨[], rest, ?_, rfl, ?_, Lexeme.stopsAt_starting hc hspelling⟩
      · rw [hspelling]
        rfl
      · rw [hspelling]
        exact List.cons_ne_nil c t
    · obtain ⟨before, behind, hrest, hstart, hspelled⟩ := ih u hu
      refine ⟨c :: (t ++ before), behind, ?_, ?_, hspelled⟩
      · rw [hrest, List.cons_append, List.append_assoc]
      · rw [hstart, List.length_cons, List.length_append]
        omega

theorem faults_eq (ts : List Token) :
    faults ts = (ts.filter isOpen).map fun t => .unquoted t.start := by
  induction ts with
  | nil => rfl
  | cons t ts ih =>
    obtain ⟨start, lexeme⟩ := t
    cases lexeme with
    | quoted w closed =>
      cases closed with
      | true => exact ih
      | false => exact congrArg (Fault.unquoted start :: ·) ih
    | opening => exact ih
    | closing => exact ih
    | uri u => exact ih
    | word w => exact ih

theorem length_not_le_stop {text : Text} {ts : List Token} {t : Token}
    (hordered : ts.Pairwise fun t u => t.stop ≤ u.start)
    (hwithin : ∀ u ∈ ts, u.start < u.stop ∧ u.stop ≤ text.length) (ht : t ∈ ts.dropLast) :
    ¬text.length ≤ t.stop := by
  rcases List.eq_nil_or_concat ts with rfl | ⟨front, last, rfl⟩
  · cases ht
  · rw [List.concat_eq_append] at hordered hwithin ht
    rw [List.dropLast_concat] at ht
    have hlast : t.stop ≤ last.start :=
      (List.pairwise_append.1 hordered).2.2 t ht last (List.mem_singleton_self last)
    obtain ⟨hlt, hle⟩ := hwithin last (List.mem_append_right front (List.mem_singleton_self last))
    omega

theorem length_le_stop_of_isOpen {text : Text} {t : Token}
    (h : t.lexeme.StopsAt (text.drop t.stop)) (hopen : t.isOpen = true) :
    text.length ≤ t.stop := by
  unfold isOpen at hopen
  split at hopen
  · rename_i w hlexeme
    rw [hlexeme] at h
    exact List.drop_eq_nil_iff.1 (h.2 rfl)
  · cases hopen

/-- If only the last token may be a quote left open, it is the only one that a fault is told of. -/
theorem faults_of_closed {ts : List Token} (h : ∀ t ∈ ts.dropLast, t.isOpen = false) :
    faults ts = ((ts.getLast?.filter isOpen).map fun t => .unquoted t.start).toList := by
  rcases List.eq_nil_or_concat ts with rfl | ⟨front, last, rfl⟩
  · rfl
  · rw [List.concat_eq_append] at *
    rw [List.dropLast_concat] at h
    have hfront : front.filter isOpen = [] := by
      apply List.filter_eq_nil_iff.2
      intro t ht
      simp [h t ht]
    rw [faults_eq, List.filter_append, hfront, List.nil_append, List.getLast?_concat]
    cases hopen : last.isOpen with
    | true => simp [hopen, Option.filter]
    | false => simp [hopen, Option.filter]

theorem place_of_mem {text : Text} {t : Token} (ht : t ∈ ofText text) :
    (t.start < t.stop ∧ t.stop ≤ text.length) ∧
      text.drop t.start = t.lexeme.spelling ++ text.drop t.stop ∧
      t.lexeme.StopsAt (text.drop t.stop) := by
  obtain ⟨before, rest, htext, hstart, hne, hstops⟩ := exists_of_mem_scan 0 text t ht
  have hpos : 0 < t.length := List.length_pos_iff.2 hne
  rw [Nat.zero_add] at hstart
  have hdrop : text.drop t.start = t.lexeme.spelling ++ rest := by
    rw [htext, hstart, List.drop_left]
  have hrest : text.drop t.stop = rest := by
    rw [stop, ← List.drop_drop, hdrop]
    exact List.drop_left
  have hlength : text.length = t.start + (t.length + rest.length) := by
    rw [htext, List.length_append, List.length_append, hstart]
    rfl
  refine ⟨⟨Nat.lt_add_of_pos_right hpos, ?_⟩, by rw [hrest, hdrop], hrest ▸ hstops⟩
  rw [stop]
  omega

/-- Nothing is lost when a text is cut into tokens. -/
theorem ofText_lossless (text : Text) : Lossless text (ofText text) := by
  have hwithin : ∀ t ∈ ofText text, t.start < t.stop ∧ t.stop ≤ text.length :=
    fun t ht => (place_of_mem ht).1
  have hordered : (ofText text).Pairwise fun t u => t.stop ≤ u.start :=
    (pairwise_stop_le (consecutive_ofText text)).imp And.right
  have hclosed : ∀ t ∈ (ofText text).dropLast, t.isOpen = false := by
    intro t ht
    apply Bool.eq_false_iff.2
    intro hopen
    have hstops := (place_of_mem ((List.dropLast_sublist _).subset ht)).2.2
    exact length_not_le_stop hordered hwithin ht (length_le_stop_of_isOpen hstops hopen)
  have hblank : ∀ i c, text[i]? = some c → (∀ t ∈ ofText text, t.covers i = false) →
      Text.isBlank c = true := by
    intro i c hi houtside
    apply Bool.of_not_eq_false
    intro hc
    obtain ⟨t, ht, hcovers⟩ := exists_covers_scan 0 text hi hc
    rw [Nat.zero_add, houtside t ht] at hcovers
    cases hcovers
  exact {
    within := hwithin
    ordered := hordered
    blank := hblank
    spelled := fun t ht => (place_of_mem ht).2.1
    stopsAt := fun t ht => (place_of_mem ht).2.2
    closed := hclosed
    faults := faults_of_closed hclosed }

/-- In `a (b"c ` all is cut, and the quote takes the blank at the end. -/
example : ofText ['a', ' ', '(', 'b', '"', 'c', ' '] =
    [⟨0, .word ['a']⟩, ⟨2, .opening⟩, ⟨3, .word ['b']⟩, ⟨4, .quoted ['c', ' '] false⟩] := rfl

end Token
end QueryLine
