import Mathlib.Data.List.DropRight
import Mathlib.Data.List.TakeWhile
import QueryLine.Proofs.Proposing

/-!
What is typed of a value, read off the words in front of the caret and read off a proposal. The
first goes back to a blank or an operator, whatever the pattern, and the second to the text that the
pattern asks with. An operator in the value itself sets them apart.
-/

namespace QueryLine

/-- What is typed for the value: all that is behind the text that binds it, up to the caret, or the
last word. -/
def Proposal.given (p : Proposal) (text : Text) (caret : Nat) : Text :=
  match p.pattern.head? with
  | some (.fixed t) =>
    if bindsNext t then (text.take caret).drop (p.span.start + t.length)
    else Edit.wordBefore text caret
  | _ => Edit.wordBefore text caret

theorem Proposal.given_of_pattern {p : Proposal} {t : Text} {ps : List PatternPart}
    (h : p.pattern = .fixed t :: ps) (text : Text) (caret : Nat) : p.given text caret =
      if bindsNext t then (text.take caret).drop (p.span.start + t.length)
      else Edit.wordBefore text caret := by
  rw [given, h]
  rfl

namespace Edit

variable {text : Text} {caret : Nat}

def isTyped (c : Char) : Bool := !Text.isBlank c && !isOperator c

theorem takeWhile_isTyped (t : Text) :
    (t.takeWhile (!Text.isBlank ·)).takeWhile (!isOperator ·) = t.takeWhile isTyped := by
  rw [List.takeWhile_takeWhile]
  congr 1
  funext c
  rw [isTyped, Bool.and_comm]
  simp

theorem typedValue_eq (text : Text) (caret : Nat) :
    typedValue text caret = (text.take caret).rtakeWhile isTyped := by
  rw [typedValue, wordBefore, List.reverse_reverse, takeWhile_isTyped]
  rfl

theorem typedValue_eq_wordBefore (text : Text) (caret : Nat) :
    typedValue text caret = (wordBefore text caret).rtakeWhile isTyped := by
  rw [List.rtakeWhile, ← takeWhile_isTyped, wordBefore, List.reverse_reverse, List.takeWhile_idem,
    typedValue, wordBefore, List.reverse_reverse]

theorem typedValue_append {front given : Text} {c : Char} (hc : isOperator c = true)
    (hsplit : text.take caret = front ++ c :: given) :
    typedValue text caret = given.rtakeWhile isTyped := by
  have hstop : ∀ d ∈ (c :: front.reverse).head?, isTyped d = false := by
    intro d hd
    obtain rfl := Option.some.inj hd
    simp [isTyped, hc]
  rw [typedValue_eq, hsplit, List.rtakeWhile, List.reverse_append, List.reverse_cons,
    List.append_assoc, List.singleton_append, Lexeme.takeWhile_append_stop hstop]
  rfl

end Edit

namespace Rule

variable {r : Rule}

theorem exists_operator {t : Text} (ht : t.Binds) (hpattern : r.pattern = [.fixed t, .placeholder])
    {w : Word} {more : List Word} (h : r.match? (w :: more) = some 1) :
    ∃ u e rest, w.text = u ++ e :: rest ∧ u.length + 1 = t.length ∧ isOperator e = true := by
  obtain ⟨s, d, rfl, hd⟩ := ht.exists_operator
  obtain ⟨before, last, hwords, hmatched⟩ := exists_last h
  rw [hpattern] at hmatched
  cases before with
  | nil =>
    obtain ⟨rfl, -⟩ := List.cons.inj hwords
    obtain ⟨-, hreached | ⟨-, p, hp, a, ha, -, -, hstarts⟩⟩ := matched?_cases hmatched
    · cases hreached
    · obtain rfl := Option.some.inj hp
      rw [ht.single] at ha
      obtain rfl := List.mem_singleton.1 ha
      rw [Text.startsWithLoosely, ht.lower, List.isPrefixOf_iff_prefix] at hstarts
      have hdot : '\u0307' ∉ s := fun hmem => ht.dot (List.mem_append_left _ hmem)
      obtain ⟨u, rest, hw, hlength⟩ := Text.exists_operator hdot hd hstarts
      exact ⟨u, d, rest, hw, by simp [hlength], hd⟩
  | cons v before =>
    obtain ⟨rfl, -⟩ := List.cons.inj hwords
    have hcovers : covers (.fixed (s ++ [d])) w.text = true := by
      apply Bool.of_not_eq_false
      intro hnot
      rw [List.map_cons, matched?_of_not_covers hnot] at hmatched
      cases hmatched
    rw [covers, ht.single, List.any_cons, List.any_nil, Bool.or_false] at hcovers
    obtain ⟨u, e, hw, hlength, he⟩ := Text.exists_operator_of_same hd hcovers
    exact ⟨u, e, [], hw, by simp [hlength], he⟩

end Rule

theorem Proposal.exists_front {r : Rule} {t : Text} (ht : t.Binds)
    (hpattern : r.pattern = [.fixed t, .placeholder]) {text : Text} {caret : Nat} {p : Proposal}
    (h : r.proposal? (text.take caret).length (Word.typed (text.take caret)) = some p)
    (hmatched : p.matched = 1) :
    ∃ front c, text.take caret = front ++ c :: p.given text caret ∧ isOperator c = true := by
  obtain ⟨w, more, matched, hsuffix, hmatch, rfl⟩ := Rule.exists_suffix h
  obtain rfl : matched = 1 := hmatched
  obtain ⟨u, e, rest, hw, hlength, he⟩ := Rule.exists_operator ht hpattern hmatch
  obtain ⟨before, behind, hsplit, hstart, -⟩ :=
    Word.exists_of_mem_typed (hsuffix.subset List.mem_cons_self)
  have hfront : text.take caret = before ++ u ++ e :: (rest ++ behind) := by
    rw [hsplit, hw]
    simp only [List.append_assoc, List.cons_append]
  have hgiven : (r.offer (text.take caret).length w.start 1).given text caret = rest ++ behind := by
    have hlong : w.start + t.length = (before ++ u ++ [e]).length := by
      rw [hstart, ← hlength]
      simp only [List.length_append, List.length_singleton, Nat.add_assoc]
    have hstart : (r.offer (text.take caret).length w.start 1).span.start = w.start := rfl
    rw [given_of_pattern hpattern, ht.binds, if_pos rfl, hstart, hlong, hfront,
      List.append_cons (before ++ u) e (rest ++ behind), List.drop_left]
  exact ⟨before ++ u, e, by rw [hgiven, hfront], he⟩

namespace Edit

variable {text : Text} {caret : Nat} {p : Proposal}

/-- What is read off the words in front of the caret is the end of what is typed for the value, back
to an operator or a blank. That is all of it if there is no operator and no blank in it. -/
theorem typedValue_offered (h : p ∈ Proposal.at text caret)
    (hvalue : p.pattern[p.matched]? = some .placeholder) :
    typedValue text caret = (p.given text caret).rtakeWhile isTyped ∧
      (typedValue text caret = p.given text caret ↔
        ∀ c ∈ p.given text caret, Text.isBlank c = false ∧ isOperator c = false) := by
  have htyped : typedValue text caret = (p.given text caret).rtakeWhile isTyped := by
    obtain ⟨r, hr, hp⟩ := List.mem_filterMap.1 h
    have hpattern : p.pattern = r.pattern := by
      obtain ⟨w, more, matched, -, -, rfl⟩ := Rule.exists_suffix hp
      rfl
    have hasks : Pattern.Asks p.pattern := by
      rw [hpattern]
      exact Rule.asks_of_mem hr (hpattern ▸ List.mem_of_getElem? hvalue)
    generalize hasked : p.pattern = pattern at hasks
    -- the value starts at the operator that binds it, or else it is all of the last word
    cases hasks with
    | bound t ht =>
      have hmatched : p.matched = 1 := by
        rw [hasked] at hvalue
        match hn : p.matched with
        | 0 =>
          rw [hn] at hvalue
          cases hvalue
        | 1 => rfl
        | n + 2 =>
          rw [hn] at hvalue
          cases hvalue
      obtain ⟨front, c, hsplit, hc⟩ :=
        Proposal.exists_front ht (hpattern.symm.trans hasked) hp hmatched
      exact typedValue_append hc hsplit
    | apart t ps hsingle =>
      have hgiven : p.given text caret = wordBefore text caret := by
        rw [Proposal.given_of_pattern hasked, hsingle]
        rfl
      rw [hgiven, typedValue_eq_wordBefore]
  refine ⟨htyped, ?_⟩
  rw [htyped, List.rtakeWhile_eq_self_iff]
  simp [isTyped]

/-- The start of a tag's name. -/
theorem typedValue_offered_tag :
    let text : Text := "a tag:wo".toList
    let p : Proposal :=
      ⟨⟨2, 6⟩, [.fixed "tag:".toList, .placeholder], 1, .tag, "Tagged with".toList⟩
    (p ∈ Proposal.at text 8 ∧ p.pattern[p.matched]? = some .placeholder) ∧
      p.given text 8 = ['w', 'o'] ∧ typedValue text 8 = ['w', 'o'] := by
  intro text p
  have hp : p ∈ Proposal.at text 8 := by decide +kernel
  have hvalue : p.pattern[p.matched]? = some .placeholder := rfl
  have hgiven : p.given text 8 = ['w', 'o'] := by decide +kernel
  have hplain : ∀ c ∈ p.given text 8, Text.isBlank c = false ∧ isOperator c = false := by
    rw [hgiven]
    simp only [List.forall_mem_cons]
    exact ⟨by decide, by decide, by simp⟩
  refine ⟨⟨hp, hvalue⟩, hgiven, ?_⟩
  exact ((typedValue_offered hp hvalue).2.2 hplain).trans hgiven

/-- Of a tag with a colon in its name only the end is taken for what is typed. -/
theorem typedValue_colon :
    let text : Text := "tag:a:b".toList
    let p : Proposal :=
      ⟨⟨0, 7⟩, [.fixed "tag:".toList, .placeholder], 1, .tag, "Tagged with".toList⟩
    (p ∈ Proposal.at text 7 ∧ p.pattern[p.matched]? = some .placeholder) ∧
      p.given text 7 = ['a', ':', 'b'] ∧ typedValue text 7 = ['b'] := by
  decide +kernel

end Edit

end QueryLine
