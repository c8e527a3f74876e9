import QueryLine.Proofs.Operands

/-!
What a token puts in front of the factors behind it. An operand may take the one behind it as its
value, and a negation always does; every other token leaves the operands as they are.
-/

namespace QueryLine

/-- The operand is in front of these clauses, or around the one that was. It keeps the faults of the
operand inside and has none of its own. -/
def Clauses.Fronted (c : Clauses) (o : Operand) (more : Clauses) : Prop :=
  (more = c ∧ o.faults = []) ∨ ∃ inner, c = more.operand inner ∧ o.faults = inner.faults

theorem Operand.negate_of_some {o : Operand} {x : Term} (h : o.term = some x) (t : Token) :
    o.negate t = ⟨some (.negation (.between t.start x.stop) x), o.faults, o.stop, none⟩ := by
  rw [negate, h]

theorem Operand.negate_of_none {o : Operand} (h : o.term = none) (t : Token) :
    o.negate t = ⟨none, o.faults ++ [.noOperand t.start t.lexeme.spelling], o.stop, none⟩ := by
  rw [negate, h]

namespace Clauses

variable {c more : Clauses} {o : Operand}

theorem Fronted.subset (h : c.Fronted o more) : more.head ⊆ c.head := by
  rcases h with ⟨rfl, -⟩ | ⟨inner, rfl, -⟩
  · exact List.Subset.refl _
  · exact List.subset_cons_self _ _

/-- A word is an operand in front, and no value of a comparison. -/
theorem exists_word (mode : Mode) (start : Nat) (w : Text) (c : Clauses) :
    ∃ o more, c.word mode start w = Clauses.operand o more ∧ o.term.isSome ∧ o.valueAt = none ∧
      c.Fronted o more := by
  have halone : ∀ r, (Operand.ofRestriction start w r none).term.isSome ∧
      (Operand.ofRestriction start w r none).valueAt = none ∧
      (Operand.ofRestriction start w r none).faults = [] := by
    intro r
    unfold Operand.ofRestriction
    split
    · exact ⟨rfl, rfl, rfl⟩
    · exact ⟨rfl, rfl, rfl⟩
  unfold word
  split
  · exact ⟨_, c, rfl, rfl, rfl, .inl ⟨rfl, rfl⟩⟩
  · rename_i r hr
    obtain ⟨hsome, hnone, hfaults⟩ := halone r
    split
    · rename_i hempty
      split
      · rename_i inner hvalue
        have htype : r.namesType = false := by simp [Restriction.namesType, hempty]
        unfold value? at hvalue
        split at hvalue
        · rename_i front more hhead
          split at hvalue
          · obtain rfl := Option.some.inj hvalue
            -- the value is the operand that was in front, and the comparison keeps its faults
            have hc : c = Clauses.operand front ⟨more, c.tail⟩ := by
              obtain ⟨head, tail⟩ := c
              obtain rfl : head = _ := hhead
              rfl
            refine ⟨_, ⟨more, c.tail⟩, by rw [hhead]; rfl, ?_, ?_, .inr ⟨front, hc, ?_⟩⟩
            · simp [Operand.ofRestriction, htype]
            · simp [Operand.ofRestriction, htype]
            · simp [Operand.ofRestriction, htype]
          · cases hvalue
        · cases hvalue
      · exact ⟨_, c, rfl, hsome, hnone, .inl ⟨rfl, hfaults⟩⟩
    · exact ⟨_, c, rfl, hsome, hnone, .inl ⟨rfl, hfaults⟩⟩

theorem negate_cases (t : Token) (c : Clauses) :
    (∃ o more, c = Clauses.operand o more ∧ c.negate t = more.operand (o.negate t)) ∨
      Reading.startsWithOperand c.head = false ∧
        c.negate t = c.operand (.negate t ⟨none, [], t.stop, none⟩) := by
  obtain ⟨head, tail⟩ := c
  match head with
  | .operand o :: more => exact .inl ⟨o, ⟨more, tail⟩, rfl, rfl⟩
  | .also u :: more => exact .inr ⟨rfl, rfl⟩
  | [] => exact .inr ⟨rfl, rfl⟩

theorem exists_negate (t : Token) (c : Clauses) :
    ∃ o more, c.negate t = Clauses.operand o more ∧ o.valueAt = none ∧ more.head ⊆ c.head := by
  have hnone : ∀ o : Operand, (o.negate t).valueAt = none := by
    intro o
    unfold Operand.negate
    split
    · rfl
    · rfl
  rcases c.negate_cases t with ⟨o, more, rfl, hnegate⟩ | ⟨-, hnegate⟩
  · exact ⟨_, more, hnegate, hnone o, List.subset_cons_self _ _⟩
  · exact ⟨_, c, hnegate, hnone _, List.Subset.refl _⟩

theorem exists_token {t : Token} (h : t.isOperand = true) (mode : Mode) (c : Clauses) :
    ∃ o more, c.token mode t = Clauses.operand o more ∧ o.term.isSome ∧ c.Fronted o more := by
  have hsign : ∀ w, ∃ o more, (c.word mode (t.start + 1) w).negate t = Clauses.operand o more ∧
      o.term.isSome ∧ c.Fronted o more := by
    intro w
    obtain ⟨o, more, hword, hsome, -, hfronted⟩ := c.exists_word mode (t.start + 1) w
    obtain ⟨x, hx⟩ := Option.isSome_iff_exists.1 hsome
    have hnegate : o.negate t =
        ⟨some (.negation (.between t.start x.stop) x), o.faults, o.stop, none⟩ :=
      Operand.negate_of_some hx t
    refine ⟨o.negate t, more, by rw [hword]; rfl, by rw [hnegate]; rfl, ?_⟩
    rw [hnegate]
    exact hfronted
  unfold token
  cases hlexeme : t.lexeme with
  | opening => simp [Token.isOperand, hlexeme] at h
  | closing => simp [Token.isOperand, hlexeme] at h
  | quoted w closed => exact ⟨_, c, rfl, rfl, .inl ⟨rfl, rfl⟩⟩
  | uri uri => exact ⟨_, c, rfl, rfl, .inl ⟨rfl, rfl⟩⟩
  | word w =>
    have hnone : Keyword.ofText? w = none := by simpa [Token.isOperand, hlexeme] using h
    simp only [hnone]
    split
    · exact hsign _
    · exact hsign _
    · obtain ⟨o, more, hword, hsome, -, hfronted⟩ := c.exists_word mode t.start w
      exact ⟨o, more, hword, hsome, hfronted⟩

theorem token_and {t : Token} (h : t.keyword? = some .and) (mode : Mode) (c : Clauses) :
    c.token mode t = c.cons (.also t) := by
  obtain ⟨w, hlexeme, hkeyword⟩ := Token.exists_word_of_keyword h
  simp only [token, hlexeme, hkeyword]

theorem token_or {t : Token} (h : t.keyword? = some .or) (mode : Mode) (c : Clauses) :
    c.token mode t = c.cut t := by
  obtain ⟨w, hlexeme, hkeyword⟩ := Token.exists_word_of_keyword h
  simp only [token, hlexeme, hkeyword]

theorem token_not {t : Token} (h : t.keyword? = some .not) (mode : Mode) (c : Clauses) :
    c.token mode t = c.negate t := by
  obtain ⟨w, hlexeme, hkeyword⟩ := Token.exists_word_of_keyword h
  simp only [token, hlexeme, hkeyword]

end Clauses
end QueryLine
