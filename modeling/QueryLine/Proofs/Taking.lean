import QueryLine.Proofs.Clauses
import QueryLine.Proofs.Levels

/-!
How the descent takes one operand: a group, a quoted text, a resource, a word with the value glued
to it, or a negation of a word. It finds the term and the faults that the factor in front has.
-/

namespace QueryLine

open Descent (next? advance atEnd glued close)
open Piece (ofTokens)

section Operands

variable {slots : List Slot} {mode : Mode} {s : Descent} {t : Token} {ts : List Token}

theorem primary_of_atEnd (h : atEnd slots s = true) (mode : Mode) :
    Descent.primary slots mode s = some (none, s) := by
  rw [Descent.primary]
  cases hnext : next? slots s with
  | none => rfl
  | some t =>
    rw [atEnd, hnext, Option.all_some] at h
    dsimp only
    split
    · rfl
    · simp_all [Token.isBinary, Token.keyword?]
    · simp_all [Token.isBinary, Token.keyword?]
    · simp_all [Token.isBinary, Token.keyword?]
    · rename_i w hw
      have hbinary : t.isBinary = true := by simpa [hw] using h
      rw [if_pos hbinary]

theorem Keyword.eq_not_of_sign {c : Char} {w : Text} {keyword : Keyword} (hc : c = '-' ∨ c = '!')
    (h : Keyword.ofText? (c :: w) = some keyword) : keyword = .not := by
  obtain ⟨front, others, hspellings, -⟩ := List.lookup_eq_some_iff.1 h
  have hmem : (c :: w, keyword) ∈ spellings := by simp [hspellings]
  rcases hc with rfl | rfl
  · simp [spellings] at hmem
    exact hmem.2
  · simp [spellings] at hmem
    exact hmem.2

theorem unary_of_atEnd (h : atEnd slots s = true) :
    Descent.unary slots mode s = some (none, s) := by
  have hprimary := primary_of_atEnd h mode
  rw [Descent.unary]
  cases hnext : next? slots s with
  | none => rfl
  | some t =>
    rw [atEnd, hnext, Option.all_some] at h
    have hbinary : t.lexeme = .closing ∨ t.isBinary = true := by simpa using h
    dsimp only
    split
    · rename_i hnot
      rcases hbinary with hclosing | hbinary
      · simp [Token.keyword?, hclosing] at hnot
      · simp [Token.isBinary, hnot] at hbinary
    · -- a word with a sign in front is no `AND` and no `OR`
      have hsign : ∀ c w, (c = '-' ∨ c = '!') → t.lexeme ≠ .word (c :: w) := by
        intro c w hc hlexeme
        rcases hbinary with hclosing | hbinary
        · simp [hlexeme] at hclosing
        · simp only [Token.isBinary, Token.keyword?, hlexeme, Bool.or_eq_true,
            decide_eq_true_eq] at hbinary
          rcases hbinary with hand | hor
          · cases Keyword.eq_not_of_sign hc hand
          · cases Keyword.eq_not_of_sign hc hor
      split
      · exact absurd ‹_› (hsign '-' _ (.inl rfl))
      · exact absurd ‹_› (hsign '!' _ (.inr rfl))
      · exact hprimary

/-- The operand that starts with `t` may be the value of a comparison in front of it, and is
taken. -/
def TakesValue (mode : Mode) (s : Descent) (t : Token) (ts : List Token)
    (r : Option (Option Term × Descent)) : Prop :=
  ∃ o c used, level mode (t :: ts) = Clauses.operand o c ∧ o.valueAt = some t.start ∧
    ((t :: used).getLast?.getD t).stop = o.stop ∧
    Takes mode s (t :: ts) (t :: used) c o.term o.faults r

theorem takesValue_quoted {w : Text} {closed : Bool} (hs : Stands slots s (t :: ts))
    (ht : t.lexeme = .quoted w closed) :
    TakesValue mode s t ts (Descent.primary slots mode s) := by
  have hplain : t.Plain := by simp [Token.Plain, ht]
  have hlevel : level mode (t :: ts) = (level mode ts).operand
      ⟨some (.literal ⟨t.start + 1, w.length⟩ w), [], t.stop, some t.start⟩ := by
    rw [level_cons hplain, Clauses.token, ht]
  refine ⟨_, _, [], hlevel, rfl, rfl, .later hs hplain ?_⟩
  have hprimary : Descent.primary slots mode s =
      some (some (.literal ⟨t.start + 1, w.length⟩ w), advance slots s) := by
    simp only [Descent.primary, hs.next?_cons, Slot.ofToken, ht]
  rw [hprimary]
  exact .nothing _ _ _

/-- The rule for a disjunction takes all tokens of the level. -/
def TakesLevel (mode : Mode) (s : Descent) (ts : List Token)
    (r : Option (Option Term × Descent)) : Prop :=
  ∃ used, Takes mode s ts used .empty (Reading.disjunction (level mode ts)).term
    (Reading.disjunction (level mode ts)).faults r

/-- What is behind a level is the parenthesis that ends it, if there is one. -/
theorem TakesLevel.exists_rest (hs : Stands slots s ts)
    (h : TakesLevel mode s ts (Descent.disjunction slots mode s)) :
    ∃ used rest, ts = used ++ rest ∧ ofTokens rest = ⟨[], behind ts⟩ ∧
      Descent.disjunction slots mode s = some ((Reading.disjunction (level mode ts)).term,
        s.after (used.map .ofToken) (Reading.disjunction (level mode ts)).faults) := by
  obtain ⟨used, htakes⟩ := h
  have hlevel := htakes.ends (Descent.halts slots mode s).disjunction
  obtain ⟨rest, hts, hbehind, -, hresult⟩ := htakes
  have hrest := (hts ▸ hs).after (Reading.disjunction (level mode ts)).faults
  exact ⟨used, rest, hts, by rw [hrest.ofTokens_eq hlevel, hbehind], hresult⟩

theorem takesValue_opening (hs : Stands slots s (t :: ts)) (ht : t.lexeme = .opening)
    (hinside : TakesLevel mode (advance slots s) ts
      (Descent.disjunction slots mode (advance slots s))) :
    TakesValue mode s t ts (Descent.primary slots mode s) := by
  obtain ⟨used, rest, hts, hrest, hresult⟩ := hinside.exists_rest hs.advance
  have hprimary : Descent.primary slots mode s = some
      ((Reading.disjunction (level mode ts)).term, close slots t
        ((advance slots s).after (used.map .ofToken)
          (Reading.disjunction (level mode ts)).faults)) := by
    simp only [Descent.primary, hs.next?_cons, Slot.ofToken, ht]
    rw [StateT.run, hresult]
    rfl
  have hstands := (hts ▸ hs.advance).after (Reading.disjunction (level mode ts)).faults
  rw [hprimary]
  -- the group is never closed, or it is by the parenthesis that its level ends at
  cases hbehind : behind ts with
  | nil =>
    rw [hbehind] at hrest
    obtain rfl := eq_nil_of_ofTokens hrest
    have hpieces := ofTokens_opening_of_nil ht hbehind
    refine ⟨_, .empty, ts, by rw [level, hpieces]; rfl, rfl, ?_, [], by simp, ?_, rfl, ?_⟩
    · simp [Reading.group, tokensOf_head hbehind, List.getLast?_cons]
    · rw [behind, behind, hpieces]
      rfl
    · rw [hstands.close_nil, hs.advance_eq, Descent.after_after, Descent.after_fault, hts]
      simp [Reading.group, level]
  | cons next more =>
    obtain ⟨u, ps⟩ := next
    rw [hbehind] at hrest
    obtain ⟨rest, rfl, hu, hrest⟩ := exists_of_ofTokens hrest
    have hpieces := ofTokens_opening_of_cons ht hbehind
    refine ⟨_, Reading.clauses mode ps, used ++ [u], by rw [level, hpieces]; rfl, rfl, ?_, rest,
      by simp [hts], ?_, ?_, ?_⟩
    · rw [← List.cons_append, List.getLast?_concat]
      simp [Reading.group]
    · rw [behind, behind, hpieces, hrest]
    · rw [level, hrest]
    · rw [hstands.close_cons hu, hs.advance_eq, Descent.after_after, Descent.after_after]
      simp [Reading.group, level]

theorem Clauses.value?_of_none {o : Operand} (h : o.valueAt = none) (c : Clauses) (stop : Nat) :
    (Clauses.operand o c).value? stop = none := by
  change (if o.valueAt = some stop then some o else none) = none
  rw [h]
  exact if_neg nofun

theorem Clauses.value?_token (h : t.startsValue = false) (c : Clauses) (mode : Mode) (stop : Nat)
    (hc : t.lexeme ≠ .closing) : (c.token mode t).value? stop = none := by
  have hnegate : ∀ d : Clauses, (d.negate t).value? stop = none := by
    intro d
    obtain ⟨o, more, hnegate, hnone, -⟩ := d.exists_negate t
    rw [hnegate]
    exact value?_of_none hnone more stop
  rw [token]
  split
  · rename_i w hw
    split
    · rfl
    · rfl
    · exact hnegate c
    · split
      · exact hnegate _
      · exact hnegate _
      · obtain ⟨o, more, hword, -, hnone, -⟩ := c.exists_word mode t.start w
        rw [hword]
        exact value?_of_none hnone more stop
  · rename_i hquoted
    rw [Token.startsValue, hquoted] at h
    cases h
  · exact value?_of_none rfl c stop
  · rename_i hopening
    rw [Token.startsValue, hopening] at h
    cases h
  · exact absurd ‹_› hc

/-- The rule for a word takes what the word restricts as its value, if it is right behind. -/
def TakesWord (mode : Mode) (s : Descent) (ts : List Token) (start : Nat) (w : Text)
    (r : Option (Term × Descent)) : Prop :=
  ∃ o x c used, (level mode ts).word mode start w = Clauses.operand o c ∧ o.term = some x ∧
    x.stop = (s.after (used.map .ofToken) o.faults).lastStop ∧ Takes mode s ts used c x o.faults r

variable {start : Nat} {w : Text}

theorem takesWord_plain (hr : Restriction.ofWord? w = none)
    (hstop : s.lastStop = start + w.length) :
    TakesWord mode s ts start w (Descent.word slots mode (start, w) s) := by
  have hword : (level mode ts).word mode start w =
      (level mode ts).operand (.ofPlainWord mode start w) := by rw [Clauses.word, hr]
  have hresult : ∃ x, (Operand.ofPlainWord mode start w).term = some x ∧
      x.stop = start + w.length ∧ Descent.word slots mode (start, w) s = some (x, s) := by
    refine ⟨_, rfl, ?_, by rw [Descent.word, hr]⟩
    split
    · rfl
    · rfl
  obtain ⟨x, hterm, hx, hresult⟩ := hresult
  refine ⟨_, x, _, [], hword, hterm, ?_, ?_⟩
  · rw [hx, ← hstop]
    rfl
  · rw [hresult]
    exact .nothing x s ts

theorem takesWord_type {r : Restriction} (hr : Restriction.ofWord? w = some r)
    (htype : r.namesType = true) (hstop : s.lastStop = start + w.length) :
    TakesWord mode s ts start w (Descent.word slots mode (start, w) s) := by
  have hown : r.value ≠ [] := by
    rintro hnil
    simp [Restriction.namesType, hnil] at htype
  have hoperand : Operand.ofRestriction start w r none =
      ⟨some (.resourceType ⟨start, w.length⟩ r.value), [], start + w.length, none⟩ :=
    Operand.ofRestriction_of_namesType htype none
  refine ⟨_, _, _, [], Clauses.word_of_value _ hr hown, by rw [hoperand], ?_, ?_⟩
  · rw [hoperand]
    exact hstop.symm
  · rw [hoperand, Descent.word, hr]
    dsimp only
    rw [if_pos htype]
    exact .nothing _ s ts

theorem Descent.word_comparison {r : Restriction} {x : Option Term} {s' : Descent}
    (hr : Restriction.ofWord? w = some r) (htype : r.namesType = false)
    (hvalue : Descent.value slots mode (r, start + w.length) s = some (x, s')) :
    Descent.word slots mode (start, w) s =
      some (.comparison (.between start (max s'.lastStop (start + w.length))) r.property
        r.comparator
        (x.getD (.literal ⟨start + w.length - r.value.length, r.value.length⟩ r.value)), s') := by
  have hrun : ((Descent.value slots mode).run (r, Span.stop ⟨start, w.length⟩)).run s =
      some (x, s') := hvalue
  rw [Descent.word, hr]
  simp only [htype, Bool.false_eq_true, if_false, hrun]
  rfl

theorem takesWord_alone {r : Restriction} (hr : Restriction.ofWord? w = some r)
    (htype : r.namesType = false) (hstop : s.lastStop = start + w.length)
    (hvalue : Descent.value slots mode (r, start + w.length) s = some (none, s))
    (hword : (level mode ts).word mode start w =
      (level mode ts).operand (.ofRestriction start w r none)) :
    TakesWord mode s ts start w (Descent.word slots mode (start, w) s) := by
  have hspan : Span.between start (max s.lastStop (start + w.length)) = ⟨start, w.length⟩ := by
    rw [hstop, Nat.max_self, Span.between, Nat.add_sub_cancel_left]
  have hresult := Descent.word_comparison hr htype hvalue
  rw [hspan] at hresult
  have hoperand : Operand.ofRestriction start w r none =
      ⟨some (.comparison ⟨start, w.length⟩ r.property r.comparator
        (.literal ⟨start + w.length - r.value.length, r.value.length⟩ r.value)), [],
        start + w.length, none⟩ := by
    rw [Operand.ofRestriction, htype]
    rfl
  refine ⟨_, _, _, [], hword, by rw [hoperand], ?_, ?_⟩
  · rw [hoperand]
    exact hstop.symm
  · rw [hoperand, hresult]
    exact .nothing _ s ts

theorem takesWord_glued {r : Restriction} (hs : Stands slots s (t :: ts))
    (hr : Restriction.ofWord? w = some r) (hempty : r.value = []) (ht : t.startsValue = true)
    (hglued : t.start = start + w.length)
    (hvalue : TakesValue mode s t ts (Descent.primary slots mode s)) :
    TakesWord mode s (t :: ts) start w (Descent.word slots mode (start, w) s) := by
  obtain ⟨o, c, used, hlevel, hat, hlast, htakes⟩ := hvalue
  have htype : r.namesType = false := by simp [Restriction.namesType, hempty]
  have hvalue : Descent.value slots mode (r, start + w.length) s =
      Descent.primary slots mode s := by
    have hnext : glued slots (start + w.length) s = true := by
      rw [glued, hs.next?_cons, Option.any_some]
      simp [Slot.ofToken, hglued, ht]
    rw [Descent.value, hnext, hempty]
    rfl
  have hword : (level mode (t :: ts)).word mode start w =
      c.operand (.ofRestriction start w r (some o)) := by
    rw [hlevel]
    exact Clauses.word_of_glued c hr hempty (by rw [hat, hglued])
  obtain ⟨rest, hts, hbehind, hrest, hprimary⟩ := htakes
  have hlastStop : (s.after ((t :: used).map .ofToken) o.faults).lastStop = o.stop := by
    rw [Descent.lastStop_after List.getLast?_cons, ← hlast, List.getLast?_cons, Option.getD_some]
  -- the value ends behind the word, and the comparison with it
  have hstop : start + w.length ≤ o.stop := by
    have hmem : used.getLast?.getD t ∈ t :: ts := by
      rw [hts]
      exact List.mem_append_left _ (List.mem_of_getLast? List.getLast?_cons)
    rw [← hlast, List.getLast?_cons, Option.getD_some, ← hglued]
    exact Nat.le_trans (hs.start_le hmem) (Nat.le_add_right _ _)
  have hresult := Descent.word_comparison hr htype (hvalue.trans hprimary)
  rw [hlastStop, Nat.max_eq_left hstop] at hresult
  have hoperand : Operand.ofRestriction start w r (some o) =
      ⟨some (.comparison (.between start o.stop) r.property r.comparator
        (o.term.getD (.literal ⟨start + w.length - r.value.length, r.value.length⟩ r.value))),
        o.faults, o.stop, none⟩ := by
    have hmax : max o.stop (Span.stop ⟨start, w.length⟩) = o.stop := Nat.max_eq_left hstop
    simp only [Operand.ofRestriction, htype, Bool.false_eq_true, if_false, hmax]
    rfl
  refine ⟨_, _, _, t :: used, hword, by rw [hoperand], ?_, rest, hts, hbehind, hrest, ?_⟩
  · rw [hoperand, hlastStop]
    exact Span.stop_between (Nat.le_trans (Nat.le_add_right _ _) hstop)
  · rw [hoperand, hresult]

/-- Nothing is a value for a word that stops somewhere else than right in front of it. -/
theorem value?_level (stop : Nat) (hvalue : ∀ t rest, ts = t :: rest → t.startsValue = true →
      TakesValue mode s t rest (Descent.primary slots mode s))
    (hapart : ∀ t rest, ts = t :: rest → t.startsValue = true → t.start ≠ stop) :
    (level mode ts).value? stop = none := by
  cases ts with
  | nil => rfl
  | cons t rest =>
    cases ht : t.startsValue with
    | true =>
      obtain ⟨o, c, used, hlevel, hat, -⟩ := hvalue t rest rfl ht
      have hne : o.valueAt ≠ some stop := by
        rw [hat]
        exact fun h => hapart t rest rfl ht (Option.some.inj h)
      rw [hlevel]
      exact if_neg hne
    | false =>
      by_cases hclosing : t.lexeme = .closing
      · rw [level_closing hclosing]
        rfl
      · have hplain : t.Plain := by
          refine ⟨fun hopening => ?_, hclosing⟩
          rw [Token.startsValue, hopening] at ht
          cases ht
        rw [level_cons hplain]
        exact Clauses.value?_token ht _ mode stop hclosing

theorem takesWord (hs : Stands slots s ts) (hstop : s.lastStop = start + w.length)
    (hvalue : ∀ t rest, ts = t :: rest → t.startsValue = true →
      TakesValue mode s t rest (Descent.primary slots mode s)) :
    TakesWord mode s ts start w (Descent.word slots mode (start, w) s) := by
  cases hr : Restriction.ofWord? w with
  | none => exact takesWord_plain hr hstop
  | some r =>
    cases htype : r.namesType with
    | true => exact takesWord_type hr htype hstop
    | false =>
      by_cases hempty : r.value = []
      · by_cases hglued : ∃ t rest, ts = t :: rest ∧ t.startsValue = true ∧
            t.start = start + w.length
        · obtain ⟨t, rest, rfl, ht, hstart⟩ := hglued
          exact takesWord_glued hs hr hempty ht hstart (hvalue t rest rfl ht)
        · have hapart : ∀ t rest, ts = t :: rest → t.startsValue = true →
              t.start ≠ start + w.length :=
            fun t rest hts ht hstart => hglued ⟨t, rest, hts, ht, hstart⟩
          have hnone := value?_level (start + w.length) hvalue hapart
          refine takesWord_alone hr htype hstop ?_ ?_
          · rw [Descent.value, hs.glued_eq_false hapart, Bool.and_false]
            rfl
          · simp [Clauses.word, hr, hempty, hnone]
      · have hnone : Descent.value slots mode (r, start + w.length) s = some (none, s) := by
          rw [Descent.value, List.isEmpty_eq_false_iff.2 hempty]
          rfl
        exact takesWord_alone hr htype hstop hnone (Clauses.word_of_value _ hr hempty)

/-- An operand that comes first is taken, and nothing else. -/
def TakesOperand (mode : Mode) (s : Descent) (ts : List Token)
    (r : Option (Option Term × Descent)) : Prop :=
  ∀ o c, level mode ts = Clauses.operand o c →
    ∃ used, used ≠ [] ∧ Takes mode s ts used c o.term o.faults r

theorem Clauses.operand_inj {o o' : Operand} {c c' : Clauses}
    (h : Clauses.operand o c = Clauses.operand o' c') : o = o' ∧ c = c' := by
  obtain ⟨head, tail⟩ := c
  obtain ⟨head', tail'⟩ := c'
  cases h
  exact ⟨rfl, rfl⟩

theorem Clauses.exists_operand {c : Clauses} (h : Reading.startsWithOperand c.head = true) :
    ∃ o d, c = Clauses.operand o d := by
  obtain ⟨head, tail⟩ := c
  match head with
  | .operand o :: more => exact ⟨o, ⟨more, tail⟩, rfl⟩
  | .also t :: more => cases h
  | [] => cases h

theorem TakesValue.takesOperand {r : Option (Option Term × Descent)}
    (h : TakesValue mode s t ts r) : TakesOperand mode s (t :: ts) r := by
  obtain ⟨o, c, used, hlevel, -, -, htakes⟩ := h
  intro o' c' hlevel'
  obtain ⟨rfl, rfl⟩ := Clauses.operand_inj (hlevel.symm.trans hlevel')
  exact ⟨t :: used, List.cons_ne_nil t used, htakes⟩

theorem TakesWord.takesOperand (hs : Stands slots s (t :: ts)) (hw : t.lexeme = .word w)
    (h : TakesWord mode (advance slots s) ts start w
      (Descent.word slots mode (start, w) (advance slots s)))
    (hlevel : level mode (t :: ts) = (level mode ts).word mode start w) :
    TakesOperand mode s (t :: ts) (do
      let (x, s) ← Descent.word slots mode (start, w) (advance slots s)
      return (some x, s)) := by
  obtain ⟨o, x, c, used, hword, hterm, -, htakes⟩ := h
  intro o' c' hlevel'
  obtain ⟨rfl, rfl⟩ := Clauses.operand_inj (hword.symm.trans (hlevel.symm.trans hlevel'))
  have hplain := Token.Plain.of_word hw
  refine ⟨t :: used, List.cons_ne_nil _ _, .later hs hplain ?_⟩
  rw [hterm]
  exact htakes.map fun x _ => some x

theorem TakesWord.takesNegation {v : Text} (hs : Stands slots s (t :: ts)) (hv : t.lexeme = .word v)
    (h : TakesWord mode (advance slots s) ts start w
      (Descent.word slots mode (start, w) (advance slots s)))
    (hlevel : level mode (t :: ts) = ((level mode ts).word mode start w).negate t) :
    TakesOperand mode s (t :: ts) (do
      let (x, s) ← Descent.word slots mode (start, w) (advance slots s)
      return (some (.negation (.between t.start s.lastStop) x), s)) := by
  obtain ⟨o, x, c, used, hword, hterm, hstop, htakes⟩ := h
  intro o' c' hlevel'
  rw [hword] at hlevel
  have hnegate : (Clauses.operand o c).negate t = c.operand (o.negate t) := rfl
  obtain ⟨rfl, rfl⟩ := Clauses.operand_inj (hnegate.symm.trans (hlevel.symm.trans hlevel'))
  have hplain := Token.Plain.of_word hv
  refine ⟨t :: used, List.cons_ne_nil _ _, .later hs hplain ?_⟩
  rw [Operand.negate_of_some hterm, hstop]
  exact htakes.map fun x s => some (Term.negation (.between t.start s.lastStop) x)

theorem Descent.unary_eq_primary (hs : Stands slots s (t :: ts)) (ht : ∀ w, t.lexeme ≠ .word w) :
    Descent.unary slots mode s = Descent.primary slots mode s := by
  have hnot : (Slot.ofToken t).toToken.keyword? ≠ some .not := by
    intro h
    obtain ⟨w, hw, -⟩ := Token.exists_word_of_keyword h
    exact ht w hw
  rw [Descent.unary, hs.next?_cons]
  dsimp only
  rw [if_neg hnot]
  split
  · exact absurd ‹_› (ht _)
  · exact absurd ‹_› (ht _)
  · rfl

theorem takesResource {uri : Text} (hs : Stands slots s (t :: ts)) (ht : t.lexeme = .uri uri) :
    TakesOperand mode s (t :: ts) (Descent.primary slots mode s) := by
  have hplain : t.Plain := by simp [Token.Plain, ht]
  have hlevel := level_cons hplain mode ts
  rw [Clauses.token, ht] at hlevel
  have hprimary : Descent.primary slots mode s =
      some (some (.resource ⟨t.start, t.length⟩ uri), advance slots s) := by
    simp only [Descent.primary, hs.next?_cons, Slot.ofToken, ht]
  intro o c hlevel'
  obtain ⟨rfl, rfl⟩ := Clauses.operand_inj (hlevel.symm.trans hlevel')
  refine ⟨[t], List.cons_ne_nil _ _, .later hs hplain ?_⟩
  rw [hprimary]
  exact .nothing _ _ _

end Operands

theorem not_isEmpty_append (terms : List Term) (x : Option Term) :
    (!(terms ++ x.toList).isEmpty) = (!terms.isEmpty || x.isSome) := by
  cases x with
  | none => simp
  | some x => simp

theorem Reading.disjuncts_cons (found : Bool) (t : Token) (clause : List Factor)
    (more : List (Token × List Factor)) : Reading.disjuncts found ((t, clause) :: more) =
      ((conjunction clause).term.toList ++
          (disjuncts (found || (conjunction clause).term.isSome) more).1,
        (conjunction clause).faults ++
          (Descent.told t (!(found && (conjunction clause).term.isSome)) ++
            (disjuncts (found || (conjunction clause).term.isSome) more).2)) := by
  rw [Reading.disjuncts]
  dsimp only
  rw [List.append_assoc]
  cases found && (conjunction clause).term.isSome with
  | true => rfl
  | false => rfl

end QueryLine
