import QueryLine.Proofs.Taking

/-!
Both ways of reading a query give the same: the descent, begun at tokens that stand one behind the
other, takes what the factors of these tokens say. That it comes to an end, and takes each token
once, holds of any tokens.
-/

namespace QueryLine

open Descent (advance atEnd)
open Piece (ofTokens)

/-- The loop over a clause adds what the rest of the clause says to `terms`. -/
def TakesClause (mode : Mode) (s : Descent) (ts : List Token) (terms : List Term)
    (r : Option (List Term × Descent)) : Prop :=
  ∃ used, Takes mode s ts used ⟨[], (level mode ts).tail⟩
    (terms ++ (Reading.conjuncts (!terms.isEmpty) (level mode ts).head).1)
    (Reading.conjuncts (!terms.isEmpty) (level mode ts).head).2 r

/-- The loop over the clauses behind the first adds what they say to `terms`. -/
def TakesClauses (mode : Mode) (s : Descent) (ts : List Token) (terms : List Term)
    (r : Option (List Term × Descent)) : Prop :=
  ∃ used, Takes mode s ts used .empty
    (terms ++ (Reading.disjuncts (!terms.isEmpty) (level mode ts).tail).1)
    (Reading.disjuncts (!terms.isEmpty) (level mode ts).tail).2 r

/-- Every rule that is begun here takes what the factors ahead are of. -/
structure Agrees (slots : List Slot) (mode : Mode) (s : Descent) (ts : List Token) : Prop where
  disjunction : TakesLevel mode s ts (Descent.disjunction slots mode s)
  disjuncts : ∀ terms, Descent.EndsClause slots s →
    TakesClauses mode s ts terms (Descent.disjuncts slots mode terms s)
  conjuncts : ∀ terms, TakesClause mode s ts terms (Descent.conjuncts slots mode terms s)
  unary : TakesOperand mode s ts (Descent.unary slots mode s)
  word : ∀ start w, s.lastStop = start + w.length →
    TakesWord mode s ts start w (Descent.word slots mode (start, w) s)

section Agreeing

variable {slots : List Slot} {mode : Mode} {s : Descent} {ts : List Token}
  (hs : Stands slots s ts)
  (ih : ∀ s' ts', ts'.length < ts.length → Stands slots s' ts' → Agrees slots mode s' ts')

include hs ih

theorem takesValue (t : Token) (rest : List Token) (hts : ts = t :: rest)
    (ht : t.startsValue = true) : TakesValue mode s t rest (Descent.primary slots mode s) := by
  subst hts
  unfold Token.startsValue at ht
  split at ht
  · rename_i hopening
    have hlater := ih _ rest (Nat.lt_succ_self _) hs.advance
    exact takesValue_opening hs hopening hlater.disjunction
  · rename_i hquoted
    exact takesValue_quoted hs hquoted
  · cases ht

theorem takesNegation {t : Token} {rest : List Token} (hts : ts = t :: rest)
    (ht : t.keyword? = some .not) : TakesOperand mode s ts (Descent.unary slots mode s) := by
  subst hts
  have hlater := ih _ rest (Nat.lt_succ_self _) hs.advance
  have hplain := Token.Plain.of_keyword ht
  have hlevel : level mode (t :: rest) = (level mode rest).negate t := by
    rw [level_cons hplain, Clauses.token_not ht]
  rw [Descent.unary_of_not hs.next?_cons ht]
  intro o c hlevel'
  rw [hlevel] at hlevel'
  -- an operand is behind to be negated, or there is none and the operator is at fault
  rcases (level mode rest).negate_cases t with ⟨inner, more, hinner, hnegate⟩ | ⟨hnone, hnegate⟩
  · obtain ⟨rfl, rfl⟩ := Clauses.operand_inj (hnegate.symm.trans hlevel')
    obtain ⟨used, -, htakes⟩ := hlater.unary inner more hinner
    have hfaults : (inner.negate t).faults = inner.faults ++ Descent.told t inner.term.isNone := by
      cases hterm : inner.term with
      | none => rw [Operand.negate_of_none hterm]; rfl
      | some x => rw [Operand.negate_of_some hterm]; exact (List.append_nil _).symm
    have hterm : (inner.negate t).term =
        inner.term.map fun x => .negation (.between t.start x.stop) x := by
      cases hterm : inner.term with
      | none => rw [Operand.negate_of_none hterm]; rfl
      | some x => rw [Operand.negate_of_some hterm]; rfl
    refine ⟨t :: (used ++ []), List.cons_ne_nil _ _, .later hs hplain ?_⟩
    rw [hfaults, hterm]
    refine htakes.bind hs.advance fun rest hts hrest hstands => ?_
    rw [← hrest]
    exact .told _ _ rest t _
  · obtain ⟨rfl, rfl⟩ := Clauses.operand_inj (hnegate.symm.trans hlevel')
    have hend : atEnd slots (advance slots s) = true := by
      rw [hs.advance.atEnd_eq mode, hnone]
      rfl
    refine ⟨[t], List.cons_ne_nil _ _, .later hs hplain ?_⟩
    rw [unary_of_atEnd hend]
    exact .told none _ rest t true

theorem takesWordOperand {t : Token} {rest : List Token} {w : Text} (hts : ts = t :: rest)
    (hw : t.lexeme = .word w) (hkeyword : Keyword.ofText? w = none) :
    TakesOperand mode s ts (Descent.unary slots mode s) := by
  subst hts
  have hlater := ih _ rest (Nat.lt_succ_self _) hs.advance
  have hplain := Token.Plain.of_word hw
  have hlastStop : (advance slots s).lastStop = t.start + w.length := by
    have hstop : t.stop = t.start + w.length := by rw [Token.stop, Token.length, hw]; rfl
    rw [hs.advance_eq, ← hstop]
    exact Descent.lastStop_after rfl s []
  have hsigned : ∀ c (v : Text), w = c :: v →
      (advance slots s).lastStop = t.start + 1 + v.length := by
    rintro c v rfl
    rw [hlastStop, List.length_cons, Nat.add_right_comm, Nat.add_assoc]
  have hlevel := level_cons hplain mode rest
  rw [Descent.unary, hs.next?_cons]
  simp only [Clauses.token, hw, hkeyword] at hlevel
  simp only [Slot.ofToken, Token.keyword?, hw, hkeyword, reduceCtorEq, if_false]
  -- a sign in front negates the word behind it, which starts one place further on
  split at hlevel
  · exact (hlater.word (t.start + 1) _ (hsigned _ _ rfl)).takesNegation hs hw hlevel
  · exact (hlater.word (t.start + 1) _ (hsigned _ _ rfl)).takesNegation hs hw hlevel
  · rename_i hminus hbang
    have hbinary : t.isBinary = false := by simp [Token.isBinary, Token.keyword?, hw, hkeyword]
    have hoperand := (hlater.word t.start w hlastStop).takesOperand hs hw hlevel
    rw [StateT.run, Descent.primary, hs.next?_cons]
    simp only [Slot.ofToken, hw, hbinary]
    split
    · rename_i hword
      exact (hminus _ (Lexeme.word.inj hword)).elim
    · rename_i hword
      exact (hbang _ (Lexeme.word.inj hword)).elim
    · exact hoperand

theorem takesUnary : TakesOperand mode s ts (Descent.unary slots mode s) := by
  cases ts with
  | nil =>
    intro o c hlevel
    cases hlevel
  | cons t rest =>
    cases hlexeme : t.lexeme with
    | closing =>
      intro o c hlevel
      rw [level_closing hlexeme] at hlevel
      cases hlevel
    | opening =>
      rw [Descent.unary_eq_primary hs (by simp [hlexeme])]
      exact (takesValue hs ih t rest rfl (by rw [Token.startsValue, hlexeme])).takesOperand
    | quoted w closed =>
      rw [Descent.unary_eq_primary hs (by simp [hlexeme])]
      exact (takesValue hs ih t rest rfl (by rw [Token.startsValue, hlexeme])).takesOperand
    | uri uri =>
      rw [Descent.unary_eq_primary hs (by simp [hlexeme])]
      exact takesResource hs hlexeme
    | word w =>
      have hlevel := level_cons (.of_word hlexeme) mode rest
      cases hkeyword : Keyword.ofText? w with
      | none => exact takesWordOperand hs ih rfl hlexeme hkeyword
      | some keyword =>
        have ht : t.keyword? = some keyword := by
          rw [Token.keyword?, hlexeme]
          exact hkeyword
        cases keyword with
        | not => exact takesNegation hs ih rfl ht
        | and =>
          intro o c hoperand
          rw [hlevel, Clauses.token_and ht] at hoperand
          cases hoperand
        | or =>
          intro o c hoperand
          rw [hlevel, Clauses.token_or ht] at hoperand
          cases hoperand

theorem takesAlso {t : Token} {rest : List Token} (hts : ts = t :: rest)
    (hand : t.keyword? = some .and) (terms : List Term) :
    TakesClause mode s ts terms (Descent.conjuncts slots mode terms s) := by
  subst hts
  have hplain := Token.Plain.of_keyword hand
  have hlevel : level mode (t :: rest) = (level mode rest).cons (.also t) := by
    rw [level_cons hplain, Clauses.token_and hand]
  have hstands := hs.advance.missing t (terms.isEmpty || atEnd slots (advance slots s))
  obtain ⟨used, htakes⟩ := (ih _ rest (Nat.lt_succ_self _) hstands).conjuncts terms
  have hfaults : (Reading.conjuncts (!terms.isEmpty) (level mode (t :: rest)).head).2 =
      Descent.told t (terms.isEmpty || atEnd slots (advance slots s)) ++
        (Reading.conjuncts (!terms.isEmpty) (level mode rest).head).2 := by
    rw [hs.advance.atEnd_eq mode, hlevel, Sections.cons, Reading.conjuncts_also, Descent.told]
    cases terms.isEmpty <;> cases Reading.startsWithOperand (level mode rest).head <;> rfl
  have hfirst := hs.next?_cons
  rw [TakesClause, Descent.conjuncts_of_and hfirst hand, hfaults, hlevel, Sections.cons,
    Reading.conjuncts_also]
  exact ⟨t :: used, .later hs hplain htakes.missing⟩

theorem takesAnother (hend : atEnd slots s = false) (terms : List Term) :
    TakesClause mode s ts terms (Descent.conjuncts slots mode terms s) := by
  have hstarts := hs.atEnd_eq mode
  rw [hend] at hstarts
  obtain ⟨o, c, hlevel⟩ := Clauses.exists_operand (by simpa using hstarts.symm)
  obtain ⟨used, hused, htakes⟩ := takesUnary hs ih o c hlevel
  have hfound := not_isEmpty_append terms o.term
  have hconjuncts : ∀ found, Reading.conjuncts found (.operand o :: c.head) =
      (o.term.toList ++ (Reading.conjuncts (found || o.term.isSome) c.head).1,
        o.faults ++ (Reading.conjuncts (found || o.term.isSome) c.head).2) := fun _ => rfl
  rw [TakesClause, Descent.conjuncts_of_operand hend, hlevel, Clauses.operand, Sections.cons,
    hconjuncts, ← List.append_assoc]
  refine htakes.exists_bind hs fun rest hts hlevel' hstands => ?_
  have hshorter : rest.length < ts.length := by
    rw [hts, List.length_append]
    exact Nat.lt_add_of_pos_left (List.length_pos_iff.2 hused)
  have hrest := (ih _ rest hshorter hstands).conjuncts (terms ++ o.term.toList)
  rwa [TakesClause, hlevel', hfound] at hrest

theorem takesClause (terms : List Term) :
    TakesClause mode s ts terms (Descent.conjuncts slots mode terms s) := by
  by_cases hends : Descent.EndsClause slots s
  · have hhead := hs.head_level hends mode
    have hlevel : level mode ts = ⟨[], (level mode ts).tail⟩ := by rw [← hhead]
    rw [TakesClause, Descent.conjuncts_of_end hends, hhead, ← hlevel, Reading.conjuncts,
      List.append_nil]
    exact ⟨[], .nothing terms s ts⟩
  · obtain ⟨t, rest, rfl, hclosing, hor⟩ := hs.exists_of_not_ends hends
    by_cases hand : t.keyword? = some .and
    · exact takesAlso hs ih rfl hand terms
    · have hend : atEnd slots s = false := by
        have hor : t.keyword? ≠ some .or := of_decide_eq_false hor
        rw [atEnd, hs.next?_cons, Option.all_some]
        simp [Slot.ofToken, hclosing, Token.isBinary, hand, hor]
      exact takesAnother hs ih hend terms

omit hs ih in
theorem takesConjunction
    (h : TakesClause mode s ts [] (Descent.conjuncts slots mode [] s)) :
    ∃ used, Takes mode s ts used ⟨[], (level mode ts).tail⟩
      (Reading.conjunction (level mode ts).head).term
      (Reading.conjunction (level mode ts).head).faults (Descent.conjunction slots mode s) := by
  obtain ⟨used, htakes⟩ := h
  rw [Descent.conjunction]
  exact ⟨used, htakes.map fun terms _ => Term.join .conjunction terms⟩

theorem takesClauses (terms : List Term) (hends : Descent.EndsClause slots s) :
    TakesClauses mode s ts terms (Descent.disjuncts slots mode terms s) := by
  -- a clause ends with its level, or at an `OR` with one more clause behind
  by_cases hlast : Descent.EndsLevel slots s
  · have hempty := hs.level_eq_empty hlast mode
    have hnothing : Reading.disjuncts (!terms.isEmpty) (level mode ts).tail = ([], []) := by
      rw [hempty]
      rfl
    rw [TakesClauses, Descent.disjuncts_of_end hlast, hnothing, List.append_nil, ← hempty]
    exact ⟨[], .nothing terms s ts⟩
  · obtain ⟨t, rest, rfl, hor⟩ := hs.exists_or hends hlast
    have hplain := Token.Plain.of_keyword hor
    have hlevel : (level mode (t :: rest)).tail =
        (t, (level mode rest).head) :: (level mode rest).tail := by
      rw [level_cons hplain, Clauses.token_or hor]
      rfl
    have hlater := ih _ rest (Nat.lt_succ_self _) hs.advance
    obtain ⟨used, htakes⟩ := takesConjunction (hlater.conjuncts [])
    have hclause := htakes.ends (Descent.halts slots mode _).conjunction
    have hdisjuncts := Reading.disjuncts_cons (!terms.isEmpty) t (level mode rest).head
      (level mode rest).tail
    rw [TakesClauses, hlevel, hdisjuncts, Descent.disjuncts_of_or hs.next?_cons hor]
    generalize hright : Reading.conjunction (level mode rest).head = right at *
    have hfound := not_isEmpty_append terms right.term
    have habsent : (!(!terms.isEmpty && right.term.isSome)) =
        (terms.isEmpty || right.term.isNone) := by
      cases right.term <;> simp
    dsimp only
    refine Takes.exists_later hs hplain ?_
    refine htakes.exists_bind hs.advance fun ts' hts hlevel' hstands => ?_
    -- the loop goes on where that clause ends, which is behind the `OR`
    have hshorter : ts'.length < (t :: rest).length := by
      rw [hts, List.length_cons, List.length_append]
      omega
    have hstands' := hstands.missing t (terms.isEmpty || right.term.isNone)
    have hlater' := (ih _ ts' hshorter hstands').disjuncts (terms ++ right.term.toList)
      (by rwa [Descent.EndsClause, Descent.next?_missing])
    rw [TakesClauses, hlevel', hfound] at hlater'
    obtain ⟨more, hmore⟩ := hlater'
    rw [habsent, ← List.append_assoc]
    exact ⟨more, hmore.missing⟩

theorem takesLevel : TakesLevel mode s ts (Descent.disjunction slots mode s) := by
  obtain ⟨used, htakes⟩ := takesConjunction (takesClause hs ih [])
  have hends := htakes.ends (Descent.halts slots mode s).conjunction
  generalize hfirst : Reading.conjunction (level mode ts).head = first at *
  have hreading : Reading.disjunction (level mode ts) =
      ⟨Term.join .disjunction (first.term.toList ++
          (Reading.disjuncts first.term.isSome (level mode ts).tail).1),
        first.faults ++ (Reading.disjuncts first.term.isSome (level mode ts).tail).2⟩ := by
    rw [Reading.disjunction, hfirst]
  have hfound : (!first.term.toList.isEmpty) = first.term.isSome := by
    cases first.term <;> rfl
  rw [TakesLevel, hreading, Descent.disjunction]
  refine htakes.exists_bind hs fun ts' hts hlevel hstands => ?_
  -- a first clause of no tokens leaves all of them, so the loop is not begun by induction
  have hlater : ∀ s' ts'', ts''.length < ts'.length → Stands slots s' ts'' →
      Agrees slots mode s' ts'' := by
    refine fun s' ts'' hlt => ih s' ts'' (Nat.lt_of_lt_of_le hlt ?_)
    rw [hts, List.length_append]
    exact Nat.le_add_left _ _
  obtain ⟨more, hmore⟩ := takesClauses hstands hlater first.term.toList hends
  rw [hlevel, hfound] at hmore
  exact ⟨more, hmore.map fun terms _ => Term.join .disjunction terms⟩

end Agreeing

theorem agrees {slots : List Slot} {s : Descent} {ts : List Token} (mode : Mode)
    (hs : Stands slots s ts) : Agrees slots mode s ts := by
  -- on the tokens ahead: each rule takes one before it comes back to any of them
  induction hn : ts.length using Nat.strongRecOn generalizing s ts with
  | _ n ih =>
    subst hn
    have hlater : ∀ s' ts', ts'.length < ts.length → Stands slots s' ts' →
        Agrees slots mode s' ts' :=
      fun s' ts' hlt hs' => ih _ hlt hs' rfl
    exact ⟨takesLevel hs hlater, takesClauses hs hlater, takesClause hs hlater,
      takesUnary hs hlater, fun start w hstop => takesWord hs hstop (takesValue hs hlater)⟩

theorem sections_eq {slots : List Slot} {s : Descent} {ts : List Token} (mode : Mode)
    (hs : Stands slots s ts) (terms : List Term) :
    Descent.sections slots mode terms s = some
      (terms ++ ((Reading.disjunction (level mode ts)).term.toList ++
          (Reading.strays mode (behind ts)).1),
        s.after (ts.map .ofToken) ((Reading.disjunction (level mode ts)).faults ++
          (Reading.strays mode (behind ts)).2)) := by
  -- on the sections behind, each of which starts behind a parenthesis that nothing opened
  induction hbehind : behind ts generalizing s ts terms with
  | nil =>
    obtain ⟨used, rest, rfl, hrest, hresult⟩ := (agrees mode hs).disjunction.exists_rest hs
    rw [hbehind] at hrest
    obtain rfl := eq_nil_of_ofTokens hrest
    rw [Descent.sections_of_end hresult (hs.after _).next?_nil]
    simp [Reading.strays]
  | cons next more ih =>
    obtain ⟨u, ps⟩ := next
    obtain ⟨used, rest, rfl, hrest, hresult⟩ := (agrees mode hs).disjunction.exists_rest hs
    rw [hbehind] at hrest
    obtain ⟨rest, rfl, hu, hrest⟩ := exists_of_ofTokens hrest
    have hlevel : level mode rest = Reading.clauses mode ps := by rw [level, hrest]
    have hmore : behind rest = more := by rw [behind, hrest]
    generalize Reading.disjunction (level mode (used ++ u :: rest)) = first at *
    have hstands := hs.after first.faults
    have hfault : (advance slots (s.after (used.map .ofToken) first.faults)).fault
        (.unopened u.start) = s.after ((used ++ [u]).map .ofToken)
          (first.faults ++ [.unopened u.start]) := by
      rw [hstands.advance_eq, Descent.after_fault, Descent.after_after, List.map_append,
        List.nil_append]
    rw [List.append_cons] at hs
    have hsections := ih (hs.after (first.faults ++ [.unopened u.start]))
      (terms ++ first.term.toList) hmore
    have hnext : (Slot.ofToken u).start = u.start := rfl
    rw [Descent.sections_of_next hresult hstands.next?_cons, hnext, hfault, hsections, hlevel,
      Descent.after_after]
    simp [Reading.strays, Reading.ofPieces]

/-- Tokens that stand one behind the other are read alike in both ways. -/
theorem Descent.query_eq {tokens : List Token} (h : tokens.Pairwise fun t u => t.stop ≤ u.start)
    (mode : Mode) : query (tokens.map .ofToken) mode = some
      ((Reading.ofSections mode (ofTokens tokens)).term, start.after (tokens.map .ofToken)
        (Reading.ofSections mode (ofTokens tokens)).faults) := by
  have hs : Stands (tokens.map .ofToken) start tokens := ⟨rfl, h⟩
  rw [query, sections_eq mode hs []]
  rfl

namespace Descent

/-- Reading a query comes to an end whatever its tokens are, and takes each of them once, in order.
A turn of the loop over a clause takes a token; a disjunction ends at a closing parenthesis or
behind the last token, so what is told to be unopened is a closing parenthesis. On the tokens of a
text this is how the text is read. -/
theorem query_takes_all (slots : List Slot) (mode : Mode) :
    (∃ term s, query slots mode = some (term, s) ∧ s.index = slots.length ∧
      s.taken = List.range slots.length ∧
      ∀ p, .unopened p ∈ s.faults → ∃ t ∈ slots, t.lexeme = .closing ∧ t.start = p) ∧
    (∀ terms s, conjunct slots mode terms s = some (none, s) ∨
      ∃ terms' s', conjunct slots mode terms s = some (some terms', s') ∧
        s.index < s'.index) ∧
    (∀ s, ∃ term s', disjunction slots mode s = some (term, s') ∧
      ∀ t, next? slots s' = some t → t.lexeme = .closing) ∧
    ∀ text, ∃ s, query ((Token.ofText text).map .ofToken) mode =
        some ((Query.ofText mode text).term, s) ∧
      (Query.ofText mode text).faults = Token.faults (Token.ofText text) ++ s.faults := by
  refine ⟨?_, fun terms s => ?_, fun s => ?_, fun text => ?_⟩
  · obtain ⟨terms, faults, hsections, hunopened⟩ := exists_sections slots mode [] start
    have hahead : ahead slots start = slots := rfl
    rw [hahead] at hsections hunopened
    refine ⟨Term.join .conjunction terms, start.after slots faults, ?_, ?_, ?_, fun p hp => ?_⟩
    · rw [query, hsections]
      rfl
    · exact Nat.zero_add _
    · exact List.range_eq_range'.symm
    · exact hunopened p hp
  · have hlater : ∀ s', (ahead slots s').length < (ahead slots s).length →
        Halts slots mode s' := fun s' _ => halts slots mode s'
    rcases conjunct_advances hlater terms with ⟨hend, -⟩ | ⟨terms', s', hsome, honward⟩
    · exact .inl hend
    · exact .inr ⟨terms', s', hsome, honward.index_le⟩
  · obtain ⟨term, s', hresult, -, hends⟩ := (halts slots mode s).disjunction
    exact ⟨term, s', hresult, hends⟩
  · have hordered := (Token.pairwise_stop_le (Token.consecutive_ofText text)).imp fun h => h.2
    exact ⟨_, query_eq hordered mode, rfl⟩

end Descent
end QueryLine
