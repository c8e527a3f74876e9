import QueryLine.Proofs.Phrase
import QueryLine.Proofs.Words
import QueryLine.Query.Reading

/-!
How pieces are read that stand between others. Operands and members of a junction are followed as
the factors that they put in front of whatever comes after them.
-/

namespace QueryLine

namespace Reading

/-- The pieces are one operand, and it says `s`. -/
def IsOperand (s : Sense) (mode : Mode) (ps : List Piece) : Prop :=
  ∃ o t, (∀ more, clauses mode (ps ++ more) = (clauses mode more).operand o) ∧
    o.term = some t ∧ o.faults = [] ∧ t.sense = s

/-- The pieces are operands with an `AND` between them, and these say `ss`. -/
def IsConjunction (ss : List Sense) (mode : Mode) (ps : List Piece) : Prop :=
  ∃ o fs ts, (∀ more, clauses mode (ps ++ more) =
      ⟨.operand o :: fs ++ (clauses mode more).head, (clauses mode more).tail⟩) ∧
    (∀ found, conjuncts found (.operand o :: fs) = (ts, [])) ∧ Term.senses ts = ss

/-- The pieces are factors without an `OR`, and together they say `s`. -/
def IsClause (s : Sense) (mode : Mode) (ps : List Piece) : Prop :=
  ∃ fs t, (∀ more, clauses mode (ps ++ more) =
      ⟨fs ++ (clauses mode more).head, (clauses mode more).tail⟩) ∧
    conjunction fs = ⟨some t, []⟩ ∧ t.sense = s

/-- The pieces are clauses with an `OR` between them, and these say `ss`. -/
def IsDisjunction (ss : List Sense) (mode : Mode) (ps : List Piece) : Prop :=
  ∃ fs tail t ts, clauses mode ps = ⟨fs, tail⟩ ∧ conjunction fs = ⟨some t, []⟩ ∧
    disjuncts true tail = (ts, []) ∧ Term.senses (t :: ts) = ss

/-- Alone, the pieces say `s`. -/
def IsQuery (s : Sense) (mode : Mode) (ps : List Piece) : Prop :=
  ∃ t, ofPieces mode ps = ⟨some t, []⟩ ∧ t.sense = s

/-- How pieces are read that stand where a phrase of this rank may. -/
def Reads : Nat → Sense → Mode → List Piece → Prop
  | 0 => IsOperand
  | 1 => IsClause
  | _ => IsQuery

variable {mode : Mode} {ps qs : List Piece} {s : Sense} {ss : List Sense}

theorem clauses_alone {fs : List Factor} (h : ∀ more, clauses mode (ps ++ more) =
    ⟨fs ++ (clauses mode more).head, (clauses mode more).tail⟩) : clauses mode ps = ⟨fs, []⟩ := by
  have hnil := h []
  simp only [List.append_nil, clauses, Sections.empty] at hnil
  exact hnil

theorem IsOperand.isConjunction (h : IsOperand s mode ps) : IsConjunction [s] mode ps := by
  obtain ⟨o, t, hclauses, hterm, hfaults, hsense⟩ := h
  refine ⟨o, [], [t], hclauses, fun found => ?_, ?_⟩
  · simp [conjuncts, hterm, hfaults]
  · rw [Term.senses, hsense, Term.senses]

theorem IsConjunction.cons (hp : IsOperand s mode ps) (h : IsConjunction ss mode qs)
    (start : Nat) :
    IsConjunction (s :: ss) mode (ps ++ .token ⟨start, .word ['A', 'N', 'D']⟩ :: qs) := by
  obtain ⟨o, t, hclauses, hterm, hfaults, hsense⟩ := hp
  obtain ⟨next, fs, ts, hmore, hconjuncts, hsenses⟩ := h
  let also : Token := ⟨start, .word ['A', 'N', 'D']⟩
  refine ⟨o, .also also :: .operand next :: fs, t :: ts, fun more => ?_, fun found => ?_, ?_⟩
  · rw [List.append_assoc, hclauses]
    change Clauses.operand o (Clauses.token mode also (clauses mode (qs ++ more))) = _
    rw [hmore]
    rfl
  · -- the operand in front was found, so the operator has both of its operands
    have hrest : conjuncts true (.also also :: .operand next :: fs) = (ts, []) := by
      rw [conjuncts, hconjuncts true]
      rfl
    rw [conjuncts, hterm, hfaults, Option.isSome_some, Bool.or_true, hrest]
    rfl
  · rw [Term.senses, hsense, hsenses]

theorem IsOperand.isClause (h : IsOperand s mode ps) : IsClause s mode ps := by
  obtain ⟨o, t, hclauses, hterm, hfaults, hsense⟩ := h
  refine ⟨[.operand o], t, hclauses, ?_, hsense⟩
  simp [conjunction, conjuncts, hterm, hfaults, Term.join]

theorem IsConjunction.isClause (h : IsConjunction ss mode ps) (hss : 2 ≤ ss.length) :
    IsClause (.conjunction ss) mode ps := by
  obtain ⟨o, fs, ts, hclauses, hconjuncts, hsenses⟩ := h
  have hts : 2 ≤ ts.length := by rwa [← Term.length_senses, hsenses]
  obtain ⟨span, hjoin⟩ := Term.exists_join .conjunction hts
  refine ⟨.operand o :: fs, .conjunction span ts, hclauses, ?_, ?_⟩
  · simp only [conjunction, hconjuncts, hjoin]
  · rw [Term.sense, hsenses]

theorem IsClause.isDisjunction (h : IsClause s mode ps) : IsDisjunction [s] mode ps := by
  obtain ⟨fs, t, hclauses, hconjunction, hsense⟩ := h
  refine ⟨fs, [], t, [], clauses_alone hclauses, hconjunction, rfl, ?_⟩
  rw [Term.senses, hsense, Term.senses]

theorem IsDisjunction.cons (hp : IsClause s mode ps) (h : IsDisjunction ss mode qs)
    (start : Nat) :
    IsDisjunction (s :: ss) mode (ps ++ .token ⟨start, .word ['O', 'R']⟩ :: qs) := by
  obtain ⟨fs, t, hclauses, hconjunction, hsense⟩ := hp
  obtain ⟨next, tail, u, ts, hmore, hnext, hdisjuncts, hsenses⟩ := h
  let either : Token := ⟨start, .word ['O', 'R']⟩
  refine ⟨fs, (either, next) :: tail, t, u :: ts, ?_, hconjunction, ?_, ?_⟩
  · have hcut : clauses mode (.token either :: qs) = ⟨[], (either, next) :: tail⟩ := by
      change Clauses.token mode either (clauses mode qs) = _
      rw [hmore]
      rfl
    rw [hclauses, hcut, List.append_nil]
  · rw [disjuncts, hnext, Bool.true_or, hdisjuncts]
    rfl
  · rw [Term.senses, hsense, hsenses]

theorem IsDisjunction.isQuery (h : IsDisjunction ss mode ps) (hss : 2 ≤ ss.length) :
    IsQuery (.disjunction ss) mode ps := by
  obtain ⟨fs, tail, t, ts, hclauses, hconjunction, hdisjuncts, hsenses⟩ := h
  have hts : 2 ≤ (t :: ts).length := by rwa [← Term.length_senses, hsenses]
  obtain ⟨span, hjoin⟩ := Term.exists_join .disjunction hts
  refine ⟨.disjunction span (t :: ts), ?_, ?_⟩
  · rw [ofPieces, disjunction, hclauses]
    simp only [hconjunction, Option.isSome_some, hdisjuncts, Option.toList_some,
      List.singleton_append, hjoin, List.append_nil]
  · rw [Term.sense, hsenses]

theorem IsClause.isQuery (h : IsClause s mode ps) : IsQuery s mode ps := by
  obtain ⟨fs, t, hclauses, hconjunction, hsense⟩ := h
  refine ⟨t, ?_, hsense⟩
  simp [ofPieces, clauses_alone hclauses, disjunction, hconjunction, disjuncts, Term.join]

theorem Reads.isQuery {rank : Nat} (h : Reads rank s mode ps) : IsQuery s mode ps :=
  match rank, h with
  | 0, h => IsClause.isQuery (IsOperand.isClause h)
  | 1, h => IsClause.isQuery h
  | _ + 2, h => h

theorem Reads.mono {rank limit : Nat} (h : Reads rank s mode ps) (hle : rank ≤ limit) :
    Reads limit s mode ps := by
  match limit with
  | 0 =>
    obtain rfl : rank = 0 := by omega
    exact h
  | 1 =>
    match rank with
    | 0 => exact IsOperand.isClause h
    | 1 => exact h
    | _ + 2 => omega
  | _ + 2 => exact h.isQuery

theorem IsOperand.reads (h : IsOperand s mode ps) (limit : Nat) : Reads limit s mode ps := by
  have hzero : Reads 0 s mode ps := h
  exact hzero.mono (Nat.zero_le limit)

/-- A group is an operand that says what is inside, and may be the value of a comparison. -/
theorem clauses_group (opening closing : Token) {t : Term} (h : ofPieces mode ps = ⟨some t, []⟩) :
    ∃ stop, ∀ more, clauses mode (.group opening ps (some closing) :: more) =
      (clauses mode more).operand ⟨some t, [], stop, some opening.start⟩ := by
  have hinside : disjunction (clauses mode ps) = ⟨some t, []⟩ := h
  refine ⟨(group opening ps (some closing) ⟨some t, []⟩).stop, fun more => ?_⟩
  rw [clauses, piece, hinside]
  rfl

end Reading

namespace Clauses

theorem token_word (mode : Mode) (start : Nat) {c d : Char} {w : Text} (rest : Clauses)
    (hd : d ∈ Comparator.signs) (hw : d ∈ c :: w) (hminus : c ≠ '-') (hbang : c ≠ '!') :
    rest.token mode ⟨start, .word (c :: w)⟩ = rest.word mode start (c :: w) := by
  unfold token
  dsimp only
  rw [Keyword.ofText?_eq_none hd hw]
  dsimp only
  split
  · rename_i heq
    exact absurd (List.cons.inj heq).1 hminus
  · rename_i heq
    exact absurd (List.cons.inj heq).1 hbang
  · rfl

theorem word_of_value {mode : Mode} {start : Nat} {w : Text} {r : Restriction} (rest : Clauses)
    (hr : Restriction.ofWord? w = some r) (hvalue : r.value ≠ []) :
    rest.word mode start w = rest.operand (.ofRestriction start w r none) := by
  simp [word, hr, hvalue]

theorem word_of_glued {mode : Mode} {start : Nat} {w : Text} {r : Restriction} {o : Operand}
    (rest : Clauses) (hr : Restriction.ofWord? w = some r) (hvalue : r.value = [])
    (hglued : o.valueAt = some (start + w.length)) :
    (rest.operand o).word mode start w = rest.operand (.ofRestriction start w r (some o)) := by
  have htaken : (rest.operand o).value? (start + w.length) = some o := if_pos hglued
  simp only [word, hr, hvalue, List.isEmpty_nil, if_true, htaken]
  rfl

end Clauses

theorem Operand.ofRestriction_of_namesType {start : Nat} {w : Text} {r : Restriction}
    (h : r.namesType = true) (value : Option Operand) :
    ofRestriction start w r value =
      ⟨some (.resourceType ⟨start, w.length⟩ r.value), [], start + w.length, none⟩ := by
  rw [ofRestriction, if_pos h]
  rfl

theorem Operand.ofRestriction_of_term {o : Operand} {t : Term} (start : Nat) (w property : Text)
    (comparator : Comparator) (h : o.term = some t) :
    ofRestriction start w ⟨property, comparator, []⟩ (some o) =
      ⟨some (.comparison (.between start (max o.stop (start + w.length))) property comparator t),
        o.faults, o.stop, none⟩ := by
  have htype : Restriction.namesType ⟨property, comparator, []⟩ = false := rfl
  simp only [ofRestriction, htype, h]
  rfl

theorem Term.join_toList (make : Span → List Term → Term) (t : Option Term) :
    join make t.toList = t := by
  cases t with
  | none => rfl
  | some t => rfl

namespace Query

/-- Where every parenthesis has its partner there is one section to read, and no fault before. -/
theorem ofTokens_closed (mode : Mode) {ps : List Piece} (h : Piece.ClosedIn ps) :
    ofTokens mode (Piece.tokensOf ps) =
      ⟨(Reading.ofPieces mode ps).term, (Reading.ofPieces mode ps).faults⟩ := by
  have hpieces := Piece.ofTokens_tokensOf ps h []
  rw [List.append_nil] at hpieces
  have hsections : Piece.ofTokens (Piece.tokensOf ps) = ⟨ps, []⟩ := by
    rw [hpieces]
    simp [Piece.ofTokens, Sections.empty]
  simp only [ofTokens, hsections, Piece.faults_tokensOf ps h, Reading.ofSections, Reading.strays,
    List.append_nil, List.nil_append, Term.join_toList]

theorem ofText_spelled {mode : Mode} {text : Text} {ps : List Piece} {t : Term}
    (h : Spelled 0 text ps) (hread : Reading.ofPieces mode ps = ⟨some t, []⟩) :
    ofText mode text = ⟨some t, []⟩ := by
  rw [ofText, h.ofText, ofTokens_closed mode h.closed, hread]

end Query
end QueryLine
