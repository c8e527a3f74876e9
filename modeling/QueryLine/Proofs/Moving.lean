import QueryLine.Proofs.Scanning
import QueryLine.Proofs.Spans

/-!
A query that stands further on in its text. Reading compares positions and measures distances, and
both stay the same, so the same is read, only further on.
-/

namespace QueryLine

def Span.moved (n : Nat) (s : Span) : Span := { s with start := s.start + n }

theorem Span.between_moved (n start stop : Nat) :
    between (start + n) (stop + n) = (between start stop).moved n := by
  have hlength : stop + n - (start + n) = stop - start := Nat.add_sub_add_right stop n start
  rw [between, hlength]
  rfl

namespace Term

mutual
def moved (n : Nat) : Term → Term
  | comparison s property comparator value =>
    comparison (s.moved n) property comparator (value.moved n)
  | negation s operand => negation (s.moved n) (operand.moved n)
  | conjunction s members => conjunction (s.moved n) (movedAll n members)
  | disjunction s members => disjunction (s.moved n) (movedAll n members)
  | literal s text => literal (s.moved n) text
  | resource s uri => resource (s.moved n) uri
  | resourceType s name => resourceType (s.moved n) name

def movedAll (n : Nat) : List Term → List Term
  | [] => []
  | t :: ts => t.moved n :: movedAll n ts
end

theorem movedAll_eq (n : Nat) (ts : List Term) : movedAll n ts = ts.map (moved n) := by
  induction ts with
  | nil => rfl
  | cons t ts ih => rw [movedAll, ih, List.map_cons]

theorem span_moved (n : Nat) (t : Term) : (t.moved n).span = t.span.moved n := by
  cases t with
  | _ => rfl

theorem stop_moved (n : Nat) (t : Term) : (t.moved n).stop = t.stop + n := by
  rw [stop, span_moved]
  exact Nat.add_right_comm _ _ _

theorem foldl_stop_moved (n : Nat) (ts : List Term) (last : Nat) :
    ((ts.map (moved n)).map stop).foldl max (last + n) = (ts.map stop).foldl max last + n := by
  induction ts generalizing last with
  | nil => rfl
  | cons t ts ih =>
    have hmax : max (last + n) (t.stop + n) = max last t.stop + n := by omega
    simp only [List.map_cons, List.foldl_cons, stop_moved, hmax]
    exact ih (max last t.stop)

theorem join_moved {make : Span → List Term → Term}
    (hmake : make = conjunction ∨ make = disjunction) (n : Nat) (ts : List Term) :
    join make (ts.map (moved n)) = (join make ts).map (moved n) := by
  match ts with
  | [] => rfl
  | [t] => rfl
  | t :: u :: ts =>
    have hspan := foldl_stop_moved n (u :: ts) t.stop
    rw [← stop_moved] at hspan
    simp only [List.map_cons] at hspan
    simp only [List.map_cons, join, Option.map_some, hspan, span_moved]
    rw [show (t.span.moved n).start = t.span.start + n from rfl, Span.between_moved]
    rcases hmake with rfl | rfl
    · rw [moved, movedAll_eq, List.map_cons, List.map_cons]
    · rw [moved, movedAll_eq, List.map_cons, List.map_cons]

end Term

def Fault.moved (n : Nat) : Fault → Fault
  | unclosed p => unclosed (p + n)
  | unopened p => unopened (p + n)
  | unquoted p => unquoted (p + n)
  | noOperand p operator => noOperand (p + n) operator

theorem Token.stop_moved (n : Nat) (t : Token) : (t.moved n).stop = t.stop + n :=
  Nat.add_right_comm _ _ _

namespace Piece

mutual
def moved (n : Nat) : Piece → Piece
  | token t => token (t.moved n)
  | group opening body closing =>
    group (opening.moved n) (movedAll n body) (closing.map (Token.moved n))

def movedAll (n : Nat) : List Piece → List Piece
  | [] => []
  | p :: ps => p.moved n :: movedAll n ps
end

mutual
theorem tokens_moved (n : Nat) : (p : Piece) → (p.moved n).tokens = p.tokens.map (Token.moved n)
  | token t => rfl
  | group opening body closing => by
    rw [moved, tokens, tokens, tokensOf_movedAll n body]
    cases closing with
    | none => simp
    | some t => simp

theorem tokensOf_movedAll (n : Nat) : (ps : List Piece) →
    tokensOf (movedAll n ps) = (tokensOf ps).map (Token.moved n)
  | [] => rfl
  | p :: ps => by
    rw [movedAll, tokensOf, tokensOf, tokens_moved n p, tokensOf_movedAll n ps, List.map_append]
end

mutual
theorem closed_moved (n : Nat) : (p : Piece) → p.Closed → (p.moved n).Closed
  | token _, h => h
  | group _ body _, ⟨hopening, hbody, t, ht, hclosing⟩ =>
    ⟨hopening, closedIn_movedAll n body hbody, t.moved n, by rw [ht]; rfl, hclosing⟩

theorem closedIn_movedAll (n : Nat) : (ps : List Piece) → ClosedIn ps → ClosedIn (movedAll n ps)
  | [], _ => trivial
  | p :: ps, ⟨hp, hps⟩ => ⟨closed_moved n p hp, closedIn_movedAll n ps hps⟩
end

end Piece

namespace Operand

def moved (n : Nat) (o : Operand) : Operand :=
  ⟨o.term.map (Term.moved n), o.faults.map (Fault.moved n), o.stop + n, o.valueAt.map (· + n)⟩

theorem negate_moved (n : Nat) (t : Token) (o : Operand) :
    (o.moved n).negate (t.moved n) = (o.negate t).moved n := by
  unfold negate moved
  cases o.term with
  | none => simp [Token.moved, Fault.moved]
  | some x =>
    simp only [Option.map_some, Option.map_none, Term.moved, Term.stop_moved]
    rw [show (t.moved n).start = t.start + n from rfl, Span.between_moved]

theorem ofPlainWord_moved (mode : Mode) (n start : Nat) (w : Text) :
    ofPlainWord mode (start + n) w = (ofPlainWord mode start w).moved n := by
  have hstop : start + n + w.length = start + w.length + n := Nat.add_right_comm _ _ _
  unfold ofPlainWord moved
  dsimp only [Span.stop]
  rw [hstop]
  split
  · rfl
  · rfl

theorem ofRestriction_moved (n start : Nat) {w : Text} {r : Restriction}
    (hvalue : r.value.length ≤ w.length) (value : Option Operand) :
    ofRestriction (start + n) w r (value.map (moved n)) =
      (ofRestriction start w r value).moved n := by
  have hstop : start + n + w.length = start + w.length + n := Nat.add_right_comm _ _ _
  have hfrom : start + w.length + n - r.value.length = start + w.length - r.value.length + n := by
    omega
  unfold ofRestriction
  dsimp only [Span.stop]
  rw [hstop, hfrom]
  split
  · rfl
  · cases value with
    | none => rfl
    | some o =>
      have hmax : max (o.stop + n) (start + w.length + n) = max o.stop (start + w.length) + n :=
        Nat.add_max_add_right _ _ _
      simp only [Option.map_some, moved, hmax, Span.between_moved]
      cases o.term with
      | none => rfl
      | some x => rfl

end Operand

def Factor.moved (n : Nat) : Factor → Factor
  | also t => also (t.moved n)
  | operand o => operand (o.moved n)

namespace Clauses

def moved (n : Nat) (c : Clauses) : Clauses :=
  ⟨c.head.map (Factor.moved n), c.tail.map fun (t, fs) => (t.moved n, fs.map (Factor.moved n))⟩

theorem negate_moved (n : Nat) (t : Token) (rest : Clauses) :
    (rest.moved n).negate (t.moved n) = (rest.negate t).moved n := by
  have hnone : Operand.negate (t.moved n) ⟨none, [], (t.moved n).stop, none⟩ =
      (Operand.negate t ⟨none, [], t.stop, none⟩).moved n := by
    rw [← Operand.negate_moved, Token.stop_moved]
    rfl
  obtain ⟨head, tail⟩ := rest
  match head with
  | .operand o :: more =>
    change (⟨.operand ((o.moved n).negate (t.moved n)) :: _, _⟩ : Clauses) = _
    rw [Operand.negate_moved]
    rfl
  | .also u :: more =>
    change Clauses.operand (Operand.negate (t.moved n) _) _ = _
    rw [hnone]
    rfl
  | [] =>
    change Clauses.operand (Operand.negate (t.moved n) _) _ = _
    rw [hnone]
    rfl

theorem value?_moved (n stop : Nat) (rest : Clauses) :
    (rest.moved n).value? (stop + n) = (rest.value? stop).map (Operand.moved n) := by
  obtain ⟨head, tail⟩ := rest
  match head with
  | .operand o :: more =>
    change (if o.valueAt.map (· + n) = some (stop + n) then some (o.moved n) else none) =
      (if o.valueAt = some stop then some o else none).map (Operand.moved n)
    by_cases hat : o.valueAt = some stop
    · rw [if_pos hat, if_pos (by rw [hat]; rfl)]
      rfl
    · have hapart : o.valueAt.map (· + n) ≠ some (stop + n) := by
        intro heq
        obtain ⟨start, hstart, hsum⟩ := Option.map_eq_some_iff.1 heq
        obtain rfl := Nat.add_right_cancel hsum
        exact hat hstart
      rw [if_neg hat, if_neg hapart]
      rfl
  | .also u :: more => rfl
  | [] => rfl

theorem word_moved (mode : Mode) (n start : Nat) (w : Text) (rest : Clauses) :
    (rest.moved n).word mode (start + n) w = (rest.word mode start w).moved n := by
  unfold word
  cases hr : Restriction.ofWord? w with
  | none =>
    dsimp only
    rw [Operand.ofPlainWord_moved]
    rfl
  | some r =>
    obtain ⟨spelling, -, hsplit⟩ := Restriction.exists_spelling hr
    have hvalue : r.value.length ≤ w.length := by
      rw [hsplit, List.length_append]
      exact Nat.le_add_left _ _
    have halone := Operand.ofRestriction_moved n start hvalue none
    rw [Option.map_none] at halone
    dsimp only
    rw [halone, Nat.add_right_comm, value?_moved]
    split
    · cases rest.value? (start + w.length) with
      | none => rfl
      | some o =>
        have hglued := Operand.ofRestriction_moved n start hvalue (some o)
        rw [Option.map_some] at hglued
        dsimp only [Option.map_some]
        rw [hglued]
        simp only [moved, List.map_cons, List.map_tail, Factor.moved]
    · rfl

theorem token_moved (mode : Mode) (n : Nat) (t : Token) (rest : Clauses) :
    (rest.moved n).token mode (t.moved n) = (rest.token mode t).moved n := by
  -- the word behind a sign starts one place further on than its token
  have hsign : ∀ w, ((rest.moved n).word mode (t.start + n + 1) w).negate (t.moved n) =
      ((rest.word mode (t.start + 1) w).negate t).moved n := by
    intro w
    rw [Nat.add_right_comm, word_moved, negate_moved]
  unfold token
  rw [show (t.moved n).lexeme = t.lexeme from rfl]
  cases t.lexeme with
  | opening => rfl
  | closing => rfl
  | quoted w closed =>
    have hquoted : (⟨some (.literal ⟨t.start + n + 1, w.length⟩ w), [], (t.moved n).stop,
        some (t.start + n)⟩ : Operand) =
          Operand.moved n ⟨some (.literal ⟨t.start + 1, w.length⟩ w), [], t.stop,
            some t.start⟩ := by
      rw [Token.stop_moved, Nat.add_right_comm]
      rfl
    exact congrArg (rest.moved n).operand hquoted
  | uri uri =>
    have huri : (⟨some (.resource ⟨t.start + n, t.length⟩ uri), [], (t.moved n).stop,
        none⟩ : Operand) =
          Operand.moved n ⟨some (.resource ⟨t.start, t.length⟩ uri), [], t.stop, none⟩ := by
      rw [Token.stop_moved]
      rfl
    exact congrArg (rest.moved n).operand huri
  | word w =>
    dsimp only
    cases Keyword.ofText? w with
    | some keyword =>
      cases keyword with
      | and => rfl
      | or => rfl
      | not => exact negate_moved n t rest
    | none =>
      dsimp only
      split
      · exact hsign _
      · exact hsign _
      · exact word_moved mode n t.start w rest

end Clauses

namespace Reading

def moved (n : Nat) (r : Reading) : Reading :=
  ⟨r.term.map (Term.moved n), r.faults.map (Fault.moved n)⟩

variable (n : Nat)

theorem conjuncts_moved (found : Bool) (fs : List Factor) :
    conjuncts found (fs.map (Factor.moved n)) =
      ((conjuncts found fs).1.map (Term.moved n), (conjuncts found fs).2.map (Fault.moved n)) := by
  induction fs generalizing found with
  | nil => rfl
  | cons f fs ih =>
    cases f with
    | operand o =>
      have hfound : (found || (o.term.map (Term.moved n)).isSome) = (found || o.term.isSome) := by
        rw [Option.isSome_map]
      simp only [List.map_cons, Factor.moved, Operand.moved, conjuncts, hfound, ih,
        List.map_append, Option.toList_map]
    | also t =>
      have hnext : startsWithOperand (fs.map (Factor.moved n)) = startsWithOperand fs :=
        match fs with
        | .operand _ :: _ | .also _ :: _ | [] => rfl
      rw [List.map_cons, Factor.moved, conjuncts_also, conjuncts_also, ih, hnext]
      cases (found && startsWithOperand fs) with
      | true => rfl
      | false => rfl

theorem conjunction_moved (fs : List Factor) :
    conjunction (fs.map (Factor.moved n)) = (conjunction fs).moved n := by
  simp only [conjunction, conjuncts_moved, Term.join_moved (.inl rfl), moved]

theorem disjuncts_moved (found : Bool) (clauses : List (Token × List Factor)) :
    disjuncts found (clauses.map fun (t, fs) => (t.moved n, fs.map (Factor.moved n))) =
      ((disjuncts found clauses).1.map (Term.moved n),
        (disjuncts found clauses).2.map (Fault.moved n)) := by
  induction clauses generalizing found with
  | nil => rfl
  | cons clause clauses ih =>
    obtain ⟨t, fs⟩ := clause
    have hsome : ((conjunction fs).moved n).term.isSome = (conjunction fs).term.isSome :=
      Option.isSome_map
    have hmissing : ∀ c : Bool,
        (if c = true then [] else [Fault.noOperand (t.moved n).start (t.moved n).lexeme.spelling]) =
          (if c = true then [] else [Fault.noOperand t.start t.lexeme.spelling]).map
            (Fault.moved n) := by
      intro c
      cases c with
      | true => rfl
      | false => rfl
    simp only [List.map_cons, disjuncts, conjunction_moved, hsome, ih, hmissing, List.map_append]
    simp only [moved, Option.toList_map]

theorem disjunction_moved (c : Clauses) :
    disjunction (c.moved n) = (disjunction c).moved n := by
  have hsome : ((conjunction c.head).moved n).term.isSome = (conjunction c.head).term.isSome :=
    Option.isSome_map
  simp only [disjunction, Clauses.moved, conjunction_moved, hsome, disjuncts_moved]
  simp only [moved, Option.toList_map, ← List.map_append, Term.join_moved (.inr rfl)]

theorem group_moved (opening : Token) (body : List Piece) (closing : Option Token)
    (inside : Reading) :
    group (opening.moved n) (Piece.movedAll n body) (closing.map (Token.moved n))
      (inside.moved n) = (group opening body closing inside).moved n := by
  have htokens : Piece.tokensOf (Piece.movedAll n body) ++ (closing.map (Token.moved n)).toList =
      (Piece.tokensOf body ++ closing.toList).map (Token.moved n) := by
    rw [Piece.tokensOf_movedAll, Option.toList_map, List.map_append]
  have hlast : ∀ ts : List Token,
      ((ts.map (Token.moved n)).getLast?.getD (opening.moved n)).stop =
        (ts.getLast?.getD opening).stop + n := by
    intro ts
    rw [List.getLast?_map, Option.getD_map, Token.stop_moved]
  simp only [group, htokens, hlast, Option.isSome_map]
  split
  · simp [moved, Operand.moved, Token.moved]
  · simp [moved, Operand.moved, Token.moved, Fault.moved]

mutual
theorem piece_moved (mode : Mode) (rest : Clauses) : (p : Piece) →
    piece mode (rest.moved n) (p.moved n) = (piece mode rest p).moved n
  | .token t => Clauses.token_moved mode n t rest
  | .group opening body closing => by
    rw [Piece.moved, piece, piece, clauses_moved mode body, disjunction_moved, group_moved]
    rfl

/-- Pieces that stand further on are read as the same, further on. -/
theorem clauses_moved (mode : Mode) : (ps : List Piece) →
    clauses mode (Piece.movedAll n ps) = (clauses mode ps).moved n
  | [] => rfl
  | p :: ps => by rw [Piece.movedAll, clauses, clauses, clauses_moved mode ps, piece_moved mode _ p]
end

theorem ofPieces_moved (mode : Mode) (ps : List Piece) :
    ofPieces mode (Piece.movedAll n ps) = (ofPieces mode ps).moved n := by
  rw [ofPieces, ofPieces, clauses_moved, disjunction_moved]

end Reading
end QueryLine
