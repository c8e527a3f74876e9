import QueryLine.Proofs.Clauses
import QueryLine.Proofs.Moving
import QueryLine.Proofs.Parentheses

/-!
A whole query in parentheses. A text without faults leaves no parenthesis and no quote open, so
written inside two more it becomes one group, and a group says what is inside.
-/

namespace QueryLine

namespace Piece

def ClosedAround (s : Sections Piece) : Prop :=
  ClosedIn s.head ∧ ∀ behind ∈ s.tail, behind.1.lexeme = .closing ∧ ClosedIn behind.2

theorem closed_token {t : Token} (hopening : t.lexeme ≠ .opening) (hclosing : t.lexeme ≠ .closing)
    (hopen : t.isOpen = false) : (token t).Closed := by
  unfold Closed
  split
  · rename_i h
    exact hopening h
  · rename_i h
    exact hclosing h
  · rename_i h
    rw [Token.isOpen, h] at hopen
    cases hopen
  · trivial

theorem closedAround_ofTokens {ts : List Token} (hquotes : ∀ t ∈ ts, t.isOpen = false)
    (hnone : unclosedOf (ofTokens ts) = []) : ClosedAround (ofTokens ts) := by
  induction ts with
  | nil => exact ⟨trivial, fun _ h => absurd h List.not_mem_nil⟩
  | cons t ts ih =>
    obtain ⟨hopen, hquotes⟩ := List.forall_mem_cons.1 hquotes
    rw [ofTokens_cons] at hnone ⊢
    unfold place at *
    split at hnone
    · rename_i hopening
      unfold openGroup at *
      split at hnone
      · simp [unclosedOf, unclosedIn, unclosed] at hnone
      · rename_i partner after more htail
        simp only [unclosedOf, unclosedIn, unclosed, Option.isSome_some, if_true,
          List.append_nil, List.append_assoc] at hnone
        have hclosed := ih hquotes (by rw [unclosedOf, htail, List.flatMap_cons]; exact hnone)
        rw [ClosedAround, htail] at hclosed
        obtain ⟨hhead, htails⟩ := hclosed
        obtain ⟨⟨hpartner, hafter⟩, hmore⟩ := List.forall_mem_cons.1 htails
        exact ⟨⟨⟨hopening, hhead, partner, rfl, hpartner⟩, hafter⟩, hmore⟩
    · rename_i hclosing
      obtain ⟨hhead, htail⟩ := ih hquotes hnone
      exact ⟨trivial, List.forall_mem_cons.2 ⟨⟨hclosing, hhead⟩, htail⟩⟩
    · rename_i hopening hclosing
      obtain ⟨hhead, htail⟩ := ih hquotes hnone
      exact ⟨⟨closed_token hopening hclosing hopen, hhead⟩, htail⟩

end Piece

namespace Query

theorem isOpen_of_faults {ts : List Token} (h : Token.faults ts = []) :
    ∀ t ∈ ts, t.isOpen = false := by
  intro t ht
  have hnone := List.filterMap_eq_nil_iff.1 h t ht
  unfold Token.isOpen
  split
  · rename_i hlexeme
    rw [hlexeme] at hnone
    cases hnone
  · rfl

/-- A text without faults is read as closed pieces. -/
theorem exists_closed {mode : Mode} {text : Text} (h : (ofText mode text).faults = []) :
    ∃ ps, Token.ofText text = Piece.tokensOf ps ∧ Piece.ClosedIn ps := by
  let s := Piece.ofTokens (Token.ofText text)
  obtain ⟨hquotes, -⟩ := List.append_eq_nil_iff.1 h
  have htold : ∀ p, .unclosed p ∉ (ofText mode text).faults := by simp [h]
  have hbrackets := brackets_ofText mode text
  rw [h, brackets_nil, eq_comm, List.append_eq_nil_iff] at hbrackets
  have htail : s.tail = [] := by
    apply List.eq_nil_iff_forall_not_mem.2
    intro behind hbehind
    exact absurd (List.flatMap_eq_nil_iff.1 hbrackets.2 behind hbehind) (List.cons_ne_nil _ _)
  have htokens := Piece.tokensIn_ofTokens (Token.ofText text)
  rw [Piece.tokensIn, show (Piece.ofTokens (Token.ofText text)).tail = [] from htail,
    List.flatMap_nil, List.append_nil] at htokens
  exact ⟨s.head, htokens.symm, (Piece.closedAround_ofTokens (isOpen_of_faults hquotes)
    (unclosedOf_ofText htold)).1⟩

theorem tokens_enclosed {text : Text} {ps : List Piece} (htokens : Token.ofText text =
    Piece.tokensOf ps) (hclosed : Piece.ClosedIn ps) :
    ∃ opening closing, Token.ofText ('(' :: text ++ [')']) =
        Piece.tokensOf [.group opening (Piece.movedAll 1 ps) (some closing)] ∧
      Piece.ClosedIn [.group opening (Piece.movedAll 1 ps) (some closing)] := by
  let opening : Token := ⟨0, .opening⟩
  let closing : Token := ⟨1 + text.length, .closing⟩
  refine ⟨opening, closing, ?_, ⟨rfl, Piece.closedIn_movedAll 1 ps hclosed, closing, rfl, rfl⟩,
    trivial⟩
  have hmoved : Token.scan 1 0 text = Piece.tokensOf (Piece.movedAll 1 ps) := by
    rw [Piece.tokensOf_movedAll, ← htokens]
    exact Token.cuts.moved (f := Token.moved 1) (fun _ _ _ => rfl) 0 0 text
  have hquotes : ∀ t ∈ Token.scan 1 0 text, t.isOpen = false := by
    rw [hmoved]
    exact isOpen_of_faults (Piece.faults_tokensOf _ (Piece.closedIn_movedAll 1 ps hclosed))
  have hapart : Lexeme.Apart [')'] := Lexeme.apart_cons (by decide) []
  have hbehind := Token.scan_append hapart (by decide) 1 text hquotes
  calc Token.ofText ('(' :: text ++ [')'])
      = opening :: Token.scan 1 0 (text ++ [')']) := Token.scan_opening 0 (text ++ [')'])
    _ = opening :: (Token.scan 1 0 text ++ [closing]) := by rw [hbehind]; rfl
    _ = _ := by rw [hmoved]; simp [Piece.tokensOf, Piece.tokens]

/-- A query without faults says the same in parentheses, one place further on, and has no faults
there either. -/
theorem ofText_enclosed (mode : Mode) (text : Text) (h : (ofText mode text).faults = []) :
    ofText mode ('(' :: text ++ [')']) = ⟨(ofText mode text).term.map (Term.moved 1), []⟩ := by
  obtain ⟨ps, htokens, hclosed⟩ := exists_closed h
  obtain ⟨opening, closing, henclosed, hgroup⟩ := tokens_enclosed htokens hclosed
  have hplain : ofText mode text =
      ⟨(Reading.ofPieces mode ps).term, (Reading.ofPieces mode ps).faults⟩ := by
    rw [ofText, htokens, ofTokens_closed mode hclosed]
  rw [hplain] at h ⊢
  have hfaults : (Reading.ofPieces mode ps).faults = [] := h
  have hinside : Reading.disjunction (Reading.clauses mode (Piece.movedAll 1 ps)) =
      ⟨(Reading.ofPieces mode ps).term.map (Term.moved 1), []⟩ := by
    have hmoved := Reading.ofPieces_moved 1 mode ps
    rw [Reading.moved, hfaults] at hmoved
    exact hmoved
  rw [ofText, henclosed, ofTokens_closed mode hgroup, Reading.ofPieces, Reading.clauses,
    Reading.piece, hinside]
  cases (Reading.ofPieces mode ps).term with
  | none => rfl
  | some t => rfl

/-- The query `from:(a OR "b)")` in parentheses. -/
theorem ofText_enclosed_value :
    let text := ['f', 'r', 'o', 'm', ':', '(', 'a', ' ', 'O', 'R', ' ', '"', 'b', ')', '"', ')']
    let value (n : Nat) := Term.disjunction ⟨n + 6, 8⟩
      [.literal ⟨n + 6, 1⟩ ['a'], .literal ⟨n + 12, 2⟩ ['b', ')']]
    (ofText .plain text).faults = [] ∧
      (ofText .plain text).term =
        some (.comparison ⟨0, 16⟩ ['f', 'r', 'o', 'm'] .contains (value 0)) ∧
      ofText .plain ('(' :: text ++ [')']) =
        ⟨some (.comparison ⟨1, 16⟩ ['f', 'r', 'o', 'm'] .contains (value 1)), []⟩ := by
  intro text value
  have hfaults : (ofText .plain text).faults = [] := rfl
  have hterm : (ofText .plain text).term =
      some (.comparison ⟨0, 16⟩ ['f', 'r', 'o', 'm'] .contains (value 0)) := rfl
  refine ⟨hfaults, hterm, ?_⟩
  rw [ofText_enclosed .plain text hfaults, hterm]
  rfl

end Query
end QueryLine
