import QueryLine.Proofs.Faithful

/-!
Parentheses without a partner. Read from the left, an opening one waits on a stack and a closing one
takes the innermost that waits; what this leaves over is what a query is found to be at fault for.
-/

namespace QueryLine

/-- Parentheses that have no partner so far. -/
structure Unmatched where
  /-- The innermost first. -/
  openings : List Token
  closings : List Token

namespace Unmatched

def none : Unmatched := ⟨[], []⟩

def read (u : Unmatched) (t : Token) : Unmatched :=
  match t.lexeme with
  | .opening => { u with openings := t :: u.openings }
  | .closing =>
    match u.openings with
    | [] => { u with closings := u.closings ++ [t] }
    | _ :: more => { u with openings := more }
  | _ => u

def ofTokens (ts : List Token) : Unmatched := ts.foldl read none

/-- A token is left over once, if at all. -/
theorem sublist_read (u : Unmatched) (t : Token) :
    (u.read t).openings.reverse.Sublist (u.openings.reverse ++ [t]) ∧
      (u.read t).closings.Sublist (u.closings ++ [t]) := by
  unfold read
  split
  · exact ⟨by simp, List.sublist_append_left _ _⟩
  · split
    · exact ⟨List.sublist_append_left _ _, List.Sublist.refl _⟩
    · rename_i innermost more hwaiting
      rw [hwaiting, List.reverse_cons, List.append_assoc]
      exact ⟨List.sublist_append_left _ _, List.sublist_append_left _ _⟩
  · exact ⟨List.sublist_append_left _ _, List.sublist_append_left _ _⟩

theorem sublist_foldl (ts : List Token) (u : Unmatched) :
    (ts.foldl read u).openings.reverse.Sublist (u.openings.reverse ++ ts) ∧
      (ts.foldl read u).closings.Sublist (u.closings ++ ts) := by
  induction ts generalizing u with
  | nil => simp
  | cons t ts ih =>
    obtain ⟨hopenings, hclosings⟩ := ih (u.read t)
    obtain ⟨hopening, hclosing⟩ := u.sublist_read t
    rw [List.foldl_cons, List.append_cons, List.append_cons u.closings]
    exact ⟨hopenings.trans (hopening.append_right ts), hclosings.trans (hclosing.append_right ts)⟩

end Unmatched

namespace Piece

mutual
/-- Opening parentheses whose group is never closed, the innermost first. -/
def unclosed : Piece → List Token
  | token _ => []
  | group opening body closing =>
    unclosedIn body ++ (if closing.isSome then [] else [opening])

def unclosedIn : List Piece → List Token
  | [] => []
  | p :: ps => p.unclosed ++ unclosedIn ps
end

def unclosedOf (s : Sections Piece) : List Token :=
  unclosedIn s.head ++ s.tail.flatMap fun (_, ps) => unclosedIn ps

/-- What parentheses that wait in front of the sections become: each cut takes one of them, and
where none waits its parenthesis is left over. -/
def leftOver (s : Sections Piece) (u : Unmatched) : Unmatched :=
  ⟨unclosedOf s ++ u.openings.drop s.tail.length,
    u.closings ++ (s.tail.map Prod.fst).drop u.openings.length⟩

/-- It is the same whether a token is cut into pieces with what follows or waits before it. -/
theorem leftOver_place (t : Token) (s : Sections Piece) (u : Unmatched) :
    leftOver (place t s) u = leftOver s (u.read t) := by
  cases hlexeme : t.lexeme with
  | opening =>
    have hplace : place t s = openGroup t s := by simp [place, hlexeme]
    have hread : u.read t = { u with openings := t :: u.openings } := by
      simp [Unmatched.read, hlexeme]
    rw [hplace, hread]
    unfold openGroup
    split
    · rename_i hnone
      simp [leftOver, unclosedOf, unclosedIn, unclosed, hnone]
    · rename_i partner after more hcut
      simp [leftOver, unclosedOf, unclosedIn, unclosed, hcut]
  | closing =>
    have hplace : place t s = s.cut t := by simp [place, hlexeme]
    rw [hplace, Unmatched.read, hlexeme]
    cases hwaiting : u.openings with
    | nil => simp [leftOver, unclosedOf, unclosedIn, Sections.cut, hwaiting]
    | cons innermost more => simp [leftOver, unclosedOf, unclosedIn, Sections.cut, hwaiting]
  | quoted | uri | word =>
    have hplace : place t s = s.cons (token t) := by simp [place, hlexeme]
    have hread : u.read t = u := by simp [Unmatched.read, hlexeme]
    rw [hplace, hread]
    simp [leftOver, unclosedOf, unclosedIn, unclosed, Sections.cons]

theorem foldl_read (ts : List Token) (u : Unmatched) :
    ts.foldl Unmatched.read u = leftOver (ofTokens ts) u := by
  induction ts generalizing u with
  | nil => simp [ofTokens, Sections.empty, leftOver, unclosedOf, unclosedIn]
  | cons t ts ih =>
    rw [List.foldl_cons, ih, ofTokens_cons, leftOver_place]

/-- Pieces cut out from the right leave the same over as a stack from the left. -/
theorem unmatched_eq (ts : List Token) : Unmatched.ofTokens ts =
    ⟨unclosedOf (ofTokens ts), (ofTokens ts).tail.map Prod.fst⟩ := by
  rw [Unmatched.ofTokens, foldl_read]
  simp [leftOver, Unmatched.none]

end Piece

namespace Fault

def unclosed? : Fault → Option Nat
  | unclosed p => some p
  | _ => none

def unopened? : Fault → Option Nat
  | unopened p => some p
  | _ => none

def isBracket (f : Fault) : Bool := f.unclosed?.isSome || f.unopened?.isSome

end Fault

def brackets (faults : List Fault) : List Fault := faults.filter Fault.isBracket

theorem filterMap_brackets (faults : List Fault) :
    (brackets faults).filterMap Fault.unclosed? = faults.filterMap Fault.unclosed? ∧
      (brackets faults).filterMap Fault.unopened? = faults.filterMap Fault.unopened? := by
  induction faults with
  | nil => exact ⟨rfl, rfl⟩
  | cons fault faults ih =>
    obtain ⟨hunclosed, hunopened⟩ := ih
    cases fault with
    | unclosed p => exact ⟨congrArg (p :: ·) hunclosed, hunopened⟩
    | unopened p => exact ⟨hunclosed, congrArg (p :: ·) hunopened⟩
    | unquoted p => exact ⟨hunclosed, hunopened⟩
    | noOperand p operator => exact ⟨hunclosed, hunopened⟩

@[simp] theorem brackets_nil : brackets [] = [] := rfl

@[simp] theorem brackets_append (fs gs : List Fault) :
    brackets (fs ++ gs) = brackets fs ++ brackets gs := List.filter_append ..

@[simp] theorem brackets_noOperand (position : Nat) (operator : Text) (fs : List Fault) :
    brackets (.noOperand position operator :: fs) = brackets fs := rfl

def Factor.brackets : Factor → List Fault
  | .also _ => []
  | .operand o => QueryLine.brackets o.faults

def Clauses.brackets (c : Clauses) : List Fault := c.factors.flatMap Factor.brackets

namespace Operand

@[simp] theorem brackets_negate (t : Token) (o : Operand) :
    brackets (o.negate t).faults = brackets o.faults := by
  unfold negate
  split
  · rfl
  · simp

end Operand

namespace Clauses

@[simp] theorem brackets_operand (o : Operand) (rest : Clauses) :
    (rest.operand o).brackets = QueryLine.brackets o.faults ++ rest.brackets := rfl

theorem brackets_negate (t : Token) (rest : Clauses) :
    (rest.negate t).brackets = rest.brackets := by
  unfold negate
  split
  · rename_i o more hhead
    simp [brackets, factors, hhead, Factor.brackets]
  · simp

theorem brackets_word (mode : Mode) (start : Nat) (w : Text) (rest : Clauses) :
    (rest.word mode start w).brackets = rest.brackets := by
  unfold word
  split
  · rfl
  · rename_i r hr
    have halone : (Operand.ofRestriction start w r none).faults = [] := by
      unfold Operand.ofRestriction
      split <;> rfl
    split
    · rename_i hempty
      split
      · rename_i o hvalue
        have hfaults : (Operand.ofRestriction start w r (some o)).faults = o.faults := by
          simp [Operand.ofRestriction, Restriction.namesType, hempty]
        unfold value? at hvalue
        split at hvalue
        · rename_i front more hhead
          split at hvalue
          · obtain rfl := Option.some.inj hvalue
            simp [brackets, factors, hhead, Factor.brackets, hfaults]
          · cases hvalue
        · cases hvalue
      · rw [brackets_operand, halone]
        rfl
    · rw [brackets_operand, halone]
      rfl

theorem brackets_token (mode : Mode) (t : Token) (rest : Clauses) :
    (rest.token mode t).brackets = rest.brackets := by
  unfold token
  split
  · split
    · rfl
    · rfl
    · exact brackets_negate t rest
    · split
      · rw [brackets_negate, brackets_word]
      · rw [brackets_negate, brackets_word]
      · exact brackets_word mode t.start _ rest
  · rfl
  · rfl
  · rfl
  · rfl

end Clauses

namespace Reading

theorem brackets_unless (c : Bool) (t : Token) (fs : List Fault) :
    brackets (if c then fs else .noOperand t.start t.lexeme.spelling :: fs) = brackets fs := by
  cases c with
  | true => rfl
  | false => rfl

theorem brackets_conjuncts (found : Bool) (fs : List Factor) :
    brackets (conjuncts found fs).2 = fs.flatMap Factor.brackets := by
  induction fs generalizing found with
  | nil => rfl
  | cons f fs ih =>
    rw [List.flatMap_cons]
    cases f with
    | also t =>
      rw [← ih found]
      exact brackets_unless _ t _
    | operand o =>
      rw [← ih (found || o.term.isSome)]
      exact brackets_append o.faults _

theorem brackets_disjuncts (found : Bool) (clauses : List (Token × List Factor)) :
    brackets (disjuncts found clauses).2 = (clauses.flatMap (·.2)).flatMap Factor.brackets := by
  induction clauses generalizing found with
  | nil => rfl
  | cons clause clauses ih =>
    obtain ⟨t, fs⟩ := clause
    have hclause : brackets (conjunction fs).faults = fs.flatMap Factor.brackets :=
      brackets_conjuncts false fs
    simp only [disjuncts, brackets_append, brackets_unless _ t [], brackets_nil,
      List.append_nil, hclause, ih, List.flatMap_cons, List.flatMap_append]

theorem brackets_disjunction (c : Clauses) : brackets (disjunction c).faults = c.brackets := by
  have hhead : brackets (conjunction c.head).faults = c.head.flatMap Factor.brackets :=
    brackets_conjuncts false c.head
  simp only [disjunction, brackets_append, brackets_disjuncts, hhead, Clauses.brackets,
    Clauses.factors, List.flatMap_append]

def unclosed (ts : List Token) : List Fault := ts.map fun t => .unclosed t.start

/-- What is told of a section behind a closing parenthesis without a partner. -/
def stray (behind : Token × List Piece) : List Fault :=
  .unopened behind.1.start :: unclosed (Piece.unclosedIn behind.2)

mutual
theorem brackets_piece (mode : Mode) (rest : Clauses) : (p : Piece) →
    (piece mode rest p).brackets = unclosed p.unclosed ++ rest.brackets
  | .token t => Clauses.brackets_token mode t rest
  | .group opening body closing => by
    have hinside : brackets (disjunction (clauses mode body)).faults =
        unclosed (Piece.unclosedIn body) := by
      rw [brackets_disjunction, brackets_clauses mode body]
    rw [piece, Clauses.brackets_operand, group, brackets_append, hinside, Piece.unclosed]
    cases closing with
    | none => simp [unclosed, brackets, Fault.isBracket, Fault.unclosed?]
    | some t => simp [unclosed, brackets]

theorem brackets_clauses (mode : Mode) : (ps : List Piece) →
    (clauses mode ps).brackets = unclosed (Piece.unclosedIn ps)
  | [] => rfl
  | p :: ps => by
    rw [clauses, brackets_piece mode _ p, brackets_clauses mode ps, Piece.unclosedIn]
    exact List.map_append.symm
end

theorem brackets_ofPieces (mode : Mode) (ps : List Piece) :
    brackets (ofPieces mode ps).faults = unclosed (Piece.unclosedIn ps) := by
  rw [ofPieces, brackets_disjunction, brackets_clauses]

theorem brackets_strays (mode : Mode) (sections : List (Token × List Piece)) :
    brackets (strays mode sections).2 = sections.flatMap stray := by
  induction sections with
  | nil => rfl
  | cons behind sections ih =>
    rw [List.flatMap_cons, ← ih, stray, ← brackets_ofPieces mode, List.cons_append,
      ← brackets_append]
    rfl

theorem brackets_ofSections (mode : Mode) (s : Sections Piece) :
    brackets (ofSections mode s).faults =
      unclosed (Piece.unclosedIn s.head) ++ s.tail.flatMap stray := by
  rw [ofSections, brackets_append, brackets_ofPieces, brackets_strays]

theorem filterMap_unclosed (ts : List Token) :
    (unclosed ts).filterMap Fault.unclosed? = ts.map Token.start ∧
      (unclosed ts).filterMap Fault.unopened? = [] := by
  induction ts with
  | nil => exact ⟨rfl, rfl⟩
  | cons t ts ih => exact ⟨congrArg (t.start :: ·) ih.1, ih.2⟩

theorem filterMap_stray (sections : List (Token × List Piece)) :
    (sections.flatMap stray).filterMap Fault.unclosed? =
        (sections.flatMap fun behind => Piece.unclosedIn behind.2).map Token.start ∧
      (sections.flatMap stray).filterMap Fault.unopened? =
        (sections.map Prod.fst).map Token.start := by
  induction sections with
  | nil => exact ⟨rfl, rfl⟩
  | cons behind sections ih =>
    obtain ⟨hunclosed, hunopened⟩ := filterMap_unclosed (Piece.unclosedIn behind.2)
    constructor
    · rw [List.flatMap_cons, List.flatMap_cons, List.filterMap_append, ih.1, List.map_append,
        ← hunclosed]
      rfl
    · rw [List.flatMap_cons, List.filterMap_append, ih.2, stray,
        List.filterMap_cons_some (show Fault.unopened? (.unopened behind.1.start) = _ from rfl),
        hunopened]
      rfl

end Reading

namespace Query

theorem brackets_ofText (mode : Mode) (text : Text) :
    let s := Piece.ofTokens (Token.ofText text)
    brackets (ofText mode text).faults =
      Reading.unclosed (Piece.unclosedIn s.head) ++ s.tail.flatMap Reading.stray := by
  have hquotes : brackets (Token.faults (Token.ofText text)) = [] := by
    apply List.filter_eq_nil_iff.2
    intro fault hfault
    obtain ⟨t, -, ht⟩ := List.mem_filterMap.1 hfault
    split at ht
    · obtain rfl := Option.some.inj ht
      exact Bool.false_ne_true
    · cases ht
  change brackets (Token.faults _ ++ _) = _
  rw [brackets_append, hquotes, Reading.brackets_ofSections]
  rfl

theorem unclosedOf_ofText {mode : Mode} {text : Text}
    (h : ∀ p, .unclosed p ∉ (ofText mode text).faults) :
    Piece.unclosedOf (Piece.ofTokens (Token.ofText text)) = [] := by
  apply List.eq_nil_iff_forall_not_mem.2
  intro t ht
  have htold : .unclosed t.start ∈ brackets (ofText mode text).faults := by
    rw [brackets_ofText]
    rcases List.mem_append.1 ht with hfirst | hbehind
    · exact List.mem_append_left _ (List.mem_map_of_mem hfirst)
    · obtain ⟨behind, hmem, hinside⟩ := List.mem_flatMap.1 hbehind
      have hstray : .unclosed t.start ∈ Reading.stray behind :=
        List.mem_cons_of_mem _ (List.mem_map_of_mem hinside)
      exact List.mem_append_right _ (List.mem_flatMap.2 ⟨behind, hmem, hstray⟩)
  exact h t.start (List.mem_filter.1 htold).1

/-- The faults of parentheses are told of those that a stack leaves over and of no others: of the
opening ones from the innermost on, of the closing ones as they come, and of none twice. -/
theorem faults_unmatched (mode : Mode) (text : Text) :
    let faults := (ofText mode text).faults
    let unmatched := Unmatched.ofTokens (Token.ofText text)
    faults.filterMap Fault.unclosed? = unmatched.openings.map Token.start ∧
      faults.filterMap Fault.unopened? = unmatched.closings.map Token.start ∧
      (faults.filterMap Fault.unclosed?).Nodup ∧ (faults.filterMap Fault.unopened?).Nodup := by
  intro faults unmatched
  let s := Piece.ofTokens (Token.ofText text)
  have hbrackets := brackets_ofText mode text
  have hunmatched : unmatched = ⟨Piece.unclosedOf s, s.tail.map Prod.fst⟩ :=
    Piece.unmatched_eq (Token.ofText text)
  obtain ⟨hunclosed, hnone⟩ := Reading.filterMap_unclosed (Piece.unclosedIn s.head)
  obtain ⟨hbehind, hstrays⟩ := Reading.filterMap_stray s.tail
  have hopenings : faults.filterMap Fault.unclosed? = unmatched.openings.map Token.start := by
    rw [← (filterMap_brackets faults).1, hbrackets, List.filterMap_append, hunclosed, hbehind,
      hunmatched, Piece.unclosedOf, List.map_append]
  have hclosings : faults.filterMap Fault.unopened? = unmatched.closings.map Token.start := by
    rw [← (filterMap_brackets faults).2, hbrackets, List.filterMap_append, hnone, hstrays,
      hunmatched, List.nil_append]
  -- what is left over are tokens of the text, and these start apart
  obtain ⟨hopeningsIn, hclosingsIn⟩ :=
    Unmatched.sublist_foldl (Token.ofText text) Unmatched.none
  have hstarts := Token.nodup_starts text
  refine ⟨hopenings, hclosings, ?_, ?_⟩
  · rw [hopenings]
    apply ((List.reverse_perm unmatched.openings).map Token.start).nodup_iff.1
    exact hstarts.sublist (hopeningsIn.map Token.start)
  · rw [hclosings]
    exact hstarts.sublist (hclosingsIn.map Token.start)

end Query
end QueryLine
