import QueryLine.Proofs.Fronting

/-!
How far operators reach. Whether a term comes out of the factors behind an operator is told by the
tokens there: some of those that it reaches is an operand.
-/

namespace QueryLine

namespace Token

def isOr (t : Token) : Bool := t.keyword? = some .or

def isBinary (t : Token) : Bool := t.keyword? = some .and || t.keyword? = some .or

/-- The tokens up to the first that ends them on their own level, up to the parenthesis that closes
the level, or all; `depth` counts the levels opened since. -/
def reach (ends : Token → Bool) : (depth : Nat) → List Token → List Token
  | _, [] => []
  | depth, t :: ts =>
    match t.lexeme with
    | .opening => t :: reach ends (depth + 1) ts
    | .closing => if depth = 0 then [] else t :: reach ends (depth - 1) ts
    | _ => if depth = 0 && ends t then [] else t :: reach ends depth ts

/-- The tokens of a negation, a group or an operand that comes first. -/
def unary : List Token → List Token
  | [] => []
  | t :: ts =>
    match t.lexeme with
    | .opening => t :: reach (fun _ => false) 0 ts
    | .closing => []
    | _ =>
      match t.keyword? with
      | some .not => t :: unary ts
      | some _ => []
      | none => [t]

section Reach

variable {t : Token} (ends : Token → Bool) (depth : Nat) (ts : List Token)

theorem reach_opening (h : t.lexeme = .opening) :
    reach ends depth (t :: ts) = t :: reach ends (depth + 1) ts := by rw [reach, h]

theorem reach_closing (h : t.lexeme = .closing) :
    reach ends depth (t :: ts) = if depth = 0 then [] else t :: reach ends (depth - 1) ts := by
  rw [reach, h]

theorem reach_other (hopening : t.lexeme ≠ .opening) (hclosing : t.lexeme ≠ .closing) :
    reach ends depth (t :: ts) = if depth = 0 && ends t then [] else t :: reach ends depth ts := by
  rw [reach]
  split
  · rename_i h
    exact absurd h hopening
  · rename_i h
    exact absurd h hclosing
  · rfl

end Reach

theorem operand_or_operator {t : Token} (hopening : t.lexeme ≠ .opening)
    (hclosing : t.lexeme ≠ .closing) :
    t.isOperand = true ∧ t.keyword? = none ∨
      t.isOperand = false ∧ (t.keyword? = some .and ∨ t.keyword? = some .or ∨
        t.keyword? = some .not) := by
  unfold isOperand keyword?
  cases hlexeme : t.lexeme with
  | opening => exact absurd hlexeme hopening
  | closing => exact absurd hlexeme hclosing
  | quoted w closed => exact .inl ⟨rfl, rfl⟩
  | uri uri => exact .inl ⟨rfl, rfl⟩
  | word w =>
    dsimp only
    cases Keyword.ofText? w with
    | none => exact .inl ⟨rfl, rfl⟩
    | some keyword =>
      cases keyword with
      | and => exact .inr ⟨rfl, .inl rfl⟩
      | or => exact .inr ⟨rfl, .inr (.inl rfl)⟩
      | not => exact .inr ⟨rfl, .inr (.inr rfl)⟩

end Token

/-- A term comes out of the factor. -/
def Factor.gives : Factor → Bool
  | .also _ => false
  | .operand o => o.term.isSome

namespace Reading

theorem isSome_join (make : Span → List Term → Term) (ts : List Term) :
    (Term.join make ts).isSome = !ts.isEmpty :=
  match ts with
  | [] | [_] | _ :: _ :: _ => rfl

theorem isEmpty_toList_append (o : Option Term) (ts : List Term) :
    (o.toList ++ ts).isEmpty = (!o.isSome && ts.isEmpty) := by
  cases o with
  | none => rfl
  | some t => rfl

theorem isEmpty_conjuncts (found : Bool) (fs : List Factor) :
    (conjuncts found fs).1.isEmpty = !fs.any Factor.gives := by
  induction fs generalizing found with
  | nil => rfl
  | cons f fs ih =>
    cases f with
    | also t => exact ih found
    | operand o =>
      rw [List.any_cons, Bool.not_or, ← ih (found || o.term.isSome)]
      exact isEmpty_toList_append o.term _

theorem isSome_conjunction (fs : List Factor) :
    (conjunction fs).term.isSome = fs.any Factor.gives := by
  have hjoin : (conjunction fs).term.isSome = _ := isSome_join .conjunction (conjuncts false fs).1
  rw [hjoin, isEmpty_conjuncts, Bool.not_not]

theorem isEmpty_disjuncts (found : Bool) (clauses : List (Token × List Factor)) :
    (disjuncts found clauses).1.isEmpty = !(clauses.flatMap (·.2)).any Factor.gives := by
  induction clauses generalizing found with
  | nil => rfl
  | cons clause clauses ih =>
    obtain ⟨t, fs⟩ := clause
    rw [List.flatMap_cons, List.any_append, Bool.not_or, ← isSome_conjunction,
      ← ih (found || (conjunction fs).term.isSome)]
    exact isEmpty_toList_append (conjunction fs).term _

theorem isSome_disjunction (c : Clauses) :
    (disjunction c).term.isSome = c.factors.any Factor.gives := by
  have hjoin : (disjunction c).term.isSome = _ := isSome_join .disjunction _
  rw [hjoin, isEmpty_toList_append, isEmpty_disjuncts, isSome_conjunction, Clauses.factors,
    List.any_append, Bool.not_and, Bool.not_not, Bool.not_not]

end Reading

namespace Clauses

theorem isSome_negate (t : Token) (o : Operand) : (o.negate t).term.isSome = o.term.isSome := by
  unfold Operand.negate
  cases o.term with
  | none => rfl
  | some x => rfl

/-- A term comes out of the factor in front. -/
def frontGives (c : Clauses) : Bool := c.head.head?.any Factor.gives

theorem frontGives_of_starts {c : Clauses} (h : Reading.startsWithOperand c.head = false) :
    c.frontGives = false := by
  obtain ⟨head, tail⟩ := c
  match head with
  | .operand o :: more => cases h
  | .also u :: more => rfl
  | [] => rfl

theorem frontGives_negate (t : Token) (c : Clauses) : (c.negate t).frontGives = c.frontGives := by
  rcases c.negate_cases t with ⟨o, more, rfl, hnegate⟩ | ⟨hstarts, hnegate⟩
  · rw [hnegate]
    exact isSome_negate t o
  · rw [hnegate, frontGives_of_starts hstarts]
    rfl

/-- The factors of the first clause, or of all. -/
def within (atOr : Bool) (c : Clauses) : List Factor := if atOr then c.head else c.factors

theorem within_operand (atOr : Bool) (o : Operand) (c : Clauses) :
    (c.operand o).within atOr = .operand o :: c.within atOr := by
  cases atOr with
  | true => rfl
  | false => rfl

theorem within_also (atOr : Bool) (t : Token) (c : Clauses) :
    within atOr (c.cons (.also t)) = .also t :: c.within atOr := by
  cases atOr with
  | true => rfl
  | false => rfl

theorem any_gives_negate (atOr : Bool) (t : Token) (c : Clauses) :
    ((c.negate t).within atOr).any Factor.gives = (c.within atOr).any Factor.gives := by
  rcases c.negate_cases t with ⟨o, more, rfl, hnegate⟩ | ⟨-, hnegate⟩
  · rw [hnegate, within_operand, within_operand, List.any_cons, List.any_cons, Factor.gives,
      Factor.gives, isSome_negate]
  · rw [hnegate, within_operand]
    rfl

theorem any_gives_token {t : Token} (hopening : t.lexeme ≠ .opening)
    (hclosing : t.lexeme ≠ .closing) (atOr : Bool) (mode : Mode) (c : Clauses) :
    ((c.token mode t).within atOr).any Factor.gives =
      if atOr && t.isOr then false else t.isOperand || (c.within atOr).any Factor.gives := by
  rcases Token.operand_or_operator hopening hclosing with ⟨hoperand, hkeyword⟩ |
    ⟨hoperator, hkeyword | hkeyword | hkeyword⟩
  · obtain ⟨o, more, htoken, hsome, -⟩ := c.exists_token hoperand mode
    simp [htoken, within_operand, Factor.gives, hsome, hoperand, Token.isOr, hkeyword]
  · simp [token_and hkeyword, within_also, hoperator, Factor.gives, Token.isOr, hkeyword]
  · rw [token_or hkeyword, hoperator]
    cases atOr with
    | true => simp [within, Sections.cut, Token.isOr, hkeyword]
    | false => simp [within, factors, Sections.cut]
  · rw [token_not hkeyword, any_gives_negate, hoperator]
    simp [Token.isOr, hkeyword]

end Clauses

namespace Piece

open Reading (clauses)

/-- A term comes out of the factors that are reached through `depth` levels that are closed again,
to the end of the level behind them or to its first `OR`. -/
def gives (mode : Mode) (atOr : Bool) :
    (depth : Nat) → List Piece → List (Token × List Piece) → Bool
  | 0, ps, _ => ((clauses mode ps).within atOr).any Factor.gives
  | depth + 1, ps, behind =>
    (clauses mode ps).factors.any Factor.gives ||
      behind.head?.any fun next => gives mode atOr depth next.2 behind.tail

variable {mode : Mode} {atOr : Bool}

theorem gives_nil (depth : Nat) : gives mode atOr depth [] [] = false := by
  cases depth with
  | zero =>
    cases atOr with
    | true => rfl
    | false => rfl
  | succ depth => rfl

theorem gives_group (depth : Nat) (opening : Token) (body : List Piece) (closing : Option Token)
    (ps : List Piece) (behind : List (Token × List Piece)) :
    gives mode atOr depth (group opening body closing :: ps) behind =
      ((clauses mode body).factors.any Factor.gives || gives mode atOr depth ps behind) := by
  have hgroup : (Factor.operand (Reading.group opening body closing
      (Reading.disjunction (clauses mode body)))).gives =
        (clauses mode body).factors.any Factor.gives := Reading.isSome_disjunction _
  have hclauses : clauses mode (group opening body closing :: ps) =
      (clauses mode ps).operand (Reading.group opening body closing
        (Reading.disjunction (clauses mode body))) := rfl
  cases depth with
  | zero => rw [gives, gives, hclauses, Clauses.within_operand, List.any_cons, hgroup]
  | succ depth =>
    have hall := Clauses.within_operand false (Reading.group opening body closing
        (Reading.disjunction (clauses mode body))) (clauses mode ps)
    rw [gives, gives, hclauses, ← Bool.or_assoc, ← hgroup, ← List.any_cons]
    rfl

theorem gives_token {t : Token} (hopening : t.lexeme ≠ .opening) (hclosing : t.lexeme ≠ .closing)
    (depth : Nat) (ps : List Piece) (behind : List (Token × List Piece)) :
    gives mode atOr depth (token t :: ps) behind =
      if depth = 0 && (atOr && t.isOr) then false
      else t.isOperand || gives mode atOr depth ps behind := by
  cases depth with
  | zero => exact Clauses.any_gives_token hopening hclosing atOr mode (clauses mode ps)
  | succ depth =>
    have hall : (clauses mode (token t :: ps)).factors.any Factor.gives = _ :=
      Clauses.any_gives_token hopening hclosing false mode (clauses mode ps)
    rw [gives, gives, hall, ← Bool.or_assoc]
    rfl

/-- A term comes out of the factors behind an operator if it reaches an operand. -/
theorem gives_ofTokens (mode : Mode) (atOr : Bool) (depth : Nat) (ts : List Token) :
    gives mode atOr depth (ofTokens ts).head (ofTokens ts).tail =
      (Token.reach (fun t => atOr && t.isOr) depth ts).any Token.isOperand := by
  induction ts generalizing depth with
  | nil => exact gives_nil depth
  | cons t ts ih =>
    rw [ofTokens_cons]
    unfold place
    split
    · rename_i hopening
      have hother : t.isOperand = false := by rw [Token.isOperand, hopening]
      -- the level that opens here is one of those to be closed again
      rw [Token.reach_opening _ _ _ hopening, List.any_cons, hother, Bool.false_or, ← ih, gives]
      unfold openGroup
      split
      · rename_i hnone
        rw [hnone, gives_group, gives_nil]
        rfl
      · rename_i partner after more hcut
        rw [hcut, gives_group]
        rfl
    · rename_i hclosing
      have hother : t.isOperand = false := by rw [Token.isOperand, hclosing]
      rw [Token.reach_closing _ _ _ hclosing]
      cases depth with
      | zero => exact gives_nil 0
      | succ depth =>
        rw [if_neg (Nat.succ_ne_zero depth), List.any_cons, hother, Bool.false_or,
          Nat.add_sub_cancel, ← ih]
        rfl
    · rename_i hopening hclosing
      rw [Token.reach_other _ _ _ hopening hclosing]
      refine (gives_token hopening hclosing depth _ _).trans ?_
      rw [Sections.cons, ih]
      split
      · rfl
      · rfl

/-- What an `AND` takes for an operand: neither the end of its level nor another operator like
it. -/
theorem startsWithOperand_ofTokens (mode : Mode) (ts : List Token) :
    Reading.startsWithOperand (clauses mode (ofTokens ts).head).head =
      ts.head?.any fun t => t.lexeme ≠ .closing && !t.isBinary := by
  cases ts with
  | nil => rfl
  | cons t ts =>
    rw [ofTokens_cons, List.head?_cons, Option.any_some]
    unfold place
    split
    · rename_i hopening
      have hnext : (t.lexeme ≠ .closing && !t.isBinary) = true := by
        simp [hopening, Token.isBinary, Token.keyword?]
      rw [hnext]
      unfold openGroup
      split
      · rfl
      · rfl
    · rename_i hclosing
      simp [hclosing, Sections.cut, clauses, Sections.empty, Reading.startsWithOperand]
    · rename_i hopening hclosing
      change Reading.startsWithOperand ((clauses mode (ofTokens ts).head).token mode t).head = _
      have hnext : t.lexeme ≠ .closing := hclosing
      rcases Token.operand_or_operator hopening hclosing with ⟨hoperand, hkeyword⟩ |
        ⟨-, hkeyword | hkeyword | hkeyword⟩
      · obtain ⟨o, more, htoken, -⟩ := Clauses.exists_token hoperand mode
          (clauses mode (ofTokens ts).head)
        simp [htoken, hnext, Token.isBinary, hkeyword, Clauses.operand, Sections.cons,
          Reading.startsWithOperand]
      · simp [Clauses.token_and hkeyword, Token.isBinary, hkeyword, Sections.cons,
          Reading.startsWithOperand]
      · simp [Clauses.token_or hkeyword, Token.isBinary, hkeyword, Sections.cut,
          Reading.startsWithOperand]
      · obtain ⟨o, more, hnegate, -⟩ := Clauses.exists_negate t (clauses mode (ofTokens ts).head)
        simp [Clauses.token_not hkeyword, hnegate, hnext, Token.isBinary, hkeyword,
          Clauses.operand, Sections.cons, Reading.startsWithOperand]

/-- A `NOT` has a term to negate if there is an operand in what it applies to. -/
theorem frontGives_ofTokens (mode : Mode) (ts : List Token) :
    (clauses mode (ofTokens ts).head).frontGives = (Token.unary ts).any Token.isOperand := by
  induction ts with
  | nil => rfl
  | cons t ts ih =>
    rw [ofTokens_cons]
    unfold place
    split
    · rename_i hopening
      have hother : t.isOperand = false := by rw [Token.isOperand, hopening]
      -- a group gives a term if what is inside does, as far as its level goes
      have hunary : Token.unary (t :: ts) = t :: Token.reach (fun _ => false) 0 ts := by
        rw [Token.unary, hopening]
      have hinside := gives_ofTokens mode false 0 ts
      have hgroup := Reading.isSome_disjunction (clauses mode (ofTokens ts).head)
      rw [hunary, List.any_cons, hother, Bool.false_or]
      refine Eq.trans ?_ (hgroup.trans hinside)
      unfold openGroup
      split
      · rfl
      · rfl
    · rename_i hclosing
      rw [Token.unary, hclosing]
      rfl
    · rename_i hopening hclosing
      have hunary : Token.unary (t :: ts) = match t.keyword? with
          | some .not => t :: Token.unary ts
          | some _ => []
          | none => [t] := by
        rw [Token.unary]
        split
        · rename_i h
          exact absurd h hopening
        · rename_i h
          exact absurd h hclosing
        · rfl
      change ((clauses mode (ofTokens ts).head).token mode t).frontGives = _
      rw [hunary]
      rcases Token.operand_or_operator hopening hclosing with ⟨hoperand, hkeyword⟩ |
        ⟨hoperator, hkeyword | hkeyword | hkeyword⟩
      · obtain ⟨o, more, htoken, hsome, -⟩ := Clauses.exists_token hoperand mode
          (clauses mode (ofTokens ts).head)
        rw [htoken, hkeyword, List.any_cons, hoperand]
        exact hsome
      · rw [Clauses.token_and hkeyword, hkeyword]
        rfl
      · rw [Clauses.token_or hkeyword, hkeyword]
        rfl
      -- one `NOT` behind another applies to what that one applies to
      · rw [Clauses.token_not hkeyword, hkeyword, List.any_cons, hoperator, Bool.false_or, ← ih]
        exact Clauses.frontGives_negate t _

end Piece
end QueryLine
