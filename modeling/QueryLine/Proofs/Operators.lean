import QueryLine.Proofs.Reach

/-!
Operators without an operand. What stands in front of an operator is followed from the left with a
stack, what stands behind it by how far it reaches; the two tell which operators are at fault.
-/

namespace QueryLine

/-- Whether an operand was seen before a place on its level of parentheses, and whether one was
behind the last `OR` there. -/
structure Seen where
  level : Bool
  clause : Bool

namespace Seen

def none : Seen := ⟨false, false⟩

def also (b : Bool) (s : Seen) : Seen := ⟨s.level || b, s.clause || b⟩

@[simp] theorem also_false (s : Seen) : s.also false = s := by simp [also]

theorem also_also (b b' : Bool) (s : Seen) : (s.also b).also b' = s.also (b || b') := by
  simp [also, Bool.or_assoc]

end Seen

/-- What was seen on the level of a place, and on those around it, the innermost first. -/
structure Standing where
  here : Seen
  around : List Seen

namespace Standing

def start : Standing := ⟨.none, []⟩

def also (b : Bool) (s : Standing) : Standing := { s with here := s.here.also b }

def cut (s : Standing) : Standing := { s with here := { s.here with clause := false } }

/-- Behind a closing parenthesis. One without a partner starts all anew. -/
def closed (s : Standing) : Standing :=
  match s.around with
  | [] => start
  | outer :: more => ⟨outer.also s.here.level, more⟩

def read (s : Standing) (t : Token) : Standing :=
  match t.lexeme with
  | .opening => ⟨.none, s.here :: s.around⟩
  | .closing => s.closed
  | _ => if t.isOr then s.cut else s.also t.isOperand

def ofTokens (ts : List Token) : Standing := ts.foldl read start

@[simp] theorem also_false (s : Standing) : s.also false = s := by simp [also]

theorem also_also (b b' : Bool) (s : Standing) : (s.also b).also b' = s.also (b || b') := by
  simp [also, Seen.also_also]

end Standing

/-- An operator misses an operand: an `AND` in front, back to the last `OR`, or right behind, where
it needs a group, a negation or an operand; an `OR` in front, on its level, or behind, up to the
next `OR`; a `NOT` in what it negates. -/
def Token.Dangles (t : Token) (before after : List Token) : Prop :=
  match t.keyword? with
  | some .and => (Standing.ofTokens before).here.clause = false ∨
      ∀ u ∈ after.head?, u.lexeme = .closing ∨ u.isBinary = true
  | some .or => (Standing.ofTokens before).here.level = false ∨
      ∀ u ∈ Token.reach Token.isOr 0 after, u.isOperand = false
  | some .not => ∀ u ∈ Token.unary after, u.isOperand = false
  | none => False

namespace Reading

/-- Faults of clauses that are read where this was seen before. -/
def faultsOf (seen : Seen) (c : Clauses) : List Fault :=
  (conjuncts seen.clause c.head).2 ++ (disjuncts (seen.level || c.head.any Factor.gives) c.tail).2

/-- Faults of the levels behind the parentheses that close the one read so far. -/
def faultsBehind (s : Standing) : List Clauses → List Fault
  | [] => []
  | c :: more =>
    faultsOf s.closed.here c ++ faultsBehind (s.closed.also (c.factors.any Factor.gives)) more

/-- Faults of a level and of those behind. -/
def faultsFrom (s : Standing) (c : Clauses) (more : List Clauses) : List Fault :=
  faultsOf s.here c ++ faultsBehind (s.also (c.factors.any Factor.gives)) more

variable {mode : Mode} {s : Standing} {c : Clauses} {more : List Clauses} {f : Fault} {t : Token}

theorem faults_disjunction (c : Clauses) : (disjunction c).faults = faultsOf .none c := by
  rw [faultsOf, Seen.none, Bool.false_or, ← isSome_conjunction]
  rfl

theorem faultsBehind_congr {s s' : Standing} (h : s.closed = s'.closed) (more : List Clauses) :
    faultsBehind s more = faultsBehind s' more := by
  cases more with
  | nil => rfl
  | cons c more => rw [faultsBehind, faultsBehind, h]

theorem faultsFrom_operand (s : Standing) (o : Operand) (c : Clauses) (more : List Clauses) :
    faultsFrom s (c.operand o) more = o.faults ++ faultsFrom (s.also o.term.isSome) c more := by
  have hhere : faultsOf s.here (c.operand o) =
      o.faults ++ faultsOf (s.here.also o.term.isSome) c := by
    change (o.faults ++ (conjuncts (s.here.clause || o.term.isSome) c.head).2) ++
      (disjuncts (s.here.level || (o.term.isSome || c.head.any Factor.gives)) c.tail).2 = _
    rw [← Bool.or_assoc, List.append_assoc]
    rfl
  have hgives : (c.operand o).factors.any Factor.gives =
      (o.term.isSome || c.factors.any Factor.gives) := rfl
  rw [faultsFrom, hhere, hgives, ← Standing.also_also, List.append_assoc]
  rfl

/-- The operator has what it needs, where it stands and with what is read behind it. -/
def has (s : Standing) (t : Token) (c : Clauses) : Bool :=
  match t.keyword? with
  | some .and => s.here.clause && startsWithOperand c.head
  | some .or => s.here.level && c.head.any Factor.gives
  | some .not => c.frontGives
  | none => true

def told (s : Standing) (t : Token) (c : Clauses) : List Fault :=
  if has s t c then [] else [.noOperand t.start t.lexeme.spelling]

theorem mem_told : f ∈ told s t c ↔
    has s t c = false ∧ f = .noOperand t.start t.lexeme.spelling := by
  unfold told
  cases has s t c with
  | true => simp
  | false => simp

theorem mem_faultsFrom_and (h : t.keyword? = some .and) :
    f ∈ faultsFrom s (c.cons (.also t)) more ↔ f ∈ told s t c ∨ f ∈ faultsFrom s c more := by
  have htold : told s t c = if s.here.clause && startsWithOperand c.head then []
      else [.noOperand t.start t.lexeme.spelling] := by rw [told, has, h]
  have hhere : faultsOf s.here (c.cons (.also t)) = told s t c ++ faultsOf s.here c := by
    change (conjuncts s.here.clause (.also t :: c.head)).2 ++ _ = _
    rw [conjuncts_also, htold]
    split
    · rfl
    · rfl
  have hfrom : faultsFrom s (c.cons (.also t)) more = faultsOf s.here (c.cons (.also t)) ++
      faultsBehind (s.also (c.factors.any Factor.gives)) more := rfl
  rw [hfrom, hhere, List.append_assoc, List.mem_append]
  rfl

theorem mem_faultsFrom_or (h : t.keyword? = some .or) :
    f ∈ faultsFrom s (c.cut t) more ↔ f ∈ told s t c ∨ f ∈ faultsFrom s.cut c more := by
  have htold : told s t c = if s.here.level && c.head.any Factor.gives then []
      else [.noOperand t.start t.lexeme.spelling] := by rw [told, has, h]
  have hhere : faultsOf s.here (c.cut t) = (conjuncts false c.head).2 ++ told s t c ++
      (disjuncts (s.here.level || c.head.any Factor.gives) c.tail).2 := by
    -- the clause in front of the `OR` is still empty: it has no faults and gives no term
    change (disjuncts (s.here.level || false) ((t, c.head) :: c.tail)).2 = _
    rw [Bool.or_false, htold, ← isSome_conjunction]
    rfl
  have hclosed : ∀ b, (s.also b).closed = (s.cut.also b).closed := fun _ => rfl
  have hfrom : faultsFrom s (c.cut t) more = faultsOf s.here (c.cut t) ++
      faultsBehind (s.also (c.factors.any Factor.gives)) more := rfl
  rw [hfrom, hhere, faultsBehind_congr (hclosed _), faultsFrom, faultsOf]
  simp only [List.mem_append]
  tauto

theorem mem_faultsFrom_not (h : t.keyword? = some .not) :
    f ∈ faultsFrom s (c.negate t) more ↔ f ∈ told s t c ∨ f ∈ faultsFrom s c more := by
  have htold : told s t c = if c.frontGives then []
      else [.noOperand t.start t.lexeme.spelling] := by rw [told, has, h]
  rw [htold]
  rcases c.negate_cases t with ⟨o, behind, rfl, hnegate⟩ | ⟨hstarts, hnegate⟩
  · rw [hnegate, faultsFrom_operand, faultsFrom_operand, Clauses.isSome_negate]
    have hgives : (behind.operand o).frontGives = o.term.isSome := rfl
    rw [hgives]
    cases hterm : o.term with
    | none =>
      -- what is wrong inside the operand is told first, then the `NOT`
      rw [Operand.negate_of_none hterm]
      simp only [List.mem_append]
      exact or_right_comm.trans or_comm
    | some x =>
      rw [Operand.negate_of_some hterm]
      exact (or_iff_right List.not_mem_nil).symm
  · rw [hnegate, faultsFrom_operand, Clauses.frontGives_of_starts hstarts]
    simp [Operand.negate]

theorem faultsFrom_of_isOperand (h : t.isOperand = true) (mode : Mode) (s : Standing) (c : Clauses)
    (more : List Clauses) :
    faultsFrom s (c.token mode t) more = faultsFrom (s.also true) c more := by
  obtain ⟨o, behind, htoken, hsome, hfronted⟩ := c.exists_token h mode
  rw [htoken, faultsFrom_operand, hsome]
  rcases hfronted with ⟨rfl, hnone⟩ | ⟨inner, rfl, hfaults⟩
  · rw [hnone, List.nil_append]
  · rw [faultsFrom_operand, hfaults, Standing.also_also, Bool.true_or]

theorem mem_faultsFrom_token (hopening : t.lexeme ≠ .opening) (hclosing : t.lexeme ≠ .closing) :
    f ∈ faultsFrom s (c.token mode t) more ↔
      f ∈ told s t c ∨ f ∈ faultsFrom (s.read t) c more := by
  have hread : s.read t = if t.isOr then s.cut else s.also t.isOperand := by
    unfold Standing.read
    split
    · rename_i h
      exact absurd h hopening
    · rename_i h
      exact absurd h hclosing
    · rfl
  rw [hread]
  rcases Token.operand_or_operator hopening hclosing with ⟨hoperand, hkeyword⟩ |
    ⟨hoperator, hkeyword | hkeyword | hkeyword⟩
  · have htold : told s t c = [] := by rw [told, has, hkeyword, if_pos rfl]
    rw [htold, faultsFrom_of_isOperand hoperand, hoperand, Token.isOr, hkeyword]
    exact (or_iff_right List.not_mem_nil).symm
  · rw [Clauses.token_and hkeyword, mem_faultsFrom_and hkeyword, hoperator, Token.isOr, hkeyword]
    simp
  · rw [Clauses.token_or hkeyword, mem_faultsFrom_or hkeyword, Token.isOr, hkeyword]
    simp
  · rw [Clauses.token_not hkeyword, mem_faultsFrom_not hkeyword, hoperator, Token.isOr, hkeyword]
    simp

/-- Faults of sections that are read behind tokens. -/
def faultsIn (mode : Mode) (s : Standing) (sections : Sections Piece) : List Fault :=
  faultsFrom s (clauses mode sections.head) (sections.tail.map fun behind => clauses mode behind.2)

theorem mem_faultsIn_openGroup {p : Nat} {w : Text} (h : t.lexeme = .opening)
    (sections : Sections Piece) :
    .noOperand p w ∈ faultsIn mode s (Piece.openGroup t sections) ↔
      .noOperand p w ∈ faultsIn mode (s.read t) sections := by
  have hread : s.read t = ⟨.none, s.here :: s.around⟩ := by rw [Standing.read, h]
  have hgives := isSome_disjunction (clauses mode sections.head)
  obtain ⟨head, tail⟩ := sections
  rw [hread]
  -- a group with no section behind it is never closed, which is a fault of its own
  cases tail with
  | nil =>
    let inside := group t head none (disjunction (clauses mode head))
    have hfaults : inside.faults = faultsOf .none (clauses mode head) ++ [.unclosed t.start] := by
      rw [← faults_disjunction]
      rfl
    change _ ∈ faultsFrom s (Clauses.operand inside .empty) [] ↔
      _ ∈ faultsOf .none (clauses mode head) ++ []
    rw [faultsFrom_operand, hfaults]
    simp [faultsFrom, faultsOf, faultsBehind, Sections.empty, conjuncts, disjuncts]
  | cons behind more =>
    obtain ⟨partner, after⟩ := behind
    let inside := group t head (some partner) (disjunction (clauses mode head))
    have hfaults : inside.faults = faultsOf .none (clauses mode head) := by
      rw [← faults_disjunction]
      exact List.append_nil _
    have hsome : inside.term.isSome = (clauses mode head).factors.any Factor.gives := hgives
    change _ ∈ faultsFrom s ((clauses mode after).operand inside) _ ↔ _
    rw [faultsFrom_operand, hfaults, hsome]
    rfl

/-- Reading a token from the left tells what placing it from the right adds. -/
theorem mem_faultsIn_place {p : Nat} {w : Text} (sections : Sections Piece) :
    .noOperand p w ∈ faultsIn mode s (Piece.place t sections) ↔
      .noOperand p w ∈ told s t (clauses mode sections.head) ∨
        .noOperand p w ∈ faultsIn mode (s.read t) sections := by
  have hnone : t.keyword? = none → told s t (clauses mode sections.head) = [] := by
    intro h
    rw [told, has, h, if_pos rfl]
  unfold Piece.place
  split
  · rename_i hopening
    rw [hnone (by rw [Token.keyword?, hopening]), mem_faultsIn_openGroup hopening]
    exact (or_iff_right List.not_mem_nil).symm
  · rename_i hclosing
    have hread : s.read t = s.closed := by rw [Standing.read, hclosing]
    rw [hnone (by rw [Token.keyword?, hclosing]), hread]
    refine Iff.trans ?_ (or_iff_right List.not_mem_nil).symm
    change _ ∈ faultsBehind (s.also false) _ ↔ _
    rw [Standing.also_false]
    rfl
  · rename_i hopening hclosing
    exact mem_faultsFrom_token hopening hclosing

theorem noOperand_not_mem {p : Nat} {ts : List Token} (h : ∀ t ∈ ts, t.start ≠ p) (mode : Mode)
    (s : Standing) (w : Text) : .noOperand p w ∉ faultsIn mode s (Piece.ofTokens ts) := by
  induction ts generalizing s with
  | nil => exact List.not_mem_nil
  | cons t ts ih =>
    obtain ⟨hfirst, hmore⟩ := List.forall_mem_cons.1 h
    rw [Piece.ofTokens_cons, mem_faultsIn_place, not_or]
    refine ⟨fun htold => ?_, ih hmore _⟩
    have hstart := congrArg Fault.position (mem_told.1 htold).2
    exact hfirst hstart.symm

/-- An operator among tokens is at fault if it lacks something where it stands. -/
theorem noOperand_mem_iff {before after : List Token}
    (h : ((before ++ t :: after).map Token.start).Nodup) (mode : Mode) (s : Standing) :
    .noOperand t.start t.lexeme.spelling ∈
        faultsIn mode s (Piece.ofTokens (before ++ t :: after)) ↔
      has (before.foldl Standing.read s) t (clauses mode (Piece.ofTokens after).head) = false := by
  induction before generalizing s with
  | nil =>
    obtain ⟨hapart, -⟩ := List.nodup_cons.1 h
    have hbehind : ∀ u ∈ after, u.start ≠ t.start := fun u hu hstart =>
      hapart (List.mem_map.2 ⟨u, hu, hstart⟩)
    rw [List.nil_append, Piece.ofTokens_cons, mem_faultsIn_place,
      or_iff_left (noOperand_not_mem hbehind mode _ _), mem_told]
    exact and_iff_left rfl
  | cons u before ih =>
    rw [List.cons_append, List.map_cons, List.nodup_cons] at h
    obtain ⟨hapart, hmore⟩ := h
    -- what `u` is told of has another position
    have hother : .noOperand t.start t.lexeme.spelling ∉
        told s u (clauses mode (Piece.ofTokens (before ++ t :: after)).head) := by
      intro htold
      have hstart := congrArg Fault.position (mem_told.1 htold).2
      exact hapart (List.mem_map.2 ⟨t, List.mem_append_cons_self, hstart⟩)
    rw [List.cons_append, Piece.ofTokens_cons, mem_faultsIn_place, or_iff_right hother, ih hmore,
      List.foldl_cons]

/-- Behind a closing parenthesis without a partner all starts anew. -/
theorem noOperand_mem_strays {p : Nat} {w : Text} (mode : Mode) {s : Standing}
    (hs : s.around = []) (sections : List (Token × List Piece)) :
    .noOperand p w ∈ (strays mode sections).2 ↔
      .noOperand p w ∈ faultsBehind s (sections.map fun behind => clauses mode behind.2) := by
  induction sections generalizing s with
  | nil => rfl
  | cons behind sections ih =>
    obtain ⟨t, ps⟩ := behind
    have hclosed : s.closed = .start := by rw [Standing.closed, hs]
    have hfaults : (ofPieces mode ps).faults = faultsOf .none (clauses mode ps) :=
      faults_disjunction _
    have hmore := @ih (Standing.start.also ((clauses mode ps).factors.any Factor.gives)) rfl
    have hstrays : (strays mode ((t, ps) :: sections)).2 =
        .unopened t.start :: (ofPieces mode ps).faults ++ (strays mode sections).2 := rfl
    rw [hstrays, hfaults, List.mem_append, hmore, List.map_cons, faultsBehind, hclosed,
      List.mem_append]
    simp [Standing.start]

end Reading

namespace Query

open Reading (faultsIn has)

theorem noOperand_mem_ofTokens (mode : Mode) (tokens : List Token) (p : Nat) (w : Text) :
    .noOperand p w ∈ (ofTokens mode tokens).faults ↔
      .noOperand p w ∈ faultsIn mode .start (Piece.ofTokens tokens) := by
  let s := Piece.ofTokens tokens
  have hquotes : .noOperand p w ∉ Token.faults tokens := by
    intro h
    obtain ⟨t, -, ht⟩ := List.mem_filterMap.1 h
    split at ht
    · cases ht
    · cases ht
  have hfirst : (Reading.ofPieces mode s.head).faults =
      Reading.faultsOf .none (Reading.clauses mode s.head) := Reading.faults_disjunction _
  have hfaults : (ofTokens mode tokens).faults = Token.faults tokens ++
      ((Reading.ofPieces mode s.head).faults ++ (Reading.strays mode s.tail).2) := rfl
  rw [hfaults, List.mem_append, or_iff_right hquotes, hfirst, List.mem_append,
    Reading.noOperand_mem_strays mode (s := Standing.start.also
      ((Reading.clauses mode s.head).factors.any Factor.gives)) rfl, ← List.mem_append]
  rfl

/-- What an operator has is told by the tokens around it. -/
theorem has_eq_false_iff (mode : Mode) (t : Token) (before after : List Token) :
    has (.ofTokens before) t (Reading.clauses mode (Piece.ofTokens after).head) = false ↔
      t.Dangles before after := by
  unfold has Token.Dangles
  split
  · have hnext : Reading.startsWithOperand
        (Reading.clauses mode (Piece.ofTokens after).head).head = false ↔
          ∀ u ∈ after.head?, u.lexeme = .closing ∨ u.isBinary = true := by
      rw [Piece.startsWithOperand_ofTokens]
      cases after with
      | nil => simp
      | cons u after => simp [or_iff_not_imp_left]
    rw [Bool.and_eq_false_iff, hnext]
  · have hreach : (Reading.clauses mode (Piece.ofTokens after).head).head.any Factor.gives =
        (Token.reach Token.isOr 0 after).any Token.isOperand :=
      Piece.gives_ofTokens mode true 0 after
    rw [Bool.and_eq_false_iff, hreach, List.any_eq_false]
    simp
  · rw [Piece.frontGives_ofTokens, List.any_eq_false]
    simp
  · simp

/-- An operator of a text is told to have no operand exactly if it lacks one. -/
theorem ofText_tells_operator (mode : Mode) {text : Text} {before after : List Token} {t : Token}
    (h : Token.ofText text = before ++ t :: after) :
    .noOperand t.start t.lexeme.spelling ∈ (ofText mode text).faults ↔ t.Dangles before after := by
  have hstarts := Token.nodup_starts text
  rw [h] at hstarts
  rw [ofText, noOperand_mem_ofTokens, h, Reading.noOperand_mem_iff hstarts]
  exact has_eq_false_iff mode t before after

/-- The query `(a OR`. -/
theorem ofText_tells_operator_or :
    let text := ['(', 'a', ' ', 'O', 'R']
    let before : List Token := [⟨0, .opening⟩, ⟨1, .word ['a']⟩]
    Token.ofText text = before ++ ⟨3, .word ['O', 'R']⟩ :: [] ∧
      .noOperand 3 ['O', 'R'] ∈ (ofText .plain text).faults := by
  intro text before
  have htokens : Token.ofText text = before ++ ⟨3, .word ['O', 'R']⟩ :: [] := rfl
  exact ⟨htokens, (ofText_tells_operator .plain htokens).2 (.inr fun _ h => nomatch h)⟩

/-- The query `a AND ()`. Nothing up to its end is an operand, and yet the group is taken for
one. -/
theorem ofText_and_group_untold :
    let text := ['a', ' ', 'A', 'N', 'D', ' ', '(', ')']
    let operator : Token := ⟨2, .word ['A', 'N', 'D']⟩
    let after : List Token := [⟨6, .opening⟩, ⟨7, .closing⟩]
    Token.ofText text = [⟨0, .word ['a']⟩] ++ operator :: after ∧ operator.isBinary = true ∧
      (∀ u ∈ Token.reach Token.isBinary 0 after, u.isOperand = false) ∧
      .noOperand operator.start operator.lexeme.spelling ∉ (ofText .plain text).faults := by
  refine ⟨rfl, by decide, by decide, ?_⟩
  exact List.not_mem_nil

/-- With an `OR` the group is not. -/
example : (ofText .plain ['a', ' ', 'O', 'R', ' ', '(', ')']).faults =
    [.noOperand 2 ['O', 'R']] := rfl

end Query
end QueryLine
