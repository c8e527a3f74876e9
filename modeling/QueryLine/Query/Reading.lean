import QueryLine.Query.Bracket
import QueryLine.Query.Restriction

/-!
Reading a query. `NOT` binds tighter than `AND`, which may be left out, and `AND` tighter than
`OR`. Reading never fails: an operator without its operand is a fault, and what else was written
still counts.
-/

namespace QueryLine

/-- What a word, a quoted text, a resource or a group stands for. An empty group has no term. -/
structure Operand where
  term : Option Term
  faults : List Fault
  /-- Where the last token ends. -/
  stop : Nat
  /-- Where it starts, if it may be the value of a comparison written right before it. -/
  valueAt : Option Nat
  deriving Repr

inductive Factor
  | also (t : Token)
  | operand (o : Operand)
  deriving Repr

/-- The factors of a level of parentheses, cut at each `OR`. -/
abbrev Clauses := Sections Factor

structure Reading where
  term : Option Term
  faults : List Fault
  deriving Repr

namespace Operand

/-- The term without its operator's operand is none at all. -/
def negate (t : Token) (o : Operand) : Operand :=
  match o.term with
  | some x => ⟨some (.negation (.between t.start x.stop) x), o.faults, o.stop, none⟩
  | none => ⟨none, o.faults ++ [.noOperand t.start t.lexeme.spelling], o.stop, none⟩

def ofPlainWord (mode : Mode) (start : Nat) (w : Text) : Operand :=
  let span : Span := ⟨start, w.length⟩
  let literal := Term.literal span w
  let isPattern := mode = .filenames && w.any fun c => c = '*' || c = '?'
  let term := if isPattern then .comparison span "filename".toList .contains literal else literal
  ⟨some term, [], span.stop, none⟩

/-- A word that restricts a property, with the operand that follows it as its value if it has
none of its own. -/
def ofRestriction (start : Nat) (w : Text) (r : Restriction) (value : Option Operand) : Operand :=
  let span : Span := ⟨start, w.length⟩
  if r.namesType then ⟨some (.resourceType span r.value), [], span.stop, none⟩
  else
    let literal := Term.literal ⟨span.stop - r.value.length, r.value.length⟩ r.value
    match value with
    | none => ⟨some (.comparison span r.property r.comparator literal), [], span.stop, none⟩
    | some o =>
      let stop := max o.stop span.stop
      let term := .comparison (.between start stop) r.property r.comparator (o.term.getD literal)
      ⟨some term, o.faults, o.stop, none⟩

end Operand

namespace Clauses

def operand (o : Operand) (rest : Clauses) : Clauses := rest.cons (.operand o)

/-- Negates the operand in front; where there is none the operator is at fault. -/
def negate (t : Token) (rest : Clauses) : Clauses :=
  match rest.head with
  | .operand o :: more => ⟨.operand (o.negate t) :: more, rest.tail⟩
  | _ => rest.operand (.negate t ⟨none, [], t.stop, none⟩)

/-- The operand in front, if it can be the value of a comparison that ends at `stop`. -/
def value? (stop : Nat) (rest : Clauses) : Option Operand :=
  match rest.head with
  | .operand o :: _ => if o.valueAt = some stop then some o else none
  | _ => none

def word (mode : Mode) (start : Nat) (w : Text) (rest : Clauses) : Clauses :=
  match Restriction.ofWord? w with
  | none => rest.operand (.ofPlainWord mode start w)
  | some r =>
    if r.value.isEmpty then
      match rest.value? (start + w.length) with
      | some o => ⟨.operand (.ofRestriction start w r (some o)) :: rest.head.tail, rest.tail⟩
      | none => rest.operand (.ofRestriction start w r none)
    else rest.operand (.ofRestriction start w r none)

/-- Puts a token in front. A word that starts with `-` or `!` is negated. -/
def token (mode : Mode) (t : Token) (rest : Clauses) : Clauses :=
  match t.lexeme with
  | .word w =>
    match Keyword.ofText? w with
    | some .and => rest.cons (.also t)
    | some .or => rest.cut t
    | some .not => rest.negate t
    | none =>
      match w with
      | '-' :: more | '!' :: more => (rest.word mode (t.start + 1) more).negate t
      | _ => rest.word mode t.start w
  | .quoted text _ =>
    rest.operand ⟨some (.literal ⟨t.start + 1, text.length⟩ text), [], t.stop, some t.start⟩
  | .uri uri => rest.operand ⟨some (.resource ⟨t.start, t.length⟩ uri), [], t.stop, none⟩
  | .opening | .closing => rest

end Clauses

namespace Reading

/-- Terms and faults of the factors between two `OR`s. An `AND` needs an operand on each side;
`found` tells that one stands before the factors. -/
def conjuncts (found : Bool) : List Factor → List Term × List Fault
  | [] => ([], [])
  | .operand o :: fs =>
    let (terms, faults) := conjuncts (found || o.term.isSome) fs
    (o.term.toList ++ terms, o.faults ++ faults)
  | .also t :: fs =>
    let (terms, faults) := conjuncts found fs
    let dangling := match fs with
      | .operand _ :: _ => false
      | _ => true
    (terms, if found && !dangling then faults else .noOperand t.start t.lexeme.spelling :: faults)

def startsWithOperand : List Factor → Bool
  | .operand _ :: _ => true
  | _ => false

theorem conjuncts_also (found : Bool) (t : Token) (fs : List Factor) :
    conjuncts found (.also t :: fs) =
      ((conjuncts found fs).1,
        if found && startsWithOperand fs then (conjuncts found fs).2
        else .noOperand t.start t.lexeme.spelling :: (conjuncts found fs).2) :=
  match fs with
  | .operand _ :: _ | .also _ :: _ | [] => rfl

def conjunction (fs : List Factor) : Reading :=
  let (terms, faults) := conjuncts false fs
  ⟨Term.join .conjunction terms, faults⟩

/-- Terms and faults of the clauses after the first. An `OR` needs a term on each side; `found`
tells that one stands before it. -/
def disjuncts (found : Bool) : List (Token × List Factor) → List Term × List Fault
  | [] => ([], [])
  | (t, clause) :: more =>
    let right := conjunction clause
    let (terms, faults) := disjuncts (found || right.term.isSome) more
    let missing := if found && right.term.isSome then []
      else [.noOperand t.start t.lexeme.spelling]
    (right.term.toList ++ terms, right.faults ++ missing ++ faults)

def disjunction (clauses : Clauses) : Reading :=
  let first := conjunction clauses.head
  let (terms, faults) := disjuncts first.term.isSome clauses.tail
  ⟨Term.join .disjunction (first.term.toList ++ terms), first.faults ++ faults⟩

/-- A group whose parenthesis is never closed ends with its last token. -/
def group (opening : Token) (body : List Piece) (closing : Option Token) (inside : Reading) :
    Operand :=
  let last := (Piece.tokensOf body ++ closing.toList).getLast?.getD opening
  let unclosed := if closing.isSome then [] else [.unclosed opening.start]
  ⟨inside.term, inside.faults ++ unclosed, last.stop, some opening.start⟩

mutual
def piece (mode : Mode) (rest : Clauses) : Piece → Clauses
  | .token t => rest.token mode t
  | .group opening body closing =>
    rest.operand (group opening body closing (disjunction (clauses mode body)))

def clauses (mode : Mode) : List Piece → Clauses
  | [] => .empty
  | p :: ps => piece mode (clauses mode ps) p
end

def ofPieces (mode : Mode) (ps : List Piece) : Reading := disjunction (clauses mode ps)

/-- The sections between stray closing parentheses are read each for itself. -/
def strays (mode : Mode) : List (Token × List Piece) → List Term × List Fault
  | [] => ([], [])
  | (t, ps) :: more =>
    let right := ofPieces mode ps
    let (terms, faults) := strays mode more
    (right.term.toList ++ terms, .unopened t.start :: right.faults ++ faults)

def ofSections (mode : Mode) (s : Sections Piece) : Reading :=
  let first := ofPieces mode s.head
  let (terms, faults) := strays mode s.tail
  ⟨Term.join .conjunction (first.term.toList ++ terms), first.faults ++ faults⟩

end Reading

def Query.ofTokens (mode : Mode) (tokens : List Token) : Query :=
  let reading := Reading.ofSections mode (Piece.ofTokens tokens)
  ⟨reading.term, Token.faults tokens ++ reading.faults⟩

def Query.ofText (mode : Mode) (text : Text) : Query := ofTokens mode (Token.ofText text)

end QueryLine
