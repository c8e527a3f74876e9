import QueryLine.Text.Basic

/-!
What a query means: a tree of terms, each with the characters of the query that it was read from,
and the faults found while reading.
-/

namespace QueryLine

/-- The characters from `start` on, `length` of them. -/
structure Span where
  start : Nat
  length : Nat
  deriving DecidableEq, Repr

namespace Span

def stop (s : Span) : Nat := s.start + s.length

def between (start stop : Nat) : Span := ⟨start, stop - start⟩

end Span

inductive Comparator
  | contains
  | equal
  | greater
  | smaller
  | atLeast
  | atMost
  deriving DecidableEq, Repr

/-- How each comparator is written. A spelling stands before every other that starts it. -/
def Comparator.spellings : List (Text × Comparator) := [
  ([':', '>'], .greater),
  ([':', '<'], .smaller),
  ([':', '='], .equal),
  (['>', '='], .atLeast),
  (['<', '='], .atMost),
  ([':'], .contains),
  (['='], .equal),
  (['>'], .greater),
  (['<'], .smaller)]

inductive Term
  | comparison (span : Span) (property : Text) (comparator : Comparator) (value : Term)
  | negation (span : Span) (operand : Term)
  | conjunction (span : Span) (members : List Term)
  | disjunction (span : Span) (members : List Term)
  | literal (span : Span) (text : Text)
  | resource (span : Span) (uri : Text)
  | resourceType (span : Span) (name : Text)
  deriving Repr

namespace Term

def span : Term → Span
  | comparison s .. | negation s _ | conjunction s _ | disjunction s _ | literal s _ | resource s _
  | resourceType s _ => s

def stop (t : Term) : Nat := t.span.stop

def isJunction : Term → Bool
  | conjunction .. | disjunction .. => true
  | _ => false

/-- Joins the terms, if there are several, under one that reaches over them all. -/
def join (make : Span → List Term → Term) : List Term → Option Term
  | [] => none
  | [t] => some t
  | t :: ts =>
    some (make (.between t.span.start ((ts.map stop).foldl max t.stop)) (t :: ts))

end Term

inductive Fault
  /-- An opening parenthesis that is never closed. -/
  | unclosed (position : Nat)
  /-- A closing parenthesis that nothing opened. -/
  | unopened (position : Nat)
  /-- An opening quote that is never closed. -/
  | unquoted (position : Nat)
  /-- An operator with nothing to apply to. -/
  | noOperand (position : Nat) (operator : Text)
  deriving DecidableEq, Repr

namespace Fault

def position : Fault → Nat
  | unclosed p | unopened p | unquoted p | noOperand p _ => p

def message : Fault → String
  | unclosed p => s!"Unclosed parenthesis at position {p}"
  | unopened p => s!"Unexpected ')' at position {p}"
  | unquoted p => s!"Unterminated quote at position {p}"
  | noOperand p operator => s!"Operator '{String.ofList operator}' at position {p} has no operand"

end Fault

/-- A query as read: no term if it is blank, and whatever faults were found on the way. -/
structure Query where
  term : Option Term
  faults : List Fault
  deriving Repr

end QueryLine
