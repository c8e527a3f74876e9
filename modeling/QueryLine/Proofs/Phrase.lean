import QueryLine.Query.Restriction

/-!
Queries to be written down, and how they are written. What a term says is its sense: the term
without the places that it was read from.
-/

namespace QueryLine

inductive Sense
  | comparison (property : Text) (comparator : Comparator) (value : Sense)
  | negation (operand : Sense)
  | conjunction (members : List Sense)
  | disjunction (members : List Sense)
  | literal (text : Text)
  | resource (uri : Text)
  | resourceType (name : Text)
  deriving Repr

namespace Term

mutual
def sense : Term → Sense
  | comparison _ property comparator value => .comparison property comparator value.sense
  | negation _ operand => .negation operand.sense
  | conjunction _ members => .conjunction (senses members)
  | disjunction _ members => .disjunction (senses members)
  | literal _ text => .literal text
  | resource _ uri => .resource uri
  | resourceType _ name => .resourceType name

def senses : List Term → List Sense
  | [] => []
  | t :: ts => t.sense :: senses ts
end

theorem length_senses (ts : List Term) : (senses ts).length = ts.length := by
  induction ts with
  | nil => rfl
  | cons t ts ih => simp [senses, ih]

theorem exists_join (make : Span → List Term → Term) {ts : List Term} (h : 2 ≤ ts.length) :
    ∃ span, join make ts = some (make span ts) :=
  match ts, h with
  | _ :: _ :: _, _ => ⟨_, rfl⟩

end Term

/-- A query with the spelling that each of its comparators gets. -/
inductive Phrase
  | literal (text : Text)
  | resource (uri : Text)
  | resourceType (name : Text)
  | comparison (property spelling : Text) (comparator : Comparator) (value : Phrase)
  | negation (operand : Phrase)
  | conjunction (members : List Phrase)
  | disjunction (members : List Phrase)
  deriving Repr

namespace Phrase

mutual
def sense : Phrase → Sense
  | literal text => .literal text
  | resource uri => .resource uri
  | resourceType name => .resourceType name
  | comparison property _ comparator value => .comparison property comparator value.sense
  | negation operand => .negation operand.sense
  | conjunction members => .conjunction (senses members)
  | disjunction members => .disjunction (senses members)

def senses : List Phrase → List Sense
  | [] => []
  | p :: ps => p.sense :: senses ps
end

/-- How loosely a phrase holds together: `OR` more than `AND`, and `AND` more than all else. -/
def rank : Phrase → Nat
  | conjunction _ => 1
  | disjunction _ => 2
  | _ => 0

/-- Parentheses around a phrase looser than `limit`. -/
def enclose (limit rank : Nat) (t : Text) : Text := if limit < rank then '(' :: t ++ [')'] else t

mutual
def render : Phrase → Text
  | literal text => '"' :: text ++ ['"']
  | resource uri => '<' :: uri ++ ['>']
  | resourceType name => ['t', 'y', 'p', 'e', ':'] ++ name
  | comparison property spelling _ value => property ++ spelling ++ ('(' :: value.render ++ [')'])
  | negation operand => ['N', 'O', 'T'] ++ ' ' :: enclose 0 operand.rank operand.render
  | conjunction members => renderAll 0 ['A', 'N', 'D'] members
  | disjunction members => renderAll 1 ['O', 'R'] members

/-- The members with the operator between them; those looser than `limit` in parentheses. -/
def renderAll (limit : Nat) (operator : Text) : List Phrase → Text
  | [] => []
  | [p] => enclose limit p.rank p.render
  | p :: q :: ps =>
    enclose limit p.rank p.render ++ ' ' :: (operator ++ ' ' :: renderAll limit operator (q :: ps))
end

mutual
/-- What the written form asks for: no quote in a literal, no end of the resource inside it, a type
that is one word and does not go on with the comparator, a property that is not read as a negation,
and several members to an operator. -/
def Writable : Phrase → Prop
  | literal text => '"' ∉ text
  | resource uri => uri ≠ [] ∧ ∀ c ∈ uri, Text.isBlank c = false ∧ c ≠ '>'
  | resourceType name => name ≠ [] ∧ (∀ c ∈ name, Text.isBlank c = false ∧ c ∉ ['(', ')', '"']) ∧
      ∀ c ∈ name.head?, c ∉ ['<', '>', '=']
  | comparison property spelling comparator value =>
    property ≠ [] ∧ (∀ c ∈ property, Text.isAlphanumeric c = true ∨ c ∈ ['_', '-', '.']) ∧
      property.head? ≠ some '-' ∧ (spelling, comparator) ∈ Comparator.spellings ∧ value.Writable
  | negation operand => operand.Writable
  | conjunction members | disjunction members => 2 ≤ members.length ∧ AllWritable members

def AllWritable : List Phrase → Prop
  | [] => True
  | p :: ps => p.Writable ∧ AllWritable ps
end

theorem length_senses (ps : List Phrase) : (senses ps).length = ps.length := by
  induction ps with
  | nil => rfl
  | cons p ps ih => simp [senses, ih]

end Phrase

end QueryLine
