import QueryLine.Query.Term

/-!
Proposals for completing a query. A proposal is a pattern that the words before the caret start.
-/

namespace QueryLine

inductive PatternPart
  /-- Fixed text; a bar separates the texts that may stand here. -/
  | fixed (text : Text)
  /-- A value that the user has to give. -/
  | placeholder
  deriving DecidableEq, Repr

namespace PatternPart

/-- Reads the short notation, in which a percent sign starts a placeholder. -/
def ofNotation : Text → PatternPart
  | '%' :: _ => placeholder
  | t => fixed t

def alternatives : PatternPart → List Text
  | fixed t => Text.splitAt '|' t
  | placeholder => []

def first? (p : PatternPart) : Option Text := p.alternatives.head?

end PatternPart

def isOperator (c : Char) : Bool := c = ':' || c = '>' || c = '<' || c = '='

/-- A text that ends in an operator: what follows is written without a space. -/
def bindsNext (t : Text) : Bool := (t.getLast?.map isOperator).getD false

inductive ValueKind
  | plain
  | date
  | tag
  | contact
  deriving DecidableEq, Repr

structure Proposal where
  /-- The characters that the written pattern replaces. -/
  span : Span
  pattern : List PatternPart
  /-- The last part that the text there already covers. -/
  matched : Nat
  kind : ValueKind
  description : Text
  deriving DecidableEq, Repr

end QueryLine
