import QueryLine.Query.Proposal

/-!
What a choice does to the text: characters replaced, and the caret put somewhere.
-/

namespace QueryLine

structure Edit where
  start : Nat
  stop : Nat
  replacement : Text
  caret : Nat
  deriving DecidableEq, Repr

namespace Pattern

def gap (bound : Bool) : Text := if bound then [] else [' ']

/-- A pattern written out, with `value` for its first placeholder. A space stands before a part
unless it is `bound` to what is in front. -/
def write (value : Text) : (bound filled : Bool) → List PatternPart → Text
  | _, _, [] => []
  | bound, filled, .fixed t :: ps =>
    let text := (PatternPart.fixed t).first?.getD []
    gap bound ++ text ++ write value (bindsNext text) filled ps
  | bound, filled, .placeholder :: ps =>
    gap bound ++ (if filled then [] else value) ++ write value false true ps

def placeholderAt? : (bound : Bool) → List PatternPart → Option Nat
  | _, [] => none
  | bound, .fixed t :: ps =>
    let text := (PatternPart.fixed t).first?.getD []
    (placeholderAt? (bindsNext text) ps).map ((gap bound ++ text).length + ·)
  | bound, .placeholder :: _ => some (gap bound).length

end Pattern

namespace Edit

/-- Writes a proposal in place of its words. Without a value the caret goes to where the value is to
be typed. -/
def ofProposal (p : Proposal) (value : Option Text) : Edit :=
  let replacement := Pattern.write (value.getD []) true false p.pattern
  let written := replacement.length
  let offset := if value.isSome then written
    else (Pattern.placeholderAt? true p.pattern).getD written
  ⟨p.span.start, p.span.stop, replacement, p.span.start + offset⟩

def wordBefore (text : Text) (caret : Nat) : Text :=
  ((text.take caret).reverse.takeWhile (!Text.isBlank ·)).reverse

def ofValue (text : Text) (caret : Nat) (value : Text) : Edit :=
  let caret := min caret text.length
  let start := caret - (wordBefore text caret).length
  ⟨start, caret, value, start + value.length⟩

/-- What has been typed of a value: the word in front of the caret, from its last operator on. -/
def typedValue (text : Text) (caret : Nat) : Text :=
  ((wordBefore text caret).reverse.takeWhile (!isOperator ·)).reverse

end Edit
end QueryLine
