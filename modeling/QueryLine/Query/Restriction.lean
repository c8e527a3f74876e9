import QueryLine.Query.Token
import QueryLine.Text.Alphanumeric
import QueryLine.Text.Lowercase

/-!
Words that restrict a property, such as `size:>1MB`.
-/

namespace QueryLine

/-- Whether a word with `*` or `?` in it is a pattern for names of files. -/
inductive Mode
  | plain
  | filenames
  deriving DecidableEq, Repr

structure Restriction where
  property : Text
  comparator : Comparator
  value : Text
  deriving DecidableEq, Repr

namespace Restriction

def isPropertyChar (c : Char) : Bool := Text.isAlphanumeric c || c = '_' || c = '-' || c = '.'

/-- The comparator that `t` starts with, and what is left of `t`. -/
def comparator? (t : Text) : Option (Comparator × Text) :=
  Comparator.spellings.findSome? fun (spelling, comparator) =>
    if spelling.isPrefixOf t then some (comparator, t.drop spelling.length) else none

def ofWord? (w : Text) : Option Restriction :=
  let property := w.takeWhile isPropertyChar
  if property.isEmpty then none
  else (comparator? (w.drop property.length)).map fun (comparator, value) =>
    ⟨property, comparator, value⟩

/-- The value names a type of resource. -/
def namesType (r : Restriction) : Bool :=
  !r.value.isEmpty
    && (Text.lower r.property == "type".toList || Text.lower r.property == "kind".toList)
    && (r.comparator = .contains || r.comparator = .equal)

end Restriction
end QueryLine
