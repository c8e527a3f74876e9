import QueryLine.Editor.Key

/-!
Keys as a terminal sends them: a character, or a sequence after an escape character for a key that
is none.
-/

namespace QueryLine.Key

/-- The key of a character; control characters stand for a letter with the control key. -/
def ofChar (c : Char) : Key :=
  if c = '\n' ∨ c = '\r' then char '\n'
  else if c = '\t' then char '\t'
  else if c = '\x1b' then escape
  else if c = '\x7f' then backspace
  else if c = '\x00' then null
  else if c.toNat ≤ 26 then ctrl (Char.ofNat ('a'.toNat + c.toNat - 1))
  else if c.toNat < 32 then other
  else char c

def ofSequence : Text → Key
  | ['A'] => up
  | ['B'] => down
  | ['C'] => right
  | ['D'] => left
  | ['H'] | ['1', '~'] | ['7', '~'] => home
  | ['F'] | ['4', '~'] | ['8', '~'] => toEnd
  | ['3', '~'] => delete
  | _ => other

def ofText : Text → Key
  | [c] => ofChar c
  | '\x1b' :: '[' :: t => ofSequence t
  | _ => other

/-- The start of a sequence that more characters belong to. -/
def isUnfinished : Text → Bool
  | ['\x1b'] | ['\x1b', 'O'] => true
  | '\x1b' :: '[' :: t => t.all fun c => c.isDigit || c = ';'
  | _ => false

end QueryLine.Key
