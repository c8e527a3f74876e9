import QueryLine.Query.Term

/-!
Tokens of a query. A token keeps where it starts and what it says; its spelling is what stands
in the text there, so the text between tokens is blank and the tokens lose nothing else.
-/

namespace QueryLine

inductive Lexeme
  | opening
  | closing
  | quoted (text : Text) (closed : Bool)
  | uri (text : Text)
  | word (text : Text)
  deriving DecidableEq, Repr

def Lexeme.spelling : Lexeme → Text
  | opening => ['(']
  | closing => [')']
  | quoted t true => '"' :: t ++ ['"']
  | quoted t false => '"' :: t
  | uri t => '<' :: t ++ ['>']
  | word t => t

structure Token where
  start : Nat
  lexeme : Lexeme
  deriving DecidableEq, Repr

namespace Token

def length (t : Token) : Nat := t.lexeme.spelling.length

def stop (t : Token) : Nat := t.start + t.length

end Token

namespace Lexeme

def isWordChar (c : Char) : Bool := !Text.isBlank c && c ≠ '(' && c ≠ ')' && c ≠ '"'

/-- The characters up to a closing `>`, if some stand before it and none is blank. -/
def uri? (t : Text) : Option Text :=
  let inside := t.takeWhile fun c => !Text.isBlank c && c ≠ '>'
  if !inside.isEmpty && (t.drop inside.length).head? = some '>' then some inside else none

/-- The lexeme that starts with `c`, which is not blank, and goes on into `rest`. -/
def starting (c : Char) (rest : Text) : Lexeme :=
  if c = '(' then opening
  else if c = ')' then closing
  else if c = '"' then
    let text := rest.takeWhile (· ≠ '"')
    quoted text (text.length < rest.length)
  else
    match if c = '<' then uri? rest else none with
    | some text => uri text
    | none => word (c :: rest.takeWhile isWordChar)

end Lexeme

namespace Token

/-- Tokens of a text that stands at `position`, of which the first `pending` characters belong to
a token already read. -/
def scan : (position pending : Nat) → Text → List Token
  | _, _, [] => []
  | position, pending + 1, _ :: cs => scan (position + 1) pending cs
  | position, 0, c :: cs =>
    if Text.isBlank c then scan (position + 1) 0 cs
    else
      let lexeme := Lexeme.starting c cs
      ⟨position, lexeme⟩ :: scan (position + 1) (lexeme.spelling.length - 1) cs

def ofText (t : Text) : List Token := scan 0 0 t

/-- The quotes left open. -/
def faults (tokens : List Token) : List Fault :=
  tokens.filterMap fun t =>
    match t.lexeme with
    | .quoted _ false => some (.unquoted t.start)
    | _ => none

end Token

inductive Keyword
  | and
  | or
  | not
  deriving DecidableEq, Repr

def Keyword.spellings : List (Text × Keyword) := [
  (['A', 'N', 'D'], .and), (['a', 'n', 'd'], .and), (['&', '&'], .and),
  (['O', 'R'], .or), (['o', 'r'], .or), (['|', '|'], .or),
  (['N', 'O', 'T'], .not), (['n', 'o', 't'], .not), (['-'], .not), (['!'], .not)]

def Keyword.ofText? (t : Text) : Option Keyword := Keyword.spellings.lookup t

end QueryLine
