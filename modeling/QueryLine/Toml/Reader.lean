import QueryLine.Text.Basic

/-!
Readers of the TOML format. A reader takes something from the start of a text and gives it with the
rest of the text, or fails.
-/

namespace QueryLine.Toml

abbrev Reader (α : Type) := Text → Option (α × Text)

/-- As often as the reader succeeds and takes something. -/
def many {α : Type} (p : Reader α) (t : Text) : List α × Text :=
  match p t with
  | none => ([], t)
  | some (a, rest) =>
    if rest.length < t.length then
      let (more, rest) := many p rest
      (a :: more, rest)
    else ([], t)
termination_by t.length

def after {α : Type} (c : Char) (p : Reader α) : Reader α
  | d :: t => if d = c then p t else none
  | [] => none

def separated {α : Type} (separator : Char) (p : Reader α) : Reader (List α) := fun t =>
  (p t).map fun (first, rest) =>
    let (more, rest) := many (after separator p) rest
    (first :: more, rest)

def isSpace (c : Char) : Bool := c = ' ' || c = '\t'

def isPlain (c : Char) : Bool := c = '\t' || (0x20 ≤ c.toNat && c.toNat ≠ 0x7F)

def skipSpace (t : Text) : Text := t.dropWhile isSpace

def newline? : Text → Option Text
  | '\n' :: t => some t
  | '\r' :: '\n' :: t => some t
  | _ => none

/-- Skips blanks and line ends, and comments where they are allowed. -/
def skipLines (comments : Bool) : (inComment : Bool) → Text → Text
  | _, [] => []
  | inComment, c :: t =>
    if inComment && isPlain c then skipLines comments true t
    else if isSpace c || c = '\n' || (c = '\r' && t.head? = some '\n') then
      skipLines comments false t
    else if comments && c = '#' then skipLines comments true t
    else c :: t

/-- The end of a line, behind blanks and perhaps a comment; the end of the text is one too. -/
def lineEnd? (t : Text) : Option Text :=
  match skipSpace t with
  | [] => some []
  | '#' :: t =>
    match t.dropWhile isPlain with
    | [] => some []
    | t => newline? t
  | t => newline? t

def hexValue? (c : Char) : Option Nat :=
  if c.isDigit then some (c.toNat - '0'.toNat)
  else if 'a' ≤ c ∧ c ≤ 'f' then some (c.toNat - 'a'.toNat + 10)
  else if 'A' ≤ c ∧ c ≤ 'F' then some (c.toNat - 'A'.toNat + 10)
  else none

def codePoint? (length : Nat) (t : Text) : Option Char :=
  let digits := t.take length
  if digits.length < length then none
  else
    (digits.foldlM (fun n c => (hexValue? c).map (16 * n + ·)) 0).bind fun n =>
      if h : n.isValidChar then some (Char.ofNatAux n h) else none

def escape? : Text → Option (Char × Nat)
  | 'b' :: _ => some ('\x08', 1)
  | 't' :: _ => some ('\t', 1)
  | 'n' :: _ => some ('\n', 1)
  | 'f' :: _ => some ('\x0c', 1)
  | 'r' :: _ => some ('\r', 1)
  | '"' :: _ => some ('"', 1)
  | '\\' :: _ => some ('\\', 1)
  | 'u' :: t => (codePoint? 4 t).map (·, 5)
  | 'U' :: t => (codePoint? 8 t).map (·, 9)
  | _ => none

/-- The number of characters of a line end that is escaped, with all blanks and line ends after
it. -/
def continuation? (t : Text) : Option Nat :=
  (newline? (skipSpace t)).map fun rest => t.length - (skipLines false false rest).length

/-- How strings are written in a pair of quotes, or of three quotes each over several lines. -/
structure Quoting where
  quote : Char
  escapes : Bool
  lines : Bool

/-- The rest of a string. Its first `pending` characters are already read. A run of quotes ends a
string over several lines with its last three, and may hold two more. -/
def stringRest (q : Quoting) : (pending : Nat) → Reader Text
  | _, [] => none
  | pending + 1, _ :: t => stringRest q pending t
  | 0, c :: t =>
    let going (c : Char) (r : Option (Text × Text)) := r.map fun (s, rest) => (c :: s, rest)
    if c = q.quote then
      if q.lines then
        let run := ((c :: t).takeWhile (· = q.quote)).length
        if run < 3 then going c (stringRest q 0 t)
        else
          let inside := min (run - 3) 2
          some (List.replicate inside c, (c :: t).drop (inside + 3))
      else some ([], t)
    else if q.escapes && c = '\\' then
      match if q.lines then continuation? t else none with
      | some length => stringRest q length t
      | none =>
        match escape? t with
        | some (e, length) => going e (stringRest q length t)
        | none => none
    else if q.lines && c = '\n' then going '\n' (stringRest q 0 t)
    else if q.lines && c = '\r' && t.head? = some '\n' then going '\n' (stringRest q 1 t)
    else if isPlain c then going c (stringRest q 0 t)
    else none

def lineString : Reader Text
  | '"' :: t => stringRest ⟨'"', true, false⟩ 0 t
  | '\'' :: t => stringRest ⟨'\'', false, false⟩ 0 t
  | _ => none

/-- Any string; a line end right after three opening quotes is no part of it. -/
def string : Reader Text
  | '"' :: '"' :: '"' :: t => stringRest ⟨'"', true, true⟩ 0 ((newline? t).getD t)
  | '\'' :: '\'' :: '\'' :: t => stringRest ⟨'\'', false, true⟩ 0 ((newline? t).getD t)
  | t => lineString t

def isBareKeyChar (c : Char) : Bool := c.isAlphanum || c = '-' || c = '_'

def simpleKey (t : Text) : Option (Text × Text) :=
  match lineString t with
  | some r => some r
  | none =>
    let key := t.takeWhile isBareKeyChar
    if key.isEmpty then none else some (key, t.drop key.length)

/-- Values and keys may not be nested deeper than this. -/
def maxDepth : Nat := 79

def key : Reader (List Text) := fun t =>
  let part : Reader Text := fun t =>
    (simpleKey (skipSpace t)).map fun (k, rest) => (k, skipSpace rest)
  match separated '.' part t with
  | some (parts, rest) => if parts.length ≤ maxDepth then some (parts, rest) else none
  | none => none

end QueryLine.Toml
