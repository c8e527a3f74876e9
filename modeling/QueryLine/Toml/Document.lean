import QueryLine.Toml.Number

/-!
Documents of the TOML format: values, tables of them, and the rules that no key is given twice.
-/

namespace QueryLine.Toml

inductive Value
  | string (t : Text)
  | boolean (b : Bool)
  | array (items : List Value)
  /-- A number, a date or a table in braces: valid, but nothing is asked of it. -/
  | unread

/-- Something under a key. A table is `implicit` while no header names it, and `dotted` if a key
with dots made it. -/
inductive Item
  | value (v : Value)
  | table (implicit dotted : Bool) (entries : List (Text × Item))
  | tables (elements : List (List (Text × Item)))

abbrev Entries := List (Text × Item)

namespace Entries

def put (key : Text) (item : Item) : Entries → Entries
  | [] => [(key, item)]
  | (k, old) :: es => if k = key then (k, item) :: es else (k, old) :: put key item es

/-- Goes down along a path, through the last of several tables and through tables that are made on
the way, and changes the entries there; `dotted` tells that the path is part of a key, and the
change learns whether such a key made the table. -/
def change (dotted : Bool) (f : Bool → Entries → Option Entries) :
    (path : List Text) → (isDotted : Bool) → Entries → Option Entries
  | [], isDotted, es => f isDotted es
  | k :: path, _, es =>
    match es.lookup k with
    | none => (change dotted f path dotted []).map fun new => es.put k (.table true dotted new)
    | some (.table isImplicit isDotted inner) =>
      if dotted && !isImplicit then none
      else (change dotted f path isDotted inner).map fun new =>
        es.put k (.table isImplicit isDotted new)
    | some (.tables elements) =>
      match elements.getLast? with
      | some last => (change dotted f path false last).map fun new =>
          es.put k (.tables (elements.dropLast ++ [new]))
      | none => none
    | some (.value _) => none

/-- Gives a value to a new key. Only a key with dots goes into tables that such keys made. -/
def assign (key : List Text) (v : Value) (isDotted : Bool) (es : Entries) : Option Entries :=
  match key.getLast? with
  | none => none
  | some last =>
    change true (fun isDotted inner =>
      if isDotted != (1 < key.length : Bool) || (inner.lookup last).isSome then none
      else some (inner.put last (.value v))) key.dropLast isDotted es

/-- Makes a table, or takes one over that was only implicit. -/
def openTable (path : List Text) (es : Entries) : Option Entries :=
  match path.getLast? with
  | none => none
  | some last =>
    change false (fun _ inner =>
      match inner.lookup last with
      | none => some (inner.put last (.table false false []))
      | some (.table true false old) => some (inner.put last (.table false false old))
      | some _ => none) path.dropLast false es

def addTable (path : List Text) (es : Entries) : Option Entries :=
  match path.getLast? with
  | none => none
  | some last =>
    change false (fun _ inner =>
      match inner.lookup last with
      | none => some (inner.put last (.tables [[]]))
      | some (.tables elements) => some (inner.put last (.tables (elements ++ [[]])))
      | some _ => none) path.dropLast false es

end Entries

def array (value : Reader Value) : Reader Value := fun t =>
  let item : Reader Value := fun t =>
    (value (skipLines true false t)).map fun (v, rest) => (v, skipLines true false rest)
  let (items, rest) := (separated ',' item t).getD ([], t)
  let rest := match items, rest with
    | _ :: _, ',' :: rest => rest
    | _, rest => rest
  match skipLines true false rest with
  | ']' :: rest => some (.array items, rest)
  | _ => none

def inlineTable (value : Reader Value) : Reader Value := fun t =>
  let pair : Reader (List Text × Value) := fun t => do
    let (k, t) ← key t
    let (v, t) ← after '=' (fun t => value (skipSpace t)) t
    return ((k, v), skipSpace t)
  let (pairs, rest) := (separated ',' pair t).getD ([], t)
  match skipSpace rest with
  | '}' :: rest =>
    (pairs.foldlM (fun es (k, v) => Entries.assign k v false es) []).map fun _ => (.unread, rest)
  | _ => none

/-- A value that holds others no deeper than `depth`. -/
def value (depth : Nat) : Reader Value := fun t =>
  match t, depth with
  | '[' :: rest, inner + 1 => array (value inner) rest
  | '{' :: rest, inner + 1 => inlineTable (value inner) rest
  | 't' :: 'r' :: 'u' :: 'e' :: rest, _ => some (.boolean true, rest)
  | 'f' :: 'a' :: 'l' :: 's' :: 'e' :: rest, _ => some (.boolean false, rest)
  | t, _ =>
    match string t with
    | some (s, rest) => some (.string s, rest)
    | none => (scalar? t).map fun rest => (.unread, rest)

inductive Statement
  | blank
  | assign (key : List Text) (v : Value)
  | table (path : List Text)
  | arrayTable (path : List Text)

/-- One line, or as many as its value takes. -/
def statement : Reader Statement := fun t =>
  let line : Option (Statement × Text) := match t with
    | '#' :: _ | '\n' :: _ | '\r' :: _ => some (.blank, t)
    | '[' :: '[' :: t => do
      let (path, t) ← key t
      match t with
      | ']' :: ']' :: t => some (.arrayTable path, t)
      | _ => none
    | '[' :: t => do
      let (path, t) ← key t
      let (_, t) ← after ']' (fun t => some ((), t)) t
      return (.table path, t)
    | t => do
      let (k, t) ← key t
      let (v, t) ← after '=' (fun t => value maxDepth (skipSpace t)) t
      return (.assign k v, t)
  line.bind fun (s, t) => (lineEnd? t).map fun rest => (s, skipSpace rest)

/-- All entries so far, and the header that the next ones are under. -/
structure Building where
  root : Entries
  header : List Text

def Building.add (b : Building) : Statement → Option Building
  | .blank => some b
  | .table path => (b.root.openTable path).map (⟨·, path⟩)
  | .arrayTable path => (b.root.addTable path).map (⟨·, path⟩)
  | .assign key v => (b.root.change false (Entries.assign key v) b.header false).map (⟨·, b.header⟩)

/-- The entries of a whole document, which may start with a byte order mark. -/
def entries? (t : Text) : Option Entries :=
  let t := match t with
    | '\uFEFF' :: t => t
    | t => t
  let (statements, rest) := many statement (skipSpace t)
  if rest.isEmpty then (statements.foldlM Building.add ⟨[], []⟩).map (·.root) else none

end QueryLine.Toml
