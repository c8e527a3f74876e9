import QueryLine.Calendar.Format
import QueryLine.Toml.Document

/-!
Settings, read from a file in the TOML format. What the file does not say is as by default; a file
that is not valid, or has a setting of the wrong kind, says nothing at all.
-/

namespace QueryLine

structure Settings where
  theme : Text
  /-- The picker opens while the user types. -/
  autoComplete : Bool
  dateFormat : Text
  tags : List Text
  contacts : List Text
  deriving DecidableEq, Repr

namespace Settings

def default : Settings := ⟨"default-dark".toList, true, DateFormat.iso, [], []⟩

open Toml in
/-- The setting under a name, the default where there is none, or nothing if it is of another
kind. -/
def field? {α : Type} (es : Entries) (name : String) (byDefault : α) (read : Value → Option α) :
    Option α :=
  match es.lookup name.toList with
  | none => some byDefault
  | some (.value v) => read v
  | some _ => none

open Toml in
def text? : Value → Option Text
  | .string t => some t
  | _ => none

open Toml in
def flag? : Value → Option Bool
  | .boolean b => some b
  | _ => none

open Toml in
def texts? : Value → Option (List Text)
  | .array items => items.mapM text?
  | _ => none

def ofEntries? (es : Toml.Entries) : Option Settings := do
  let theme ← field? es "theme" default.theme text?
  let autoComplete ← field? es "auto_complete" default.autoComplete flag?
  let dateFormat ← field? es "date_format" default.dateFormat text?
  let tags ← field? es "tags" default.tags texts?
  let contacts ← field? es "contacts" default.contacts texts?
  return ⟨theme, autoComplete, dateFormat, tags, contacts⟩

def ofText (t : Text) : Settings :=
  let s := ((Toml.entries? t).bind ofEntries?).getD default
  { s with dateFormat := DateFormat.orIso s.dateFormat }

/-- The settings in a file of these bytes; none of them if they are not text. -/
def ofBytes (bytes : ByteArray) : Settings :=
  match String.fromUTF8? bytes with
  | some s => ofText s.toList
  | none => default

end Settings
end QueryLine
