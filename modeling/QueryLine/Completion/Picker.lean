import QueryLine.Calendar.Format
import QueryLine.Query.Proposal
import QueryLine.Text.Lowercase
import QueryLine.Text.Order

/-!
The picker under the query line. It has three pages, of proposals, of plain strings and for a date,
and keeps what is selected on each.
-/

namespace QueryLine

inductive Page
  | proposals
  | strings
  | date
  deriving DecidableEq, Repr

def Page.title : Page → String
  | proposals => "PROPOSALS"
  | strings => "STRINGS"
  | date => "DATE"

inductive Selection
  /-- A proposal, with the value chosen for its placeholder. -/
  | proposal (p : Proposal) (value : Option Text)
  /-- A value for the word in front of the caret. -/
  | value (t : Text)
  deriving DecidableEq, Repr

structure Picker where
  page : Page
  proposals : List Proposal
  proposalIndex : Nat
  strings : List Text
  stringIndex : Nat
  date : Date
  dateFormat : Text
  visible : Bool
  deriving Repr

namespace Picker

/-- A hidden picker. An invalid format for dates is replaced by year, month and day. -/
def new (dateFormat : Text) (date : Date) : Picker :=
  ⟨.proposals, [], 0, [], 0, date, DateFormat.orIso dateFormat, false⟩

/-- Turns to a page. The proposals are dropped, and the strings where it is their page. -/
def turnTo (page : Page) (p : Picker) : Picker :=
  let strings := if page = .strings then [] else p.strings
  let stringIndex := if page = .strings then 0 else p.stringIndex
  { p with page, proposals := [], proposalIndex := 0, strings, stringIndex }

def offer (new : Proposal) (p : Picker) : Picker :=
  { p with proposals := p.proposals ++ [new], proposalIndex := 0 }

/-- Sorts in more strings and selects the first one after `typed`, whatever the case. -/
def addStrings (new : List Text) (typed : Text) (p : Picker) : Picker :=
  let strings := Text.sort (p.strings ++ new)
  let after := strings.findIdx? fun s => decide (Text.lower typed < Text.lower s)
  { p with strings, stringIndex := after.getD 0 }

def row (p : Picker) : Nat := if p.page = .strings then p.stringIndex else p.proposalIndex

def shift (days : Int) (p : Picker) : Except CalendarFault Picker :=
  (p.date.shift days).map fun date => { p with date }

def isEmpty (p : Picker) : Bool :=
  match p.page with
  | .proposals => p.proposals.isEmpty
  | .strings => p.strings.isEmpty
  | .date => false

/-- Shows the picker, if the page offers anything. -/
def reveal (p : Picker) : Picker := if p.isEmpty then p else { p with visible := true }

def hide (p : Picker) : Picker := { p with visible := false }

/-- Selects the row below, or the date a week on. -/
def next (p : Picker) : Picker :=
  match p.page with
  | .proposals =>
    if p.proposalIndex + 1 < p.proposals.length then
      { p with proposalIndex := p.proposalIndex + 1 }
    else p
  | .strings =>
    if p.stringIndex + 1 < p.strings.length then { p with stringIndex := p.stringIndex + 1 } else p
  | .date => { p with date := p.date.plus 7 }

/-- Selects the row above, or the date a week before. -/
def previous (p : Picker) : Picker :=
  match p.page with
  | .proposals => { p with proposalIndex := p.proposalIndex - 1 }
  | .strings => { p with stringIndex := p.stringIndex - 1 }
  | .date => { p with date := p.date.plus (-7) }

def dateText (p : Picker) : Except CalendarFault Text := p.date.format p.dateFormat

/-- A chosen string or date is the value of the first proposal that waits for one. -/
def withValue (p : Picker) (value : Text) : Selection :=
  match p.proposals with
  | first :: _ => .proposal first (some value)
  | [] => .value value

def selection (p : Picker) : Except CalendarFault (Option Selection) :=
  match p.page with
  | .proposals => .ok (p.proposals[p.proposalIndex]?.map (.proposal · none))
  | .strings => .ok (p.strings[p.stringIndex]?.map p.withValue)
  | .date => p.dateText.map (some ∘ p.withValue)

end Picker

inductive PartLook
  | matched
  | pending
  | placeholder
  deriving DecidableEq, Repr

def ValueKind.label : ValueKind → String
  | plain => "..."
  | date => "[date and time]"
  | tag => "[tag name]"
  | contact => "[contact]"

/-- The parts of a proposal as shown, those that are typed already apart from those to come. -/
def Proposal.parts (p : Proposal) : List (Text × PartLook) :=
  p.pattern.mapIdx fun i part =>
    match part with
    | .placeholder => (p.kind.label.toList, .placeholder)
    | .fixed t => (t, if i ≤ p.matched then .matched else .pending)

end QueryLine
