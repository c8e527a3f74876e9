import QueryLine.Calendar.Date
import QueryLine.Text.Basic

/-!
Formats for dates: text in which a percent sign starts an item. A format is valid if each of its
items is one. It may still ask for the time of day, which a date cannot give.
-/

namespace QueryLine

namespace DateFormat

/-- What stands before a short number in place of its missing digits. -/
inductive Padding
  | nothing
  | zeros
  | spaces
  deriving DecidableEq, Repr

inductive NumberItem
  | year
  | century
  | yearOfCentury
  | weekYear
  | weekYearOfCentury
  | quarter
  | month
  | day
  | ordinal
  | weekFromSunday
  | weekFromMonday
  | week
  | weekdayFromSunday
  | weekdayFromMonday
  deriving DecidableEq, Repr

inductive Item
  | text (t : Text)
  | number (n : NumberItem) (padding : Padding)
  | weekdayName (long : Bool)
  | monthName (long : Bool)
  /-- A number of the time of day. -/
  | timeNumber
  /-- Anything else about the time of day or its zone. -/
  | time
  deriving DecidableEq, Repr

/-- The items that the letter after a percent sign stands for. -/
def ofLetter? : Char → Option (List Item)
  | 'A' => some [.weekdayName true]
  | 'a' => some [.weekdayName false]
  | 'B' => some [.monthName true]
  | 'b' | 'h' => some [.monthName false]
  | 'C' => some [.number .century .zeros]
  | 'D' | 'x' => some [.number .month .zeros, .text ['/'], .number .day .zeros, .text ['/'],
      .number .yearOfCentury .zeros]
  | 'F' => some [.number .year .zeros, .text ['-'], .number .month .zeros, .text ['-'],
      .number .day .zeros]
  | 'G' => some [.number .weekYear .zeros]
  | 'U' => some [.number .weekFromSunday .zeros]
  | 'V' => some [.number .week .zeros]
  | 'W' => some [.number .weekFromMonday .zeros]
  | 'Y' => some [.number .year .zeros]
  | 'd' => some [.number .day .zeros]
  | 'e' => some [.number .day .spaces]
  | 'g' => some [.number .weekYearOfCentury .zeros]
  | 'j' => some [.number .ordinal .zeros]
  | 'm' => some [.number .month .zeros]
  | 'n' => some [.text ['\n']]
  | 'q' => some [.number .quarter .nothing]
  | 't' => some [.text ['\t']]
  | 'u' => some [.number .weekdayFromMonday .nothing]
  | 'v' => some [.number .day .spaces, .text ['-'], .monthName false, .text ['-'],
      .number .year .zeros]
  | 'w' => some [.number .weekdayFromSunday .nothing]
  | 'y' => some [.number .yearOfCentury .zeros]
  | '%' => some [.text ['%']]
  | 'H' | 'I' | 'M' | 'S' | 'f' | 'k' | 'l' | 's' => some [.timeNumber]
  | 'P' | 'R' | 'T' | 'X' | 'Z' | 'c' | 'p' | 'r' | 'z' | '+' => some [.time]
  | _ => none

/-- Longer ways to ask for a part of the time. -/
def timeSpellings : List Text := [
  [':', 'z'], [':', ':', 'z'], [':', ':', ':', 'z'],
  ['.', 'f'], ['.', '3', 'f'], ['.', '6', 'f'], ['.', '9', 'f'], ['3', 'f'], ['6', 'f'], ['9', 'f']]

def padding? : Char → Option Padding
  | '-' => some .nothing
  | '0' => some .zeros
  | '_' => some .spaces
  | _ => none

/-- Only a single number can be padded otherwise. -/
def padded? (padding : Padding) : List Item → Option (List Item)
  | [.number n _] => some [.number n padding]
  | [.timeNumber] => some [.timeNumber]
  | _ => none

/-- The items of what follows a percent sign, and how many characters they take. -/
def specifier? : Text → Option (List Item × Nat)
  | [] => none
  | c :: cs =>
    match padding? c, cs with
    | some padding, l :: _ => ((ofLetter? l).bind (padded? padding)).map (·, 2)
    | some _, [] => none
    | none, _ =>
      if c = '#' then if cs.head? = some 'z' then some ([.time], 2) else none
      else match ofLetter? c with
        | some items => some (items, 1)
        | none =>
          (timeSpellings.find? (·.isPrefixOf (c :: cs))).map fun spelling =>
            ([.time], spelling.length)

/-- Items of a format, of which the first `pending` characters belong to an item already read. -/
def scan? : (pending : Nat) → Text → Option (List Item)
  | _, [] => some []
  | pending + 1, _ :: cs => scan? pending cs
  | 0, c :: cs =>
    if c = '%' then
      match specifier? cs with
      | some (items, length) => (scan? length cs).map (items ++ ·)
      | none => none
    else (scan? 0 cs).map (.text [c] :: ·)

def items? (format : Text) : Option (List Item) := scan? 0 format

def isValid (format : Text) : Bool := (items? format).isSome

def iso : Text := "%Y-%m-%d".toList

/-- The format itself, or year, month and day where it is not valid. -/
def orIso (format : Text) : Text := if isValid format then format else iso

def digits (n : Nat) : Text := Nat.toDigits 10 n

def fill (width : Nat) (padding : Padding) (sign t : Text) : Text :=
  let missing := width - (sign.length + t.length)
  match padding with
  | .nothing => sign ++ t
  | .zeros => sign ++ List.replicate missing '0' ++ t
  | .spaces => List.replicate missing ' ' ++ sign ++ t

/-- A number that is taken modulo 256 and has two digits; tens beyond nine go on in the order of
the characters. -/
def twoDigits (padding : Padding) (n : Int) : Text :=
  let byte := (n % 256).toNat
  let tens : Text :=
    match byte / 10, padding with
    | 0, .nothing => []
    | 0, .spaces => [' ']
    | tens, _ => [Char.ofNat ('0'.toNat + tens)]
  tens ++ digits (byte % 10)

/-- Four digits, or five places with a sign where they do not suffice. -/
def yearText (padding : Padding) (year : Int) : Text :=
  if 0 ≤ year ∧ year ≤ 9999 then fill 4 padding [] (digits year.toNat)
  else fill 5 padding [if year < 0 then '-' else '+'] (digits year.natAbs)

def numberText (d : Date) (padding : Padding) : NumberItem → Text
  | .year => yearText padding d.civil.year
  | .century => twoDigits padding (d.civil.year / 100)
  | .yearOfCentury => twoDigits padding (d.civil.year % 100)
  | .weekYear => yearText padding d.weekYear
  | .weekYearOfCentury => twoDigits padding (d.weekYear % 100)
  | .quarter => digits ((d.civil.month - 1) / 3 + 1)
  | .month => twoDigits padding d.civil.month
  | .day => twoDigits padding d.civil.day
  | .ordinal => fill 3 padding [] (digits d.civil.ordinal)
  | .weekFromSunday => twoDigits padding (d.weekFrom 6)
  | .weekFromMonday => twoDigits padding (d.weekFrom 0)
  | .week => twoDigits padding d.weekOfYear
  | .weekdayFromSunday => digits ((d.weekday + 1) % 7)
  | .weekdayFromMonday => digits (d.weekday + 1)

def weekdayName : Nat → String
  | 0 => "Monday"
  | 1 => "Tuesday"
  | 2 => "Wednesday"
  | 3 => "Thursday"
  | 4 => "Friday"
  | 5 => "Saturday"
  | _ => "Sunday"

def monthName : Nat → String
  | 1 => "January"
  | 2 => "February"
  | 3 => "March"
  | 4 => "April"
  | 5 => "May"
  | 6 => "June"
  | 7 => "July"
  | 8 => "August"
  | 9 => "September"
  | 10 => "October"
  | 11 => "November"
  | _ => "December"

def nameText (long : Bool) (name : String) : Text :=
  if long then name.toList else name.toList.take 3

def itemText? (d : Date) : Item → Option Text
  | .text t => some t
  | .number n padding => some (numberText d padding n)
  | .weekdayName long => some (nameText long (weekdayName d.weekday))
  | .monthName long => some (nameText long (monthName d.civil.month))
  | .timeNumber | .time => none

def write? (d : Date) (items : List Item) : Option Text :=
  (items.mapM (itemText? d)).map (·.flatten)

end DateFormat

/-- The date in a format; an invalid one stands for year, month and day. -/
def Date.format (d : Date) (format : Text) : Except CalendarFault Text :=
  match (DateFormat.items? (DateFormat.orIso format)).bind (DateFormat.write? d) with
  | some t => .ok t
  | none => .error .noTimeOfDay

end QueryLine
