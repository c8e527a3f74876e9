import QueryLine.Query.Proposal
import QueryLine.Text.Lowercase

/-!
The rules by which words before the caret make a proposal.
-/

namespace QueryLine

structure Word where
  start : Nat
  text : Text
  deriving DecidableEq, Repr

namespace Word

/-- Words between blanks of a text that stands at `position`, of which the first `pending`
characters belong to a word already read. -/
def scan : (position pending : Nat) → Text → List Word
  | _, _, [] => []
  | position, pending + 1, _ :: cs => scan (position + 1) pending cs
  | position, 0, c :: cs =>
    if Text.isBlank c then scan (position + 1) 0 cs
    else
      let more := cs.takeWhile (!Text.isBlank ·)
      ⟨position, c :: more⟩ :: scan (position + 1) more.length cs

/-- The words that end in or at `t`, the last of them being typed at its end: an empty one where
`t` is empty or ends in a blank. -/
def typed (t : Text) : List Word :=
  scan 0 0 t ++ if (t.getLast?.map Text.isBlank).getD true then [⟨t.length, []⟩] else []

end Word

structure Rule where
  pattern : List PatternPart
  kind : ValueKind
  description : Text
  deriving DecidableEq, Repr

namespace Rule

def ofNotation (parts : List String) (kind : ValueKind) (description : String) : Rule :=
  ⟨parts.map fun p => .ofNotation p.toList, kind, description.toList⟩

def all : List Rule := [
  .ofNotation ["tag:", "%"] .tag "Tagged with",
  .ofNotation ["from:", "%"] .contact "Sent by a contact",
  .ofNotation ["sent", "by", "%"] .contact "Sent by a contact",
  .ofNotation ["modified", "after|since", "%"] .date "Modified after a date",
  .ofNotation ["modified", "before|until", "%"] .date "Modified before a date",
  .ofNotation ["size:>", "%"] .plain "Larger than",
  .ofNotation ["size:<", "%"] .plain "Smaller than",
  .ofNotation ["type:", "image|document|music|video"] .plain "Of type"]

def covers (p : PatternPart) (w : Text) : Bool :=
  match p with
  | .placeholder => !w.isEmpty
  | .fixed _ => p.alternatives.any (Text.sameAscii · w)

def mayBecome (p : PatternPart) (typed : Text) : Bool :=
  match p with
  | .placeholder => true
  | .fixed _ => p.alternatives.any (Text.startsWithLoosely · typed)

/-- How many parts, counted from `part`, the word being typed reaches beyond it: none while it
starts `alternative`, one where it goes on into the next part without a space. -/
def reach (next : Option PatternPart) (typed alternative : Text) : Option Nat :=
  if Text.startsWithLoosely alternative typed then some 0
  else if bindsNext alternative && alternative.length < typed.length
      && Text.startsWithLoosely typed alternative
      && next.any (mayBecome · (typed.drop alternative.length)) then some 1
  else none

/-- The part that the word being typed reaches, if the pattern's parts before it cover the words
`before` and the word fits. -/
def matched? : (pattern : List PatternPart) → (before : List Text) → (typed : Text) → Option Nat
  | [], _, _ => none
  | p :: ps, w :: ws, typed => if covers p w then (matched? ps ws typed).map (· + 1) else none
  | .placeholder :: _, [], _ => some 0
  | .fixed t :: ps, [], typed =>
    if typed.isEmpty then none
    else (PatternPart.fixed t).alternatives.findSome? (reach ps.head? typed)

def match? (r : Rule) (words : List Word) : Option Nat :=
  words.getLast?.bind fun w =>
    let before := words.dropLast.map (·.text)
    if before = [] ∧ r.pattern.head? = some .placeholder then none
    else matched? r.pattern before w.text

def proposalFor? (r : Rule) (caret : Nat) (words : List Word) : Option Proposal :=
  match r.match? words, words with
  | some matched, w :: _ =>
    some ⟨.between w.start caret, r.pattern, matched, r.kind, r.description⟩
  | _, _ => none

/-- The proposal for the fewest last words that match. -/
def proposal? (r : Rule) (caret : Nat) (words : List Word) : Option Proposal :=
  (List.range (min r.pattern.length words.length)).findSome? fun n =>
    r.proposalFor? caret (words.drop (words.length - (n + 1)))

end Rule

def Proposal.at (text : Text) (caret : Nat) : List Proposal :=
  let before := text.take caret
  Rule.all.filterMap (·.proposal? before.length (Word.typed before))

end QueryLine
