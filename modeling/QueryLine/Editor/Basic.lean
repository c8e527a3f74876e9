import QueryLine.Completion.Edit
import QueryLine.Completion.Picker
import QueryLine.Document.Basic
import QueryLine.Editor.Analyzer
import QueryLine.Query.Highlight

/-!
The editor of a query line: a document, an analyzer and a picker. After each operation the editor
takes the document's events; when the text changed it reads the query again, boxes what the query
restricts and fills the picker.
-/

namespace QueryLine

inductive Level
  | info
  | warning
  | error
  deriving DecidableEq, Repr

structure Notice where
  text : Text
  level : Level
  deriving DecidableEq, Repr

inductive Notification
  | text (t : Text)
  | caret (position : Nat)
  deriving DecidableEq, Repr

structure Editor (σ : Type) where
  document : Document
  analyzer : σ
  picker : Picker
  /-- The picker opens while the user types. -/
  autoOpen : Bool
  term : Option Term
  faults : List Fault
  notice : Option Notice
  /-- Events that nobody took yet, oldest first. -/
  events : List DocumentEvent
  /-- Everything observers were told, oldest first. -/
  notifications : List Notification

namespace Term

/-- A term with a block of its own where several terms are joined. -/
def isRestriction : Term → Bool
  | comparison .. | resourceType .. => true
  | _ => false

mutual
/-- Spans to box inside a term: the restrictions that are members of a conjunction or
disjunction. -/
def innerSpans : Term → List Span
  | comparison _ _ _ value => value.innerSpans
  | negation _ operand => operand.innerSpans
  | conjunction _ members => memberSpans members
  | disjunction _ members => memberSpans members
  | _ => []

def memberSpans : List Term → List Span
  | [] => []
  | t :: ts =>
    (if t.isRestriction && 0 < t.span.length then [t.span] else []) ++ t.innerSpans
      ++ memberSpans ts
end

/-- Spans to box in a whole query, in order. A query of a single term is boxed as it is. -/
def blockSpans (t : Term) : List Span :=
  match t with
  | conjunction .. | disjunction .. | negation .. => t.innerSpans
  | _ => if 0 < t.span.length then [t.span] else []

end Term

/-- Boxes the spans one after the other, as far as they can be boxed. -/
def Document.boxAll (spans : List Span) (d : Document) : Document :=
  spans.foldl (fun d s => d.act (.box s.start (s.stop - 1))) d

namespace Editor

variable {σ : Type}

def new (analyzer : σ) (picker : Picker) (autoOpen : Bool) : Editor σ :=
  ⟨.ofText [], analyzer, picker, autoOpen, none, [], none, [], []⟩

def ofSettings (analyzer : σ) (s : Settings) (date : Date) : Editor σ :=
  new analyzer (.new s.dateFormat date) s.autoComplete

def text (e : Editor σ) : Text := e.document.text

def caret (e : Editor σ) : Nat := e.document.caret.position

def styles (e : Editor σ) : List CharStyle := highlight e.text e.term

def notify (text : String) (level : Level) (e : Editor σ) : Editor σ :=
  { e with notice := some ⟨text.toList, level⟩ }

/-- What an event does beyond being queued: observers are told, and a refused step of the caret is
noticed. -/
def observe (e : Editor σ) : DocumentEvent → Editor σ
  | .textChanged => { e with notifications := e.notifications ++ [.text e.text] }
  | .caretMoved position => { e with notifications := e.notifications ++ [.caret position] }
  | .beforeStart => e.notify "Start of query" .info
  | .afterEnd => e.notify "End of query" .info
  | .blockClosed => e

def dispatch (events : List DocumentEvent) (e : Editor σ) : Editor σ :=
  let told := events.foldl observe e
  { told with events := told.events ++ events }

def takeEvents (e : Editor σ) : List DocumentEvent × Editor σ := (e.events, { e with events := [] })

def takeNotifications (e : Editor σ) : List Notification × Editor σ :=
  (e.notifications, { e with notifications := [] })

variable [Analyzer σ]

/-- Strings to choose from for the value of a proposal. -/
def values (e : Editor σ) : ValueKind → List Text
  | .tag => Analyzer.tags e.analyzer
  | .contact => Analyzer.contacts e.analyzer
  | _ => []

/-- What is typed at the caret of the value there. -/
def typed (e : Editor σ) : Text := Edit.typedValue e.text e.caret

/-- The picker for a single proposal: the page on which its value can be chosen. -/
def pickerForOne (e : Editor σ) (p : Proposal) : Picker :=
  if p.kind = .date then (e.picker.turnTo .date).offer p
  else
    let values := e.values p.kind
    if values.isEmpty then (e.picker.turnTo .proposals).offer p
    else ((e.picker.turnTo .strings).offer p).addStrings values e.typed

def fillPicker (e : Editor σ) : Editor σ :=
  let picker := match Analyzer.proposals e.analyzer with
    | [] => (e.picker.turnTo .proposals).hide
    | proposals =>
      let filled := match proposals with
        | [p] => e.pickerForOne p
        | _ => proposals.foldl (fun picker p => picker.offer p) (e.picker.turnTo .proposals)
      if e.autoOpen then filled.reveal else filled.hide
  { e with picker }

/-- Reads the text again. The blocks are those of the query; text and caret stay. -/
def reparse (e : Editor σ) : Editor σ :=
  let (query, analyzer) := Analyzer.read e.text e.caret e.analyzer
  let spans := (query.term.map Term.blockSpans).getD []
  let document := (e.document.flatten.boxAll spans).setCaret e.caret
  let notice := query.faults.head?.map fun f => ⟨f.message.toList, .error⟩
  fillPicker { e with document, analyzer, term := query.term, faults := query.faults, notice }

/-- Takes the document's events, reading the query again if the text changed. -/
def process (e : Editor σ) : Editor σ :=
  let (events, document) := e.document.takeEvents
  let e := { e with document }
  if .textChanged ∈ events then
    let e := e.reparse
    let (more, document) := e.document.takeEvents
    dispatch (events ++ more.filter (· ≠ .textChanged)) { e with document }
  else e.dispatch events

def perform (a : Document.Action) (e : Editor σ) : Editor σ :=
  process { e with document := e.document.act a }

/-- New text, which observers are told of like an edit. -/
def setText (t : Text) (e : Editor σ) : Editor σ :=
  (reparse { e with document := e.document.setText t }).dispatch [.textChanged] |>.process

def requestCompletion (e : Editor σ) : Editor σ :=
  let e := e.reparse
  process { e with picker := e.picker.reveal }

/-- Offers all tags for the word at the caret. -/
def openTagList (e : Editor σ) : Editor σ :=
  let listed := (e.picker.turnTo .strings).addStrings (Analyzer.tags e.analyzer) e.typed
  { e with picker := listed.reveal }

/-- Makes an edit. The picker is hidden, or it would offer the same again. -/
def apply (edit : Edit) (e : Editor σ) : Editor σ :=
  let document := (e.document.splice edit.start edit.stop edit.replacement).setCaret edit.caret
  let e := process { e with document }
  { e with picker := e.picker.hide }

def applyProposal (p : Proposal) (value : Option Text) (e : Editor σ) : Editor σ :=
  e.apply (.ofProposal p value)

def applyValue (value : Text) (e : Editor σ) : Editor σ := e.apply (.ofValue e.text e.caret value)

def choose (s : Selection) (e : Editor σ) : Editor σ :=
  match s with
  | .proposal p value => e.applyProposal p value
  | .value t => e.applyValue t

/-- Applies what is selected, if the picker is visible and anything is. -/
def accept? (e : Editor σ) : Except CalendarFault (Option (Editor σ)) :=
  if e.picker.visible then
    e.picker.selection.map fun selected =>
      selected.map fun s => choose s { e with picker := e.picker.hide }
  else .ok none

inductive Action
  | setText (t : Text)
  | setCaret (position : Nat)
  | box (start last : Nat)
  | flatten
  | insert (t : Text)
  | backspace
  | delete
  | left
  | right
  | home
  | toEnd
  | unbox
  | reparse
  | requestCompletion
  | openTagList
  | accept
  | applyProposal (p : Proposal) (value : Option Text)
  | applyValue (t : Text)
  | setAutoOpen (on : Bool)
  | setNotice (notice : Option Notice)

def Action.onDocument? : Action → Option Document.Action
  | .setCaret position => some (.setCaret position)
  | .box start last => some (.box start last)
  | .flatten => some .flatten
  | .insert t => some (.insert t)
  | .backspace => some .backspace
  | .delete => some .delete
  | .left => some .left
  | .right => some .right
  | .home => some .home
  | .toEnd => some .toEnd
  | .unbox => some .unboxAtCaret
  | _ => none

/-- The editor after an action, and whether the action was carried out rather than refused. -/
def act (e : Editor σ) (a : Action) : Except CalendarFault (Editor σ × Bool) :=
  match a with
  | .setText t => .ok (e.setText t, true)
  | .reparse => .ok (e.reparse, true)
  | .requestCompletion => .ok (e.requestCompletion, true)
  | .openTagList => .ok (e.openTagList, true)
  | .accept => e.accept?.map fun
    | some after => (after, true)
    | none => (e, false)
  | .applyProposal p value => .ok (e.applyProposal p value, true)
  | .applyValue t => .ok (e.applyValue t, true)
  | .setAutoOpen on => .ok ({ e with autoOpen := on }, true)
  | .setNotice notice => .ok ({ e with notice }, true)
  | a =>
    match a.onDocument? with
    | some a => .ok (e.perform a, (e.document.act? a).isSome)
    | none => .ok (e, false)

end Editor
end QueryLine
