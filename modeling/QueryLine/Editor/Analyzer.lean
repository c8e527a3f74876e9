import QueryLine.Query.Reading
import QueryLine.Query.Rule
import QueryLine.Settings
import QueryLine.Text.Order

/-!
What an editor asks about its text. An analyzer reads the text as a query and then knows what to
propose at the caret; it also knows the tags and contacts that may be values.
-/

namespace QueryLine

class Analyzer (σ : Type) where
  /-- Reads the text with the caret at an offset. -/
  read : Text → (caret : Nat) → σ → Query × σ
  /-- Proposals for what was read last. -/
  proposals : σ → List Proposal
  /-- All tags, sorted, each once. -/
  tags : σ → List Text
  /-- All contacts, sorted, each once. -/
  contacts : σ → List Text

/-- Reads the query language, with words that are patterns for names of files. -/
structure Keywords where
  tags : List Text
  contacts : List Text
  proposals : List Proposal

namespace Keywords

def new (tags contacts : List Text) : Keywords :=
  ⟨Text.sortedSet tags, Text.sortedSet contacts, []⟩

def ofSettings (s : Settings) : Keywords := new s.tags s.contacts

end Keywords

instance : Analyzer Keywords where
  read text caret k :=
    (.ofText .filenames text, { k with proposals := Proposal.at text caret })
  proposals := Keywords.proposals
  tags := Keywords.tags
  contacts := Keywords.contacts

structure Answer where
  query : Query
  proposals : List Proposal

/-- Gives prepared answers in order, whatever the text; the last one again when they are used up. -/
structure Script where
  last : Answer
  answers : List Answer
  tags : List Text
  contacts : List Text

namespace Script

def new (answers : List Answer) (tags contacts : List Text) : Script :=
  ⟨⟨⟨none, []⟩, []⟩, answers, Text.sortedSet tags, Text.sortedSet contacts⟩

end Script

instance : Analyzer Script where
  read _ _ s :=
    match s.answers with
    | [] => (s.last.query, s)
    | a :: more => (a.query, { s with last := a, answers := more })
  proposals s := s.last.proposals
  tags := Script.tags
  contacts := Script.contacts

end QueryLine
