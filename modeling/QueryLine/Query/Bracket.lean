import QueryLine.Query.Token

/-!
Parentheses matched. The tokens become a list of pieces, each a token of its own or a group, cut
where a closing parenthesis has no partner. Reading from the right, an opening parenthesis takes the
nearest closing one still free, so this is the matching that a stack finds from the left.
-/

namespace QueryLine

/-- A list cut into sections at certain tokens. -/
structure Sections (α : Type) where
  head : List α
  tail : List (Token × List α)

namespace Sections

variable {α : Type}

def empty : Sections α := ⟨[], []⟩

def cons (a : α) (s : Sections α) : Sections α := ⟨a :: s.head, s.tail⟩

/-- Ends a section in front: what was its start is now what follows the cut. -/
def cut (t : Token) (s : Sections α) : Sections α := ⟨[], (t, s.head) :: s.tail⟩

end Sections

inductive Piece
  | token (t : Token)
  | group (opening : Token) (body : List Piece) (closing : Option Token)
  deriving Repr

namespace Piece

mutual
def tokens : Piece → List Token
  | token t => [t]
  | group opening body closing => opening :: tokensOf body ++ closing.toList

def tokensOf : List Piece → List Token
  | [] => []
  | p :: ps => p.tokens ++ tokensOf ps
end

/-- An opening parenthesis takes the pieces up to the nearest free closing one, or all of them. -/
def openGroup (opening : Token) (s : Sections Piece) : Sections Piece :=
  match s.tail with
  | [] => ⟨[group opening s.head none], []⟩
  | (closing, after) :: more => ⟨group opening s.head (some closing) :: after, more⟩

def place (t : Token) (s : Sections Piece) : Sections Piece :=
  match t.lexeme with
  | .opening => openGroup t s
  | .closing => s.cut t
  | _ => s.cons (token t)

/-- All pieces; the sections are cut at the closing parentheses without a partner. -/
def ofTokens (ts : List Token) : Sections Piece := ts.foldr place .empty

theorem ofTokens_cons (t : Token) (ts : List Token) :
    ofTokens (t :: ts) = place t (ofTokens ts) := rfl

def tokensIn (s : Sections Piece) : List Token :=
  tokensOf s.head ++ s.tail.flatMap fun (t, ps) => t :: tokensOf ps

@[simp] theorem tokensIn_openGroup (opening : Token) (s : Sections Piece) :
    tokensIn (openGroup opening s) = opening :: tokensIn s := by
  unfold openGroup
  split <;> simp_all [tokensIn, tokensOf, tokens]

theorem tokensIn_place (t : Token) (s : Sections Piece) :
    tokensIn (place t s) = t :: tokensIn s := by
  unfold place
  split
  · simp
  · simp [tokensIn, Sections.cut, tokensOf]
  · simp [tokensIn, Sections.cons, tokensOf, tokens]

/-- Matching loses no token and keeps their order. -/
theorem tokensIn_ofTokens (ts : List Token) : tokensIn (ofTokens ts) = ts := by
  induction ts with
  | nil => rfl
  | cons t ts ih => rw [ofTokens_cons, tokensIn_place, ih]

end Piece
end QueryLine
