import QueryLine.Query.Bracket

/-!
From a spelling back to tokens and pieces: text that is put together from words, quotes, resources,
blanks and closed parentheses is cut where it was put together.
-/

namespace QueryLine

/-- A scan that passes over blanks. What starts at any other character is a `piece`, which takes
`more` characters behind that one. -/
structure Text.Cuts {α : Type} (scan : (position pending : Nat) → Text → List α)
    (piece : Nat → Char → Text → α) (more : Char → Text → Nat) : Prop where
  nil : ∀ position pending, scan position pending [] = []
  skip : ∀ position pending c rest,
    scan position (pending + 1) (c :: rest) = scan (position + 1) pending rest
  read : ∀ position c rest, scan position 0 (c :: rest) =
    if isBlank c then scan (position + 1) 0 rest
    else piece position c rest :: scan (position + 1) (more c rest) rest

namespace Text.Cuts

variable {α : Type} {scan : Nat → Nat → Text → List α} {piece : Nat → Char → Text → α}
  {more : Char → Text → Nat} {position : Nat} {c : Char}

theorem pending (h : Cuts scan piece more) (position : Nat) (t rest : Text) :
    scan position t.length (t ++ rest) = scan (position + t.length) 0 rest := by
  induction t generalizing position with
  | nil => rfl
  | cons c t ih =>
    rw [List.length_cons, List.cons_append, h.skip, ih, Nat.add_right_comm]
    rfl

theorem blank (h : Cuts scan piece more) (hc : isBlank c = true) (rest : Text) :
    scan position 0 (c :: rest) = scan (position + 1) 0 rest := by
  rw [h.read, if_pos hc]

theorem first (h : Cuts scan piece more) {t rest : Text} (hc : isBlank c = false)
    (ht : more c (t ++ rest) = t.length) :
    scan position 0 (c :: (t ++ rest)) =
      piece position c (t ++ rest) :: scan (position + (t.length + 1)) 0 rest := by
  rw [h.read, if_neg (by simp [hc]), ht, h.pending, Nat.add_right_comm, Nat.add_assoc]

theorem moved (h : Cuts scan piece more) {n : Nat} {f : α → α}
    (hf : ∀ position c rest, piece (position + n) c rest = f (piece position c rest))
    (position pending : Nat) (text : Text) :
    scan (position + n) pending text = (scan position pending text).map f := by
  induction text generalizing position pending with
  | nil => rw [h.nil, h.nil, List.map_nil]
  | cons c rest ih =>
    cases pending with
    | succ pending => rw [h.skip, h.skip, Nat.add_right_comm, ih]
    | zero =>
      rw [h.read, h.read]
      split
      · rw [Nat.add_right_comm, ih]
      · rw [List.map_cons, hf, Nat.add_right_comm, ih]

end Text.Cuts

namespace Lexeme

/-- A word written in front of this text ends there. -/
def Apart (rest : Text) : Prop := ∀ c ∈ rest.head?, isWordChar c = false

theorem apart_nil : Apart [] := by
  intro c hc
  simp at hc

theorem apart_cons {c : Char} (hc : isWordChar c = false) (rest : Text) : Apart (c :: rest) := by
  intro d hd
  obtain rfl := Option.some.inj hd
  exact hc

theorem isBlank_of_isWordChar {c : Char} (h : isWordChar c = true) : Text.isBlank c = false := by
  simp only [isWordChar, Bool.and_eq_true, Bool.not_eq_true', decide_eq_true_eq] at h
  exact h.1.1.1

theorem takeWhile_stop {p : Char → Bool} {rest : Text} (hrest : ∀ c ∈ rest.head?, p c = false) :
    rest.takeWhile p = [] := by
  cases rest with
  | nil => rfl
  | cons c rest => exact List.takeWhile_cons_of_neg (by simp [hrest c rfl])

theorem takeWhile_append_stop {p : Char → Bool} {rest : Text}
    (hrest : ∀ c ∈ rest.head?, p c = false) (t : Text) :
    (t ++ rest).takeWhile p = t.takeWhile p := by
  rw [List.takeWhile_append, takeWhile_stop hrest, List.append_nil]
  split
  · rename_i hall
    exact ((List.takeWhile_prefix _).eq_of_length hall).symm
  · rfl

theorem takeWhile_exact {p : Char → Bool} {w rest : Text} (hw : ∀ c ∈ w, p c = true)
    (hrest : ∀ c ∈ rest.head?, p c = false) : (w ++ rest).takeWhile p = w := by
  rw [List.takeWhile_append_of_pos hw, takeWhile_stop hrest, List.append_nil]

theorem starting_word {c : Char} {w rest : Text} (hw : (c :: w).all isWordChar = true)
    (hc : c ≠ '<') (hrest : Apart rest) : starting c (w ++ rest) = word (c :: w) := by
  rw [List.all_cons, Bool.and_eq_true] at hw
  obtain ⟨hfirst, hmore⟩ := hw
  simp only [isWordChar, Bool.and_eq_true, Bool.not_eq_true', decide_eq_true_eq] at hfirst
  obtain ⟨⟨⟨-, hopen⟩, hclose⟩, hquote⟩ := hfirst
  simp [starting, hopen, hclose, hquote, hc, takeWhile_exact (List.all_eq_true.1 hmore) hrest]

theorem starting_quoted {w : Text} (hw : '"' ∉ w) (rest : Text) :
    starting '"' (w ++ '"' :: rest) = quoted w true := by
  have htake : (w ++ '"' :: rest).takeWhile (· ≠ '"') = w := by
    apply takeWhile_exact
    · intro c hc
      have hne : c ≠ '"' := fun h => hw (h ▸ hc)
      simp [hne]
    · simp
  simp only [starting, htake]
  simp

theorem starting_uri {u : Text} (hne : u ≠ [])
    (hu : ∀ c ∈ u, Text.isBlank c = false ∧ c ≠ '>') (rest : Text) :
    starting '<' (u ++ '>' :: rest) = uri u := by
  have htake : (u ++ '>' :: rest).takeWhile (fun c => !Text.isBlank c && c ≠ '>') = u := by
    apply takeWhile_exact
    · intro c hc
      simp [hu c hc]
    · simp
  have huri : uri? (u ++ '>' :: rest) = some u := by
    simp only [uri?, htake]
    simp [hne]
  simp [starting, huri]

end Lexeme

namespace Token

theorem cuts : Text.Cuts scan (fun position c rest => ⟨position, Lexeme.starting c rest⟩)
    fun c rest => (Lexeme.starting c rest).spelling.length - 1 where
  nil _ _ := rfl
  skip _ _ _ _ := rfl
  read _ _ _ := rfl

theorem scan_opening (position : Nat) (rest : Text) :
    scan position 0 ('(' :: rest) = ⟨position, .opening⟩ :: scan (position + 1) 0 rest := rfl

theorem scan_closing (position : Nat) (rest : Text) :
    scan position 0 (')' :: rest) = ⟨position, .closing⟩ :: scan (position + 1) 0 rest := rfl

theorem scan_lexeme {position : Nat} {c : Char} {t rest : Text} {l : Lexeme}
    (hc : Text.isBlank c = false) (hl : Lexeme.starting c (t ++ rest) = l)
    (hspelling : l.spelling = c :: t) :
    scan position 0 (l.spelling ++ rest) =
      ⟨position, l⟩ :: scan (position + l.spelling.length) 0 rest := by
  have hmore : (Lexeme.starting c (t ++ rest)).spelling.length - 1 = t.length := by
    rw [hl, hspelling]
    rfl
  rw [hspelling, List.cons_append, cuts.first hc hmore, hl]
  rfl

end Token

namespace Piece

mutual
/-- Every parenthesis in the piece has its partner, and every quote its end. -/
def Closed : Piece → Prop
  | token t => match t.lexeme with
    | .opening | .closing | .quoted _ false => False
    | _ => True
  | group opening body closing =>
    opening.lexeme = .opening ∧ ClosedIn body ∧ ∃ t, closing = some t ∧ t.lexeme = .closing

def ClosedIn : List Piece → Prop
  | [] => True
  | p :: ps => p.Closed ∧ ClosedIn ps
end

theorem closedIn_append {ps qs : List Piece} :
    ClosedIn (ps ++ qs) ↔ ClosedIn ps ∧ ClosedIn qs := by
  induction ps with
  | nil => simp [ClosedIn]
  | cons p ps ih => simp [ClosedIn, ih, and_assoc]

theorem tokensOf_append (ps qs : List Piece) :
    tokensOf (ps ++ qs) = tokensOf ps ++ tokensOf qs := by
  induction ps with
  | nil => rfl
  | cons p ps ih => simp [tokensOf, ih]

mutual
theorem ofTokens_tokens : (p : Piece) → p.Closed → (ts : List Token) →
    ofTokens (p.tokens ++ ts) = (ofTokens ts).cons p
  | token ⟨start, l⟩, h, ts => by
    rw [tokens, List.singleton_append, ofTokens, List.foldr_cons, ← ofTokens, place]
    cases l with
    | opening => exact h.elim
    | closing => exact h.elim
    | quoted t closed => rfl
    | uri t => rfl
    | word t => rfl
  | group opening body closing, ⟨hopening, hbody, t, ht, hclosing⟩, ts => by
    subst ht
    rw [tokens, List.cons_append, List.cons_append, List.append_assoc, ofTokens, List.foldr_cons,
      ← ofTokens, ofTokens_tokensOf body hbody, place, hopening]
    simp only [Option.toList_some, List.singleton_append]
    rw [ofTokens, List.foldr_cons, ← ofTokens, place, hclosing]
    simp [openGroup, Sections.cut, Sections.cons]

/-- Closed pieces are found again, whatever tokens follow. -/
theorem ofTokens_tokensOf : (ps : List Piece) → ClosedIn ps → (ts : List Token) →
    ofTokens (tokensOf ps ++ ts) = ⟨ps ++ (ofTokens ts).head, (ofTokens ts).tail⟩
  | [], _, ts => rfl
  | p :: ps, ⟨hp, hps⟩, ts => by
    rw [tokensOf, List.append_assoc, ofTokens_tokens p hp, ofTokens_tokensOf ps hps]
    rfl
end

theorem faults_append (ts us : List Token) :
    Token.faults (ts ++ us) = Token.faults ts ++ Token.faults us := List.filterMap_append

mutual
theorem faults_tokens : (p : Piece) → p.Closed → Token.faults p.tokens = []
  | token ⟨start, l⟩, h => by
    cases l with
    | quoted t closed =>
      cases closed with
      | false => exact h.elim
      | true => rfl
    | opening => rfl
    | closing => rfl
    | uri t => rfl
    | word t => rfl
  | group opening body closing, ⟨hopening, hbody, t, ht, hclosing⟩ => by
    subst ht
    rw [tokens, ← List.singleton_append, faults_append, faults_append,
      faults_tokensOf body hbody]
    simp [Token.faults, hopening, hclosing]

theorem faults_tokensOf : (ps : List Piece) → ClosedIn ps → Token.faults (tokensOf ps) = []
  | [], _ => rfl
  | p :: ps, ⟨hp, hps⟩ => by
    rw [tokensOf, faults_append, faults_tokens p hp, faults_tokensOf ps hps]
    rfl
end

end Piece

/-- Written at `position`, and not run into by what follows, the text is read as these pieces. -/
structure Spelled (position : Nat) (text : Text) (ps : List Piece) : Prop where
  scan : ∀ rest, Lexeme.Apart rest → Token.scan position 0 (text ++ rest) =
    Piece.tokensOf ps ++ Token.scan (position + text.length) 0 rest
  closed : Piece.ClosedIn ps

namespace Spelled

variable {position : Nat} {t u : Text} {ps qs : List Piece}

theorem lexeme {l : Lexeme} {c : Char} (hspelling : l.spelling = c :: t)
    (hblank : Text.isBlank c = false)
    (hstarting : ∀ rest, Lexeme.Apart rest → Lexeme.starting c (t ++ rest) = l)
    (hclosed : (Piece.token ⟨position, l⟩).Closed) :
    Spelled position l.spelling [.token ⟨position, l⟩] where
  scan rest hrest := Token.scan_lexeme hblank (hstarting rest hrest) hspelling
  closed := ⟨hclosed, trivial⟩

theorem word {c : Char} {w : Text} (hw : (c :: w).all Lexeme.isWordChar = true)
    (hc : c ≠ '<') : Spelled position (c :: w) [.token ⟨position, .word (c :: w)⟩] := by
  have hfirst : Lexeme.isWordChar c = true := List.all_eq_true.1 hw c List.mem_cons_self
  apply lexeme (l := .word (c :: w)) rfl (Lexeme.isBlank_of_isWordChar hfirst) _ trivial
  intro rest hrest
  exact Lexeme.starting_word hw hc hrest

theorem quoted {w : Text} (hw : '"' ∉ w) :
    Spelled position ('"' :: w ++ ['"']) [.token ⟨position, .quoted w true⟩] := by
  apply lexeme (l := .quoted w true) (t := w ++ ['"']) rfl (by decide) _ trivial
  intro rest _
  rw [List.append_assoc]
  exact Lexeme.starting_quoted hw rest

theorem uri {w : Text} (hne : w ≠ []) (hw : ∀ c ∈ w, Text.isBlank c = false ∧ c ≠ '>') :
    Spelled position ('<' :: w ++ ['>']) [.token ⟨position, .uri w⟩] := by
  apply lexeme (l := .uri w) (t := w ++ ['>']) rfl (by decide) _ trivial
  intro rest _
  rw [List.append_assoc]
  exact Lexeme.starting_uri hne hw rest

theorem blank (h : Spelled (position + 1) t ps) : Spelled position (' ' :: t) ps where
  scan rest hrest := by
    rw [List.cons_append, Token.cuts.blank (by decide), h.scan rest hrest, List.length_cons]
    congr 2
    omega
  closed := h.closed

theorem append {c : Char} (ht : Spelled position t ps) (hc : Lexeme.isWordChar c = false)
    (hu : Spelled (position + t.length) (c :: u) qs) :
    Spelled position (t ++ c :: u) (ps ++ qs) where
  scan rest hrest := by
    rw [List.append_assoc, List.cons_append, ht.scan _ (Lexeme.apart_cons hc _),
      ← List.cons_append, hu.scan rest hrest, Piece.tokensOf_append, List.append_assoc,
      List.length_append, Nat.add_assoc]
  closed := Piece.closedIn_append.2 ⟨ht.closed, hu.closed⟩

theorem group (h : Spelled (position + 1) t ps) : Spelled position ('(' :: t ++ [')'])
    [.group ⟨position, .opening⟩ ps (some ⟨position + 1 + t.length, .closing⟩)] where
  scan rest hrest := by
    have hinside := h.scan (')' :: rest) (Lexeme.apart_cons (by decide) rest)
    rw [List.cons_append, List.cons_append, List.append_assoc, List.singleton_append,
      Token.scan_opening, hinside, Token.scan_closing]
    simp only [Piece.tokensOf, Piece.tokens, Option.toList_some, List.append_nil, List.cons_append,
      List.append_assoc, List.length_cons, List.length_append, List.length_nil]
    congr 4
    omega
  closed := ⟨⟨rfl, h.closed, _, rfl, rfl⟩, trivial⟩

/-- A whole text is read as its pieces. -/
theorem ofText (h : Spelled 0 t ps) : Token.ofText t = Piece.tokensOf ps := by
  have hscan := h.scan [] Lexeme.apart_nil
  rw [List.append_nil] at hscan
  rw [Token.ofText, hscan, Token.scan, List.append_nil]

end Spelled
end QueryLine
