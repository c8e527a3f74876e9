import QueryLine.Proofs.Descent

/-!
The tokens ahead of a descent, cut into pieces from the right. What a rule takes are the tokens of
the first factors on their level; the factors and sections behind are those of the tokens behind.
-/

namespace QueryLine

open Descent (ahead next? advance atEnd glued close)
open Piece (ofTokens tokensOf tokensIn)

namespace Token

variable {t : Token} {w : Text}

def Plain (t : Token) : Prop := t.lexeme ≠ .opening ∧ t.lexeme ≠ .closing

theorem Plain.of_word (h : t.lexeme = .word w) : t.Plain := by simp [Plain, h]

theorem Plain.of_keyword {k : Keyword} (h : t.keyword? = some k) : t.Plain := by
  obtain ⟨w, hw, -⟩ := exists_word_of_keyword h
  exact .of_word hw

end Token

def level (mode : Mode) (ts : List Token) : Clauses := Reading.clauses mode (ofTokens ts).head

def behind (ts : List Token) : List (Token × List Piece) := (ofTokens ts).tail

section Level

variable {mode : Mode} {t : Token} {ts : List Token}

theorem place_of_plain (h : t.Plain) (s : Sections Piece) :
    Piece.place t s = s.cons (.token t) := by
  unfold Piece.place
  split
  · exact absurd ‹_› h.1
  · exact absurd ‹_› h.2
  · rfl

theorem level_closing (h : t.lexeme = .closing) : level mode (t :: ts) = .empty := by
  rw [level, Piece.ofTokens_cons, Piece.place, h]
  rfl

theorem level_cons (h : t.Plain) (mode : Mode) (ts : List Token) :
    level mode (t :: ts) = (level mode ts).token mode t := by
  rw [level, Piece.ofTokens_cons, place_of_plain h]
  rfl

theorem behind_cons (h : t.Plain) : behind (t :: ts) = behind ts := by
  rw [behind, Piece.ofTokens_cons, place_of_plain h]
  rfl

theorem ofTokens_opening_of_nil (h : t.lexeme = .opening) (hbehind : behind ts = []) :
    ofTokens (t :: ts) = ⟨[.group t (ofTokens ts).head none], []⟩ := by
  have htail : (ofTokens ts).tail = [] := hbehind
  rw [Piece.ofTokens_cons, Piece.place, h]
  dsimp only
  rw [Piece.openGroup, htail]

theorem ofTokens_opening_of_cons {u : Token} {ps : List Piece} {more : List (Token × List Piece)}
    (h : t.lexeme = .opening) (hbehind : behind ts = (u, ps) :: more) :
    ofTokens (t :: ts) = ⟨.group t (ofTokens ts).head (some u) :: ps, more⟩ := by
  have htail : (ofTokens ts).tail = (u, ps) :: more := hbehind
  rw [Piece.ofTokens_cons, Piece.place, h]
  dsimp only
  rw [Piece.openGroup, htail]

theorem tokensOf_head (hbehind : behind ts = []) : tokensOf (ofTokens ts).head = ts := by
  have htail : (ofTokens ts).tail = [] := hbehind
  have htokens := Piece.tokensIn_ofTokens ts
  rwa [tokensIn, htail, List.flatMap_nil, List.append_nil] at htokens

theorem eq_nil_of_ofTokens (h : ofTokens ts = ⟨[], []⟩) : ts = [] := by
  have htokens := Piece.tokensIn_ofTokens ts
  rw [h] at htokens
  exact htokens.symm

theorem exists_of_ofTokens {u : Token} {ps : List Piece} {more : List (Token × List Piece)}
    (h : ofTokens ts = ⟨[], (u, ps) :: more⟩) :
    ∃ rest, ts = u :: rest ∧ u.lexeme = .closing ∧ ofTokens rest = ⟨ps, more⟩ := by
  cases ts with
  | nil => cases h
  | cons t rest =>
    rw [Piece.ofTokens_cons] at h
    unfold Piece.place at h
    split at h
    · unfold Piece.openGroup at h
      split at h <;> cases h
    · rename_i hclosing
      cases h
      exact ⟨rest, rfl, hclosing, rfl⟩
    · cases h

end Level

/-- What is told of an operator without an operand. -/
def Descent.told (t : Token) (absent : Bool) : List Fault :=
  if absent then [.noOperand t.start t.lexeme.spelling] else []

theorem Descent.missing_eq (t : Token) (absent : Bool) (s : Descent) :
    s.missing t absent = s.after [] (told t absent) := by
  cases absent with
  | true => simp [missing, fault, after, told]
  | false => exact s.after_nil.symm

theorem Descent.lastStop_after {used : List Token} {u : Token} (h : used.getLast? = some u)
    (s : Descent) (fs : List Fault) : (s.after (used.map .ofToken) fs).lastStop = u.stop := by
  simp only [after, List.getLast?_map, h]
  rfl

section Conjuncts

variable {slots : List Slot} {mode : Mode} {s : Descent} {t : Slot}

theorem Descent.conjuncts_of_end (h : EndsClause slots s) (terms : List Term) :
    conjuncts slots mode terms s = some (terms, s) := by
  rw [conjuncts, ReaderT.run, StateT.run, conjunct]
  cases hnext : next? slots s with
  | none => rfl
  | some t =>
    dsimp only
    rw [if_pos (by simpa using h t hnext)]
    rfl

theorem Descent.conjuncts_of_and (hnext : next? slots s = some t) (hand : t.keyword? = some .and)
    (terms : List Term) : conjuncts slots mode terms s = conjuncts slots mode terms
      ((advance slots s).missing t.toToken (terms.isEmpty || atEnd slots (advance slots s))) := by
  obtain ⟨w, hw, -⟩ := Token.exists_word_of_keyword hand
  have hgoes : ¬ (t.lexeme = .closing || t.isOr) = true := by simp [hw, Token.isOr, hand]
  rw [conjuncts, ReaderT.run, StateT.run, conjunct, hnext]
  dsimp only
  rw [if_neg hgoes, if_pos hand]
  rfl

theorem Descent.conjuncts_of_operand (h : atEnd slots s = false) (terms : List Term) :
    conjuncts slots mode terms s = (do
      let (term, s) ← unary slots mode s
      conjuncts slots mode (terms ++ term.toList) s) := by
  rw [conjuncts, ReaderT.run, StateT.run, conjunct]
  cases hnext : next? slots s with
  | none =>
    rw [atEnd, hnext] at h
    cases h
  | some t =>
    rw [atEnd, hnext, Option.all_some] at h
    simp only [Token.isBinary, Bool.or_eq_false_iff, decide_eq_false_iff_not] at h
    obtain ⟨hclosing, hand, hor⟩ := h
    dsimp only
    rw [if_neg (by simp [hclosing, Token.isOr, hor]), if_neg hand]
    simp only [Option.bind_eq_bind, Option.bind_assoc]
    rfl

theorem Descent.disjuncts_of_end (h : EndsLevel slots s) (terms : List Term) :
    disjuncts slots mode terms s = some (terms, s) := by
  rw [disjuncts]
  cases hnext : next? slots s with
  | none => rfl
  | some t =>
    have hor : ¬ t.isOr = true := by simp [Token.isOr, Token.keyword?, h t hnext]
    exact if_neg hor

theorem Descent.disjuncts_of_or (hnext : next? slots s = some t) (hor : t.keyword? = some .or)
    (terms : List Term) : disjuncts slots mode terms s = (do
      let (right, s) ← conjunction slots mode (advance slots s)
      disjuncts slots mode (terms ++ right.toList)
        (s.missing t.toToken (terms.isEmpty || right.isNone))) := by
  rw [disjuncts, hnext]
  exact if_pos (decide_eq_true hor)

theorem Descent.unary_of_not (hnext : next? slots s = some t) (hnot : t.keyword? = some .not) :
    unary slots mode s = (do
      let (operand, s) ← unary slots mode (advance slots s)
      return (operand.map fun x => .negation (.between t.start x.stop) x,
        s.missing t.toToken operand.isNone)) := by
  rw [unary, hnext]
  exact if_pos hnot

end Conjuncts

/-- The tokens `ts` are ahead, each behind those in front of it. -/
structure Stands (slots : List Slot) (s : Descent) (ts : List Token) : Prop where
  ahead : ahead slots s = ts.map .ofToken
  ordered : ts.Pairwise fun t u => t.stop ≤ u.start

namespace Stands

variable {slots : List Slot} {s : Descent} {t : Token} {ts used rest : List Token}

theorem next?_nil (h : Stands slots s []) : next? slots s = none := by
  rw [Descent.next?_eq, h.ahead]
  rfl

theorem next?_cons (h : Stands slots s (t :: ts)) : next? slots s = some (.ofToken t) := by
  rw [Descent.next?_eq, h.ahead]
  rfl

theorem after (h : Stands slots s (used ++ rest)) (fs : List Fault) :
    Stands slots (s.after (used.map .ofToken) fs) rest := by
  refine ⟨Descent.ahead_after ?_ fs, (List.pairwise_append.1 h.ordered).2.1⟩
  rw [h.ahead, List.map_append]

theorem advance_eq (h : Stands slots s (t :: ts)) :
    advance slots s = s.after ([t].map .ofToken) [] := Descent.advance_eq h.next?_cons

theorem advance (h : Stands slots s (t :: ts)) : Stands slots (advance slots s) ts := by
  rw [h.advance_eq]
  have hsplit : Stands slots s ([t] ++ ts) := h
  exact hsplit.after []

theorem missing (h : Stands slots s ts) (t : Token) (absent : Bool) :
    Stands slots (s.missing t absent) ts := by
  cases absent with
  | true => exact ⟨h.ahead, h.ordered⟩
  | false => exact h

theorem close_nil (h : Stands slots s []) (opening : Token) :
    close slots opening s = s.fault (.unclosed opening.start) := by
  rw [close, h.next?_nil, Option.any_none, if_neg Bool.false_ne_true]

theorem close_cons (h : Stands slots s (t :: ts)) (ht : t.lexeme = .closing) (opening : Token) :
    close slots opening s = s.after ([t].map .ofToken) [] := by
  have hclosing : decide ((Slot.ofToken t).lexeme = .closing) = true := decide_eq_true ht
  rw [close, h.next?_cons, Option.any_some, if_pos hclosing, h.advance_eq]

theorem start_le {u : Token} (h : Stands slots s (t :: ts)) (hu : u ∈ t :: ts) :
    t.start ≤ u.start := by
  rcases List.mem_cons.1 hu with rfl | hu
  · exact Nat.le_refl _
  · exact Nat.le_trans (Nat.le_add_right _ _) ((List.pairwise_cons.1 h.ordered).1 u hu)

theorem glued_eq_false {stop : Nat} (h : Stands slots s ts)
    (hapart : ∀ t rest, ts = t :: rest → t.startsValue = true → t.start ≠ stop) :
    glued slots stop s = false := by
  cases ts with
  | nil =>
    rw [glued, h.next?_nil]
    rfl
  | cons t ts =>
    rw [glued, h.next?_cons, Option.any_some, Bool.and_eq_false_imp]
    intro hstart
    exact Bool.eq_false_iff.2 fun ht => hapart t ts rfl ht (of_decide_eq_true hstart)

theorem atEnd_eq (h : Stands slots s ts) (mode : Mode) :
    atEnd slots s = !Reading.startsWithOperand (level mode ts).head := by
  have hstarts := Piece.startsWithOperand_ofTokens mode ts
  rw [level, hstarts]
  cases ts with
  | nil => rw [atEnd, h.next?_nil]; rfl
  | cons t ts =>
    rw [atEnd, h.next?_cons]
    simp [Slot.ofToken]

theorem head_level (h : Stands slots s ts) (hends : Descent.EndsClause slots s) (mode : Mode) :
    (level mode ts).head = [] := by
  cases ts with
  | nil => rfl
  | cons t ts =>
    rcases hends _ h.next?_cons with hclosing | hor
    · have hclosing : t.lexeme = .closing := hclosing
      rw [level_closing hclosing]
      rfl
    · have hkeyword : t.keyword? = some .or := of_decide_eq_true hor
      rw [level_cons (.of_keyword hkeyword) mode ts, Clauses.token_or hkeyword]
      rfl

theorem exists_of_not_ends (h : Stands slots s ts) (hends : ¬ Descent.EndsClause slots s) :
    ∃ t rest, ts = t :: rest ∧ t.lexeme ≠ .closing ∧ t.isOr = false := by
  cases ts with
  | nil => exact absurd (fun t ht => by rw [h.next?_nil] at ht; cases ht) hends
  | cons t rest =>
    refine ⟨t, rest, rfl, fun hclosing => hends fun u hu => ?_, ?_⟩
    · obtain rfl := Option.some.inj (h.next?_cons.symm.trans hu)
      exact .inl hclosing
    · refine Bool.eq_false_iff.2 fun hor => hends fun u hu => ?_
      obtain rfl := Option.some.inj (h.next?_cons.symm.trans hu)
      exact .inr hor

theorem level_eq_empty (h : Stands slots s ts) (hends : Descent.EndsLevel slots s) (mode : Mode) :
    level mode ts = .empty := by
  cases ts with
  | nil => rfl
  | cons t ts => exact level_closing (hends _ h.next?_cons)

theorem exists_or (h : Stands slots s ts) (hends : Descent.EndsClause slots s)
    (hlast : ¬ Descent.EndsLevel slots s) : ∃ t rest, ts = t :: rest ∧ t.keyword? = some .or := by
  cases ts with
  | nil => exact absurd (fun t ht => by rw [h.next?_nil] at ht; cases ht) hlast
  | cons t rest =>
    refine ⟨t, rest, rfl, ?_⟩
    rcases hends _ h.next?_cons with hclosing | hor
    · refine absurd (fun u hu => ?_) hlast
      obtain rfl := Option.some.inj (h.next?_cons.symm.trans hu)
      exact hclosing
    · exact of_decide_eq_true hor

/-- A level that is at its end has nothing in front of the sections behind. -/
theorem ofTokens_eq (h : Stands slots s ts) (hends : Descent.EndsLevel slots s) :
    ofTokens ts = ⟨[], behind ts⟩ := by
  cases ts with
  | nil => rfl
  | cons t ts =>
    have hclosing : t.lexeme = .closing := hends _ h.next?_cons
    rw [behind, Piece.ofTokens_cons, Piece.place, hclosing]
    rfl

end Stands

/-- A rule begun at `s` with `ts` ahead takes `used`. It finds `a` and the faults in them, and
leaves the factors `c` in front of the sections behind. -/
def Takes {α : Type} (mode : Mode) (s : Descent) (ts used : List Token) (c : Clauses) (a : α)
    (faults : List Fault) (r : Option (α × Descent)) : Prop :=
  ∃ rest, ts = used ++ rest ∧ behind rest = behind ts ∧ level mode rest = c ∧
    r = some (a, s.after (used.map .ofToken) faults)

namespace Takes

variable {α β : Type} {slots : List Slot} {mode : Mode} {s : Descent} {t : Token}
  {ts used more : List Token} {c d : Clauses} {a : α} {b : β} {fs gs : List Fault}
  {r : Option (α × Descent)} {f : α × Descent → Option (β × Descent)}

theorem nothing (a : α) (s : Descent) (ts : List Token) :
    Takes mode s ts [] (level mode ts) a [] (some (a, s)) :=
  ⟨ts, rfl, rfl, rfl, by rw [List.map_nil, s.after_nil]⟩

theorem map (h : Takes mode s ts used c a fs r) (g : α → Descent → β) :
    Takes mode s ts used c (g a (s.after (used.map .ofToken) fs)) fs
      (r >>= fun x => some (g x.1 x.2, x.2)) := by
  obtain ⟨rest, hts, hbehind, hlevel, rfl⟩ := h
  exact ⟨rest, hts, hbehind, hlevel, rfl⟩

/-- What a rule goes on with starts at the factors that were left. -/
theorem bind (h : Takes mode s ts used c a fs r) (hs : Stands slots s ts)
    (hf : ∀ rest, ts = used ++ rest → level mode rest = c →
      Stands slots (s.after (used.map .ofToken) fs) rest →
      Takes mode (s.after (used.map .ofToken) fs) rest more d b gs
        (f (a, s.after (used.map .ofToken) fs))) :
    Takes mode s ts (used ++ more) d b (fs ++ gs) (r >>= f) := by
  obtain ⟨rest, rfl, hbehind, hlevel, rfl⟩ := h
  obtain ⟨rest', rfl, hbehind', hlevel', hresult⟩ := hf rest rfl hlevel (hs.after fs)
  refine ⟨rest', (List.append_assoc _ _ _).symm, hbehind'.trans hbehind, hlevel', ?_⟩
  rw [Option.bind_eq_bind, Option.bind_some, hresult, Descent.after_after, List.map_append]

theorem exists_bind (h : Takes mode s ts used c a fs r) (hs : Stands slots s ts)
    (hf : ∀ rest, ts = used ++ rest → level mode rest = c →
      Stands slots (s.after (used.map .ofToken) fs) rest →
      ∃ more, Takes mode (s.after (used.map .ofToken) fs) rest more d b gs
        (f (a, s.after (used.map .ofToken) fs))) :
    ∃ all, Takes mode s ts all d b (fs ++ gs) (r >>= f) := by
  obtain ⟨rest, rfl, -, hlevel, -⟩ := id h
  obtain ⟨more, hmore⟩ := hf rest rfl hlevel (hs.after fs)
  refine ⟨used ++ more, h.bind hs fun rest' hts _ _ => ?_⟩
  obtain rfl := List.append_cancel_left hts
  exact hmore

theorem ends {n : Nat} {P : Descent → Prop} (h : Takes mode s ts used c a fs r)
    (hends : Descent.Ends slots n P s r) : P (s.after (used.map .ofToken) fs) := by
  obtain ⟨rest, -, -, -, hresult⟩ := h
  obtain ⟨a', s', hresult', -, hP⟩ := hends
  obtain ⟨-, rfl⟩ := Prod.mk.inj (Option.some.inj (hresult.symm.trans hresult'))
  exact hP

theorem later (hs : Stands slots s (t :: ts)) (ht : t.Plain)
    (h : Takes mode (advance slots s) ts used c a fs r) :
    Takes mode s (t :: ts) (t :: used) c a fs r := by
  obtain ⟨rest, rfl, hbehind, hlevel, rfl⟩ := h
  refine ⟨rest, rfl, hbehind.trans (behind_cons ht).symm, hlevel, ?_⟩
  rw [hs.advance_eq, Descent.after_after]
  rfl

theorem exists_later (hs : Stands slots s (t :: ts)) (ht : t.Plain)
    (h : ∃ used, Takes mode (advance slots s) ts used c a fs r) :
    ∃ all, Takes mode s (t :: ts) all c a fs r := by
  obtain ⟨used, htakes⟩ := h
  exact ⟨t :: used, .later hs ht htakes⟩

theorem missing {absent : Bool}
    (h : Takes mode (s.missing t absent) ts used c a fs r) :
    Takes mode s ts used c a (Descent.told t absent ++ fs) r := by
  obtain ⟨rest, rfl, hbehind, hlevel, rfl⟩ := h
  refine ⟨rest, rfl, hbehind, hlevel, ?_⟩
  rw [Descent.missing_eq, Descent.after_after, List.nil_append]

theorem told (a : α) (s : Descent) (ts : List Token) (t : Token) (absent : Bool) :
    Takes mode s ts [] (level mode ts) a (Descent.told t absent)
      (some (a, s.missing t absent)) := by
  have hnothing : Takes mode (s.missing t absent) ts [] (level mode ts) a [] _ := nothing a _ ts
  rw [← List.append_nil (Descent.told t absent)]
  exact hnothing.missing

end Takes

end QueryLine
