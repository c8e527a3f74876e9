import Mathlib.Data.List.Forall2
import QueryLine.Proofs.Preorder

/-!
What a query names. However operators and parentheses are misplaced, each token that is an operand
gives one term, and the terms come in the order of the tokens.
-/

namespace QueryLine
namespace Lexeme

/-- The characters up to the end of the word that goes on at a position. -/
def wordAt (text : Text) (start : Nat) : Text := (text.drop start).takeWhile isWordChar

theorem wordAt_succ {text w : Text} {start : Nat} {c : Char} (h : wordAt text start = c :: w) :
    wordAt text (start + 1) = w := by
  unfold wordAt at *
  rw [← List.drop_drop]
  cases hrest : text.drop start with
  | nil => simp [hrest] at h
  | cons d rest =>
    rw [hrest, List.takeWhile_cons] at h
    split at h
    · exact (List.cons.inj h).2
    · cases h

theorem takeWhile_of_starting {c : Char} {rest w : Text} (hc : Text.isBlank c = false)
    (h : starting c rest = word w) : (c :: rest).takeWhile isWordChar = w := by
  unfold starting at h
  split at h
  · cases h
  · split at h
    · cases h
    · split at h
      · cases h
      · split at h
        · cases h
        · rename_i hopen hclose hquote _ _
          have hfirst : isWordChar c = true := by simp [isWordChar, hc, hopen, hclose, hquote]
          rw [List.takeWhile_cons_of_pos hfirst]
          exact word.inj h

end Lexeme

/-- A term that a word is read as. -/
def Term.IsWord : Term → Prop
  | comparison .. | literal .. | resourceType .. => True
  | _ => False

namespace Token

/-- A quoted text, a resource, or a word that is no operator. -/
def isOperand (t : Token) : Bool :=
  match t.lexeme with
  | .opening | .closing => false
  | .quoted .. | .uri _ => true
  | .word w => (Keyword.ofText? w).isNone

/-- Where its term starts: behind an opening quote, or behind the sign that negates a word. -/
def operandStart (t : Token) : Nat :=
  match t.lexeme with
  | .quoted .. | .word ('-' :: _) | .word ('!' :: _) => t.start + 1
  | _ => t.start

/-- The token is an operand and this is its term. -/
def Gives (t : Token) (u : Term) : Prop :=
  u.span.start = t.operandStart ∧
    match t.lexeme with
    | .opening | .closing => False
    | .quoted w _ => ∃ s, u = .literal s w
    | .uri x => ∃ s, u = .resource s x
    | .word _ => u.IsWord

theorem gives_word {t : Token} {u : Term} {w : Text} (hw : t.lexeme = .word w)
    (hstart : u.span.start = t.operandStart) (hkind : u.IsWord) : t.Gives u := by
  refine ⟨hstart, ?_⟩
  rwa [hw]

/-- A word goes on as far as the text does. -/
def WholeWord (text : Text) (t : Token) : Prop :=
  ∀ w, t.lexeme = .word w → Lexeme.wordAt text t.start = w

theorem wholeWord_of_mem_scan {text rest : Text} {position pending : Nat} {t : Token}
    (hrest : text.drop position = rest) (ht : t ∈ scan position pending rest) :
    t.WholeWord text := by
  induction rest generalizing position pending with
  | nil => simp [scan] at ht
  | cons c rest ih =>
    have hnext : text.drop (position + 1) = rest := by
      rw [← List.drop_drop, hrest, List.drop_succ_cons, List.drop_zero]
    cases pending with
    | succ pending => exact ih hnext ht
    | zero =>
      rw [scan] at ht
      split at ht
      · exact ih hnext ht
      · rename_i hblank
        rcases List.mem_cons.1 ht with rfl | ht
        · intro w hw
          rw [Lexeme.wordAt, hrest]
          exact Lexeme.takeWhile_of_starting (Bool.eq_false_iff.2 hblank) hw
        · exact ih hnext ht

end Token

namespace Term

/-- A value that is written in the same word as its comparison, which starts at `start`. -/
def isOwnValue (text : Text) (start : Nat) : Term → Bool
  | literal s _ => s.stop ≤ start + (Lexeme.wordAt text start).length
  | _ => false

mutual
/-- The terms that name something, in preorder: not operators, and not the value that a word
has of its own. -/
def operands (text : Text) : Term → List Term
  | comparison s property comparator value =>
    comparison s property comparator value ::
      if value.isOwnValue text s.start then [] else value.operands text
  | negation _ operand => operand.operands text
  | conjunction _ members | disjunction _ members => operandsAll text members
  | literal s w => [literal s w]
  | resource s uri => [resource s uri]
  | resourceType s name => [resourceType s name]

def operandsAll (text : Text) : List Term → List Term
  | [] => []
  | t :: ts => t.operands text ++ operandsAll text ts
end

variable {mode : Mode} {text : Text} {lo hi : Nat}

theorem operandsAll_eq (ts : List Term) : operandsAll text ts = ts.flatMap (operands text) := by
  induction ts with
  | nil => rfl
  | cons t ts ih => rw [operandsAll, ih, List.flatMap_cons]

theorem operands_sublist (t : Term) : (t.operands text).Sublist t.preorder := by
  have hall : ∀ ts : List Term, (∀ t ∈ ts, (t.operands text).Sublist t.preorder) →
      (ts.flatMap (operands text)).Sublist (ts.flatMap preorder) := by
    intro ts h
    induction ts with
    | nil => exact .refl []
    | cons t ts ih =>
      rw [List.flatMap_cons, List.flatMap_cons]
      exact (h t List.mem_cons_self).append (ih fun u hu => h u (List.mem_cons_of_mem t hu))
  induction t using induction_parts with
  | h t ih =>
    have hparts := hall t.parts ih
    rw [preorder_eq]
    cases t with
    | comparison s property comparator value =>
      rw [operands]
      apply List.Sublist.cons_cons
      split
      · exact List.nil_sublist _
      · simpa [parts] using hparts
    | negation s operand =>
      rw [operands]
      exact .cons _ (by simpa [parts] using hparts)
    | conjunction s members | disjunction s members =>
      rw [operands, operandsAll_eq]
      exact .cons _ hparts
    | literal s w | resource s w | resourceType s w => exact .refl _

theorem Faithful.operands_ne_nil {t : Term} (h : t.Faithful mode text) : t.operands text ≠ [] := by
  induction t using induction_parts with
  | h t ih =>
    cases t with
    | comparison s property comparator value =>
      rw [operands]
      exact List.cons_ne_nil _ _
    | negation s operand =>
      rw [operands]
      exact ih operand (List.mem_singleton_self operand) (h.part (List.mem_singleton_self operand))
    | conjunction s members | disjunction s members =>
      have hfill : Fill members s := h.fits.quotes
      have hseveral := hfill.several
      obtain ⟨first, hfirst⟩ := List.exists_mem_of_length_pos (by omega : 0 < members.length)
      rw [operands, operandsAll_eq]
      intro hnil
      exact ih first hfirst (h.part hfirst) (List.flatMap_eq_nil_iff.1 hnil first hfirst)
    | literal s w | resource s w | resourceType s w => exact List.cons_ne_nil _ _

theorem operands_join {make : Span → List Term → Term}
    (hmake : make = conjunction ∨ make = disjunction) (ts : List Term) :
    (join make ts).toList.flatMap (operands text) = ts.flatMap (operands text) := by
  match ts with
  | [] => rfl
  | [t] => rfl
  | t :: u :: ts =>
    rcases hmake with rfl | rfl
    · simp [join, operands, operandsAll_eq]
    · simp [join, operands, operandsAll_eq]

/-- What is written behind the word of a comparison counts for itself. -/
theorem operands_comparison_apart {s : Span} {property : Text} {comparator : Comparator}
    {value : Term} (h : s.start + (Lexeme.wordAt text s.start).length < value.stop) :
    (comparison s property comparator value).operands text =
      comparison s property comparator value :: value.operands text := by
  have hown : value.isOwnValue text s.start = false := by
    cases value with
    | literal s' w => exact decide_eq_false (Nat.not_le.2 h)
    | _ => rfl
  rw [operands, hown]
  rfl

theorem operands_comparison_own {s s' : Span} {property w : Text} {comparator : Comparator}
    (h : s'.stop ≤ s.start + (Lexeme.wordAt text s.start).length) :
    (comparison s property comparator (literal s' w)).operands text =
      [comparison s property comparator (literal s' w)] := by
  have hown : (literal s' w).isOwnValue text s.start = true := decide_eq_true h
  rw [operands, hown]
  rfl

end Term

def Operand.operands (text : Text) (o : Operand) : List Term :=
  o.term.toList.flatMap (Term.operands text)

def Factor.operands (text : Text) : Factor → List Term
  | .also _ => []
  | .operand o => o.operands text

def Clauses.operands (text : Text) (c : Clauses) : List Term :=
  c.factors.flatMap (Factor.operands text)

namespace Operand

variable {mode : Mode} {text w : Text} {start : Nat}

@[simp] theorem operands_negate (t : Token) (o : Operand) :
    (o.negate t).operands text = o.operands text := by
  unfold negate operands
  split
  · rename_i x hx
    simp [hx, Term.operands]
  · rename_i hnone
    simp [hnone]

/-- A word is read as one term, beside whatever else its operand names. -/
def NamesWord (text : Text) (start : Nat) (o : Operand) (us : List Term) : Prop :=
  ∃ u, o.operands text = u :: us ∧ u.span.start = start ∧ u.IsWord

theorem namesWord_of_some {u : Term} {us : List Term} {faults : List Fault} {stop : Nat}
    {valueAt : Option Nat} (hoperands : u.operands text = u :: us) (hstart : u.span.start = start)
    (hword : u.IsWord) : NamesWord text start ⟨some u, faults, stop, valueAt⟩ us := by
  refine ⟨u, ?_, hstart, hword⟩
  rw [operands, Option.toList_some, List.flatMap_singleton, hoperands]

theorem namesWord_ofPlainWord (hword : Lexeme.wordAt text start = w) :
    (ofPlainWord mode start w).NamesWord text start [] := by
  unfold ofPlainWord
  dsimp only
  split
  · apply namesWord_of_some (Term.operands_comparison_own _) rfl trivial
    rw [hword]
    exact Nat.le_refl _
  · exact namesWord_of_some (by rw [Term.operands]) rfl trivial

section Restriction

variable {r : Restriction}

theorem namesWord_ofRestriction (hr : Restriction.ofWord? w = some r)
    (hword : Lexeme.wordAt text start = w) :
    (ofRestriction start w r none).NamesWord text start [] := by
  obtain ⟨spelling, -, hsplit⟩ := Restriction.exists_spelling hr
  have hvalue : r.value.length ≤ w.length := by
    rw [hsplit, List.length_append]
    exact Nat.le_add_left _ _
  unfold ofRestriction
  dsimp only
  split
  · exact namesWord_of_some (by rw [Term.operands]) rfl trivial
  · apply namesWord_of_some (Term.operands_comparison_own _) rfl trivial
    rw [hword]
    simp only [Span.stop]
    omega

theorem namesWord_ofRestriction_some {o : Operand} {mid hi : Nat} (hempty : r.value = [])
    (hword : Lexeme.wordAt text start = w) (ho : o.In mode text mid hi)
    (hmid : start + w.length ≤ mid) :
    (ofRestriction start w r (some o)).NamesWord text start (o.operands text) := by
  have htype : r.namesType = false := by simp [Restriction.namesType, hempty]
  unfold ofRestriction
  simp only [htype, Bool.false_eq_true, if_false]
  refine namesWord_of_some ?_ rfl trivial
  unfold operands
  cases hterm : o.term with
  | none =>
    apply Term.operands_comparison_own
    rw [Span.between, hword, hempty]
    exact Nat.le_refl _
  | some v =>
    rw [Option.getD_some, Option.toList_some, List.flatMap_singleton]
    apply Term.operands_comparison_apart
    rw [Span.between, hword]
    exact Nat.lt_of_le_of_lt hmid (ho.term_in v hterm).lo_lt

end Restriction
end Operand

namespace Clauses

variable {mode : Mode} {text w : Text} {start mid hi : Nat} {rest : Clauses}

theorem operands_operand (o : Operand) (rest : Clauses) :
    (rest.operand o).operands text = o.operands text ++ rest.operands text := rfl

theorem operands_negate (t : Token) (rest : Clauses) :
    (rest.negate t).operands text = rest.operands text := by
  unfold negate
  split
  · rename_i o more hhead
    simp [operands, factors, hhead, Factor.operands]
  · rw [operands_operand, Operand.operands_negate]
    rfl

/-- A word names one thing; what becomes its value is named behind it as before. -/
theorem exists_operands_word (mode : Mode) (hword : Lexeme.wordAt text start = w)
    (h : rest.In mode text mid hi) (hmid : start + w.length ≤ mid) :
    ∃ u, (rest.word mode start w).operands text = u :: rest.operands text ∧
      u.span.start = start ∧ u.IsWord := by
  have halone : ∀ o : Operand, o.NamesWord text start [] →
      ∃ u, (rest.operand o).operands text = u :: rest.operands text ∧ u.span.start = start ∧
        u.IsWord := by
    rintro o ⟨u, hu, hfacts⟩
    exact ⟨u, by rw [operands_operand, hu, List.singleton_append], hfacts⟩
  unfold word
  split
  · exact halone _ (Operand.namesWord_ofPlainWord hword)
  · rename_i r hr
    have hrestriction := halone _ (Operand.namesWord_ofRestriction hr hword)
    split
    · rename_i hempty
      split
      · rename_i o hvalue
        -- what is glued to the word is taken from the factors, and named behind the comparison
        unfold value? at hvalue
        split at hvalue
        · rename_i front more hhead
          split at hvalue
          · obtain rfl := Option.some.inj hvalue
            rw [In, factors, hhead] at h
            obtain ⟨m, ho, -⟩ := h
            obtain ⟨u, hu, hfacts⟩ :=
              Operand.namesWord_ofRestriction_some (by simpa using hempty) hword ho hmid
            refine ⟨u, ?_, hfacts⟩
            simp [operands, factors, hhead, Factor.operands, hu]
          · cases hvalue
        · cases hvalue
      · exact hrestriction
    · exact hrestriction

theorem exists_operands_token (mode : Mode) {t : Token} {lo : Nat} (hw : t.lexeme = .word w)
    (hkeyword : Keyword.ofText? w = none) (hwhole : t.WholeWord text) (ht : t.In text lo mid)
    (h : rest.In mode text mid hi) :
    ∃ u, (rest.token mode t).operands text = u :: rest.operands text ∧ t.Gives u := by
  have hword : Lexeme.wordAt text t.start = w := hwhole w hw
  have hstop := ht.le_hi
  rw [Token.stop, Token.length, hw, Lexeme.spelling] at hstop
  -- behind a sign the word goes on as far as the whole word does
  have hsign : ∀ sign more, w = sign :: more → t.operandStart = t.start + 1 →
      ∃ u, ((rest.word mode (t.start + 1) more).negate t).operands text = u :: rest.operands text ∧
        t.Gives u := by
    rintro sign more rfl hstart
    rw [List.length_cons] at hstop
    obtain ⟨u, hu, hfrom, hkind⟩ :=
      exists_operands_word mode (Lexeme.wordAt_succ hword) h (by omega)
    exact ⟨u, by rw [operands_negate, hu], Token.gives_word hw (hfrom.trans hstart.symm) hkind⟩
  simp only [token, hw, hkeyword]
  split
  · exact hsign _ _ rfl (by simp [Token.operandStart, hw])
  · exact hsign _ _ rfl (by simp [Token.operandStart, hw])
  · rename_i hminus hbang
    have hstart : t.operandStart = t.start := by
      rw [Token.operandStart, hw]
      split <;> simp_all
    obtain ⟨u, hu, hfrom, hkind⟩ := exists_operands_word mode hword h hstop
    exact ⟨u, hu, Token.gives_word hw (hfrom.trans hstart.symm) hkind⟩

section Token

variable {t : Token} {ts : List Token} {u : Term} {us : List Term}

theorem gives_one (hoperand : t.isOperand = true) (hgives : t.Gives u)
    (hts : List.Forall₂ Token.Gives ts us) :
    List.Forall₂ Token.Gives ([t].filter Token.isOperand ++ ts) (u :: us) := by
  rw [List.filter_cons_of_pos hoperand]
  exact .cons hgives hts

theorem gives_none (hother : t.isOperand = false) (hts : List.Forall₂ Token.Gives ts us) :
    List.Forall₂ Token.Gives ([t].filter Token.isOperand ++ ts) us := by
  rwa [List.filter_cons_of_neg (by simp [hother])]

end Token

/-- A token in front that is an operand gives one term more, and any other token none. -/
theorem gives_token {t : Token} {ts : List Token} {lo : Nat} (hwhole : t.WholeWord text)
    (ht : t.In text lo mid) (h : rest.In mode text mid hi)
    (hts : List.Forall₂ Token.Gives ts (rest.operands text)) :
    List.Forall₂ Token.Gives ([t].filter Token.isOperand ++ ts)
      ((rest.token mode t).operands text) := by
  cases hlexeme : t.lexeme with
  | opening =>
    rw [token, hlexeme]
    exact gives_none (by rw [Token.isOperand, hlexeme]) hts
  | closing =>
    rw [token, hlexeme]
    exact gives_none (by rw [Token.isOperand, hlexeme]) hts
  | quoted w closed =>
    rw [token, hlexeme]
    refine gives_one (by rw [Token.isOperand, hlexeme]) ⟨?_, ?_⟩ hts
    · rw [Token.operandStart, hlexeme]
      rfl
    · rw [hlexeme]
      exact ⟨_, rfl⟩
  | uri uri =>
    rw [token, hlexeme]
    refine gives_one (by rw [Token.isOperand, hlexeme]) ⟨?_, ?_⟩ hts
    · rw [Token.operandStart, hlexeme]
      rfl
    · rw [hlexeme]
      exact ⟨_, rfl⟩
  | word w =>
    -- of the operators only a `NOT` changes what is behind it
    cases hkeyword : Keyword.ofText? w with
    | none =>
      obtain ⟨u, hu, hgives⟩ := exists_operands_token mode hlexeme hkeyword hwhole ht h
      rw [hu]
      exact gives_one (by simp [Token.isOperand, hlexeme, hkeyword]) hgives hts
    | some keyword =>
      have hother : t.isOperand = false := by simp [Token.isOperand, hlexeme, hkeyword]
      simp only [token, hlexeme, hkeyword]
      cases keyword with
      | and => exact gives_none hother hts
      | or => exact gives_none hother hts
      | not =>
        rw [operands_negate]
        exact gives_none hother hts

end Clauses

def Reading.operands (text : Text) (r : Reading) : List Term :=
  r.term.toList.flatMap (Term.operands text)

namespace Reading

variable {mode : Mode} {text : Text}

theorem operands_conjuncts (found : Bool) (fs : List Factor) :
    (conjuncts found fs).1.flatMap (Term.operands text) = fs.flatMap (Factor.operands text) := by
  induction fs generalizing found with
  | nil => rfl
  | cons f fs ih =>
    cases f with
    | also t => exact ih found
    | operand o =>
      rw [List.flatMap_cons, ← ih (found || o.term.isSome)]
      exact List.flatMap_append

theorem operands_conjunction (text : Text) (fs : List Factor) :
    (conjunction fs).operands text = fs.flatMap (Factor.operands text) := by
  rw [← operands_conjuncts false]
  exact Term.operands_join (.inl rfl) _

theorem operands_disjuncts (found : Bool) (clauses : List (Token × List Factor)) :
    (disjuncts found clauses).1.flatMap (Term.operands text) =
      (clauses.flatMap (·.2)).flatMap (Factor.operands text) := by
  induction clauses generalizing found with
  | nil => rfl
  | cons clause clauses ih =>
    obtain ⟨t, fs⟩ := clause
    have hclause := operands_conjunction text fs
    rw [List.flatMap_cons, List.flatMap_append, ← hclause,
      ← ih (found || (conjunction fs).term.isSome)]
    exact List.flatMap_append

theorem operands_disjunction (c : Clauses) : (disjunction c).operands text = c.operands text := by
  have hjoin : (disjunction c).operands text = _ := Term.operands_join (.inr rfl) _
  have hhead := operands_conjunction text c.head
  rw [hjoin, List.flatMap_append, operands_disjuncts, Clauses.operands, Clauses.factors,
    List.flatMap_append, ← hhead]
  rfl

end Reading

namespace Piece

mutual
def operands : Piece → List Token
  | token t => [t].filter Token.isOperand
  | group _ body _ => operandsOf body

def operandsOf : List Piece → List Token
  | [] => []
  | p :: ps => p.operands ++ operandsOf ps
end

def operandsIn (s : Sections Piece) : List Token :=
  operandsOf s.head ++ s.tail.flatMap fun (_, ps) => operandsOf ps

theorem operandsIn_place (t : Token) (s : Sections Piece) :
    operandsIn (place t s) = [t].filter Token.isOperand ++ operandsIn s := by
  unfold place
  split
  · rename_i hopening
    unfold openGroup
    split
    · rename_i hnone
      simp [operandsIn, operandsOf, operands, hnone, Token.isOperand, hopening]
    · rename_i closing after more hcut
      simp [operandsIn, operandsOf, operands, hcut, Token.isOperand, hopening]
  · rename_i hclosing
    simp [operandsIn, operandsOf, Sections.cut, Token.isOperand, hclosing]
  · simp [operandsIn, operandsOf, operands, Sections.cons]

/-- Matching parentheses loses no operand. -/
theorem operandsIn_ofTokens (ts : List Token) :
    operandsIn (ofTokens ts) = ts.filter Token.isOperand := by
  induction ts with
  | nil => rfl
  | cons t ts ih =>
    rw [ofTokens_cons, operandsIn_place, ih, ← List.filter_append]
    rfl

end Piece

namespace Reading

variable {mode : Mode} {text : Text}

mutual
theorem gives_piece : (p : Piece) → {rest : Clauses} → {ts : List Token} → {lo mid hi : Nat} →
    hi ≤ text.length → rest.In mode text mid hi → Consecutive (Token.In text) lo mid p.tokens →
    (∀ t ∈ p.tokens, t.WholeWord text) → List.Forall₂ Token.Gives ts (rest.operands text) →
      List.Forall₂ Token.Gives (p.operands ++ ts) ((piece mode rest p).operands text)
  | .token t, _, _, _, _, _, _, hrest, h, hwhole, hts => by
    obtain ⟨m, ht, hm⟩ := h
    rw [Piece.operands]
    exact Clauses.gives_token (hwhole t (List.mem_singleton_self t)) ht
      (Clauses.extends_in mode text hm hrest) hts
  | .group opening body closing, _, _, _, _, _, hhi, hrest, h, hwhole, hts => by
    obtain ⟨m, -, hm⟩ := h
    obtain ⟨stop, hbody, hclosing⟩ := hm.exists_of_append
    have hstop : stop ≤ text.length :=
      Nat.le_trans (hclosing.le Token.In.le) (Nat.le_trans hrest.le hhi)
    have hinside := gives_clauses body hstop hbody fun t ht =>
      hwhole t (List.mem_cons_of_mem _ (List.mem_append_left _ ht))
    rw [Piece.operands, piece, Clauses.operands_operand]
    apply List.rel_append _ hts
    rw [← operands_disjunction] at hinside
    exact hinside

/-- Whatever stands between the operands, each of them gives a term. -/
theorem gives_clauses : (ps : List Piece) → {lo hi : Nat} → hi ≤ text.length →
    Consecutive (Token.In text) lo hi (Piece.tokensOf ps) →
    (∀ t ∈ Piece.tokensOf ps, t.WholeWord text) →
      List.Forall₂ Token.Gives (Piece.operandsOf ps) ((clauses mode ps).operands text)
  | [], _, _, _, _, _ => .nil
  | p :: ps, _, _, hhi, h, hwhole => by
    obtain ⟨m, hp, hps⟩ := h.exists_of_append
    have hmore := gives_clauses ps hhi hps fun t ht => hwhole t (List.mem_append_right _ ht)
    rw [Piece.operandsOf, clauses]
    exact gives_piece p hhi (in_clauses ps hhi hps) hp
      (fun t ht => hwhole t (List.mem_append_left _ ht)) hmore
end

theorem gives_ofPieces (mode : Mode) {ps : List Piece} {lo hi : Nat} (hhi : hi ≤ text.length)
    (h : Consecutive (Token.In text) lo hi (Piece.tokensOf ps))
    (hwhole : ∀ t ∈ Piece.tokensOf ps, t.WholeWord text) :
    List.Forall₂ Token.Gives (Piece.operandsOf ps) ((ofPieces mode ps).operands text) := by
  rw [ofPieces, operands_disjunction]
  exact gives_clauses ps hhi h hwhole

theorem gives_strays (mode : Mode) {sections : List (Token × List Piece)} {lo hi : Nat}
    (hhi : hi ≤ text.length)
    (h : Consecutive (Token.In text) lo hi
      (sections.flatMap fun (t, ps) => t :: Piece.tokensOf ps))
    (hwhole : ∀ t ∈ sections.flatMap fun (t, ps) => t :: Piece.tokensOf ps, t.WholeWord text) :
    List.Forall₂ Token.Gives (sections.flatMap fun (_, ps) => Piece.operandsOf ps)
      ((strays mode sections).1.flatMap (Term.operands text)) := by
  induction sections generalizing lo with
  | nil => exact .nil
  | cons behind sections ih =>
    obtain ⟨t, ps⟩ := behind
    obtain ⟨mid, ⟨start, -, hps⟩, hmore⟩ := h.exists_of_append
    have hmid := Nat.le_trans (hmore.le Token.In.le) hhi
    have hfirst := gives_ofPieces mode hmid hps fun u hu =>
      hwhole u (List.mem_append_left _ (List.mem_cons_of_mem t hu))
    have hrest := ih hmore fun u hu => hwhole u (List.mem_append_right _ hu)
    have hterms : (strays mode ((t, ps) :: sections)).1.flatMap (Term.operands text) =
        (ofPieces mode ps).operands text ++
          (strays mode sections).1.flatMap (Term.operands text) := List.flatMap_append
    rw [hterms]
    exact List.rel_append hfirst hrest

end Reading

namespace Query

def operands (text : Text) (q : Query) : List Term := q.term.toList.flatMap (Term.operands text)

theorem gives_ofText (mode : Mode) (text : Text) :
    List.Forall₂ Token.Gives ((Token.ofText text).filter Token.isOperand)
      ((ofText mode text).operands text) := by
  have htokens := Token.consecutive_ofText text
  have hwhole : ∀ t ∈ Token.ofText text, t.WholeWord text := fun t ht =>
    Token.wholeWord_of_mem_scan List.drop_zero ht
  rw [← Piece.operandsIn_ofTokens]
  rw [← Piece.tokensIn_ofTokens (Token.ofText text)] at htokens hwhole
  obtain ⟨mid, hhead, htail⟩ := htokens.exists_of_append
  have hfirst := Reading.gives_ofPieces mode (htail.le Token.In.le) hhead fun t ht =>
    hwhole t (List.mem_append_left _ ht)
  have hstrays := Reading.gives_strays mode (Nat.le_refl _) htail fun t ht =>
    hwhole t (List.mem_append_right _ ht)
  have hjoin : (ofText mode text).operands text = _ := Term.operands_join (.inl rfl) _
  rw [hjoin, List.flatMap_append]
  exact List.rel_append hfirst hstrays

/-- However operators and parentheses are misplaced, the operands of a text are what its term names,
each once and in order. Only where there is none there is no term. -/
theorem ofText_keeps_operands (mode : Mode) (text : Text) :
    let operands := (Token.ofText text).filter Token.isOperand
    let term := (ofText mode text).term
    List.Forall₂ Token.Gives operands (term.toList.flatMap (Term.operands text)) ∧
      (∀ t, term = some t → (t.operands text).Sublist t.preorder) ∧
      (term = none ↔ operands = []) := by
  intro operands term
  have hgives : List.Forall₂ Token.Gives operands (term.toList.flatMap (Term.operands text)) :=
    gives_ofText mode text
  refine ⟨hgives, fun t _ => t.operands_sublist, fun hnone => ?_, fun hnone => ?_⟩
  · rw [hnone] at hgives
    exact List.forall₂_nil_right_iff.1 hgives
  · rw [hnone, List.forall₂_nil_left_iff] at hgives
    by_contra hsome
    obtain ⟨t, ht⟩ := Option.ne_none_iff_exists'.1 hsome
    have hnames := (in_ofText ht).faithful.operands_ne_nil
    rw [ht, Option.toList_some, List.flatMap_singleton] at hgives
    exact hnames hgives

end Query
end QueryLine
