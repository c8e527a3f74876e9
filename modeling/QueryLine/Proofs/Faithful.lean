import QueryLine.Proofs.Spans

/-!
What is read from a text is faithful to it. Tokens one behind the other are read as factors, these
as terms, and each of them stays between the same positions.
-/

namespace QueryLine

namespace Operand

variable {mode : Mode} {text : Text} {lo mid hi : Nat} {o : Operand} {t : Token}

theorem in_negate (hlt : t.start < mid) (ho : o.In mode text mid hi) :
    (o.negate t).In mode text t.start hi := by
  obtain ⟨hlo, hstop, hterm⟩ := ho
  unfold negate
  cases hsome : o.term with
  | none => exact ⟨Nat.lt_trans hlt hlo, hstop, by simp⟩
  | some x =>
    obtain ⟨hfaithful, hfrom, hx, hto, -⟩ := hterm x hsome
    refine ⟨Nat.lt_trans hlt hlo, hstop, ?_⟩
    rintro u ⟨⟩
    have hin : (Term.negation (.between t.start x.stop) x).In mode text t.start x.stop :=
      .of_bounds (Term.faithful_negation hfaithful (by omega)) rfl
        (Span.stop_between (by omega)) (by omega)
    exact hin.to_le hto

theorem in_of_token (ht : t.In text lo hi) {x : Term} (hx : x.In mode text t.start t.stop)
    (valueAt : Option Nat) : (⟨some x, [], t.stop, valueAt⟩ : Operand).In mode text lo hi := by
  have hlt : t.start < t.stop := Nat.lt_add_of_pos_right ht.length_pos
  exact extends_in mode text ht.lo_le { in_of_term hx hlt with stop_le := ht.le_hi }

end Operand

namespace Factor

/-- An operand between two positions; an `AND` takes any room. -/
def In (mode : Mode) (text : Text) (lo : Nat) (f : Factor) (hi : Nat) : Prop :=
  match f with
  | .also _ => lo ≤ hi
  | .operand o => o.In mode text lo hi

theorem extends_in (mode : Mode) (text : Text) : Extends (In mode text) := by
  intro lo lo' hi f hle h
  cases f with
  | also t => exact Nat.le_trans hle h
  | operand o => exact Operand.extends_in mode text hle h

theorem In.le {mode : Mode} {text : Text} ⦃lo hi : Nat⦄ ⦃f : Factor⦄ (h : f.In mode text lo hi) :
    lo ≤ hi := by
  cases f with
  | also t => exact h
  | operand o => exact Nat.le_of_lt (Nat.lt_of_lt_of_le h.lo_lt h.stop_le)

end Factor

namespace Clauses

def factors (c : Clauses) : List Factor := c.head ++ c.tail.flatMap (·.2)

/-- The factors stand between two positions, one behind the other. -/
def In (mode : Mode) (text : Text) (lo : Nat) (c : Clauses) (hi : Nat) : Prop :=
  Consecutive (Factor.In mode text) lo hi c.factors

variable {mode : Mode} {text : Text} {lo mid hi : Nat} {rest : Clauses} {t : Token}

theorem extends_in (mode : Mode) (text : Text) : Extends (In mode text) :=
  fun _ _ _ _ hle h => Consecutive.from_le (Factor.extends_in mode text) hle h

theorem In.le (h : rest.In mode text lo hi) : lo ≤ hi := Consecutive.le Factor.In.le h

theorem In.operand {o : Operand} (ho : o.In mode text lo mid) (h : rest.In mode text mid hi) :
    (rest.operand o).In mode text lo hi := ⟨mid, ho, h⟩

theorem In.negate (ht : t.In text lo mid) (h : rest.In mode text mid hi) :
    (rest.negate t).In mode text lo hi := by
  have hlt : t.start < t.stop := Nat.lt_add_of_pos_right ht.length_pos
  have hstop := ht.le_hi
  apply extends_in mode text ht.lo_le
  unfold Clauses.negate
  split
  · rename_i o more hhead
    rw [In, factors, hhead] at h
    obtain ⟨m, ho, hmore⟩ := h
    exact ⟨m, Operand.in_negate (by omega) ho, hmore⟩
  · exact .operand ⟨hlt, hstop, by simp [Operand.negate]⟩ h

/-- A word puts one operand in front, which takes its value from behind if it has none. -/
theorem In.exists_word {start : Nat} {w : Text} (hne : w ≠ []) (hw : w <+: text.drop start)
    (hmid : start + w.length ≤ mid) (h : rest.In mode text mid hi) (hhi : hi ≤ text.length) :
    ∃ (o : Operand) (more : Clauses) (m : Nat), rest.word mode start w = more.operand o ∧
      o.In mode text start m ∧ more.In mode text m hi := by
  unfold Clauses.word
  split
  · exact ⟨_, rest, start + w.length, rfl, Operand.in_ofPlainWord hne hw,
      extends_in mode text hmid h⟩
  · rename_i r hr
    have halone : (Operand.ofRestriction start w r none).In mode text start (start + w.length) :=
      Operand.in_ofRestriction hr hw hne
    split
    · rename_i hempty
      split
      · rename_i o hvalue
        unfold value? at hvalue
        split at hvalue
        · rename_i front more hhead
          split at hvalue
          · -- the operand in front becomes the value: the two now end where that one did
            obtain rfl := Option.some.inj hvalue
            rw [In, factors, hhead] at h
            obtain ⟨m, ho, hmore⟩ := h
            have hm : m ≤ hi := Consecutive.le Factor.In.le hmore
            refine ⟨_, ⟨more, rest.tail⟩, m, by rw [hhead]; rfl, ?_, hmore⟩
            exact Operand.in_ofRestriction_some hr hw hne (by simpa using hempty) ho hmid (by omega)
          · cases hvalue
        · cases hvalue
      · exact ⟨_, rest, start + w.length, rfl, halone, extends_in mode text hmid h⟩
    · exact ⟨_, rest, start + w.length, rfl, halone, extends_in mode text hmid h⟩

theorem in_quoted {w : Text} {closed : Bool} (ht : t.In text lo hi)
    (hw : t.lexeme = .quoted w closed) :
    (Term.literal ⟨t.start + 1, w.length⟩ w).In mode text t.start t.stop := by
  have hstop := ht.stop_le
  have hlength : t.stop = t.start + (1 + w.length + if closed then 1 else 0) := by
    rw [Token.stop, Token.length, hw]
    cases closed with
    | true => simp [Lexeme.spelling]; omega
    | false => simp [Lexeme.spelling]; omega
  have hopen : closed = true ∨ text.length ≤ t.stop := by
    cases closed with
    | true => exact .inl rfl
    | false => exact .inr (Nat.le_of_eq (ht.open_stop w hw).symm)
  have hfront : w <+: text.drop (t.start + 1) := by
    obtain ⟨rest, hrest⟩ := ht.spelled
    rw [← List.drop_drop, ← hrest, hw]
    cases closed with
    | true => exact ⟨'"' :: rest, by simp [Lexeme.spelling]⟩
    | false => exact ⟨rest, by simp [Lexeme.spelling]⟩
  refine ⟨Term.faithful_literal hfront (by omega), Nat.le_succ _, ?_, ?_, ?_⟩
  · change t.start < t.start + 1 + w.length
    omega
  · change t.start + 1 + w.length ≤ t.stop
    omega
  · change t.start + 1 < t.stop ∨ text.length ≤ t.stop
    rcases hopen with rfl | hend
    · exact .inl (by simp at hlength; omega)
    · exact .inr hend

theorem in_uri {uri : Text} (ht : t.In text lo hi) (huri : t.lexeme = .uri uri) :
    (Term.resource ⟨t.start, t.length⟩ uri).In mode text t.start t.stop := by
  have hcut : (⟨t.start, t.length⟩ : Span).cut text = '<' :: uri ++ ['>'] := by
    have hspelled := Span.cut_of_prefix ht.spelled
    rw [huri] at hspelled
    rwa [Token.length, huri]
  exact .of_bounds (Term.faithful_of_quotes rfl ht.stop_le hcut) rfl rfl
    (Nat.lt_add_of_pos_right ht.length_pos)

theorem In.negated_word {sign : Char} {w : Text} (ht : t.In text lo mid)
    (hw : t.lexeme = .word (sign :: w)) (hne : w ≠ []) (h : rest.In mode text mid hi)
    (hhi : hi ≤ text.length) : ((rest.word mode (t.start + 1) w).negate t).In mode text lo hi := by
  have hfront : w <+: text.drop (t.start + 1) := by
    obtain ⟨more, hmore⟩ := ht.spelled
    rw [← List.drop_drop, ← hmore, hw]
    exact List.prefix_append _ _
  have hstop : t.start + 1 + w.length ≤ mid := by
    have hle := ht.le_hi
    rw [Token.stop, Token.length, hw, Lexeme.spelling, List.length_cons] at hle
    omega
  obtain ⟨o, more, m, hword, ho, hmore⟩ := h.exists_word hne hfront hstop hhi
  rw [hword]
  exact extends_in mode text ht.lo_le (.operand (Operand.in_negate (Nat.lt_succ_self _) ho) hmore)

theorem In.token (ht : t.In text lo mid) (h : rest.In mode text mid hi) (hhi : hi ≤ text.length) :
    (rest.token mode t).In mode text lo hi := by
  have hlo : lo ≤ mid := Nat.le_trans ht.lo_le (Nat.le_trans (Nat.le_add_right _ _) ht.le_hi)
  unfold Clauses.token
  split
  · rename_i w hw
    split
    · exact ⟨mid, hlo, h⟩
    · exact extends_in mode text hlo h
    · exact .negate ht h
    · -- a sign alone is an operator, so there is a word behind it
      rename_i hkeyword
      split
      · rename_i more
        refine .negated_word ht hw ?_ h hhi
        rintro rfl
        cases hkeyword
      · rename_i more
        refine .negated_word ht hw ?_ h hhi
        rintro rfl
        cases hkeyword
      · have hspelled := ht.spelled
        have hpos := ht.length_pos
        have hstop := ht.le_hi
        rw [hw, Lexeme.spelling] at hspelled
        rw [Token.length, hw, Lexeme.spelling] at hpos
        rw [Token.stop, Token.length, hw, Lexeme.spelling] at hstop
        obtain ⟨o, more, m, hword, ho, hmore⟩ :=
          h.exists_word (List.length_pos_iff.1 hpos) hspelled hstop hhi
        rw [hword]
        exact extends_in mode text ht.lo_le (.operand ho hmore)
  · rename_i w closed hw
    exact .operand (Operand.in_of_token ht (in_quoted ht hw) _) h
  · rename_i uri huri
    exact .operand (Operand.in_of_token ht (in_uri ht huri) _) h
  · exact extends_in mode text hlo h
  · exact extends_in mode text hlo h

end Clauses

namespace Term

variable {mode : Mode} {text : Text} {lo mid hi : Nat} {ts : List Term} {t u : Term}

theorem In.le ⦃lo hi : Nat⦄ ⦃t : Term⦄ (h : t.In mode text lo hi) : lo ≤ hi :=
  Nat.le_of_lt (Nat.lt_of_lt_of_le h.lo_lt h.stop_le)

theorem in_of_mem (h : Consecutive (In mode text) lo hi ts) (ht : t ∈ ts) :
    t.In mode text lo hi := by
  induction ts generalizing lo with
  | nil => cases ht
  | cons u ts ih =>
    obtain ⟨mid, hu, hts⟩ := h
    rcases List.mem_cons.1 ht with rfl | ht
    · exact hu.to_le (hts.le In.le)
    · exact extends_in mode text (In.le hu) (ih hts ht)

theorem ordered_of_consecutive (h : Consecutive (In mode text) lo hi ts) :
    ts.Pairwise fun t u =>
      t.span.start < u.span.start ∧ t.stop ≤ u.span.start ∧ t.stop < u.stop := by
  induction ts generalizing lo with
  | nil => exact .nil
  | cons t ts ih =>
    obtain ⟨mid, ht, hts⟩ := h
    exact .cons (fun u hu => ht.before (in_of_mem hts hu)) (ih hts)

theorem foldl_stop (h : Consecutive (In mode text) lo hi (t :: ts)) :
    (ts.map stop).foldl max t.stop = (ts.getLast?.getD t).stop := by
  induction ts generalizing lo t with
  | nil => rfl
  | cons u ts ih =>
    obtain ⟨mid, ht, hts⟩ := h
    obtain ⟨mid', hu, -⟩ := id hts
    have hmax : max t.stop u.stop = u.stop := Nat.max_eq_right (Nat.le_of_lt (ht.before hu).2.2)
    rw [List.map_cons, List.foldl_cons, hmax, ih hts, List.getLast?_cons, Option.getD_some]

theorem stop_le_last (h : Consecutive (In mode text) lo hi ts) (hlast : ts.getLast? = some u)
    (ht : t ∈ ts) : t.stop ≤ u.stop := by
  obtain ⟨front, rfl⟩ := List.getLast?_eq_some_iff.1 hlast
  obtain ⟨-, -, hbefore⟩ := List.pairwise_append.1 (ordered_of_consecutive h)
  rcases List.mem_append.1 ht with ht | ht
  · exact Nat.le_of_lt (hbefore t ht u (List.mem_singleton_self u)).2.2
  · exact Nat.le_of_eq (congrArg stop (List.mem_singleton.1 ht))

theorem head_start_le (h : Consecutive (In mode text) lo hi ts) (hfirst : ts.head? = some t)
    (hu : u ∈ ts) : t.span.start ≤ u.span.start := by
  obtain ⟨rest, rfl⟩ := List.head?_eq_some_iff.1 hfirst
  rcases List.mem_cons.1 hu with rfl | hu
  · exact Nat.le_refl _
  · exact Nat.le_of_lt ((List.pairwise_cons.1 (ordered_of_consecutive h)).1 u hu).1

section Junction

variable {make : Span → List Term → Term}

/-- Several terms one behind the other fill the span over them. -/
theorem faithful_junction (hmake : make = conjunction ∨ make = disjunction)
    (hseveral : 2 ≤ ts.length) (h : Consecutive (In mode text) lo hi ts)
    (hfirst : ts.head? = some t) (hlast : ts.getLast? = some u)
    (hends : (Span.between t.span.start u.stop).stop = u.stop) :
    (make (.between t.span.start u.stop) ts).Faithful mode text := by
  have hmem := fun v (hv : v ∈ ts) => in_of_mem h hv
  have hfill : Fill ts (.between t.span.start u.stop) := by
    refine ⟨hseveral, ordered_of_consecutive h, by rw [hfirst]; rfl, ?_⟩
    rw [hlast, hends]
    rfl
  have hwithin : ∀ v ∈ ts, v.span.Within (.between t.span.start u.stop) := by
    intro v hv
    refine ⟨head_start_le h hfirst hv, ?_⟩
    rw [hends]
    exact stop_le_last h hlast hv
  have hlength : (Span.between t.span.start u.stop).stop ≤ text.length := by
    rw [hends]
    exact (hmem u (List.mem_of_getLast? hlast)).faithful.fits.stop_le
  rcases hmake with rfl | rfl
  · exact .of_parts ⟨hlength, hwithin, hfill⟩ fun v hv => (hmem v hv).faithful
  · exact .of_parts ⟨hlength, hwithin, hfill⟩ fun v hv => (hmem v hv).faithful

theorem in_join (hmake : make = conjunction ∨ make = disjunction)
    (h : Consecutive (In mode text) lo hi ts) (ht : join make ts = some t) :
    t.In mode text lo hi := by
  match ts with
  | [] => cases ht
  | [u] =>
    obtain ⟨mid, hu, hle⟩ := h
    cases ht
    exact hu.to_le hle
  | u :: v :: rest =>
    cases ht
    let last := (v :: rest).getLast?.getD u
    have hlast : (u :: v :: rest).getLast? = some last := List.getLast?_cons
    have hmem := List.mem_of_getLast? hlast
    have hfirst := in_of_mem h List.mem_cons_self
    have hin := in_of_mem h hmem
    have hends : (Span.between u.span.start last.stop).stop = last.stop :=
      Span.stop_between (Nat.le_trans (head_start_le h rfl hmem) (Nat.le_add_right _ _))
    have hspan : ∀ s members, (make s members).span = s := by
      rcases hmake with rfl | rfl
      · exact fun _ _ => rfl
      · exact fun _ _ => rfl
    -- the stop of a junction is a maximum, which is the stop of its last member
    rw [foldl_stop h]
    refine ⟨faithful_junction hmake (by simp) h rfl hlast hends, ?_, ?_, ?_, ?_⟩
    · rw [hspan]
      exact hfirst.lo_le
    · rw [stop, hspan, hends]
      exact hin.lo_lt
    · rw [stop, hspan, hends]
      exact hin.stop_le
    · rw [hspan]
      exact hfirst.start_lt

end Junction

theorem consecutive_toList {o : Option Term} (hle : lo ≤ hi)
    (h : ∀ t, o = some t → t.In mode text lo hi) : Consecutive (In mode text) lo hi o.toList := by
  cases o with
  | none => exact hle
  | some t => exact ⟨hi, h t rfl, Nat.le_refl hi⟩

end Term

namespace Reading

open Term (consecutive_toList in_join)

variable {mode : Mode} {text : Text} {lo mid hi : Nat}

theorem consecutive_conjuncts {fs : List Factor} (found : Bool)
    (h : Consecutive (Factor.In mode text) lo hi fs) :
    Consecutive (Term.In mode text) lo hi (conjuncts found fs).1 := by
  induction fs generalizing lo found with
  | nil => exact h
  | cons f fs ih =>
    obtain ⟨mid, hf, hfs⟩ := h
    cases f with
    | also t => exact (ih found hfs).from_le (Term.extends_in mode text) hf
    | operand o =>
      have hterm : Consecutive (Term.In mode text) lo mid o.term.toList :=
        consecutive_toList (Factor.In.le hf) fun t ht => (hf.term_in t ht).to_le hf.stop_le
      exact hterm.append (Term.extends_in mode text) (ih _ hfs)

theorem in_conjunction {fs : List Factor} {t : Term}
    (h : Consecutive (Factor.In mode text) lo hi fs) (ht : (conjunction fs).term = some t) :
    t.In mode text lo hi := in_join (.inl rfl) (consecutive_conjuncts false h) ht

theorem consecutive_disjuncts {clauses : List (Token × List Factor)} (found : Bool)
    (h : Consecutive (Factor.In mode text) lo hi (clauses.flatMap (·.2))) :
    Consecutive (Term.In mode text) lo hi (disjuncts found clauses).1 := by
  induction clauses generalizing lo found with
  | nil => exact h
  | cons clause clauses ih =>
    obtain ⟨t, fs⟩ := clause
    obtain ⟨mid, hfs, hmore⟩ := h.exists_of_append
    have hterm := consecutive_toList (hfs.le Factor.In.le) fun t => in_conjunction hfs
    exact hterm.append (Term.extends_in mode text) (ih _ hmore)

theorem in_disjunction {clauses : Clauses} {t : Term} (h : clauses.In mode text lo hi)
    (ht : (disjunction clauses).term = some t) : t.In mode text lo hi := by
  obtain ⟨mid, hhead, htail⟩ := h.exists_of_append
  have hfirst := consecutive_toList (hhead.le Factor.In.le) fun t => in_conjunction hhead
  exact in_join (.inr rfl)
    (hfirst.append (Term.extends_in mode text) (consecutive_disjuncts _ htail)) ht

/-- A group reaches from its parenthesis to its last token, and its term stays inside. -/
theorem in_group {opening : Token} {body : List Piece} {closing : Option Token} {inside : Reading}
    (hopening : opening.In text lo mid)
    (h : Consecutive (Token.In text) mid hi (Piece.tokensOf body ++ closing.toList))
    (hinside : ∀ stop, stop ≤ hi →
      Consecutive (Token.In text) opening.stop stop (Piece.tokensOf body) →
      ∀ t, inside.term = some t → t.In mode text opening.stop stop) :
    (group opening body closing inside).In mode text lo hi := by
  have hlo : lo < opening.stop :=
    Nat.lt_of_le_of_lt hopening.lo_le (Nat.lt_add_of_pos_right hopening.length_pos)
  -- an operand stops with its last token, so the tokens are held no further than that
  obtain ⟨htokens, hle⟩ :=
    Token.consecutive_last (h.from_le (Token.extends_in text) hopening.le_hi)
  obtain ⟨stop, hbody, hclosing⟩ := htokens.exists_of_append
  have hstop := hclosing.le Token.In.le
  refine ⟨Nat.lt_of_lt_of_le hlo (htokens.le Token.In.le), hle, fun t ht => ?_⟩
  have hin := hinside stop (Nat.le_trans hstop hle) hbody t ht
  exact (Term.extends_in mode text (Nat.le_of_lt hlo) hin).to_le hstop

mutual
theorem in_piece : (p : Piece) → {rest : Clauses} → {lo mid hi : Nat} → hi ≤ text.length →
    rest.In mode text mid hi → Consecutive (Token.In text) lo mid p.tokens →
      (piece mode rest p).In mode text lo hi
  | .token t, _, _, _, _, hhi, hrest, h => by
    obtain ⟨m, ht, hm⟩ := h
    exact .token ht (Clauses.extends_in mode text hm hrest) hhi
  | .group opening body closing, _, _, _, _, hhi, hrest, h => by
    obtain ⟨m, ht, hm⟩ := h
    refine .operand (in_group ht hm ?_) hrest
    intro stop hle hbody t hterm
    have hstop : stop ≤ text.length := Nat.le_trans hle (Nat.le_trans hrest.le hhi)
    exact in_disjunction (in_clauses body hstop hbody) hterm

/-- Factors stand where the tokens do that they are read from. -/
theorem in_clauses : (ps : List Piece) → {lo hi : Nat} → hi ≤ text.length →
    Consecutive (Token.In text) lo hi (Piece.tokensOf ps) → (clauses mode ps).In mode text lo hi
  | [], _, _, _, h => h
  | p :: ps, _, _, hhi, h => by
    obtain ⟨m, hp, hps⟩ := h.exists_of_append
    exact in_piece p hhi (in_clauses ps hhi hps) hp
end

theorem in_ofPieces {ps : List Piece} {t : Term} (hhi : hi ≤ text.length)
    (h : Consecutive (Token.In text) lo hi (Piece.tokensOf ps))
    (ht : (ofPieces mode ps).term = some t) : t.In mode text lo hi :=
  in_disjunction (in_clauses ps hhi h) ht

theorem consecutive_strays {sections : List (Token × List Piece)} (hhi : hi ≤ text.length)
    (h : Consecutive (Token.In text) lo hi
      (sections.flatMap fun (t, ps) => t :: Piece.tokensOf ps)) :
    Consecutive (Term.In mode text) lo hi (strays mode sections).1 := by
  induction sections generalizing lo with
  | nil => exact h
  | cons piece sections ih =>
    obtain ⟨t, ps⟩ := piece
    obtain ⟨mid, hpiece, hmore⟩ := h.exists_of_append
    obtain ⟨start, ht, hps⟩ := hpiece
    have hmid := Nat.le_trans (hmore.le Token.In.le) hhi
    have hterm : Consecutive (Term.In mode text) start mid (ofPieces mode ps).term.toList :=
      consecutive_toList (hps.le Token.In.le) fun u => in_ofPieces hmid hps
    exact (hterm.append (Term.extends_in mode text) (ih hmore)).from_le
      (Term.extends_in mode text) (Token.In.le ht)

end Reading

namespace Query

/-- The term of a query is faithful to its text, of whatever characters. -/
theorem in_ofText {mode : Mode} {text : Text} {t : Term}
    (ht : (ofText mode text).term = some t) : t.In mode text 0 text.length := by
  have htokens := Token.consecutive_ofText text
  rw [← Piece.tokensIn_ofTokens (Token.ofText text)] at htokens
  obtain ⟨mid, hhead, htail⟩ := htokens.exists_of_append
  have hmid := htail.le Token.In.le
  have hfirst : Consecutive (Term.In mode text) 0 mid (Reading.ofPieces mode _).term.toList :=
    Term.consecutive_toList (hhead.le Token.In.le) fun u => Reading.in_ofPieces hmid hhead
  exact Term.in_join (.inl rfl) (hfirst.append (Term.extends_in mode text)
    (Reading.consecutive_strays (Nat.le_refl text.length) htail)) ht

/-- Each term of a query fits its text, at any depth. -/
theorem ofText_fits {mode : Mode} {text : Text} {t u : Term}
    (ht : (ofText mode text).term = some t) (hu : t.Within u) : u.Fits mode text :=
  (in_ofText ht).faithful u hu

/-- The query `-a:(* OR "x`, in which neither the parenthesis nor the quote is closed. -/
theorem ofText_fits_unclosed :
    let text := ['-', 'a', ':', '(', '*', ' ', 'O', 'R', ' ', '"', 'x']
    let value := Term.literal ⟨10, 1⟩ ['x']
    ∃ t, ((ofText .filenames text).term = some t ∧ t.Within value) ∧
      value.Fits .filenames text := by
  intro text value
  let pattern := Term.comparison ⟨4, 1⟩ "filename".toList .contains (.literal ⟨4, 1⟩ ['*'])
  let either := Term.disjunction ⟨4, 7⟩ [pattern, value]
  let restricted := Term.comparison ⟨1, 10⟩ ['a'] .contains either
  let t := Term.negation ⟨0, 11⟩ restricted
  have ht : (ofText .filenames text).term = some t := rfl
  have hrestricted : t.Within restricted := .part .self (List.mem_singleton_self restricted)
  have heither : t.Within either := .part hrestricted (List.mem_singleton_self either)
  have hvalue : t.Within value :=
    .part heither (List.mem_cons_of_mem pattern (List.mem_singleton_self value))
  exact ⟨t, ⟨ht, hvalue⟩, ofText_fits ht hvalue⟩

end Query
end QueryLine
