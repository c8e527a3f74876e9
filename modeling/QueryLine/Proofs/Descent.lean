import QueryLine.Proofs.Reach

/-!
A query read from the left, one token after the other. Each rule of the grammar starts where the one
before it stopped; the rules call each other, and nothing in them says that they ever come to an
end. They do, whatever the tokens are: a rule that takes no token is only begun where the rule that
began it stops as well. What is read from a whole list of tokens takes each of them once, in order.
-/

namespace QueryLine

/-- A comparison that stops right in front of the token takes what starts with it as its value. -/
def Token.startsValue (t : Token) : Bool :=
  match t.lexeme with
  | .opening | .quoted .. => true
  | _ => false

/-- A token that need not be of any text: it may be of any length. -/
structure Slot extends Token where
  length : Nat
  deriving DecidableEq, Repr

namespace Slot

def stop (t : Slot) : Nat := t.start + t.length

/-- A token as it stands in a text. -/
def ofToken (t : Token) : Slot := ⟨t, t.length⟩

end Slot

/-- How far a descent has come. -/
structure Descent where
  /-- The number of the token that comes next. -/
  index : Nat
  /-- Where the last token that was taken stops. -/
  lastStop : Nat
  faults : List Fault
  /-- The numbers of the tokens that were taken, in the order they were. -/
  taken : List Nat
  deriving DecidableEq, Repr

namespace Descent

def start : Descent := ⟨0, 0, [], []⟩

def fault (f : Fault) (s : Descent) : Descent := { s with faults := s.faults ++ [f] }

/-- Tells that an operator has no operand, if it is `absent`. -/
def missing (t : Token) (absent : Bool) (s : Descent) : Descent :=
  if absent then s.fault (.noOperand t.start t.lexeme.spelling) else s

/-- A rule of the grammar: what it makes of the tokens from a place on, and where it stops. -/
abbrev Rule := StateT Descent Option

section Rules

variable (slots : List Slot) (mode : Mode)

def next? (s : Descent) : Option Slot := slots[s.index]?

def advance (s : Descent) : Descent :=
  match next? slots s with
  | none => s
  | some t => ⟨s.index + 1, t.stop, s.faults, s.taken ++ [s.index]⟩

/-- No operand can start here. -/
def atEnd (s : Descent) : Bool := (next? slots s).all fun t => t.lexeme = .closing || t.isBinary

/-- Takes the parenthesis that closes a group, or tells that there is none. -/
def close (t : Token) (s : Descent) : Descent :=
  if (next? slots s).any fun u => u.lexeme = .closing then advance slots s
  else s.fault (.unclosed t.start)

/-- What comes next may be a value, and stands right behind a word that stops at `stop`. -/
def glued (stop : Nat) (s : Descent) : Bool :=
  (next? slots s).any fun t => t.start = stop && t.startsValue

-- The rules are least fixed points: one that went on for ever would give `none`, and nothing else
-- in them does.

mutual
/-- Clauses with an `OR` between them. -/
def disjunction : Rule (Option Term) := fun s => do
  let (first, s) ← conjunction.run s
  let (terms, s) ← (disjuncts.run first.toList).run s
  return (Term.join .disjunction terms, s)
partial_fixpoint

/-- The clauses from the next `OR` on, behind `terms`. -/
def disjuncts : ReaderT (List Term) Rule (List Term) := fun terms s =>
  match next? slots s with
  | none => some (terms, s)
  | some t =>
    if t.isOr then do
      let (right, s) ← conjunction.run (advance slots s)
      (disjuncts.run (terms ++ right.toList)).run
        (s.missing t.toToken (terms.isEmpty || right.isNone))
    else some (terms, s)
partial_fixpoint

/-- Operands, with or without an `AND` between them. -/
def conjunction : Rule (Option Term) := fun s => do
  let (terms, s) ← (conjuncts.run []).run s
  return (Term.join .conjunction terms, s)
partial_fixpoint

def conjuncts : ReaderT (List Term) Rule (List Term) := fun terms s => do
  match ← (conjunct.run terms).run s with
  | (none, s) => return (terms, s)
  | (some terms, s) => (conjuncts.run terms).run s
partial_fixpoint

/-- One more operand or `AND` behind `terms`, if the clause goes on. -/
def conjunct : ReaderT (List Term) Rule (Option (List Term)) := fun terms s =>
  match next? slots s with
  | none => some (none, s)
  | some t =>
    if t.lexeme = .closing || t.isOr then some (none, s)
    else if t.keyword? = some .and then
      let s := advance slots s
      some (some terms, s.missing t.toToken (terms.isEmpty || atEnd slots s))
    else do
      let (term, s) ← unary.run s
      return (some (terms ++ term.toList), s)
partial_fixpoint

/-- An operand that may be negated. Where it stands in front of its operator, as it does in no text,
the length of the negation is cut off at zero and its span means nothing. -/
def unary : Rule (Option Term) := fun s =>
  match next? slots s with
  | none => some (none, s)
  | some t =>
    if t.keyword? = some .not then do
      let (operand, s) ← unary.run (advance slots s)
      return (operand.map fun x => .negation (.between t.start x.stop) x,
        s.missing t.toToken operand.isNone)
    else
      match t.lexeme with
      | .word ('-' :: w) | .word ('!' :: w) => do
        let (x, s) ← (word.run (t.start + 1, w)).run (advance slots s)
        return (some (.negation (.between t.start s.lastStop) x), s)
      | _ => primary.run s
partial_fixpoint

def primary : Rule (Option Term) := fun s =>
  match next? slots s with
  | none => some (none, s)
  | some t =>
    match t.lexeme with
    | .closing => some (none, s)
    | .opening => do
      let (inside, s) ← disjunction.run (advance slots s)
      return (inside, close slots t.toToken s)
    | .quoted text _ => some (some (.literal ⟨t.start + 1, text.length⟩ text), advance slots s)
    | .uri uri => some (some (.resource ⟨t.start, t.length⟩ uri), advance slots s)
    | .word w =>
      if t.isBinary then some (none, s)
      else do
        let (x, s) ← (word.run (t.start, w)).run (advance slots s)
        return (some x, s)
partial_fixpoint

/-- The term of a word that was just taken. -/
def word : ReaderT (Nat × Text) Rule Term := fun (start, w) s =>
  let span : Span := ⟨start, w.length⟩
  match Restriction.ofWord? w with
  | none =>
    let literal := Term.literal span w
    let isPattern := mode = .filenames && w.any fun c => c = '*' || c = '?'
    some (if isPattern then .comparison span "filename".toList .contains literal else literal, s)
  | some r =>
    if r.namesType then some (.resourceType span r.value, s)
    else do
      let literal := Term.literal ⟨span.stop - r.value.length, r.value.length⟩ r.value
      let (value, s) ← (value.run (r, span.stop)).run s
      return (.comparison (.between start (max s.lastStop span.stop)) r.property r.comparator
        (value.getD literal), s)
partial_fixpoint

/-- What is written right behind a word that stops at `stop` and lacks a value of its own. -/
def value : ReaderT (Restriction × Nat) Rule (Option Term) := fun (r, stop) s =>
  if r.value.isEmpty && glued slots stop s then primary.run s else some (none, s)
partial_fixpoint
end

/-- Disjunctions with a closing parenthesis between them that nothing opened, behind `terms`. -/
def sections : ReaderT (List Term) Rule (List Term) := fun terms s => do
  let (term, s) ← disjunction slots mode s
  match next? slots s with
  | none => return (terms ++ term.toList, s)
  | some t =>
    (sections.run (terms ++ term.toList)).run ((advance slots s).fault (.unopened t.start))
partial_fixpoint

def query : Option (Option Term × Descent) := do
  let (terms, s) ← sections slots mode [] start
  return (Term.join .conjunction terms, s)

end Rules

def after (s : Descent) (used : List Slot) (faults : List Fault) : Descent where
  index := s.index + used.length
  lastStop := (used.getLast?.map Slot.stop).getD s.lastStop
  faults := s.faults ++ faults
  taken := s.taken ++ List.range' s.index used.length

theorem after_nil (s : Descent) : s.after [] [] = s := by
  simp [after]

theorem after_after (s : Descent) (used more : List Slot) (fs gs : List Fault) :
    (s.after used fs).after more gs = s.after (used ++ more) (fs ++ gs) := by
  simp only [after, List.length_append, List.append_assoc, List.range'_append_1, Nat.add_assoc,
    List.getLast?_append, mk.injEq, true_and, and_true]
  cases more.getLast? with
  | none => rfl
  | some t => rfl

theorem after_fault (s : Descent) (used : List Slot) (fs : List Fault) (f : Fault) :
    (s.after used fs).fault f = s.after used (fs ++ [f]) := by
  simp [after, fault]

theorem next?_missing (slots : List Slot) (t : Token) (absent : Bool) (s : Descent) :
    next? slots (s.missing t absent) = next? slots s := by
  cases absent with
  | _ => rfl

section Ahead

variable {slots used rest : List Slot} {s s' : Descent} {t : Slot}

def ahead (slots : List Slot) (s : Descent) : List Slot := slots.drop s.index

theorem next?_eq (slots : List Slot) (s : Descent) : next? slots s = (ahead slots s).head? :=
  List.head?_drop.symm

theorem ahead_after (h : ahead slots s = used ++ rest) (fs : List Fault) :
    ahead slots (s.after used fs) = rest := by
  change slots.drop (s.index + used.length) = rest
  rw [← List.drop_drop]
  change (ahead slots s).drop used.length = rest
  rw [h, List.drop_left]

theorem exists_ahead (h : next? slots s = some t) : ∃ rest, ahead slots s = t :: rest := by
  rw [next?_eq] at h
  obtain ⟨rest, hrest⟩ := List.head?_eq_some_iff.1 h
  exact ⟨rest, hrest⟩

theorem advance_eq (h : next? slots s = some t) : advance slots s = s.after [t] [] := by
  simp [advance, h, after]

end Ahead

/-- `s'` comes after `s`, at least `least` tokens later. On the way no closing parenthesis was told
to be unopened. -/
def Onward (slots : List Slot) (least : Nat) (s s' : Descent) : Prop :=
  ∃ used rest faults, ahead slots s = used ++ rest ∧ s' = s.after used faults ∧
    least ≤ used.length ∧ ∀ p, .unopened p ∉ faults

namespace Onward

variable {slots : List Slot} {s s' s'' : Descent} {t : Slot} {m n : Nat}

theorem refl (s : Descent) : Onward slots 0 s s :=
  ⟨[], ahead slots s, [], rfl, s.after_nil.symm, Nat.le_refl 0, fun _ => List.not_mem_nil⟩

theorem trans (h : Onward slots m s s') (h' : Onward slots n s' s'') :
    Onward slots (m + n) s s'' := by
  obtain ⟨used, rest, fs, hahead, rfl, hm, hfs⟩ := h
  obtain ⟨more, rest', gs, hrest, rfl, hn, hgs⟩ := h'
  rw [ahead_after hahead] at hrest
  refine ⟨used ++ more, rest', fs ++ gs, ?_, s.after_after used more fs gs, ?_, fun p hp => ?_⟩
  · rw [hahead, hrest, List.append_assoc]
  · rw [List.length_append]
    omega
  · exact (List.mem_append.1 hp).elim (hfs p) (hgs p)

theorem mono (h : Onward slots m s s') (hle : n ≤ m) : Onward slots n s s' := by
  obtain ⟨used, rest, fs, hahead, hs', hm, hfs⟩ := h
  exact ⟨used, rest, fs, hahead, hs', Nat.le_trans hle hm, hfs⟩

theorem advance (h : next? slots s = some t) : Onward slots 1 s (s.advance slots) := by
  obtain ⟨rest, hrest⟩ := exists_ahead h
  exact ⟨[t], rest, [], hrest, advance_eq h, Nat.le_refl 1, fun _ => List.not_mem_nil⟩

theorem fault (h : Onward slots m s s') {f : Fault} (hf : ∀ p, f ≠ .unopened p) :
    Onward slots m s (s'.fault f) := by
  obtain ⟨used, rest, fs, hahead, rfl, hm, hfs⟩ := h
  refine ⟨used, rest, fs ++ [f], hahead, s.after_fault used fs f, hm, fun p hp => ?_⟩
  rcases List.mem_append.1 hp with hp | hp
  · exact hfs p hp
  · exact hf p (List.mem_singleton.1 hp).symm

theorem missing (h : Onward slots m s s') (t : Token) (absent : Bool) :
    Onward slots m s (s'.missing t absent) := by
  cases absent with
  | true => exact h.fault fun _ => nofun
  | false => exact h

theorem close (h : Onward slots m s s') (t : Token) : Onward slots m s (s'.close slots t) := by
  unfold Descent.close
  split
  · rename_i hclosed
    obtain ⟨u, hu, -⟩ := (Option.any_eq_true _ _).1 hclosed
    exact (h.trans (.advance hu)).mono (Nat.le_add_right m 1)
  · exact h.fault fun _ => nofun

theorem index_le (h : Onward slots m s s') : s.index + m ≤ s'.index := by
  obtain ⟨used, rest, fs, -, rfl, hm, -⟩ := h
  exact Nat.add_le_add_left hm s.index

theorem length_ahead (h : Onward slots m s s') :
    (ahead slots s').length + m ≤ (ahead slots s).length := by
  obtain ⟨used, rest, fs, hahead, rfl, hm, -⟩ := h
  rw [ahead_after hahead, hahead, List.length_append]
  omega

end Onward

/-- A rule begun at `s` comes to an end, at least `least` tokens later and where `P` holds. -/
def Ends {α : Type} (slots : List Slot) (least : Nat) (P : Descent → Prop) (s : Descent)
    (r : Option (α × Descent)) : Prop :=
  ∃ a s', r = some (a, s') ∧ Onward slots least s s' ∧ P s'

def Anywhere (_ : Descent) : Prop := True

/-- What comes next is an `OR`, or ends the level. -/
def EndsClause (slots : List Slot) (s : Descent) : Prop :=
  ∀ t, next? slots s = some t → t.lexeme = .closing ∨ t.isOr = true

/-- What comes next is a closing parenthesis, if anything does. -/
def EndsLevel (slots : List Slot) (s : Descent) : Prop :=
  ∀ t, next? slots s = some t → t.lexeme = .closing

namespace Ends

variable {α β : Type} {slots : List Slot} {m n : Nat} {P Q : Descent → Prop} {s s' : Descent}
  {r : Option (α × Descent)} {f : α × Descent → Option (β × Descent)}

theorem result (a : α) (h : Onward slots m s s') (hP : P s') :
    Ends slots m P s (some (a, s')) := ⟨a, s', rfl, h, hP⟩

theorem done (a : α) (h : Onward slots m s s') : Ends slots m Anywhere s (some (a, s')) :=
  .result a h trivial

theorem mono (h : Ends slots m P s r) (hle : n ≤ m) : Ends slots n P s r := by
  obtain ⟨a, s', hr, honward, hP⟩ := h
  exact ⟨a, s', hr, honward.mono hle, hP⟩

theorem bind (h : Ends slots m P s r)
    (hf : ∀ a s', Onward slots m s s' → P s' → Ends slots 0 Q s' (f (a, s'))) :
    Ends slots m Q s (r >>= f) := by
  obtain ⟨a, s', rfl, honward, hP⟩ := h
  obtain ⟨b, s'', hb, honward', hQ⟩ := hf a s' honward hP
  exact ⟨b, s'', hb, honward.trans honward', hQ⟩

theorem later (h : Onward slots m s s') (hr : Ends slots 0 P s' r) : Ends slots m P s r := by
  obtain ⟨a, s'', hr, honward, hP⟩ := hr
  exact ⟨a, s'', hr, h.trans honward, hP⟩

end Ends

/-- How many tokens an operand takes at least. -/
def least (slots : List Slot) (s : Descent) : Nat := if atEnd slots s then 0 else 1

theorem least_of_atEnd {slots : List Slot} {s : Descent} (h : atEnd slots s = true) :
    least slots s = 0 := if_pos h

theorem Ends.least {α : Type} {slots : List Slot} {P : Descent → Prop} {s : Descent}
    {r : Option (α × Descent)} (h : Ends slots 1 P s r) : Ends slots (least slots s) P s r := by
  apply h.mono
  unfold Descent.least
  split <;> omega

section Halting

variable (slots : List Slot) (mode : Mode)

/-- Every rule comes to an end that is begun here. -/
structure Halts (s : Descent) : Prop where
  disjunction : Ends slots 0 (EndsLevel slots) s (disjunction slots mode s)
  disjuncts : ∀ terms, EndsClause slots s →
    Ends slots 0 (EndsLevel slots) s (disjuncts slots mode terms s)
  conjunction : Ends slots 0 (EndsClause slots) s (conjunction slots mode s)
  conjuncts : ∀ terms, Ends slots 0 (EndsClause slots) s (conjuncts slots mode terms s)
  unary : Ends slots (least slots s) Anywhere s (unary slots mode s)
  word : ∀ start w, Ends slots 0 Anywhere s (word slots mode (start, w) s)

variable {slots mode} {s : Descent}
  (ih : ∀ s', (ahead slots s').length < (ahead slots s).length → Halts slots mode s')

include ih

theorem halts_of_onward {s' : Descent} (h : Onward slots 1 s s') : Halts slots mode s' :=
  ih s' h.length_ahead

theorem ends_primary : Ends slots (least slots s) Anywhere s (primary slots mode s) := by
  rw [primary]
  cases hnext : next? slots s with
  | none =>
    rw [least_of_atEnd (by rw [atEnd, hnext]; rfl)]
    exact .done none (.refl s)
  | some t =>
    have honward := Onward.advance hnext
    have hlater := halts_of_onward ih honward
    have hrefused : (t.lexeme = .closing || t.isBinary) = true → least slots s = 0 :=
      fun h => least_of_atEnd (by rw [atEnd, hnext]; exact h)
    dsimp only
    split
    · rename_i hclosing
      rw [hrefused (by simp [hclosing])]
      exact .done none (.refl s)
    · refine .least (.later honward (hlater.disjunction.bind fun inside s' _ _ => ?_))
      exact .done inside ((Onward.refl s').close t.toToken)
    · exact .least (.done _ honward)
    · exact .least (.done _ honward)
    · split
      · rename_i hbinary
        rw [hrefused (by simp [hbinary])]
        exact .done none (.refl s)
      · refine .least (.later honward ((hlater.word t.start _).bind fun x s' _ _ => ?_))
        exact .done (some x) (.refl s')

omit ih in
theorem ends_word (h : Ends slots (least slots s) Anywhere s (primary slots mode s))
    (start : Nat) (w : Text) : Ends slots 0 Anywhere s (word slots mode (start, w) s) := by
  have hvalue : ∀ r stop, Ends slots 0 Anywhere s (value slots mode (r, stop) s) := by
    intro r stop
    rw [value]
    split
    · exact h.mono (Nat.zero_le _)
    · exact .done none (.refl s)
  rw [word]
  split
  · exact .done _ (.refl s)
  · split
    · exact .done _ (.refl s)
    · exact (hvalue _ _).bind fun x s' _ _ => .done _ (.refl s')

theorem ends_unary : Ends slots (least slots s) Anywhere s (unary slots mode s) := by
  have hprimary := ends_primary ih
  rw [unary]
  cases hnext : next? slots s with
  | none =>
    rw [least_of_atEnd (by rw [atEnd, hnext]; rfl)]
    exact .done none (.refl s)
  | some t =>
    have honward := Onward.advance hnext
    have hlater := halts_of_onward ih honward
    dsimp only
    split
    · have hunary := hlater.unary.mono (Nat.zero_le _)
      refine .least (.later honward (hunary.bind fun x s' _ _ => ?_))
      exact .done _ ((Onward.refl s').missing t.toToken _)
    · split
      · refine .least (.later honward ((hlater.word _ _).bind fun x s' _ _ => ?_))
        exact .done _ (.refl s')
      · refine .least (.later honward ((hlater.word _ _).bind fun x s' _ _ => ?_))
        exact .done _ (.refl s')
      · exact hprimary

/-- A turn of the loop over a clause takes a token, or the clause is at its end. -/
theorem conjunct_advances (terms : List Term) :
    (conjunct slots mode terms s = some (none, s) ∧ EndsClause slots s) ∨
      ∃ terms' s', conjunct slots mode terms s = some (some terms', s') ∧
        Onward slots 1 s s' := by
  rw [conjunct]
  cases hnext : next? slots s with
  | none => exact .inl ⟨rfl, fun t ht => by rw [hnext] at ht; cases ht⟩
  | some t =>
    have honward := Onward.advance hnext
    dsimp only
    split
    · rename_i hends
      refine .inl ⟨rfl, fun u hu => ?_⟩
      obtain rfl := Option.some.inj (hnext.symm.trans hu)
      simpa using hends
    · rename_i hgoes
      refine .inr ?_
      split
      · exact ⟨_, _, rfl, honward.missing t.toToken _⟩
      · rename_i hand
        have hleast : least slots s = 1 := by
          simp [least, atEnd, hnext, Token.isBinary, hand]
          simpa [Token.isOr] using hgoes
        obtain ⟨x, s', hunary, hunward, -⟩ := ends_unary ih
        rw [hleast] at hunward
        have hrun : (unary slots mode).run s = some (x, s') := hunary
        exact ⟨_, s', by rw [hrun]; rfl, hunward⟩

theorem ends_conjuncts (terms : List Term) :
    Ends slots 0 (EndsClause slots) s (conjuncts slots mode terms s) := by
  rw [conjuncts]
  rcases conjunct_advances ih terms with ⟨hnone, hends⟩ | ⟨terms', s', hsome, honward⟩
  · have hrun : ((conjunct slots mode).run terms).run s = some (none, s) := hnone
    rw [hrun]
    exact .result terms (.refl s) hends
  · have hrun : ((conjunct slots mode).run terms).run s = some (some terms', s') := hsome
    rw [hrun]
    exact (Ends.later honward ((halts_of_onward ih honward).conjuncts terms')).mono (Nat.zero_le 1)

theorem ends_conjunction : Ends slots 0 (EndsClause slots) s (conjunction slots mode s) := by
  rw [conjunction]
  exact (ends_conjuncts ih []).bind fun terms s' _ hends => .result _ (.refl s') hends

theorem ends_disjuncts (terms : List Term) (hends : EndsClause slots s) :
    Ends slots 0 (EndsLevel slots) s (disjuncts slots mode terms s) := by
  rw [disjuncts]
  cases hnext : next? slots s with
  | none => exact .result terms (.refl s) fun t ht => by rw [hnext] at ht; cases ht
  | some t =>
    have honward := Onward.advance hnext
    have hlater := halts_of_onward ih honward
    dsimp only
    split
    · refine (Ends.later honward ?_).mono (Nat.zero_le 1)
      refine hlater.conjunction.bind fun right s' honward' hends' => ?_
      have hstill : Onward slots 0 s' (s'.missing t.toToken (terms.isEmpty || right.isNone)) :=
        (Onward.refl s').missing t.toToken _
      have hrest := halts_of_onward ih ((honward.trans honward').trans hstill)
      refine .later hstill (hrest.disjuncts _ ?_)
      rwa [EndsClause, next?_missing]
    · rename_i hor
      refine .result terms (.refl s) fun u hu => ?_
      obtain rfl := Option.some.inj (hnext.symm.trans hu)
      exact (hends t hnext).resolve_right hor

theorem ends_disjunction : Ends slots 0 (EndsLevel slots) s (disjunction slots mode s) := by
  rw [disjunction]
  refine (ends_conjunction ih).bind fun first s' honward hends => ?_
  have hlater : ∀ s'', (ahead slots s'').length < (ahead slots s').length →
      Halts slots mode s'' :=
    fun s'' hlt => ih s'' (Nat.lt_of_lt_of_le hlt honward.length_ahead)
  exact (ends_disjuncts hlater first.toList hends).bind fun terms s'' _ hends' =>
    .result _ (.refl s'') hends'

end Halting

/-- Every rule comes to an end, wherever it is begun. -/
theorem halts (slots : List Slot) (mode : Mode) (s : Descent) : Halts slots mode s := by
  induction hn : (ahead slots s).length using Nat.strongRecOn generalizing s with
  | _ n ih =>
    subst hn
    have hlater : ∀ s', (ahead slots s').length < (ahead slots s).length → Halts slots mode s' :=
      fun s' hlt => ih _ hlt s' rfl
    exact ⟨ends_disjunction hlater, ends_disjuncts hlater, ends_conjunction hlater,
      ends_conjuncts hlater, ends_unary hlater, ends_word (ends_primary hlater)⟩

section Sections

variable {slots : List Slot} {mode : Mode} {s s' : Descent} {term : Option Term} {t : Slot}

theorem sections_of_end (h : disjunction slots mode s = some (term, s'))
    (hnext : next? slots s' = none) (terms : List Term) :
    sections slots mode terms s = some (terms ++ term.toList, s') := by
  rw [sections, h, Option.bind_eq_bind, Option.bind_some]
  simp only [hnext]
  rfl

theorem sections_of_next (h : disjunction slots mode s = some (term, s'))
    (hnext : next? slots s' = some t) (terms : List Term) :
    sections slots mode terms s = sections slots mode (terms ++ term.toList)
      ((advance slots s').fault (.unopened t.start)) := by
  rw [sections, h, Option.bind_eq_bind, Option.bind_some]
  simp only [hnext]
  rfl

/-- All tokens ahead are taken, and those told to be unopened are closing parentheses. -/
theorem exists_sections (slots : List Slot) (mode : Mode) (terms : List Term) (s : Descent) :
    ∃ terms' faults,
      sections slots mode terms s = some (terms', s.after (ahead slots s) faults) ∧
      ∀ p, .unopened p ∈ faults → ∃ t ∈ ahead slots s, t.lexeme = .closing ∧ t.start = p := by
  -- on the tokens ahead: between two disjunctions a closing parenthesis is taken
  induction hn : (ahead slots s).length using Nat.strongRecOn generalizing s terms with
  | _ n ih =>
    subst hn
    obtain ⟨term, s', hdisjunction, ⟨used, rest, fs, hahead, rfl, -, hfs⟩, hends⟩ :=
      (halts slots mode s).disjunction
    have hnext : next? slots (s.after used fs) = rest.head? := by
      rw [next?_eq, ahead_after hahead]
    cases rest with
    | nil =>
      rw [List.append_nil] at hahead
      rw [sections_of_end hdisjunction hnext, hahead]
      exact ⟨_, fs, rfl, fun p hp => absurd hp (hfs p)⟩
    | cons t rest =>
      have hsplit : ahead slots s = used ++ [t] ++ rest := by rw [hahead, List.append_cons]
      have hstep : (advance slots (s.after used fs)).fault (.unopened t.start) =
          s.after (used ++ [t]) (fs ++ [.unopened t.start]) := by
        rw [advance_eq hnext, after_fault, after_after, List.nil_append]
      have hbehind := ahead_after hsplit (fs ++ [.unopened t.start])
      have hshorter : rest.length < (ahead slots s).length := by
        rw [hahead, List.length_append, List.length_cons]
        omega
      obtain ⟨terms', gs, hsections, hgs⟩ :=
        ih _ (by rwa [hbehind]) (terms ++ term.toList) _ rfl
      rw [hbehind] at hsections hgs
      rw [sections_of_next hdisjunction hnext, hstep, hsections, after_after, hsplit]
      refine ⟨terms', _, rfl, fun p hp => ?_⟩
      rcases List.mem_append.1 hp with hp | hp
      · rcases List.mem_append.1 hp with hp | hp
        · exact absurd hp (hfs p)
        · obtain rfl := Fault.unopened.inj (List.mem_singleton.1 hp)
          exact ⟨t, by simp, hends t hnext, rfl⟩
      · obtain ⟨u, hu, hclosing⟩ := hgs p hp
        exact ⟨u, List.mem_append_right _ hu, hclosing⟩

end Sections

end Descent
end QueryLine
