import Mathlib.Data.List.Chain
import Mathlib.Data.List.Forall2
import Mathlib.Data.Option.Basic
import QueryLine.Proofs.Blanking
import QueryLine.Proofs.Fronting
import QueryLine.Proofs.Parentheses
import QueryLine.Proofs.Phrase

/-!
An `AND` may be left out. Two lists of tokens, one of them without its `AND`s, are read side by side
from the right: what is in front is the same but for the `AND`s among its factors.
-/

namespace QueryLine

def Token.isAnd (t : Token) : Bool := t.keyword? = some .and

namespace Term

/-- Terms of one sense. Where all has to be `exact` they are the same, spans and all. -/
def Alike (exact : Prop) (t u : Term) : Prop := t.sense = u.sense ∧ (exact → t = u)

variable {exact : Prop} {t u : Term} {ts us : List Term} {o p : Option Term}

theorem Alike.refl (exact : Prop) (t : Term) : Alike exact t t := ⟨rfl, fun _ => rfl⟩

theorem senses_of_alike (h : List.Forall₂ (Alike exact) ts us) :
    senses ts = senses us ∧ (exact → ts = us) := by
  induction h with
  | nil => exact ⟨rfl, fun _ => rfl⟩
  | cons ht hts ih =>
    constructor
    · rw [senses, senses, ht.1, ih.1]
    · intro hexact
      rw [ht.2 hexact, ih.2 hexact]

theorem eq_of_alike (h : Option.Rel (Alike exact) o p) :
    p.map sense = o.map sense ∧ (exact → p = o) := by
  cases h with
  | none => exact ⟨rfl, fun _ => rfl⟩
  | some h => exact ⟨congrArg some h.1.symm, fun hexact => congrArg some (h.2 hexact).symm⟩

theorem alike_toList (h : Option.Rel (Alike exact) o p) :
    List.Forall₂ (Alike exact) o.toList p.toList := by
  cases h with
  | none => exact .nil
  | some h => exact .cons h .nil

theorem alike_join {make : Span → List Term → Term}
    (hmake : make = conjunction ∨ make = disjunction) (h : List.Forall₂ (Alike exact) ts us) :
    Option.Rel (Alike exact) (join make ts) (join make us) := by
  have hsense : ∀ s s' ts us, senses ts = senses us → (make s ts).sense = (make s' us).sense := by
    rcases hmake with rfl | rfl
    · exact fun _ _ _ _ h => congrArg Sense.conjunction h
    · exact fun _ _ _ _ h => congrArg Sense.disjunction h
  obtain ⟨hsenses, hsame⟩ := senses_of_alike h
  match h with
  | .nil => exact .none
  | .cons ht .nil => exact .some ht
  | .cons _ (.cons _ _) =>
    refine .some ⟨hsense _ _ _ _ hsenses, fun hexact => ?_⟩
    have hjoin := congrArg (join make) (hsame hexact)
    exact Option.some.inj hjoin

end Term

/-- Operands that say the same. -/
structure Operand.Alike (exact : Prop) (o p : Operand) : Prop where
  term : Option.Rel (Term.Alike exact) o.term p.term
  valueAt : o.valueAt = p.valueAt
  stop : exact → o.stop = p.stop

namespace Operand

variable {exact : Prop} {o p : Operand}

theorem Alike.of_same {t : Term} {faults : List Fault} {stop : Nat} {valueAt : Option Nat} :
    Alike exact ⟨some t, faults, stop, valueAt⟩ ⟨some t, faults, stop, valueAt⟩ :=
  ⟨.some (.refl exact t), rfl, fun _ => rfl⟩

theorem Alike.negate (h : o.Alike exact p) (t : Token) :
    (o.negate t).Alike exact (p.negate t) := by
  obtain ⟨term, faults, stop, valueAt⟩ := o
  obtain ⟨term', faults', stop', valueAt'⟩ := p
  obtain ⟨hterm, -, hstop⟩ := h
  cases hterm with
  | none => exact ⟨.none, rfl, hstop⟩
  | some hx =>
    refine ⟨.some ⟨congrArg Sense.negation hx.1, fun hexact => ?_⟩, rfl, hstop⟩
    rw [hx.2 hexact]

theorem Alike.ofRestriction (h : o.Alike exact p) (start : Nat) (w : Text) (r : Restriction) :
    (Operand.ofRestriction start w r (some o)).Alike exact
      (Operand.ofRestriction start w r (some p)) := by
  obtain ⟨term, faults, stop, valueAt⟩ := o
  obtain ⟨term', faults', stop', valueAt'⟩ := p
  obtain ⟨hterm, -, hstop⟩ := h
  unfold Operand.ofRestriction
  split
  · exact .of_same
  · cases hterm with
    | none =>
      refine ⟨.some ⟨rfl, fun hexact => ?_⟩, rfl, hstop⟩
      rw [show stop = stop' from hstop hexact]
    | some hx =>
      refine ⟨.some ⟨congrArg (Sense.comparison r.property r.comparator) hx.1, fun hexact => ?_⟩,
        rfl, hstop⟩
      rw [show stop = stop' from hstop hexact, hx.2 hexact]

end Operand

/-- The same factors, but for the `AND`s of the first. -/
inductive Factor.Implied (exact : Prop) : List Factor → List Factor → Prop
  | nil : Implied exact [] []
  | also {t : Token} {fs gs : List Factor} (h : Implied exact fs gs) :
    Implied exact (.also t :: fs) gs
  | operand {o p : Operand} {fs gs : List Factor} (ho : o.Alike exact p)
    (h : Implied exact fs gs) : Implied exact (.operand o :: fs) (.operand p :: gs)

structure Clauses.Implied (exact : Prop) (c d : Clauses) : Prop where
  head : Factor.Implied exact c.head d.head
  tail : List.Forall₂ (fun a b => Factor.Implied exact a.2 b.2) c.tail d.tail

theorem Factor.Implied.exists_operand {exact : Prop} {fs gs : List Factor} {p : Operand}
    (h : Implied exact fs gs) (hp : .operand p ∈ gs) : ∃ o, .operand o ∈ fs ∧ o.Alike exact p := by
  induction h with
  | nil => cases hp
  | also h ih =>
    obtain ⟨o, ho, halike⟩ := ih hp
    exact ⟨o, List.mem_cons_of_mem _ ho, halike⟩
  | operand hfirst h ih =>
    rcases List.mem_cons.1 hp with hsame | hp
    · cases hsame
      exact ⟨_, List.mem_cons_self, hfirst⟩
    · obtain ⟨o, ho, halike⟩ := ih hp
      exact ⟨o, List.mem_cons_of_mem _ ho, halike⟩

namespace Clauses

variable {exact : Prop} {c d : Clauses}

theorem Implied.operand {o p : Operand} (ho : o.Alike exact p) (h : c.Implied exact d) :
    (c.operand o).Implied exact (d.operand p) := ⟨.operand ho h.head, h.tail⟩

/-- No `AND` comes first. -/
def Led (c : Clauses) : Prop := ∀ t fs, c.head ≠ .also t :: fs

theorem Implied.negate (h : c.Implied exact d) (hled : c.Led) (t : Token) :
    (c.negate t).Implied exact (d.negate t) := by
  obtain ⟨fs, sections⟩ := c
  obtain ⟨gs, sections'⟩ := d
  obtain ⟨hhead, htail⟩ := h
  cases hhead with
  | nil => exact ⟨.operand ⟨.none, rfl, fun _ => rfl⟩ .nil, htail⟩
  | also h => exact absurd rfl (hled _ _)
  | operand ho h => exact ⟨.operand (ho.negate t) h, htail⟩

theorem Implied.value? {stop : Nat} (h : c.Implied exact d)
    (hglued : c.Led ∨ ∀ o, .operand o ∈ c.head → o.valueAt ≠ some stop) :
    (c.value? stop = none ∧ d.value? stop = none) ∨
      ∃ o p fs gs, c = ⟨.operand o :: fs, c.tail⟩ ∧ d = ⟨.operand p :: gs, d.tail⟩ ∧
        o.Alike exact p ∧ Factor.Implied exact fs gs ∧
        c.value? stop = some o ∧ d.value? stop = some p := by
  obtain ⟨fs, sections⟩ := c
  obtain ⟨gs, sections'⟩ := d
  obtain ⟨hhead, -⟩ := h
  cases hhead with
  | nil => exact .inl ⟨rfl, rfl⟩
  | operand ho h =>
    rename_i o p fs gs
    by_cases hat : o.valueAt = some stop
    · exact .inr ⟨_, _, _, _, rfl, rfl, ho, h, if_pos hat, if_pos (ho.valueAt ▸ hat)⟩
    · exact .inl ⟨if_neg hat, if_neg (ho.valueAt ▸ hat)⟩
  | also h =>
    rename_i t fs
    refine .inl ⟨rfl, ?_⟩
    rcases hglued with hled | hapart
    · exact absurd rfl (hled t fs)
    · unfold Clauses.value?
      dsimp only
      split
      · rename_i p more
        obtain ⟨o, ho, halike⟩ := h.exists_operand List.mem_cons_self
        rw [if_neg (halike.valueAt ▸ hapart o (List.mem_cons_of_mem _ ho))]
      · rfl

theorem led_operand (o : Operand) (c : Clauses) : (c.operand o).Led := fun _ _ heq => nomatch heq

theorem Implied.word {start : Nat} {w : Text} (h : c.Implied exact d)
    (hglued : c.Led ∨ ∀ o, .operand o ∈ c.head → o.valueAt ≠ some (start + w.length))
    (mode : Mode) : (c.word mode start w).Implied exact (d.word mode start w) := by
  unfold Clauses.word
  split
  · exact h.operand .of_same
  · rename_i r hr
    have halone : Operand.Alike exact (.ofRestriction start w r none)
        (.ofRestriction start w r none) := by
      unfold Operand.ofRestriction
      split
      · exact .of_same
      · exact .of_same
    split
    · rcases h.value? hglued with ⟨hc, hd⟩ | ⟨o, p, fs, gs, hc, hd, ho, hmore, hvalue, hvalue'⟩
      · rw [hc, hd]
        exact h.operand halone
      · rw [hvalue, hvalue', hc, hd]
        exact ⟨.operand (ho.ofRestriction start w r) hmore, h.tail⟩
    · exact h.operand halone

theorem Implied.token {t : Token} (h : c.Implied exact d) (hkeyword : t.keyword? ≠ some .and)
    (hled : t.keyword? = some .not → c.Led)
    (hglued : c.Led ∨ ∀ o, .operand o ∈ c.head → o.valueAt ≠ some t.stop) (mode : Mode) :
    (c.token mode t).Implied exact (d.token mode t) := by
  unfold Clauses.token
  cases hlexeme : t.lexeme with
  | opening => exact h
  | closing => exact h
  | quoted w closed => exact h.operand .of_same
  | uri uri => exact h.operand .of_same
  | word w =>
    have hword : t.keyword? = Keyword.ofText? w := by rw [Token.keyword?, hlexeme]
    have hstop : t.stop = t.start + w.length := by rw [Token.stop, Token.length, hlexeme]; rfl
    -- the word behind a sign ends where the token does, so what is glued to one is to the other
    have hsign : ∀ sign more, w = sign :: more →
        ((c.word mode (t.start + 1) more).negate t).Implied exact
          ((d.word mode (t.start + 1) more).negate t) := by
      intro sign more hw
      have hbehind : t.stop = t.start + 1 + more.length := by
        rw [hstop, hw, List.length_cons]
        omega
      rw [hbehind] at hglued
      refine (h.word hglued mode).negate ?_ t
      obtain ⟨o, rest, hoperand, -⟩ := c.exists_word mode (t.start + 1) more
      rw [hoperand]
      exact led_operand o rest
    dsimp only
    rw [hword] at hkeyword hled
    cases hkind : Keyword.ofText? w with
    | some keyword =>
      cases keyword with
      | and => exact absurd hkind hkeyword
      | or => exact ⟨.nil, .cons h.head h.tail⟩
      | not => exact h.negate (hled hkind) t
    | none =>
      dsimp only
      split
      · exact hsign _ _ rfl
      · exact hsign _ _ rfl
      · rw [hstop] at hglued
        exact h.word hglued mode

theorem led_token {t : Token} (hkeyword : t.keyword? ≠ some .and) (hopening : t.lexeme ≠ .opening)
    (hclosing : t.lexeme ≠ .closing) (mode : Mode) (c : Clauses) : (c.token mode t).Led := by
  have hnegate : ∀ c : Clauses, (c.negate t).Led := by
    intro c
    obtain ⟨o, more, hoperand, -⟩ := c.exists_negate t
    rw [hoperand]
    exact led_operand o more
  unfold token
  cases hlexeme : t.lexeme with
  | opening => exact absurd hlexeme hopening
  | closing => exact absurd hlexeme hclosing
  | quoted w closed => exact led_operand _ c
  | uri uri => exact led_operand _ c
  | word w =>
    have hword : t.keyword? = Keyword.ofText? w := by rw [Token.keyword?, hlexeme]
    dsimp only
    cases hkind : Keyword.ofText? w with
    | some keyword =>
      cases keyword with
      | and => exact absurd (hword.trans hkind) hkeyword
      | or => exact fun _ _ heq => nomatch heq
      | not => exact hnegate c
    | none =>
      dsimp only
      split
      · exact hnegate _
      · exact hnegate _
      · obtain ⟨o, more, hoperand, -⟩ := c.exists_word mode t.start w
        rw [hoperand]
        exact led_operand o more

/-- What may be the value of a comparison starts with one of these tokens. -/
def ValuesIn (ts : List Token) (c : Clauses) : Prop :=
  ∀ o, .operand o ∈ c.head → ∀ p, o.valueAt = some p → ∃ t ∈ ts, t.start = p

theorem ValuesIn.cons {ts : List Token} (h : c.ValuesIn ts) (t : Token) :
    c.ValuesIn (t :: ts) := by
  intro o ho p hp
  obtain ⟨u, hu, hstart⟩ := h o ho p hp
  exact ⟨u, List.mem_cons_of_mem t hu, hstart⟩

theorem ValuesIn.operand {ts : List Token} (h : c.ValuesIn ts) {o : Operand}
    (ho : ∀ p, o.valueAt = some p → ∃ t ∈ ts, t.start = p) : (c.operand o).ValuesIn ts := by
  intro o' ho' p hp
  rcases List.mem_cons.1 ho' with hsame | ho'
  · cases hsame
    exact ho p hp
  · exact h o' ho' p hp

theorem ValuesIn.token {ts : List Token} (h : c.ValuesIn ts) (t : Token) (mode : Mode) :
    (c.token mode t).ValuesIn (t :: ts) := by
  -- an operand made of what is in front is no value, so the values are among those before
  have hfront : ∀ {d : Clauses}, d.ValuesIn ts → ∀ {e : Clauses},
      (∃ o more, e = Clauses.operand o more ∧ o.valueAt = none ∧ more.head ⊆ d.head) →
        e.ValuesIn ts := by
    rintro d hd e ⟨o, more, rfl, hnone, hsubset⟩
    have hmore : more.ValuesIn ts := fun o ho => hd o (hsubset ho)
    exact hmore.operand fun p hp => nomatch hnone.symm.trans hp
  have hword : ∀ start w, (c.word mode start w).ValuesIn ts := by
    intro start w
    obtain ⟨o, more, hoperand, -, hnone, hfronted⟩ := c.exists_word mode start w
    exact hfront h ⟨o, more, hoperand, hnone, hfronted.subset⟩
  have hnegate : ∀ {d : Clauses}, d.ValuesIn ts → (d.negate t).ValuesIn ts := fun hd =>
    hfront hd (exists_negate t _)
  unfold Clauses.token
  split
  · apply ValuesIn.cons
    split
    · intro o ho
      rcases List.mem_cons.1 ho with hsame | ho
      · cases hsame
      · exact h o ho
    · exact fun o ho => nomatch ho
    · exact hnegate h
    · split
      · exact hnegate (hword _ _)
      · exact hnegate (hword _ _)
      · exact hword _ _
  · refine (h.cons t).operand fun p hp => ⟨t, List.mem_cons_self, Option.some.inj hp⟩
  · exact (h.cons t).operand fun p hp => nomatch hp
  · exact h.cons t
  · exact h.cons t

end Clauses

namespace Reading

open Term (Alike alike_toList alike_join)

variable {exact : Prop}

theorem alike_conjuncts {fs gs : List Factor} (h : Factor.Implied exact fs gs)
    (found found' : Bool) :
    List.Forall₂ (Alike exact) (conjuncts found fs).1 (conjuncts found' gs).1 := by
  induction h generalizing found found' with
  | nil => exact .nil
  | also h ih => exact ih found found'
  | operand ho h ih => exact List.rel_append (alike_toList ho.term) (ih _ _)

theorem alike_conjunction {fs gs : List Factor} (h : Factor.Implied exact fs gs) :
    Option.Rel (Alike exact) (conjunction fs).term (conjunction gs).term :=
  alike_join (.inl rfl) (alike_conjuncts h false false)

theorem alike_disjuncts {sections sections' : List (Token × List Factor)}
    (h : List.Forall₂ (fun a b => Factor.Implied exact a.2 b.2) sections sections')
    (found found' : Bool) :
    List.Forall₂ (Alike exact) (disjuncts found sections).1 (disjuncts found' sections').1 := by
  induction h generalizing found found' with
  | nil => exact .nil
  | cons hfirst h ih => exact List.rel_append (alike_toList (alike_conjunction hfirst)) (ih _ _)

theorem alike_disjunction {c d : Clauses} (h : c.Implied exact d) :
    Option.Rel (Alike exact) (disjunction c).term (disjunction d).term :=
  alike_join (.inr rfl) (List.rel_append (alike_toList (alike_conjunction h.head))
    (alike_disjuncts h.tail _ _))

/-- Only where a group is never closed its end depends on what is inside. -/
theorem alike_group {opening : Token} {body body' : List Piece} {closing : Option Token}
    {inside inside' : Reading} (hclosing : exact → closing.isSome)
    (h : Option.Rel (Alike exact) inside.term inside'.term) :
    (group opening body closing inside).Alike exact (group opening body' closing inside') := by
  refine ⟨h, rfl, fun hexact => ?_⟩
  obtain ⟨t, ht⟩ := Option.isSome_iff_exists.1 (hclosing hexact)
  simp [group, ht]

theorem alike_strays {mode : Mode} {sections sections' : List (Token × List Piece)}
    (h : List.Forall₂ (fun a b => a.1 = b.1 ∧
      (clauses mode a.2).Implied exact (clauses mode b.2)) sections sections') :
    List.Forall₂ (Alike exact) (strays mode sections).1 (strays mode sections').1 := by
  induction h with
  | nil => exact .nil
  | cons hfirst h ih => exact List.rel_append (alike_toList (alike_disjunction hfirst.2)) ih

end Reading

namespace Piece

open Reading (clauses)

theorem unclosedOf_place {t : Token} {s : Sections Piece} (h : unclosedOf (place t s) = []) :
    unclosedOf s = [] ∧ (t.lexeme = .opening → s.tail ≠ []) := by
  have hleft := congrArg Unmatched.openings (leftOver_place t s .none)
  simp only [leftOver, h, Unmatched.none, List.drop_nil, List.append_nil] at hleft
  obtain ⟨hnone, hwaiting⟩ := List.append_eq_nil_iff.1 hleft.symm
  refine ⟨hnone, fun hopening htail => ?_⟩
  rw [htail, Unmatched.read, hopening] at hwaiting
  cases hwaiting

/-- Sections that are read alike, one by one. -/
structure Implied (exact : Prop) (mode : Mode) (s s' : Sections Piece) : Prop where
  head : (clauses mode s.head).Implied exact (clauses mode s'.head)
  tail : List.Forall₂ (fun a b => a.1 = b.1 ∧
    (clauses mode a.2).Implied exact (clauses mode b.2)) s.tail s'.tail

variable {exact : Prop} {mode : Mode} {s s' : Sections Piece} {t : Token}

theorem Implied.openGroup (h : Implied exact mode s s') (t : Token)
    (hclosed : exact → s.tail ≠ []) : Implied exact mode (openGroup t s) (openGroup t s') := by
  obtain ⟨head, tail⟩ := s
  obtain ⟨head', tail'⟩ := s'
  obtain ⟨hhead, htail⟩ := h
  have hinside := Reading.alike_disjunction hhead
  cases htail with
  | nil =>
    refine ⟨Clauses.Implied.operand (Reading.alike_group ?_ hinside) ⟨.nil, .nil⟩, .nil⟩
    exact fun hexact => absurd rfl (hclosed hexact)
  | cons hfirst hmore =>
    rename_i a b more more'
    obtain ⟨partner, after⟩ := a
    obtain ⟨partner', after'⟩ := b
    obtain ⟨rfl, hafter⟩ := hfirst
    exact ⟨hafter.operand (Reading.alike_group (fun _ => rfl) hinside), hmore⟩

theorem Implied.place (h : Implied exact mode s s') (hkeyword : t.keyword? ≠ some .and)
    (hclosed : exact → t.lexeme = .opening → s.tail ≠ [])
    (hled : t.keyword? = some .not → (clauses mode s.head).Led)
    (hglued : (clauses mode s.head).Led ∨
      ∀ o, .operand o ∈ (clauses mode s.head).head → o.valueAt ≠ some t.stop) :
    Implied exact mode (place t s) (place t s') := by
  unfold Piece.place
  split
  · rename_i hopening
    exact h.openGroup t fun hexact => hclosed hexact hopening
  · exact ⟨⟨.nil, .nil⟩, .cons ⟨rfl, h.head⟩ h.tail⟩
  · exact ⟨h.head.token hkeyword hled hglued mode, h.tail⟩

theorem Implied.skip (h : Implied exact mode s s') (hkeyword : t.keyword? = some .and) :
    Implied exact mode (Piece.place t s) s' := by
  obtain ⟨w, hlexeme, -⟩ := Token.exists_word_of_keyword hkeyword
  have hplace : Piece.place t s = s.cons (token t) := by simp only [Piece.place, hlexeme]
  rw [hplace]
  refine ⟨?_, h.tail⟩
  change ((clauses mode s.head).token mode t).Implied exact _
  rw [Clauses.token_and hkeyword]
  exact ⟨.also h.head.head, h.head.tail⟩

/-- What comes first is an `AND` only where it is the first token. -/
theorem led_or_and (mode : Mode) (ts : List Token) :
    (clauses mode (ofTokens ts).head).Led ∨ ∃ t us, ts = t :: us ∧ t.keyword? = some .and ∧
      clauses mode (ofTokens ts).head = (clauses mode (ofTokens us).head).cons (.also t) := by
  cases ts with
  | nil => exact .inl fun _ _ heq => nomatch heq
  | cons t us =>
    rw [ofTokens_cons]
    unfold place
    split
    · unfold openGroup
      split
      · exact .inl (Clauses.led_operand _ _)
      · exact .inl (Clauses.led_operand _ _)
    · exact .inl fun _ _ heq => nomatch heq
    · rename_i hopening hclosing
      by_cases hkeyword : t.keyword? = some .and
      · exact .inr ⟨t, us, rfl, hkeyword, Clauses.token_and hkeyword mode _⟩
      · exact .inl (Clauses.led_token hkeyword hopening hclosing mode _)

theorem valuesIn_ofTokens (mode : Mode) (ts : List Token) :
    (clauses mode (ofTokens ts).head).ValuesIn ts ∧
      ∀ behind ∈ (ofTokens ts).tail, (clauses mode behind.2).ValuesIn ts := by
  induction ts with
  | nil => exact ⟨fun _ ho => absurd ho List.not_mem_nil, fun _ h => absurd h List.not_mem_nil⟩
  | cons t ts ih =>
    obtain ⟨hhead, htail⟩ := ih
    have hbehind : ∀ behind ∈ (ofTokens ts).tail,
        (clauses mode behind.2).ValuesIn (t :: ts) := fun behind h => (htail behind h).cons t
    have hgroup : ∀ p, some t.start = some p → ∃ u ∈ t :: ts, u.start = p := fun p hp =>
      ⟨t, List.mem_cons_self, Option.some.inj hp⟩
    rw [ofTokens_cons]
    unfold place
    split
    · unfold openGroup
      split
      · have hnone : (clauses mode []).ValuesIn (t :: ts) := fun _ ho => nomatch ho
        exact ⟨hnone.operand hgroup, fun _ h => nomatch h⟩
      · rename_i partner after more hcut
        rw [hcut] at hbehind
        obtain ⟨hafter, hmore⟩ := List.forall_mem_cons.1 hbehind
        exact ⟨hafter.operand hgroup, hmore⟩
    · exact ⟨fun _ ho => absurd ho List.not_mem_nil,
        List.forall_mem_cons.2 ⟨hhead.cons t, hbehind⟩⟩
    · exact ⟨hhead.token t mode, hbehind⟩

/-- Tokens are read as they are without their `AND`s, unless one of these is right behind a
`NOT`. -/
theorem implied_ofTokens (mode : Mode) {ts : List Token}
    (hplaces : ts.Pairwise fun t u => t.start < t.stop ∧ t.stop ≤ u.start)
    (hchain : ts.IsChain fun t u => ¬ (t.keyword? = some .not ∧ u.keyword? = some .and))
    (hclosed : exact → unclosedOf (ofTokens ts) = []) :
    Implied exact mode (ofTokens ts) (ofTokens (ts.filter fun t => !t.isAnd)) := by
  induction ts with
  | nil => exact ⟨⟨.nil, .nil⟩, .nil⟩
  | cons t ts ih =>
    rw [ofTokens_cons] at hclosed ⊢
    obtain ⟨hfirst, hmore⟩ := List.pairwise_cons.1 hplaces
    have hbehind := ih hmore hchain.tail fun hexact => (unclosedOf_place (hclosed hexact)).1
    by_cases hkeyword : t.keyword? = some .and
    · rw [List.filter_cons_of_neg (by simp [Token.isAnd, hkeyword])]
      exact hbehind.skip hkeyword
    · rw [List.filter_cons_of_pos (by simp [Token.isAnd, hkeyword]), ofTokens_cons]
      apply hbehind.place hkeyword fun hexact => (unclosedOf_place (hclosed hexact)).2
      -- by `hchain` no `AND` is right behind a `NOT`
      · intro hnot
        rcases led_or_and mode ts with hled | ⟨u, us, rfl, hand, -⟩
        · exact hled
        · exact absurd ⟨hnot, hand⟩ (List.isChain_cons_cons.1 hchain).1
      · rcases led_or_and mode ts with hled | ⟨u, us, rfl, -, hclauses⟩
        · exact .inl hled
        · -- a value would start behind the `AND`, so it is not glued to the token
          refine .inr fun o ho hat => ?_
          rw [hclauses] at ho
          rcases List.mem_cons.1 ho with hsame | ho
          · cases hsame
          · obtain ⟨v, hv, hstart⟩ := (valuesIn_ofTokens mode us).1 o ho _ hat
            have hu := (List.pairwise_cons.1 hmore).1 v hv
            have ht := hfirst u List.mem_cons_self
            omega

end Piece

namespace Query

/-- The text with each `AND` overwritten by as many blanks. -/
def withoutAnds (text : Text) : Text :=
  text.blankOut (fun i => (Token.ofText text).any fun t => t.isAnd && t.covers i) 0

/-- An `AND` that is no operand of a `NOT` may be left out: the terms say the same, and where every
opening parenthesis is closed they are the same. -/
theorem ofText_withoutAnds (mode : Mode) (text : Text) (h : (Token.ofText text).IsChain fun t u =>
    ¬ (t.keyword? = some .not ∧ u.keyword? = some .and)) :
    let query := ofText mode text
    let bare := ofText mode (withoutAnds text)
    bare.term.map Term.sense = query.term.map Term.sense ∧
      ((∀ p, .unclosed p ∉ query.faults) → bare.term = query.term) := by
  intro query bare
  have htokens : Token.ofText (withoutAnds text) = (Token.ofText text).filter fun t => !t.isAnd :=
    Token.ofText_blankOut Token.isAnd text
  have hclosed : (∀ p, .unclosed p ∉ query.faults) →
      Piece.unclosedOf (Piece.ofTokens (Token.ofText text)) = [] := unclosedOf_ofText
  have hpieces := Piece.implied_ofTokens mode
    (Token.pairwise_stop_le (Token.consecutive_ofText text)) h hclosed
  rw [← htokens] at hpieces
  have hfirst := Term.alike_toList (Reading.alike_disjunction hpieces.head)
  exact Term.eq_of_alike (Term.alike_join (.inl rfl)
    (List.rel_append hfirst (Reading.alike_strays hpieces.tail)))

/-- The query `x: and "v" && b`, in which an `AND` keeps a comparison from the value behind it. -/
theorem ofText_withoutAnds_value :
    let text := ['x', ':', ' ', 'a', 'n', 'd', ' ', '"', 'v', '"', ' ', '&', '&', ' ', 'b']
    let bare := ['x', ':', ' ', ' ', ' ', ' ', ' ', '"', 'v', '"', ' ', ' ', ' ', ' ', 'b']
    let term := Term.conjunction ⟨0, 15⟩ [.comparison ⟨0, 2⟩ ['x'] .contains (.literal ⟨2, 0⟩ []),
      .literal ⟨8, 1⟩ ['v'], .literal ⟨14, 1⟩ ['b']]
    ((Token.ofText text).IsChain fun t u =>
        ¬ (t.keyword? = some .not ∧ u.keyword? = some .and)) ∧
      withoutAnds text = bare ∧ (ofText .plain text).faults = [] ∧
      (ofText .plain bare).term = some term := by
  intro text bare term
  have hchain : (Token.ofText text).IsChain fun t u =>
      ¬ (t.keyword? = some .not ∧ u.keyword? = some .and) := by decide
  have hbare : withoutAnds text = bare := rfl
  have hfaults : (ofText .plain text).faults = [] := rfl
  have hterm : (ofText .plain text).term = some term := rfl
  obtain ⟨-, hsame⟩ := ofText_withoutAnds .plain text hchain
  rw [hfaults, hterm, hbare] at hsame
  exact ⟨hchain, hbare, hfaults, hsame fun _ => List.not_mem_nil⟩

end Query
end QueryLine
