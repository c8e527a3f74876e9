import QueryLine.Proofs.Clauses

/-!
Writing a phrase down and reading it gives back what the phrase says, wherever parentheses are left
out because the ranks allow it.
-/

namespace QueryLine

open Phrase (enclose)
open Reading (IsOperand IsConjunction IsClause IsDisjunction IsQuery Reads)

/-- Wherever it is written, and in either mode, the text is read so. -/
def Legible (text : Text) (reading : Mode → List Piece → Prop) : Prop :=
  ∀ position, ∃ ps, Spelled position text ps ∧ ∀ mode, reading mode ps

namespace Legible

variable {rank limit : Nat} {text : Text} {s : Sense}

theorem mono {reading more : Mode → List Piece → Prop} (h : Legible text reading)
    (hmore : ∀ mode ps, reading mode ps → more mode ps) : Legible text more := by
  intro position
  obtain ⟨ps, hspelled, hreading⟩ := h position
  exact ⟨ps, hspelled, fun mode => hmore mode ps (hreading mode)⟩

theorem enclose (h : Legible text (Reads rank s)) (limit : Nat) :
    Legible (enclose limit rank text) (Reads limit s) := by
  unfold Phrase.enclose
  split
  · intro position
    obtain ⟨ps, hspelled, hreads⟩ := h (position + 1)
    refine ⟨_, hspelled.group, fun mode => ?_⟩
    obtain ⟨t, hquery, hsense⟩ := (hreads mode).isQuery
    obtain ⟨stop, hclauses⟩ := Reading.clauses_group ⟨position, .opening⟩
      ⟨position + 1 + text.length, .closing⟩ hquery
    exact IsOperand.reads ⟨⟨some t, [], stop, _⟩, t, hclauses, rfl, rfl, hsense⟩ limit
  · apply h.mono
    intro mode ps hreads
    exact hreads.mono (by omega)

theorem literal {w : Text} (hw : '"' ∉ w) :
    Legible ('"' :: w ++ ['"']) (IsOperand (.literal w)) := by
  intro position
  refine ⟨_, .quoted hw, fun mode => ?_⟩
  exact ⟨⟨_, [], _, _⟩, _, fun _ => rfl, rfl, rfl, rfl⟩

theorem resource {u : Text} (hne : u ≠ []) (hu : ∀ c ∈ u, Text.isBlank c = false ∧ c ≠ '>') :
    Legible ('<' :: u ++ ['>']) (IsOperand (.resource u)) := by
  intro position
  refine ⟨_, .uri hne hu, fun mode => ?_⟩
  exact ⟨⟨_, [], _, _⟩, _, fun _ => rfl, rfl, rfl, rfl⟩

theorem resourceType {name : Text} (hne : name ≠ [])
    (hname : ∀ c ∈ name, Text.isBlank c = false ∧ c ∉ ['(', ')', '"'])
    (hhead : ∀ c ∈ name.head?, c ∉ ['<', '>', '=']) :
    Legible (['t', 'y', 'p', 'e', ':'] ++ name) (IsOperand (.resourceType name)) := by
  intro position
  have hr := Restriction.ofWord?_type hhead
  have htype := Restriction.namesType_type hne
  refine ⟨_, .word (Restriction.isWordChar_type hname) (by decide), fun mode => ?_⟩
  let w := 't' :: (['y', 'p', 'e', ':'] ++ name)
  let span : Span := ⟨position, w.length⟩
  refine ⟨⟨some (.resourceType span name), [], span.stop, none⟩, _, fun more => ?_, rfl, rfl, rfl⟩
  have hcolon : ':' ∈ w := by simp [w]
  calc (Reading.clauses mode more).token mode ⟨position, .word w⟩
      = (Reading.clauses mode more).word mode position w :=
        Clauses.token_word mode position _ (by decide) hcolon (by decide) (by decide)
    _ = (Reading.clauses mode more).operand (.ofRestriction position w _ none) :=
        Clauses.word_of_value _ hr hne
    _ = _ := by
        rw [Operand.ofRestriction_of_namesType htype]
        rfl

theorem comparison {property spelling : Text} {comparator : Comparator} (hne : property ≠ [])
    (hproperty : ∀ c ∈ property, Restriction.isPropertyChar c = true)
    (hminus : property.head? ≠ some '-')
    (hspelling : (spelling, comparator) ∈ Comparator.spellings) (h : Legible text (Reads rank s)) :
    Legible (property ++ spelling ++ ('(' :: text ++ [')']))
      (IsOperand (.comparison property comparator s)) := by
  intro position
  have hword := Restriction.isWordChar_spelling hproperty hspelling
  have hr := Restriction.ofWord?_spelling hne hproperty hspelling
  obtain ⟨hsigns, hsign⟩ := Restriction.spelling_signs _ hspelling
  obtain ⟨sign, signs, rfl⟩ := List.exists_cons_of_ne_nil hsigns
  obtain ⟨first, letters, rfl⟩ := List.exists_cons_of_ne_nil hne
  let w := first :: (letters ++ sign :: signs)
  have hfirst := hproperty first List.mem_cons_self
  have hfront : sign ∈ Comparator.signs := hsign List.mem_cons_self
  -- the text of the value begins behind the word and its parenthesis
  obtain ⟨ps, hspelled, hreads⟩ := h (position + w.length + 1)
  have hless : first ≠ '<' := Restriction.ne_of_isPropertyChar hfirst (by decide)
  refine ⟨_, (Spelled.word hword hless).append (by decide) hspelled.group, fun mode => ?_⟩
  obtain ⟨t, hquery, hsense⟩ := (hreads mode).isQuery
  obtain ⟨stop, hgroup⟩ := Reading.clauses_group ⟨position + w.length, .opening⟩
    ⟨position + w.length + 1 + text.length, .closing⟩ hquery
  let span : Span := .between position (max stop (position + w.length))
  refine ⟨⟨some (.comparison span (first :: letters) comparator t), [], stop, none⟩, _,
    fun more => ?_, rfl, rfl, by rw [Term.sense, hsense]⟩
  have hmember : sign ∈ w := by simp [w]
  have hbang : first ≠ '!' := Restriction.ne_of_isPropertyChar hfirst (by decide)
  have hdash : first ≠ '-' := fun heq => hminus (congrArg some heq)
  calc (Reading.clauses mode (.group _ ps _ :: more)).token mode ⟨position, .word w⟩
      = (Reading.clauses mode (.group _ ps _ :: more)).word mode position w :=
        Clauses.token_word mode position _ hfront hmember hdash hbang
    _ = ((Reading.clauses mode more).operand _).word mode position w := by rw [hgroup more]
    _ = (Reading.clauses mode more).operand (.ofRestriction position w _ (some _)) :=
        Clauses.word_of_glued _ hr rfl rfl
    _ = _ := by rw [Operand.ofRestriction_of_term position w (first :: letters) comparator rfl]

theorem negation (h : Legible text (IsOperand s)) :
    Legible (['N', 'O', 'T'] ++ ' ' :: text) (IsOperand (.negation s)) := by
  intro position
  obtain ⟨ps, hspelled, hreads⟩ := h (position + 3 + 1)
  have hword : ['N', 'O', 'T'].all Lexeme.isWordChar = true := by decide
  refine ⟨_, (Spelled.word hword (by decide)).append (by decide) hspelled.blank, fun mode => ?_⟩
  obtain ⟨o, t, hclauses, hterm, hfaults, hsense⟩ := hreads mode
  let operator : Token := ⟨position, .word ['N', 'O', 'T']⟩
  refine ⟨o.negate operator, .negation (.between position t.stop) t, fun more => ?_, ?_, ?_, ?_⟩
  · change Clauses.token mode operator (Reading.clauses mode (ps ++ more)) = _
    rw [hclauses more]
    rfl
  · simp only [Operand.negate, hterm]
    rfl
  · simp only [Operand.negate, hterm, hfaults]
  · rw [Term.sense, hsense]

theorem between {c : Char} {w more : Text} {reading rest both : Mode → List Piece → Prop}
    (hw : (c :: w).all Lexeme.isWordChar = true) (hc : c ≠ '<')
    (h : Legible text reading) (hmore : Legible more rest)
    (hboth : ∀ mode ps qs start, reading mode ps → rest mode qs →
      both mode (ps ++ .token ⟨start, .word (c :: w)⟩ :: qs)) :
    Legible (text ++ ' ' :: (c :: w ++ ' ' :: more)) both := by
  intro position
  obtain ⟨ps, hps, hreading⟩ := h position
  obtain ⟨qs, hqs, hrest⟩ := hmore (position + text.length + 1 + (c :: w).length + 1)
  have hoperator := (Spelled.word hw hc).append (by decide) hqs.blank
  refine ⟨_, hps.append (by decide) hoperator.blank, fun mode => ?_⟩
  exact hboth mode ps qs _ (hreading mode) (hrest mode)

/-- Members of a junction, if reading them goes by `all` from the last to the first. -/
theorem members (limit : Nat) (c : Char) (w : Text)
    (all : List Sense → Mode → List Piece → Prop)
    (hw : (c :: w).all Lexeme.isWordChar = true) (hc : c ≠ '<')
    (hlast : ∀ s mode ps, Reads limit s mode ps → all [s] mode ps)
    (hcons : ∀ s ss mode ps qs start, Reads limit s mode ps → all ss mode qs →
      all (s :: ss) mode (ps ++ .token ⟨start, .word (c :: w)⟩ :: qs))
    (p : Phrase) (ps : List Phrase)
    (h : ∀ q ∈ p :: ps, Legible q.render (Reads q.rank q.sense)) :
    Legible (Phrase.renderAll limit (c :: w) (p :: ps)) (all (Phrase.senses (p :: ps))) := by
  induction ps generalizing p with
  | nil =>
    have hlegible := (h p List.mem_cons_self).enclose limit
    exact hlegible.mono fun mode pieces => hlast _ mode pieces
  | cons q ps ih =>
    have hlegible := (h p List.mem_cons_self).enclose limit
    have hmore := ih q fun r hr => h r (List.mem_cons_of_mem p hr)
    apply hlegible.between hw hc hmore
    intro mode pieces rest start hreads hall
    exact hcons _ _ mode pieces rest start hreads hall

theorem conjunction {ps : List Phrase} (hps : 2 ≤ ps.length)
    (h : ∀ p ∈ ps, Legible p.render (Reads p.rank p.sense)) :
    Legible (Phrase.renderAll 0 ['A', 'N', 'D'] ps)
      (IsClause (.conjunction (Phrase.senses ps))) := by
  have hlength : 2 ≤ (Phrase.senses ps).length := by rwa [Phrase.length_senses]
  obtain ⟨p, ps, rfl⟩ := List.exists_cons_of_length_pos (Nat.lt_of_lt_of_le Nat.two_pos hps)
  have hmembers := members 0 'A' ['N', 'D'] IsConjunction (by decide) (by decide)
    (fun _ _ _ hp => IsOperand.isConjunction hp)
    (fun _ _ _ _ _ start hp hq => hq.cons hp start) p ps h
  apply hmembers.mono
  intro mode pieces hread
  exact hread.isClause hlength

theorem disjunction {ps : List Phrase} (hps : 2 ≤ ps.length)
    (h : ∀ p ∈ ps, Legible p.render (Reads p.rank p.sense)) :
    Legible (Phrase.renderAll 1 ['O', 'R'] ps)
      (IsQuery (.disjunction (Phrase.senses ps))) := by
  have hlength : 2 ≤ (Phrase.senses ps).length := by rwa [Phrase.length_senses]
  obtain ⟨p, ps, rfl⟩ := List.exists_cons_of_length_pos (Nat.lt_of_lt_of_le Nat.two_pos hps)
  have hmembers := members 1 'O' ['R'] IsDisjunction (by decide) (by decide)
    (fun _ _ _ hp => IsClause.isDisjunction hp)
    (fun _ _ _ _ _ start hp hq => hq.cons hp start) p ps h
  apply hmembers.mono
  intro mode pieces hread
  exact hread.isQuery hlength

end Legible

namespace Phrase

mutual
/-- Every phrase is read as what it says, as tightly as its rank holds it together. -/
theorem legible : (p : Phrase) → p.Writable → Legible p.render (Reads p.rank p.sense)
  | literal _, htext => .literal htext
  | resource _, ⟨hne, huri⟩ => .resource hne huri
  | resourceType _, ⟨hne, hname, hhead⟩ => .resourceType hne hname hhead
  | comparison _ _ _ value, ⟨hne, hproperty, hminus, hspelling, hvalue⟩ => by
    apply Legible.comparison hne _ hminus hspelling (legible value hvalue)
    intro c hc
    exact Restriction.isPropertyChar_iff.2 (hproperty c hc)
  | negation operand, hoperand => ((legible operand hoperand).enclose 0).negation
  | conjunction members, ⟨hlength, hmembers⟩ =>
    .conjunction hlength (all_legible members hmembers)
  | disjunction members, ⟨hlength, hmembers⟩ =>
    .disjunction hlength (all_legible members hmembers)

theorem all_legible : (ps : List Phrase) → AllWritable ps →
    ∀ p ∈ ps, Legible p.render (Reads p.rank p.sense)
  | [], _, _, hp => absurd hp List.not_mem_nil
  | q :: ps, ⟨hq, hps⟩, p, hp => by
    have hfirst := legible q hq
    rcases List.mem_cons.1 hp with rfl | hmem
    · exact hfirst
    · exact all_legible ps hps p hmem
end

end Phrase

/-- A phrase that is written down reads without fault, and as what it says. -/
theorem Query.ofText_render (mode : Mode) (p : Phrase) (hp : p.Writable) :
    (Query.ofText mode p.render).faults = [] ∧
      (Query.ofText mode p.render).term.map Term.sense = some p.sense := by
  obtain ⟨ps, hspelled, hreads⟩ := p.legible hp 0
  obtain ⟨t, hquery, hsense⟩ := (hreads mode).isQuery
  rw [Query.ofText_spelled hspelled hquery]
  exact ⟨rfl, congrArg some hsense⟩

/-- The phrase `NOT ("a b" AND type:Image AND type>=(<x:y> OR "" AND ("*" OR "!")))`. -/
theorem Query.ofText_render_nested :
    let p : Phrase := .negation (.conjunction [.literal ['a', ' ', 'b'],
      .resourceType ['I', 'm', 'a', 'g', 'e'],
      .comparison ['t', 'y', 'p', 'e'] ['>', '='] .atLeast (.disjunction [.resource ['x', ':', 'y'],
        .conjunction [.literal [], .disjunction [.literal ['*'], .literal ['!']]]])])
    p.Writable ∧ (Query.ofText .filenames p.render).faults = [] ∧
      (Query.ofText .filenames p.render).term.map Term.sense = some p.sense := by
  intro p
  have hp : p.Writable := by
    simp [p, Phrase.Writable, Phrase.AllWritable, Comparator.spellings, Text.isBlank, Text.within,
      Text.blankRanges, Text.isAlphanumeric]
  exact ⟨hp, Query.ofText_render .filenames p hp⟩

end QueryLine
