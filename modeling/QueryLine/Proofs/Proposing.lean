import Mathlib.Data.List.Nodup
import QueryLine.Proofs.LooseCase
import QueryLine.Proofs.Matching

/-!
What is proposed while a value is typed. A value that is bound to the text in front of it makes one
word with that. A value that is a word of its own is first taken for the start of a new pattern, and
only if it starts none for the value of the one in front.
-/

namespace QueryLine

/-- Fixed text that a value is written right behind. -/
structure Text.Binds (t : Text) : Prop where
  binds : bindsNext t = true
  single : (PatternPart.fixed t).alternatives = [t]
  unbroken : Unbroken t
  lower : lower t = t
  /-- Its lower case does not hang on what is written behind it. -/
  sigma : 'Σ' ∉ t
  /-- No part of it is half of what another character becomes in lower case. -/
  dot : '\u0307' ∉ t

/-- Fixed text that is a word of its own. -/
structure Text.Apart (t : Text) : Prop where
  binds : bindsNext t = false
  ne_nil : t ≠ []
  unbroken : Unbroken t

instance (t : Text) : Decidable t.Apart :=
  decidable_of_iff (bindsNext t = false ∧ t ≠ [] ∧ t.Unbroken)
    ⟨fun ⟨hbinds, hne, hunbroken⟩ => ⟨hbinds, hne, hunbroken⟩,
      fun h => ⟨h.binds, h.ne_nil, h.unbroken⟩⟩

theorem Text.Binds.exists_operator {t : Text} (h : t.Binds) :
    ∃ s d, t = s ++ [d] ∧ isOperator d = true := by
  have hbinds := h.binds
  unfold bindsNext at hbinds
  cases hlast : t.getLast? with
  | none =>
    rw [hlast] at hbinds
    cases hbinds
  | some d =>
    rw [hlast] at hbinds
    obtain ⟨s, hs⟩ := List.getLast?_eq_some_iff.1 hlast
    exact ⟨s, d, hs, hbinds⟩

namespace Pattern

/-- How a pattern asks for a value: behind the one text that binds it, or behind words, of which the
first stands for none of the others. -/
inductive Asks : List PatternPart → Prop
  | bound (t : Text) (h : t.Binds) : Asks [.fixed t, .placeholder]
  | apart (t : Text) (ps : List PatternPart) (single : bindsNext t = false)
      (words : ∀ p ∈ .fixed t :: ps, ∀ a ∈ p.alternatives, a.Apart)
      (others : ∀ p ∈ ps, ∀ a ∈ p.alternatives, Rule.covers (.fixed t) a = false) :
      Asks (.fixed t :: (ps ++ [.placeholder]))

def spell (choices : List Text) : Text := choices.flatMap fun a => a ++ gap (bindsNext a)

theorem spell_cons {a : Text} (ha : a.Apart) (choices : List Text) :
    spell (a :: choices) = a ++ ' ' :: spell choices := by
  rw [spell, List.flatMap_cons, ha.binds, List.append_assoc]
  rfl

theorem endsBlank_spell {choices : List Text} (h : ∀ a ∈ choices, a.Apart) :
    (spell choices).EndsBlank := by
  induction choices with
  | nil => exact Text.endsBlank_nil
  | cons a choices ih =>
    obtain ⟨ha, hmore⟩ := List.forall_mem_cons.1 h
    rw [spell_cons ha, List.append_cons]
    exact (Text.endsBlank_concat rfl a).append (ih hmore)

theorem forall_mem_choices {choices : List Text} {ps : List PatternPart} {P : Text → Prop}
    (hchoices : List.Forall₂ (fun a p => a ∈ p.alternatives) choices ps)
    (h : ∀ p ∈ ps, ∀ a ∈ p.alternatives, P a) : ∀ a ∈ choices, P a := by
  induction hchoices with
  | nil => simp
  | cons ha _ ih =>
    obtain ⟨hp, hps⟩ := List.forall_mem_cons.1 h
    exact List.forall_mem_cons.2 ⟨hp _ ha, ih hps⟩

end Pattern

theorem Word.scan_spell_cons {a : Text} (ha : a.Apart) (choices : List Text) (position : Nat) :
    scan position 0 (Pattern.spell (a :: choices)) =
      ⟨position, a⟩ :: scan (position + a.length + 1) 0 (Pattern.spell choices) := by
  have hblank : ∀ c ∈ (' ' :: Pattern.spell choices).head?, Text.isBlank c = true := by
    intro c hc
    obtain rfl := Option.some.inj hc
    rfl
  rw [Pattern.spell_cons ha, scan_word ha.ne_nil ha.unbroken hblank, cuts.blank rfl]

theorem Word.texts_scan_spell {choices : List Text} (h : ∀ a ∈ choices, a.Apart) (position : Nat) :
    (scan position 0 (Pattern.spell choices)).map (·.text) = choices := by
  induction choices generalizing position with
  | nil => rfl
  | cons a choices ih =>
    obtain ⟨ha, hmore⟩ := List.forall_mem_cons.1 h
    rw [scan_spell_cons ha, List.map_cons, ih hmore]

namespace Rule

variable {r : Rule} {caret : Nat} {a t v : Text}

theorem asks_of_mem (hr : r ∈ all) (h : .placeholder ∈ r.pattern) : Pattern.Asks r.pattern := by
  simp only [all, List.mem_cons, List.not_mem_nil, or_false] at hr
  rcases hr with rfl | rfl | rfl | rfl | rfl | rfl | rfl | rfl
  · exact .bound "tag:".toList ⟨rfl, rfl, by decide, rfl, by decide, by decide⟩
  · exact .bound "from:".toList ⟨rfl, rfl, by decide, rfl, by decide, by decide⟩
  · exact .apart "sent".toList [.fixed "by".toList] rfl (by decide) (by decide)
  · exact .apart "modified".toList [.fixed "after|since".toList] rfl (by decide) (by decide)
  · exact .apart "modified".toList [.fixed "before|until".toList] rfl (by decide) (by decide)
  · exact .bound "size:>".toList ⟨rfl, rfl, by decide, rfl, by decide, by decide⟩
  · exact .bound "size:<".toList ⟨rfl, rfl, by decide, rfl, by decide, by decide⟩
  · -- a resource type is one of those there are
    exact absurd h (by decide)

theorem nodup_patterns : (all.map (·.pattern)).Nodup := by decide

/-- No two rules have one pattern, so a proposal is of the rule whose pattern it has. -/
theorem mem_at_iff {p : Proposal} {text : Text} (hr : r ∈ all) (hpattern : p.pattern = r.pattern) :
    p ∈ Proposal.at text caret ↔
      r.proposal? (text.take caret).length (Word.typed (text.take caret)) = some p := by
  refine List.mem_filterMap.trans ⟨?_, fun h => ⟨r, hr, h⟩⟩
  rintro ⟨other, hother, h⟩
  obtain ⟨w, more, matched, -, -, rfl⟩ := exists_suffix h
  obtain rfl : other = r := List.inj_on_of_nodup_map nodup_patterns hother hr hpattern
  exact h

/-- The value may as well be the start of the first word of the pattern. -/
def restarts (r : Rule) (v : Text) : Bool :=
  match r.pattern.head? with
  | some (.fixed t) =>
    !bindsNext t && (PatternPart.fixed t).alternatives.any (Text.startsWithLoosely · v)
  | _ => false

theorem restarts_of_pattern {ps : List PatternPart} (h : r.pattern = .fixed a :: ps) :
    r.restarts v =
      (!bindsNext a && (PatternPart.fixed a).alternatives.any (Text.startsWithLoosely · v)) := by
  rw [restarts, h]
  rfl

theorem covers_of_mem {p : PatternPart} {a : Text} (h : a ∈ p.alternatives) :
    covers p a = true := by
  cases p with
  | placeholder => cases h
  | fixed t => exact List.any_eq_true.2 ⟨a, h, beq_self_eq_true _⟩

theorem matched?_bound (ha : a.Binds) (hv : v ≠ []) :
    matched? [.fixed a, .placeholder] [] (a ++ v) = some 1 := by
  have hempty : (a ++ v).isEmpty = false := by simp [hv]
  have hlength : a.length < (a ++ v).length := by
    rw [List.length_append]
    exact Nat.lt_add_of_pos_right (List.length_pos_iff.2 hv)
  have hreach : reach (some .placeholder) (a ++ v) a = some 1 := by
    unfold reach
    rw [Text.not_startsWithLoosely_append ha.sigma hv, ha.binds, decide_eq_true hlength,
      Text.startsWithLoosely_append ha.sigma]
    rfl
  rw [matched?, hempty, ha.single]
  simp only [Bool.false_eq_true, if_false, List.head?_cons, List.findSome?_cons, hreach]

theorem proposal?_words {ps : List PatternPart}
    (hpattern : r.pattern = .fixed t :: (ps ++ [.placeholder]))
    (hbinds : ∀ a ∈ (PatternPart.fixed t).alternatives, bindsNext a = false)
    {first last : Word} {words : List Word} (hfirst : covers (.fixed t) first.text = true)
    (hwords : List.Forall₂ (fun w p => covers p w = true) (words.map (·.text)) ps)
    (hothers : ∀ w ∈ words, covers (.fixed t) w.text = false) (hlast : last.text ≠ []) :
    r.proposal? caret (first :: (words ++ [last])) =
      some (if (PatternPart.fixed t).alternatives.any (Text.startsWithLoosely · last.text) then
        r.offer caret last.start 0 else r.offer caret first.start (ps.length + 1)) := by
  have hlength : (words ++ [last]).length < r.pattern.length := by
    have hsame := hwords.length_eq
    rw [List.length_map] at hsame
    rw [hpattern, List.length_cons, List.length_append, List.length_append, hsame]
    exact Nat.lt_succ_self _
  have hwhole : r.match? (first :: (words ++ [last])) = some (ps.length + 1) := by
    have hall := List.Forall₂.cons (a := first.text) (b := PatternPart.fixed t) hfirst hwords
    rw [← List.cons_append, match?_append_singleton hpattern, hpattern, List.map_cons,
      ← List.cons_append, ← List.append_nil (first.text :: _), matched?_append hall]
    simp [matched?]
  -- the last word alone is tried first: it may start the pattern anew
  have halone : r.match? [last] =
      if (PatternPart.fixed t).alternatives.any (Text.startsWithLoosely · last.text) then some 0
      else none := by
    rw [← List.nil_append [last], match?_append_singleton hpattern, hpattern]
    exact matched?_first hlast hbinds
  rw [proposal?_cons, proposal?_of_not_covers hpattern hothers,
    proposal?_singleton (by simp [hpattern]), halone, if_pos hlength, hwhole]
  split
  · rfl
  · rfl

theorem proposal?_bound (hpattern : r.pattern = [.fixed a, .placeholder]) (ha : a.Binds)
    (ht : t.EndsBlank) (hv : v ≠ []) (hunbroken : v.Unbroken) :
    r.proposal? caret (Word.typed (t ++ (a ++ v))) = some (r.offer caret t.length 1) := by
  have hword : (a ++ v).Unbroken := by
    intro c hc
    exact (List.mem_append.1 hc).elim (ha.unbroken c) (hunbroken c)
  have hmatch : r.match? [⟨t.length, a ++ v⟩] = some 1 := by
    rw [← List.nil_append [_], match?_append_singleton hpattern, hpattern]
    exact matched?_bound ha hv
  apply Word.typed_behind ht hword ▸ proposal?_append _ _
  rw [proposal?_singleton (by simp [hpattern]), hmatch]
  rfl

theorem proposal?_apart {qs : List PatternPart}
    (hpattern : r.pattern = .fixed a :: (qs ++ [.placeholder]))
    (hparts : ∀ p ∈ .fixed a :: qs, ∀ b ∈ p.alternatives, b.Apart)
    (hothers : ∀ p ∈ qs, ∀ b ∈ p.alternatives, covers (.fixed a) b = false) {choices : List Text}
    (hchoices : List.Forall₂ (fun b p => b ∈ p.alternatives) choices (.fixed a :: qs))
    (ht : t.EndsBlank) (hv : v ≠ []) (hunbroken : v.Unbroken) :
    r.proposal? caret (Word.typed (t ++ Pattern.spell choices ++ v)) =
      some (if (PatternPart.fixed a).alternatives.any (Text.startsWithLoosely · v) then
        r.offer caret (t ++ Pattern.spell choices).length 0
        else r.offer caret t.length (qs.length + 1)) := by
  have happart := Pattern.forall_mem_choices hchoices hparts
  obtain ⟨b, bs, hb, hbs, rfl⟩ := List.forall₂_cons_right_iff.1 hchoices
  let words := Word.scan (0 + t.length + b.length + 1) 0 (Pattern.spell bs)
  have htexts : words.map (·.text) = bs :=
    Word.texts_scan_spell (fun c hc => happart c (List.mem_cons_of_mem _ hc)) _
  have hcovers : List.Forall₂ (fun w p => covers p w = true) (words.map (·.text)) qs := by
    rw [htexts]
    exact hbs.imp fun _ _ => covers_of_mem
  have hnot : ∀ w ∈ words, covers (.fixed a) w.text = false := by
    intro w hw
    apply Pattern.forall_mem_choices hbs hothers
    rw [← htexts]
    exact List.mem_map_of_mem hw
  have hbinds : ∀ c ∈ (PatternPart.fixed a).alternatives, bindsNext c = false :=
    fun c hc => (hparts _ List.mem_cons_self c hc).binds
  -- the words in front stand apart from those of the texts, and the value from both
  have htyped : Word.typed (t ++ Pattern.spell (b :: bs) ++ v) = Word.scan 0 0 t ++
      (⟨0 + t.length, b⟩ :: (words ++ [⟨(t ++ Pattern.spell (b :: bs)).length, v⟩])) := by
    rw [Word.typed_behind (ht.append (Pattern.endsBlank_spell happart)) hunbroken,
      Word.scan_append ht, Word.scan_spell_cons (happart b List.mem_cons_self),
      List.append_assoc, List.cons_append]
  rw [htyped]
  apply proposal?_append
  rw [proposal?_words hpattern hbinds (covers_of_mem hb) hcovers hnot hv, Nat.zero_add]

theorem proposal?_value (hasks : Pattern.Asks r.pattern) {ps : List PatternPart}
    (hpattern : r.pattern = ps ++ [.placeholder]) {choices : List Text}
    (hchoices : List.Forall₂ (fun b p => b ∈ p.alternatives) choices ps)
    (ht : t.EndsBlank) (hv : v ≠ []) (hunbroken : v.Unbroken) :
    r.proposal? caret (Word.typed (t ++ Pattern.spell choices ++ v)) =
      some (if r.restarts v then r.offer caret (t ++ Pattern.spell choices).length 0
        else r.offer caret t.length ps.length) := by
  generalize hasked : r.pattern = pattern at hasks hpattern
  cases hasks with
  | bound a ha =>
    obtain rfl : ps = [.fixed a] := (List.append_left_inj [.placeholder]).1 hpattern.symm
    obtain ⟨b, hb, rfl⟩ : ∃ b ∈ (PatternPart.fixed a).alternatives, choices = [b] := by
      cases hchoices with
      | cons hb hrest =>
        cases hrest
        exact ⟨_, hb, rfl⟩
    rw [ha.single, List.mem_singleton] at hb
    subst hb
    have hspell : Pattern.spell [b] = b := by simp [Pattern.spell, Pattern.gap, ha.binds]
    rw [hspell, List.append_assoc, proposal?_bound hasked ha ht hv hunbroken,
      restarts_of_pattern hasked, ha.binds]
    rfl
  | apart a qs hsingle hparts hothers =>
    obtain rfl : ps = .fixed a :: qs := (List.append_left_inj [.placeholder]).1 hpattern.symm
    rw [proposal?_apart hasked hparts hothers hchoices ht hv hunbroken,
      restarts_of_pattern hasked, hsingle]
    rfl

end Rule

/-- While a value is typed, the rule that asks for it is proposed from where its texts start, unless
the value may as well be the start of the rule's own first word. Then only that is proposed. -/
theorem Proposal.typing_proposes {r : Rule} (hr : r ∈ Rule.all) {ps : List PatternPart}
    (hpattern : r.pattern = ps ++ [.placeholder]) {choices : List Text}
    (hchoices : List.Forall₂ (fun a p => a ∈ p.alternatives) choices ps) {t v : Text}
    (ht : t.EndsBlank) (hv : v ≠ []) (hunbroken : v.Unbroken) :
    let front := t ++ Pattern.spell choices
    let text := front ++ v
    (r.offer text.length t.length ps.length ∈ Proposal.at text text.length ↔
        r.restarts v = false) ∧
      (r.restarts v = true →
        r.offer text.length front.length 0 ∈ Proposal.at text text.length) := by
  intro front text
  have hasks : Pattern.Asks r.pattern := Rule.asks_of_mem hr (by simp [hpattern])
  have hps : 0 < ps.length := by
    apply List.length_pos_iff.2
    rintro rfl
    rw [hpattern] at hasks
    cases hasks
  have hvalue : r.proposal? text.length (Word.typed text) =
      some (if r.restarts v then r.offer text.length front.length 0
        else r.offer text.length t.length ps.length) :=
    Rule.proposal?_value hasks hpattern hchoices ht hv hunbroken
  rw [Rule.mem_at_iff hr rfl, Rule.mem_at_iff hr rfl, List.take_length, hvalue, Option.some.injEq,
    Option.some.injEq]
  cases r.restarts v with
  | true =>
    refine ⟨⟨fun h => ?_, fun h => nomatch h⟩, fun _ => rfl⟩
    have hmatched : 0 = ps.length := congrArg Proposal.matched h
    omega
  | false => exact ⟨⟨fun _ => rfl, fun _ => rfl⟩, fun h => nomatch h⟩

/-- A date behind another word, asked for in the second of two ways. -/
theorem Proposal.typing_proposes_since :
    let r : Rule := .ofNotation ["modified", "after|since", "%"] .date "Modified after a date"
    let choices : List Text := ["modified".toList, "since".toList]
    let t : Text := "x ".toList
    let v : Text := "2024".toList
    let text : Text := "x modified since 2024".toList
    (r ∈ Rule.all ∧ t.EndsBlank ∧ v ≠ [] ∧ v.Unbroken ∧ text = t ++ Pattern.spell choices ++ v) ∧
      r.offer 21 2 2 ∈ Proposal.at text 21 := by
  intro r choices t v text
  have hr : r ∈ Rule.all := by decide
  have hchoices : List.Forall₂ (fun a p => a ∈ p.alternatives) choices
      [PatternPart.fixed "modified".toList, .fixed "after|since".toList] :=
    .cons (by decide) (.cons (by decide) .nil)
  have ht : t.EndsBlank := Text.endsBlank_concat (c := ' ') rfl ['x']
  have hv : v ≠ [] := by decide
  have hunbroken : v.Unbroken := by decide
  have htext : t ++ Pattern.spell choices ++ v = text := by decide +kernel
  refine ⟨⟨hr, ht, hv, hunbroken, htext.symm⟩, ?_⟩
  obtain ⟨hproposes, -⟩ := Proposal.typing_proposes hr rfl hchoices ht hv hunbroken
  rw [htext] at hproposes
  exact hproposes.2 (by decide)

/-- A sender whose name starts like the first word is taken for that word. -/
theorem Proposal.typing_se_restarts :
    let r : Rule := .ofNotation ["sent", "by", "%"] .contact "Sent by a contact"
    let v : Text := "se".toList
    let text : Text := "sent by se".toList
    (r ∈ Rule.all ∧ v ≠ [] ∧ v.Unbroken ∧
        text = Pattern.spell ["sent".toList, "by".toList] ++ v) ∧
      r.offer 10 0 2 ∉ Proposal.at text 10 ∧ Proposal.at text 10 = [r.offer 10 8 0] := by
  decide +kernel

end QueryLine
