import QueryLine.Proofs.Spelling
import QueryLine.Query.Restriction

/-!
What words are made of: the characters of a property, those of a comparator, and how a word that
restricts a property is taken apart.
-/

namespace QueryLine

namespace Text

theorem ranges_apart : (blankRanges.all fun r =>
    alphanumericRanges.all fun s => s.2 < r.1 || r.2 < s.1) = true := by decide +kernel

theorem isBlank_of_isAlphanum {c : Char} (h : c.isAlphanum = true) : isBlank c = false := by
  have hrange : (48 ≤ c.toNat ∧ c.toNat ≤ 57) ∨ (65 ≤ c.toNat ∧ c.toNat ≤ 90) ∨
      (97 ≤ c.toNat ∧ c.toNat ≤ 122) := by
    rcases Bool.or_eq_true_iff.1 h with halpha | hdigit
    · rcases Bool.or_eq_true_iff.1 halpha with hupper | hlower
      · exact .inr (.inl (of_decide_eq_true hupper))
      · have hbounds := Bool.and_eq_true_iff.1 hlower
        exact .inr (.inr ⟨of_decide_eq_true hbounds.1, of_decide_eq_true hbounds.2⟩)
    · have hbounds := Bool.and_eq_true_iff.1 hdigit
      exact .inl ⟨of_decide_eq_true hbounds.1, of_decide_eq_true hbounds.2⟩
  simp only [isBlank, within, blankRanges, List.any_cons, List.any_nil, Bool.or_false,
    Bool.or_eq_false_iff, Bool.and_eq_false_iff, decide_eq_false_iff_not]
  omega

theorem isBlank_of_isAlphanumeric {c : Char} (h : isAlphanumeric c = true) :
    isBlank c = false := by
  rw [isAlphanumeric, Bool.or_eq_true, Bool.and_eq_true] at h
  rcases h with hascii | ⟨-, hwithin⟩
  · exact isBlank_of_isAlphanum hascii
  · apply Bool.eq_false_iff.2
    intro hblank
    obtain ⟨s, hs, hin⟩ := List.any_eq_true.1 hwithin
    obtain ⟨r, hr, hin'⟩ := List.any_eq_true.1 hblank
    have hapart := List.all_eq_true.1 (List.all_eq_true.1 ranges_apart r hr) s hs
    simp only [Bool.and_eq_true, Bool.or_eq_true, decide_eq_true_eq] at hin hin' hapart
    omega

end Text

/-- What comparators are spelled with. -/
def Comparator.signs : Text := [':', '>', '<', '=']

namespace Restriction

theorem isPropertyChar_iff {c : Char} :
    isPropertyChar c = true ↔ Text.isAlphanumeric c = true ∨ c ∈ ['_', '-', '.'] := by
  simp [isPropertyChar, or_assoc]

theorem ne_of_isPropertyChar {c d : Char} (h : isPropertyChar c = true)
    (hd : isPropertyChar d = false) : c ≠ d := by
  rintro rfl
  exact absurd h (Bool.eq_false_iff.1 hd)

theorem isWordChar_of_isPropertyChar {c : Char} (h : isPropertyChar c = true) :
    Lexeme.isWordChar c = true := by
  have hopen : c ≠ '(' := ne_of_isPropertyChar h (by decide)
  have hclose : c ≠ ')' := ne_of_isPropertyChar h (by decide)
  have hquote : c ≠ '"' := ne_of_isPropertyChar h (by decide)
  have hmarks : ['_', '-', '.'].all (fun d => !Text.isBlank d) = true := by decide
  have hblank : Text.isBlank c = false := by
    rcases isPropertyChar_iff.1 h with halpha | hmark
    · exact Text.isBlank_of_isAlphanumeric halpha
    · simpa using List.all_eq_true.1 hmarks c hmark
  simp [Lexeme.isWordChar, hblank, hopen, hclose, hquote]

/-- A word splits where its property ends. -/
theorem ofWord?_append (property rest : Text) (hne : property ≠ [])
    (hproperty : ∀ c ∈ property, isPropertyChar c = true)
    (hrest : ∀ c ∈ rest.head?, isPropertyChar c = false) :
    ofWord? (property ++ rest) = (comparator? rest).map fun (comparator, value) =>
      ⟨property, comparator, value⟩ := by
  have htake : (property ++ rest).takeWhile isPropertyChar = property :=
    Lexeme.takeWhile_exact hproperty hrest
  simp [ofWord?, htake, hne]

/-- A spelling alone is that of its comparator, whatever shorter ones it starts with. -/
theorem comparator?_spelling : ∀ e ∈ Comparator.spellings, comparator? e.1 = some (e.2, []) := by
  decide

theorem spelling_signs : ∀ e ∈ Comparator.spellings, e.1 ≠ [] ∧ e.1 ⊆ Comparator.signs := by
  decide

theorem isWordChar_of_sign {c : Char} (h : c ∈ Comparator.signs) :
    Lexeme.isWordChar c = true := by
  have hsigns : Comparator.signs.all Lexeme.isWordChar = true := by decide
  exact List.all_eq_true.1 hsigns c h

theorem isPropertyChar_of_sign {c : Char} (h : c ∈ Comparator.signs) :
    isPropertyChar c = false := by
  have hsigns : Comparator.signs.all (fun d => !isPropertyChar d) = true := by decide
  simpa using List.all_eq_true.1 hsigns c h

theorem comparator?_contains {value : Text} (h : ∀ c ∈ value.head?, c ∉ ['<', '>', '=']) :
    comparator? (':' :: value) = some (.contains, value) := by
  cases value with
  | nil => rfl
  | cons c value =>
    have hc := h c rfl
    simp only [List.mem_cons, List.not_mem_nil, or_false, not_or] at hc
    obtain ⟨hless, hgreater, hequal⟩ := hc
    simp [comparator?, Comparator.spellings, Ne.symm hless, Ne.symm hgreater, Ne.symm hequal]

theorem ofWord?_spelling {property spelling : Text} {comparator : Comparator} (hne : property ≠ [])
    (hproperty : ∀ c ∈ property, isPropertyChar c = true)
    (hspelling : (spelling, comparator) ∈ Comparator.spellings) :
    ofWord? (property ++ spelling) = some ⟨property, comparator, []⟩ := by
  have hsigns := (spelling_signs _ hspelling).2
  have hhead : ∀ c ∈ spelling.head?, isPropertyChar c = false := by
    intro c hc
    exact isPropertyChar_of_sign (hsigns (List.mem_of_mem_head? hc))
  rw [ofWord?_append property spelling hne hproperty hhead]
  simp only [comparator?_spelling _ hspelling, Option.map_some]

theorem isWordChar_spelling {property spelling : Text} {comparator : Comparator}
    (hproperty : ∀ c ∈ property, isPropertyChar c = true)
    (hspelling : (spelling, comparator) ∈ Comparator.spellings) :
    (property ++ spelling).all Lexeme.isWordChar = true := by
  have hsigns := (spelling_signs _ hspelling).2
  apply List.all_eq_true.2
  intro c hc
  rcases List.mem_append.1 hc with hp | hs
  · exact isWordChar_of_isPropertyChar (hproperty c hp)
  · exact isWordChar_of_sign (hsigns hs)

theorem ofWord?_type {name : Text} (hhead : ∀ c ∈ name.head?, c ∉ ['<', '>', '=']) :
    ofWord? (['t', 'y', 'p', 'e', ':'] ++ name) = some ⟨['t', 'y', 'p', 'e'], .contains, name⟩ := by
  have hletters : ['t', 'y', 'p', 'e'].all isPropertyChar = true := by decide
  have hcolon : ∀ c ∈ (':' :: name).head?, isPropertyChar c = false := by
    rintro c ⟨⟩
    decide
  have hsplit := ofWord?_append ['t', 'y', 'p', 'e'] (':' :: name) (by decide)
    (List.all_eq_true.1 hletters) hcolon
  rw [comparator?_contains hhead] at hsplit
  exact hsplit

theorem namesType_type {name : Text} (hne : name ≠ []) :
    namesType ⟨['t', 'y', 'p', 'e'], .contains, name⟩ = true := by
  have hlower : (Text.lower ['t', 'y', 'p', 'e'] == "type".toList) = true := by decide
  unfold namesType
  rw [hlower]
  simp [hne]

theorem isWordChar_type {name : Text}
    (hname : ∀ c ∈ name, Text.isBlank c = false ∧ c ∉ ['(', ')', '"']) :
    (['t', 'y', 'p', 'e', ':'] ++ name).all Lexeme.isWordChar = true := by
  have hletters : ['t', 'y', 'p', 'e', ':'].all Lexeme.isWordChar = true := by decide
  rw [List.all_append, hletters, Bool.true_and, List.all_eq_true]
  intro c hc
  have hmarks := hname c hc
  simp only [List.mem_cons, List.not_mem_nil, or_false, not_or] at hmarks
  simp [Lexeme.isWordChar, hmarks]

end Restriction

namespace Keyword

theorem ofText?_eq_none {w : Text} {c : Char} (hc : c ∈ Comparator.signs) (hw : c ∈ w) :
    ofText? w = none := by
  have hspellings : ∀ e ∈ spellings, e.1.all (· ∉ Comparator.signs) = true := by decide
  rw [ofText?, List.lookup_eq_none_iff]
  intro e he
  rw [bne_iff_ne]
  rintro rfl
  have hsign := List.all_eq_true.1 (hspellings e he) c hw
  exact of_decide_eq_true hsign hc

end Keyword

/-- The operator that a token is. -/
def Token.keyword? (t : Token) : Option Keyword :=
  match t.lexeme with
  | .word w => Keyword.ofText? w
  | _ => none

theorem Token.exists_word_of_keyword {t : Token} {k : Keyword} (h : t.keyword? = some k) :
    ∃ w, t.lexeme = .word w ∧ Keyword.ofText? w = some k := by
  unfold keyword? at h
  split at h
  · rename_i w hlexeme
    exact ⟨w, hlexeme, h⟩
  · cases h

end QueryLine
