import QueryLine.Proofs.Consecutive
import QueryLine.Proofs.Spelling

/-!
Tokens of one text against those of another. A text is used up lexeme by lexeme, so two texts are
compared by what each lexeme is when other characters stand behind it.
-/

namespace QueryLine

namespace Lexeme

/-- Only a `>` behind a text could end a resource that the text leaves open. -/
theorem uri?_append {more : Text} (hmore : '>' ∉ more) (t : Text) :
    uri? (t ++ more) = uri? t := by
  let p : Char → Bool := fun c => !Text.isBlank c && c ≠ '>'
  have hinside : (t ++ more).takeWhile p =
      if (t.takeWhile p).length = t.length then t ++ more.takeWhile p else t.takeWhile p :=
    List.takeWhile_append
  by_cases hall : (t.takeWhile p).length = t.length
  · rw [if_pos hall] at hinside
    -- no character of the text ends it, and none behind the text does
    have hbehind : (t ++ more).drop (t ++ more.takeWhile p).length =
        more.drop (more.takeWhile p).length := by
      rw [List.length_append, List.drop_append, List.drop_eq_nil_of_le (Nat.le_add_right _ _)]
      simp
    have hnone : (more.drop (more.takeWhile p).length).head? ≠ some '>' := fun hhead =>
      hmore (List.mem_of_mem_drop (List.mem_of_head? hhead))
    have hend : t.drop (t.takeWhile p).length = [] := by
      rw [hall]
      exact List.drop_length
    unfold uri?
    dsimp only
    rw [hinside, hbehind, hend, decide_eq_false hnone]
    simp
  · rw [if_neg hall] at hinside
    have hlt : (t.takeWhile p).length < t.length :=
      Nat.lt_of_le_of_ne (List.takeWhile_prefix p).length_le hall
    have hhead : ((t ++ more).drop (t.takeWhile p).length).head? =
        (t.drop (t.takeWhile p).length).head? := by
      rw [List.drop_append_of_le_length (Nat.le_of_lt hlt), List.head?_append]
      rw [List.head?_drop, List.getElem?_eq_getElem hlt]
      rfl
    unfold uri?
    dsimp only
    rw [hinside, hhead]

theorem starting_append {c : Char} {t more : Text} (hmore : Apart more) (hend : '>' ∉ more)
    (hclosed : ∀ w, starting c t ≠ quoted w false) : starting c (t ++ more) = starting c t := by
  unfold starting at *
  split
  · rfl
  · rename_i hopening
    split
    · rfl
    · rename_i hclosing
      split
      · rename_i hquote
        have hlt : (t.takeWhile (· ≠ '"')).length < t.length := by
          apply Nat.lt_of_not_le
          intro hge
          apply hclosed (t.takeWhile (· ≠ '"'))
          rw [if_neg hopening, if_neg hclosing, if_pos hquote]
          dsimp only
          rw [decide_eq_false (Nat.not_lt.2 hge)]
        have htake : (t ++ more).takeWhile (· ≠ '"') = t.takeWhile (· ≠ '"') := by
          rw [List.takeWhile_append, if_neg (Nat.ne_of_lt hlt)]
        have hmore := Nat.lt_of_lt_of_le hlt (Nat.le_add_right t.length more.length)
        dsimp only
        rw [htake, List.length_append, decide_eq_true hlt, decide_eq_true hmore]
      · rw [uri?_append hend, takeWhile_append_stop hmore]

end Lexeme

namespace Token

theorem scan_induction {motive : Nat → Text → Prop} (nil : ∀ position, motive position [])
    (blank : ∀ position c rest, Text.isBlank c = true → motive (position + 1) rest →
      motive position (c :: rest))
    (lexeme : ∀ position c t rest, Text.isBlank c = false →
      (Lexeme.starting c (t ++ rest)).spelling = c :: t →
      motive (position + (t.length + 1)) rest → motive position (c :: (t ++ rest)))
    (position : Nat) (text : Text) : motive position text := by
  match text with
  | [] => exact nil position
  | c :: rest =>
    cases hblank : Text.isBlank c with
    | true =>
      exact blank position c rest hblank (scan_induction nil blank lexeme (position + 1) rest)
    | false =>
      obtain ⟨⟨more, hmore⟩, hne, -⟩ := Lexeme.spelling_starting c rest
      obtain ⟨d, t, hspelling⟩ := List.exists_cons_of_ne_nil hne
      rw [hspelling] at hmore
      obtain ⟨rfl, rfl⟩ := List.cons.inj hmore
      have hshorter : more.length < (d :: (t ++ more)).length := by
        rw [List.length_cons, List.length_append]
        omega
      exact lexeme position d t more hblank hspelling
        (scan_induction nil blank lexeme (position + (t.length + 1)) more)
  termination_by text.length

theorem scan_starting {position : Nat} {c : Char} {t rest : Text} (hc : Text.isBlank c = false)
    (hspelling : (Lexeme.starting c (t ++ rest)).spelling = c :: t) :
    scan position 0 (c :: (t ++ rest)) =
      ⟨position, Lexeme.starting c (t ++ rest)⟩ :: scan (position + (t.length + 1)) 0 rest := by
  have hscan := @scan_lexeme position c t rest _ hc rfl hspelling
  rwa [hspelling, List.cons_append, List.length_cons] at hscan

def isOpen (t : Token) : Bool :=
  match t.lexeme with
  | .quoted _ false => true
  | _ => false

/-- Tokens stay what they are when something is written behind the text that is apart from it. -/
theorem scan_append {more : Text} (hmore : Lexeme.Apart more) (hend : '>' ∉ more)
    (position : Nat) (text : Text) (hclosed : ∀ t ∈ scan position 0 text, t.isOpen = false) :
    scan position 0 (text ++ more) =
      scan position 0 text ++ scan (position + text.length) 0 more := by
  induction position, text using scan_induction with
  | nil position => rfl
  | blank position c rest hc ih =>
    rw [cuts.blank hc] at hclosed ⊢
    rw [List.cons_append, cuts.blank hc, ih hclosed, List.length_cons, Nat.add_right_comm]
    rfl
  | lexeme position c t rest hc hspelling ih =>
    rw [scan_starting hc hspelling] at hclosed ⊢
    obtain ⟨hfirst, hrest⟩ := List.forall_mem_cons.1 hclosed
    have hsame : Lexeme.starting c (t ++ (rest ++ more)) = Lexeme.starting c (t ++ rest) := by
      rw [← List.append_assoc]
      apply Lexeme.starting_append hmore hend
      intro w hw
      rw [isOpen, hw] at hfirst
      cases hfirst
    have hlength : position + (c :: (t ++ rest)).length =
        position + (t.length + 1) + rest.length := by
      rw [List.length_cons, List.length_append]
      omega
    rw [List.cons_append, List.append_assoc, scan_starting hc (by rw [hsame, hspelling]), hsame,
      ih hrest, hlength]
    rfl

def moved (n : Nat) (t : Token) : Token := { t with start := t.start + n }

end Token
end QueryLine
