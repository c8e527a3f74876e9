import Mathlib.Data.List.Basic
import QueryLine.Completion.Edit
import QueryLine.Proofs.Spelling
import QueryLine.Query.Rule

/-!
The words in front of a caret. A text is used up word by word, so words of a text that goes on
behind a blank are those in front of the blank and those behind it.
-/

namespace QueryLine

namespace Text

/-- A word that is written behind the text stands alone. -/
def EndsBlank (t : Text) : Prop := ∀ c ∈ t.getLast?, isBlank c = true

def Unbroken (t : Text) : Prop := ∀ c ∈ t, isBlank c = false

instance (t : Text) : Decidable (Unbroken t) :=
  List.decidableBAll (isBlank · = false) t

theorem endsBlank_nil : EndsBlank [] := by
  intro c hc
  cases hc

theorem endsBlank_concat {c : Char} (hc : isBlank c = true) (t : Text) : EndsBlank (t ++ [c]) := by
  intro d hd
  rw [List.getLast?_concat] at hd
  obtain rfl := Option.some.inj hd
  exact hc

theorem EndsBlank.append {t u : Text} (ht : EndsBlank t) (hu : EndsBlank u) :
    EndsBlank (t ++ u) := by
  intro c hc
  rw [List.getLast?_append] at hc
  cases hlast : u.getLast? with
  | none =>
    rw [hlast, Option.none_or] at hc
    exact ht c hc
  | some d =>
    rw [hlast, Option.some_or] at hc
    exact hu c (hlast.trans hc)

theorem EndsBlank.right {t u : Text} (h : EndsBlank (t ++ u)) : EndsBlank u := by
  intro c hc
  apply h c
  rw [List.getLast?_append, Option.mem_def.1 hc, Option.some_or]
  rfl

theorem Unbroken.eq_nil {t : Text} (h : Unbroken t) (hends : EndsBlank t) : t = [] := by
  cases hlast : t.getLast? with
  | none => exact List.getLast?_eq_none_iff.1 hlast
  | some c =>
    have hblank := hends c hlast
    rw [h c (List.mem_of_getLast? hlast)] at hblank
    cases hblank

end Text

namespace Word

open Text (EndsBlank Unbroken)

theorem scan_induction {motive : Nat → Text → Prop} (nil : ∀ position, motive position [])
    (blank : ∀ position c rest, Text.isBlank c = true → motive (position + 1) rest →
      motive position (c :: rest))
    (word : ∀ position w rest, w ≠ [] → Unbroken w → (∀ c ∈ rest.head?, Text.isBlank c = true) →
      motive (position + w.length) rest → motive position (w ++ rest))
    (position : Nat) (text : Text) : motive position text := by
  match text with
  | [] => exact nil position
  | c :: rest =>
    cases hc : Text.isBlank c with
    | true => exact blank position c rest hc (scan_induction nil blank word (position + 1) rest)
    | false =>
      -- the word takes all up to the next blank
      let more := rest.takeWhile (!Text.isBlank ·)
      let behind := rest.dropWhile (!Text.isBlank ·)
      have hsplit : more ++ behind = rest := List.takeWhile_append_dropWhile
      have hshorter : behind.length < (c :: rest).length := by
        rw [← hsplit, List.length_cons, List.length_append]
        omega
      have hunbroken : Unbroken (c :: more) := by
        refine List.forall_mem_cons.2 ⟨hc, fun d hd => ?_⟩
        simpa using List.all_eq_true.1 List.all_takeWhile d hd
      have hhead : ∀ d ∈ behind.head?, Text.isBlank d = true := by
        intro d hd
        have hnot := List.head?_dropWhile_not (!Text.isBlank ·) rest
        rw [Option.mem_def.1 hd] at hnot
        simpa using hnot
      rw [← hsplit]
      exact word position (c :: more) behind (List.cons_ne_nil c more) hunbroken hhead
        (scan_induction nil blank word _ behind)
  termination_by text.length
  decreasing_by
    · exact hshorter
    · exact Nat.lt_succ_self _

theorem cuts : Text.Cuts scan
    (fun position c rest => ⟨position, c :: rest.takeWhile (!Text.isBlank ·)⟩)
    fun _ rest => (rest.takeWhile (!Text.isBlank ·)).length where
  nil _ _ := rfl
  skip _ _ _ _ := rfl
  read _ _ _ := rfl

theorem scan_word {position : Nat} {w rest : Text} (hne : w ≠ []) (hw : Unbroken w)
    (hrest : ∀ c ∈ rest.head?, Text.isBlank c = true) :
    scan position 0 (w ++ rest) = ⟨position, w⟩ :: scan (position + w.length) 0 rest := by
  obtain ⟨c, more, rfl⟩ := List.exists_cons_of_ne_nil hne
  obtain ⟨hc, hmore⟩ := List.forall_mem_cons.1 hw
  have htake : (more ++ rest).takeWhile (!Text.isBlank ·) = more := by
    apply Lexeme.takeWhile_exact
    · simpa using hmore
    · simpa using hrest
  rw [List.cons_append, cuts.first hc (congrArg List.length htake), htake]
  rfl

def moved (n : Nat) (w : Word) : Word := { w with start := w.start + n }

theorem scan_append {t : Text} (ht : EndsBlank t) (u : Text) (position : Nat) :
    scan position 0 (t ++ u) = scan position 0 t ++ scan (position + t.length) 0 u := by
  induction position, t using scan_induction with
  | nil position => rfl
  | blank position c rest hc ih =>
    rw [List.cons_append, cuts.blank hc, cuts.blank hc, ih (EndsBlank.right (t := [c]) ht),
      List.length_cons, Nat.add_right_comm]
    rfl
  | word position w rest hne hw hrest ih =>
    -- a word that is the end of the text would not end in a blank
    have hrest_ne : rest ≠ [] := by
      rintro rfl
      rw [List.append_nil] at ht
      exact hne (hw.eq_nil ht)
    have hhead : ∀ c ∈ (rest ++ u).head?, Text.isBlank c = true := by
      rw [List.head?_append_of_ne_nil _ hrest_ne]
      exact hrest
    rw [List.append_assoc, scan_word hne hw hhead, scan_word hne hw hrest, ih ht.right,
      List.length_append, Nat.add_assoc]
    rfl

/-- Behind a blank the words that are typed are those of what is written there. -/
theorem typed_append {t : Text} (ht : EndsBlank t) (u : Text) :
    typed (t ++ u) = scan 0 0 t ++ (typed u).map (moved t.length) := by
  unfold typed
  rw [scan_append ht, Nat.zero_add, List.append_assoc, List.map_append,
    ← cuts.moved (f := moved t.length) fun _ _ _ => rfl, Nat.zero_add]
  congr 2
  cases hu : u.getLast? with
  | none =>
    obtain rfl := List.getLast?_eq_none_iff.1 hu
    have hblank : (t.getLast?.map Text.isBlank).getD true = true := by
      cases hlast : t.getLast? with
      | none => rfl
      | some c => exact ht c hlast
    rw [List.append_nil, if_pos hblank]
    simp [moved]
  | some c =>
    rw [List.getLast?_append, hu, Option.some_or]
    split
    · simp [moved, Nat.add_comm]
    · rfl

theorem typed_of_unbroken {v : Text} (hv : Unbroken v) : typed v = [⟨0, v⟩] := by
  unfold typed
  cases hlast : v.getLast? with
  | none =>
    obtain rfl := List.getLast?_eq_none_iff.1 hlast
    rfl
  | some c =>
    have hne : v ≠ [] := by
      rintro rfl
      cases hlast
    have hscan := @scan_word 0 v [] hne hv (by simp)
    rw [List.append_nil] at hscan
    rw [hscan, Option.map_some, hv c (List.mem_of_getLast? hlast)]
    rfl

theorem typed_behind {t v : Text} (ht : EndsBlank t) (hv : Unbroken v) :
    typed (t ++ v) = scan 0 0 t ++ [⟨t.length, v⟩] := by
  rw [typed_append ht, typed_of_unbroken hv]
  simp [moved]

theorem exists_of_mem_scan {position : Nat} {t : Text} {w : Word} (h : w ∈ scan position 0 t) :
    ∃ before rest, t = before ++ (w.text ++ rest) ∧ w.start = position + before.length ∧
      EndsBlank before ∧ w.text ≠ [] ∧ Unbroken w.text := by
  induction position, t using scan_induction with
  | nil position => cases h
  | blank position c rest hc ih =>
    rw [cuts.blank hc] at h
    obtain ⟨before, behind, rfl, hstart, hbefore, hw⟩ := ih h
    refine ⟨c :: before, behind, rfl, ?_, ?_, hw⟩
    · rw [hstart, List.length_cons]
      omega
    · exact EndsBlank.append (t := [c]) (Text.endsBlank_concat hc []) hbefore
  | word position v rest hne hv hrest ih =>
    rw [scan_word hne hv hrest] at h
    rcases List.mem_cons.1 h with rfl | h
    · exact ⟨[], rest, rfl, rfl, Text.endsBlank_nil, hne, hv⟩
    · obtain ⟨before, behind, rfl, hstart, hbefore, hwne, hw⟩ := ih h
      refine ⟨v ++ before, behind, (List.append_assoc _ _ _).symm, ?_, ?_, hwne, hw⟩
      · rw [hstart, List.length_append]
        omega
      · -- no other word starts where this one stops
        have hbefore_ne : before ≠ [] := by
          rintro rfl
          obtain ⟨c, more, hcons⟩ := List.exists_cons_of_ne_nil hwne
          rw [hcons] at hrest hw
          have hblank : Text.isBlank c = true := hrest c rfl
          rw [hw c List.mem_cons_self] at hblank
          cases hblank
        intro c hc
        rw [List.getLast?_append_of_ne_nil _ hbefore_ne] at hc
        exact hbefore c hc

/-- A word that is typed stands alone, and an empty one stands at the end. -/
theorem exists_of_mem_typed {t : Text} {w : Word} (h : w ∈ typed t) :
    ∃ before rest, t = before ++ (w.text ++ rest) ∧ w.start = before.length ∧
      EndsBlank before ∧ Unbroken w.text ∧ (w.text = [] → rest = []) := by
  rcases List.mem_append.1 h with h | h
  · obtain ⟨before, rest, ht, hstart, hbefore, hne, hw⟩ := exists_of_mem_scan h
    rw [Nat.zero_add] at hstart
    exact ⟨before, rest, ht, hstart, hbefore, hw, fun hempty => absurd hempty hne⟩
  · split at h
    · rename_i hblank
      obtain rfl := List.mem_singleton.1 h
      refine ⟨t, [], (List.append_nil t).symm, rfl, fun c hc => ?_, by simp [Unbroken],
        fun _ => rfl⟩
      rw [Option.mem_def.1 hc] at hblank
      exact hblank
    · cases h

end Word

end QueryLine
