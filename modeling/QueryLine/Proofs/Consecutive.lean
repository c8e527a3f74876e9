import QueryLine.Query.Reading

/-!
Things that stand one after the other in a text: its tokens, and what is read from them. The tokens
of a text lose nothing but blanks, so each spells the characters at its start.
-/

namespace QueryLine

/-- Things one after the other between two positions, if `stands lo a hi` tells that `a` stands
between `lo` and `hi`. -/
def Consecutive {α : Type} (stands : Nat → α → Nat → Prop) : Nat → Nat → List α → Prop
  | lo, hi, [] => lo ≤ hi
  | lo, hi, a :: as => ∃ mid, stands lo a mid ∧ Consecutive stands mid hi as

/-- What stands between two positions stands also from further in front. -/
def Extends {α : Type} (stands : Nat → α → Nat → Prop) : Prop :=
  ∀ ⦃lo lo' hi : Nat⦄ ⦃a : α⦄, lo' ≤ lo → stands lo a hi → stands lo' a hi

namespace Consecutive

variable {α : Type} {stands : Nat → α → Nat → Prop} {lo mid hi : Nat} {as bs : List α}

theorem from_le (hstands : Extends stands) {lo' : Nat} (hle : lo' ≤ lo)
    (h : Consecutive stands lo hi as) : Consecutive stands lo' hi as := by
  cases as with
  | nil => exact Nat.le_trans hle h
  | cons a as =>
    obtain ⟨mid, ha, has⟩ := h
    exact ⟨mid, hstands hle ha, has⟩

theorem append (hstands : Extends stands) (ha : Consecutive stands lo mid as)
    (hb : Consecutive stands mid hi bs) : Consecutive stands lo hi (as ++ bs) := by
  induction as generalizing lo with
  | nil => exact from_le hstands ha hb
  | cons a as ih =>
    obtain ⟨m, hfirst, has⟩ := ha
    exact ⟨m, hfirst, ih has⟩

theorem le (hle : ∀ ⦃lo hi : Nat⦄ ⦃a : α⦄, stands lo a hi → lo ≤ hi)
    (h : Consecutive stands lo hi as) : lo ≤ hi := by
  induction as generalizing lo with
  | nil => exact h
  | cons a as ih =>
    obtain ⟨mid, ha, has⟩ := h
    exact Nat.le_trans (hle ha) (ih has)

theorem exists_of_append (h : Consecutive stands lo hi (as ++ bs)) :
    ∃ mid, Consecutive stands lo mid as ∧ Consecutive stands mid hi bs := by
  induction as generalizing lo with
  | nil => exact ⟨lo, Nat.le_refl lo, h⟩
  | cons a as ih =>
    obtain ⟨m, hfirst, hrest⟩ := h
    obtain ⟨mid, has, hbs⟩ := ih hrest
    exact ⟨mid, ⟨m, hfirst, has⟩, hbs⟩

end Consecutive

namespace Lexeme

theorem prefix_of_head?_drop {w t : Text} {c : Char} (hw : w <+: t)
    (hc : (t.drop w.length).head? = some c) : w ++ [c] <+: t := by
  obtain ⟨rest, hrest⟩ := List.head?_eq_some_iff.1 hc
  rw [List.prefix_iff_eq_append] at hw
  exact ⟨rest, by rw [List.append_assoc, List.singleton_append, ← hrest, hw]⟩

theorem prefix_of_uri? {t u : Text} (h : uri? t = some u) : u ++ ['>'] <+: t := by
  unfold uri? at h
  dsimp only at h
  split at h
  · rename_i hends
    obtain rfl := Option.some.inj h
    rw [Bool.and_eq_true, decide_eq_true_eq] at hends
    exact prefix_of_head?_drop (List.takeWhile_prefix _) hends.2
  · cases h

theorem prefix_of_takeWhile_lt {c : Char} {t : Text}
    (h : (t.takeWhile (· ≠ c)).length < t.length) : t.takeWhile (· ≠ c) ++ [c] <+: t := by
  induction t with
  | nil => simp at h
  | cons d t ih =>
    by_cases hd : d = c
    · simp [hd]
    · have htake : (d :: t).takeWhile (· ≠ c) = d :: t.takeWhile (· ≠ c) := by simp [hd]
      rw [htake, List.length_cons, List.length_cons] at h
      rw [htake, List.cons_append, List.cons_prefix_cons]
      exact ⟨rfl, ih (by omega)⟩

/-- A lexeme is spelled by the characters it was read from, at least by the first; a quote left open
by all of them. -/
theorem spelling_starting (c : Char) (rest : Text) :
    (starting c rest).spelling <+: c :: rest ∧ (starting c rest).spelling ≠ [] ∧
      ∀ w, starting c rest = quoted w false → (starting c rest).spelling = c :: rest := by
  unfold starting
  split
  · rename_i hc
    simp [hc, spelling]
  · split
    · rename_i hc
      simp [hc, spelling]
    · split
      · rename_i hc
        dsimp only
        by_cases hclosed : (rest.takeWhile (· ≠ '"')).length < rest.length
        · rw [decide_eq_true hclosed, hc]
          refine ⟨?_, by simp [spelling], by simp⟩
          rw [spelling, List.cons_append, List.cons_prefix_cons]
          exact ⟨rfl, prefix_of_takeWhile_lt hclosed⟩
        · -- no other quote follows, so all of the text is in this one
          have hall : rest.takeWhile (· ≠ '"') = rest :=
            (List.takeWhile_prefix _).eq_of_length_le (Nat.le_of_not_lt hclosed)
          rw [decide_eq_false hclosed, hall, hc]
          exact ⟨List.prefix_refl _, by simp [spelling], fun _ _ => rfl⟩
      · split
        · rename_i huri
          split at huri
          · rename_i hc
            refine ⟨?_, by simp [spelling], by simp⟩
            rw [spelling, List.cons_append, hc, List.cons_prefix_cons]
            exact ⟨rfl, prefix_of_uri? huri⟩
          · cases huri
        · refine ⟨?_, by simp [spelling], by simp⟩
          rw [spelling, List.cons_prefix_cons]
          exact ⟨rfl, List.takeWhile_prefix _⟩

end Lexeme

namespace Token

/-- The token is spelled at its place in the text, between two positions. A quote that is left open
takes all that follows. -/
structure In (text : Text) (lo : Nat) (t : Token) (hi : Nat) : Prop where
  lo_le : lo ≤ t.start
  le_hi : t.stop ≤ hi
  length_pos : 0 < t.length
  spelled : t.lexeme.spelling <+: text.drop t.start
  open_stop : ∀ w, t.lexeme = .quoted w false → t.stop = text.length

theorem In.stop_le {text : Text} {lo hi : Nat} {t : Token} (h : t.In text lo hi) :
    t.stop ≤ text.length := by
  have hspelled := h.spelled.length_le
  have hpos : 0 < t.lexeme.spelling.length := h.length_pos
  rw [List.length_drop] at hspelled
  change t.start + t.lexeme.spelling.length ≤ text.length
  omega

theorem extends_in (text : Text) : Extends (In text) :=
  fun _ _ _ _ hle h => { h with lo_le := Nat.le_trans hle h.lo_le }

theorem In.le {text : Text} ⦃lo hi : Nat⦄ ⦃t : Token⦄ (h : t.In text lo hi) : lo ≤ hi :=
  Nat.le_trans h.lo_le (Nat.le_trans (Nat.le_add_right _ _) h.le_hi)

theorem consecutive_last {text : Text} {hi : Nat} {t : Token} {ts : List Token}
    (h : Consecutive (In text) t.stop hi ts) :
    Consecutive (In text) t.stop (ts.getLast?.getD t).stop ts ∧ (ts.getLast?.getD t).stop ≤ hi := by
  induction ts generalizing t with
  | nil => exact ⟨Nat.le_refl _, h⟩
  | cons u ts ih =>
    obtain ⟨mid, hu, hts⟩ := h
    have hlast : (u :: ts).getLast?.getD t = ts.getLast?.getD u := by
      rw [List.getLast?_cons, Option.getD_some]
    obtain ⟨hrest, hle⟩ := ih (hts.from_le (extends_in text) hu.le_hi)
    rw [hlast]
    exact ⟨⟨u.stop, { hu with le_hi := Nat.le_refl _ }, hrest⟩, hle⟩

/-- The first characters, `pending` of them, belong to a token in front. -/
theorem consecutive_scan {text : Text} (position pending : Nat) (rest : Text)
    (hrest : text.drop position = rest) (hpending : position + pending ≤ text.length) :
    Consecutive (In text) (position + pending) text.length (scan position pending rest) := by
  induction rest generalizing position pending with
  | nil =>
    rw [scan]
    exact hpending
  | cons c cs ih =>
    have hcs : text.drop (position + 1) = cs := by
      rw [← List.drop_drop, hrest, List.drop_succ_cons, List.drop_zero]
    have hlength : position + (cs.length + 1) = text.length := by
      have := congrArg List.length hrest
      rw [List.length_drop, List.length_cons] at this
      omega
    cases pending with
    | succ pending =>
      -- `c` belongs to the token in front
      have hnext := ih (position + 1) pending hcs (by omega)
      rwa [Nat.add_assoc, Nat.add_comm 1 pending] at hnext
    | zero =>
      rw [scan]
      split
      · exact (ih (position + 1) 0 hcs (by omega)).from_le (extends_in text) (by omega)
      · obtain ⟨hspelled, hne, hopen⟩ := Lexeme.spelling_starting c cs
        have hpos := List.length_pos_iff.2 hne
        have hle := hspelled.length_le
        rw [List.length_cons] at hle
        have hstop : position + 1 + ((Lexeme.starting c cs).spelling.length - 1) =
            position + (Lexeme.starting c cs).spelling.length := by omega
        have hnext :=
          ih (position + 1) ((Lexeme.starting c cs).spelling.length - 1) hcs (by omega)
        rw [hstop] at hnext
        refine ⟨_, ⟨Nat.le_refl _, Nat.le_refl _, hpos, hrest ▸ hspelled, ?_⟩, hnext⟩
        intro w hw
        change position + (Lexeme.starting c cs).spelling.length = text.length
        rw [hopen w hw, List.length_cons, hlength]

/-- The tokens of a text stand in it one after the other. -/
theorem consecutive_ofText (text : Text) : Consecutive (In text) 0 text.length (ofText text) :=
  consecutive_scan 0 0 text rfl (Nat.zero_le _)

theorem le_start_of_mem {text : Text} {lo hi : Nat} {ts : List Token} {t : Token}
    (h : Consecutive (In text) lo hi ts) (ht : t ∈ ts) : lo ≤ t.start := by
  induction ts generalizing lo with
  | nil => cases ht
  | cons u ts ih =>
    obtain ⟨mid, hu, hts⟩ := h
    rcases List.mem_cons.1 ht with rfl | ht
    · exact hu.lo_le
    · exact Nat.le_trans hu.le (ih hts ht)

theorem pairwise_stop_le {text : Text} {lo hi : Nat} {ts : List Token}
    (h : Consecutive (In text) lo hi ts) :
    ts.Pairwise fun t u => t.start < t.stop ∧ t.stop ≤ u.start := by
  induction ts generalizing lo with
  | nil => exact .nil
  | cons t ts ih =>
    obtain ⟨mid, ht, hts⟩ := h
    refine .cons (fun u hu => ?_) (ih hts)
    exact ⟨Nat.lt_add_of_pos_right ht.length_pos, Nat.le_trans ht.le_hi (le_start_of_mem hts hu)⟩

theorem pairwise_start_lt {text : Text} {lo hi : Nat} {ts : List Token}
    (h : Consecutive (In text) lo hi ts) : ts.Pairwise fun t u => t.start < u.start :=
  (pairwise_stop_le h).imp fun ⟨hlt, hle⟩ => Nat.lt_of_lt_of_le hlt hle

theorem nodup_starts (text : Text) : ((ofText text).map start).Nodup := by
  apply List.pairwise_map.2
  exact (pairwise_start_lt (consecutive_ofText text)).imp Nat.ne_of_lt

end Token
end QueryLine
