import Mathlib.Data.List.Induction
import QueryLine.Editor.Basic
import QueryLine.Proofs.Preorder

/-!
What a character looks like in a query. Painting goes through the terms in preorder, and each one
paints its span over in a style that was the same all over it; so for one character only the terms
around it count, and mostly the last of them.
-/

namespace QueryLine

namespace Term

def isComparison : Term → Bool
  | comparison .. => true
  | _ => false

/-- A comparison of a property with several terms joined. -/
def comparesJunction : Term → Bool
  | comparison _ _ _ value => value.isJunction
  | _ => false

/-- A term that says whether its characters are slanted. -/
def setsSlant : Term → Bool
  | comparison .. | resourceType .. | literal .. | resource .. => true
  | _ => false

/-- What a term makes of a style, where `turn` is due. -/
def restyle (turn : Palette.Turn) (s : CharStyle) : Term → CharStyle
  | comparison _ _ _ value => ⟨some turn.color, true, s.underline || value.isJunction⟩
  | resourceType .. => { s with italic := true }
  | literal .. | resource .. => { s with italic := false }
  | _ => s

end Term

namespace Painting

open Term

/-- What matters of a painting to the character at `i`: its style, and the turn. -/
def seen (p : Painting) (i : Nat) : CharStyle × Palette.Turn := (p.styleAt i, p.turn)

/-- What a term changes of that, its parts apart. -/
def stroke (i : Nat) (a : CharStyle × Palette.Turn) (t : Term) : CharStyle × Palette.Turn :=
  (if t.span.Covers i then t.restyle a.2 a.1 else a.1, if t.isComparison then a.2.next else a.2)

/-- The style is the same all over a span. -/
def Uniform (p : Painting) (s : Span) : Prop := ∀ i, s.Covers i → p.styleAt i = p.styleAt s.start

variable {mode : Mode} {text : Text} {p : Painting} {t : Term} {ts us : List Term} {i : Nat}

theorem styleAt_fill {span : Span} (h : span.stop ≤ p.styles.length) (style : CharStyle) (i : Nat) :
    (p.fill span style).styleAt i = if span.Covers i then style else p.styleAt i := by
  unfold styleAt fill CharStyle.fill
  rw [List.getD_eq_getElem?_getD, List.getD_eq_getElem?_getD, List.getElem?_mapIdx]
  by_cases hi : i < p.styles.length
  · rw [List.getElem?_eq_getElem hi]
    rfl
  · have hout : ¬span.Covers i := fun hcovers => hi (Nat.lt_of_lt_of_le hcovers.2 h)
    rw [if_neg hout, List.getElem?_eq_none (Nat.le_of_not_lt hi)]
    rfl

/-- Over a span of one style a term makes something of the style that a character has itself. -/
theorem seen_own (hstop : t.stop ≤ p.styles.length) (huniform : p.Uniform t.span) (i : Nat) :
    (p.own t).seen i = stroke i (p.seen i) t := by
  have hfill : (p.fill t.span (t.restyle p.turn (p.styleAt t.span.start))).styleAt i =
      (stroke i (p.seen i) t).1 := by
    rw [styleAt_fill hstop]
    apply ite_congr rfl
    · intro hi
      rw [← huniform i hi]
      rfl
    · intro _
      rfl
  have hkept : p.seen i = (if t.span.Covers i then p.styleAt i else p.styleAt i, p.turn) := by
    rw [ite_self]
    rfl
  cases t with
  | comparison span property comparator value => exact Prod.ext hfill rfl
  | resourceType span name => exact Prod.ext hfill rfl
  | literal span w => exact Prod.ext hfill rfl
  | resource span uri => exact Prod.ext hfill rfl
  | _ => exact hkept

theorem term_eq (p : Painting) (t : Term) : p.term t = (p.own t).terms t.parts := by
  cases t with
  | _ => rfl

theorem Uniform.congr {q : Painting} {s : Span} (h : p.Uniform s)
    (hsame : ∀ i, s.Covers i → q.styleAt i = p.styleAt i) : q.Uniform s := by
  intro i hi
  rw [hsame i hi, hsame s.start hi.start]
  exact h i hi

theorem Uniform.own (h : p.Uniform t.span) (hstop : t.stop ≤ p.styles.length) {s : Span}
    (hs : s.Within t.span) : (p.own t).Uniform s := by
  have hinside : ∀ i, s.Covers i →
      (p.own t).styleAt i = t.restyle p.turn (p.styleAt t.span.start) := by
    intro i hi
    have hcovers := hi.mono hs
    have hstyle := congrArg Prod.fst (seen_own hstop h i)
    refine hstyle.trans ((if_pos hcovers).trans ?_)
    exact congrArg (t.restyle p.turn) (h i hcovers)
  intro i hi
  rw [hinside i hi, hinside s.start hi.start]

/-- Painting a term is to each character one stroke after the other. -/
def Followed (text : Text) (t : Term) : Prop :=
  ∀ p : Painting, p.styles.length = text.length → p.Uniform t.span →
    ∀ i, (p.term t).seen i = t.preorder.foldl (stroke i) (p.seen i)

theorem style_strokes_of_apart (h : ∀ u ∈ us, ¬u.span.Covers i) (a : CharStyle × Palette.Turn) :
    (us.foldl (stroke i) a).1 = a.1 := by
  induction us generalizing a with
  | nil => rfl
  | cons u us ih =>
    rw [List.foldl_cons, ih fun v hv => h v (List.mem_cons_of_mem u hv)]
    exact if_neg (h u List.mem_cons_self)

theorem Followed.style_apart (h : Followed text t) (ht : t.Faithful mode text)
    (hlength : p.styles.length = text.length) (huniform : p.Uniform t.span)
    (hi : ¬t.span.Covers i) : (p.term t).styleAt i = p.styleAt i := by
  have hstyle := congrArg Prod.fst (h p hlength huniform i)
  refine hstyle.trans (style_strokes_of_apart (fun u hu hui => ?_) _)
  exact hi (hui.mono (ht.span_within ((mem_preorder t).1 hu)))

theorem seen_terms (hlength : p.styles.length = text.length)
    (hfaithful : ∀ t ∈ ts, t.Faithful mode text) (hfollowed : ∀ t ∈ ts, Followed text t)
    (hapart : ts.Pairwise fun t u => t.stop ≤ u.span.start)
    (huniform : ∀ t ∈ ts, p.Uniform t.span) (i : Nat) :
    (p.terms ts).seen i = (ts.flatMap preorder).foldl (stroke i) (p.seen i) := by
  induction ts generalizing p with
  | nil => rfl
  | cons t ts ih =>
    rw [List.forall_mem_cons] at hfaithful hfollowed huniform
    rw [List.pairwise_cons] at hapart
    rw [terms, List.flatMap_cons, List.foldl_append, ← hfollowed.1 p hlength huniform.1]
    apply ih ((length_term p t).trans hlength) hfaithful.2 hfollowed.2 hapart.2
    intro u hu
    -- what is behind `t` keeps the style that it had
    apply (huniform.2 u hu).congr
    intro j hj
    apply hfollowed.1.style_apart hfaithful.1 hlength huniform.1
    exact fun htj => Nat.not_lt.2 hj.1 (Nat.lt_of_lt_of_le htj.2 (hapart.1 u hu))

theorem followed (ht : t.Faithful mode text) : Followed text t := by
  induction t using induction_parts with
  | h t ih =>
    intro p hlength huniform i
    have hstop : t.stop ≤ p.styles.length := by
      rw [hlength]
      exact ht.fits.stop_le
    rw [term_eq, preorder_eq, List.foldl_cons, ← seen_own hstop huniform]
    exact seen_terms ((length_own p t).trans hlength) (fun u hu => ht.part hu)
      (fun u hu => ih u hu (ht.part hu)) ht.fits.parts_apart
      (fun u hu => huniform.own hstop (ht.fits.parts_within u hu)) i

/-- What is seen of a blank painting once the terms `us` are painted. -/
def strokes (us : List Term) (i : Nat) : CharStyle × Palette.Turn :=
  us.foldl (stroke i) (.plain, .first)

theorem strokes_append_singleton (us : List Term) (u : Term) (i : Nat) :
    strokes (us ++ [u]) i = stroke i (strokes us i) u :=
  List.foldl_append

theorem turn_strokes (us : List Term) (i : Nat) :
    (strokes us i).2 = ⟨(us.filter isComparison).length % 8⟩ := by
  induction us using List.reverseRecOn with
  | nil => rfl
  | append_singleton us u ih =>
    rw [strokes_append_singleton, List.filter_append, List.length_append]
    cases hu : u.isComparison with
    | true => simp [stroke, hu, ih, Palette.Turn.next]
    | false => simp [stroke, hu, ih]

theorem color_turn (n : Nat) :
    (⟨n % 8⟩ : Palette.Turn).color = Palette.color (.ofNat 8 n) :=
  congrArg Palette.color (Fin.ext (Nat.mod_mod n 8))

theorem color_stroke (i : Nat) (a : CharStyle × Palette.Turn) (u : Term) :
    (stroke i a u).1.color =
      if u.isComparison ∧ u.span.Covers i then some a.2.color else a.1.color := by
  by_cases hu : u.span.Covers i
  · cases u with
    | _ => simp [stroke, hu, restyle, isComparison]
  · simp [stroke, hu]

theorem underline_stroke (i : Nat) (a : CharStyle × Palette.Turn) (u : Term) :
    (stroke i a u).1.underline = (a.1.underline || u.comparesJunction && u.span.Covers i) := by
  by_cases hu : u.span.Covers i
  · cases u with
    | _ => simp [stroke, hu, restyle, comparesJunction]
  · simp [stroke, hu]

theorem italic_stroke (i : Nat) (a : CharStyle × Palette.Turn) (u : Term) :
    (stroke i a u).1.italic =
      if u.setsSlant ∧ u.span.Covers i then u.isRestriction else a.1.italic := by
  by_cases hu : u.span.Covers i
  · cases u with
    | _ => simp [stroke, hu, restyle, setsSlant, isRestriction]
  · simp [stroke, hu]

theorem color_strokes (us : List Term) (i : Nat) :
    (strokes us i).1.color =
      (last? (us.filter isComparison) i).map fun (_, k) => Palette.color (.ofNat 8 k) := by
  induction us using List.reverseRecOn with
  | nil => rfl
  | append_singleton us u ih =>
    rw [strokes_append_singleton, color_stroke, turn_strokes, color_turn, ih, List.filter_append]
    cases hu : u.isComparison with
    | false => simp [hu]
    | true =>
      rw [List.filter_cons_of_pos hu, List.filter_nil, last?_append_singleton]
      by_cases hi : u.span.Covers i
      · simp [hi]
      · simp [hi]

theorem underline_strokes (us : List Term) (i : Nat) :
    (strokes us i).1.underline = us.any fun u => u.comparesJunction && u.span.Covers i := by
  induction us using List.reverseRecOn with
  | nil => rfl
  | append_singleton us u ih =>
    rw [strokes_append_singleton, underline_stroke, ih, List.any_append]
    simp

theorem italic_strokes (us : List Term) (i : Nat) :
    (strokes us i).1.italic =
      (last? (us.filter setsSlant) i).any fun (u, _) => u.isRestriction := by
  induction us using List.reverseRecOn with
  | nil => rfl
  | append_singleton us u ih =>
    rw [strokes_append_singleton, italic_stroke, ih, List.filter_append]
    cases hu : u.setsSlant with
    | false => simp [hu]
    | true =>
      rw [List.filter_cons_of_pos hu, List.filter_nil, last?_append_singleton]
      by_cases hi : u.span.Covers i
      · simp [hi]
      · simp [hi]

/-- How the character at `i` looks among the terms `us`. Its colour is that of the innermost
comparison around it, by number; a comparison of joined terms underlines it; and the innermost of
the terms that set the slant says whether it is slanted. -/
structure Looks (us : List Term) (i : Nat) (s : CharStyle) : Prop where
  uncolored : s.color = none ↔ ∀ u ∈ us.filter isComparison, ¬u.span.Covers i
  colored : ∀ x, s.color = some x ↔
    ∃ k u, (us.filter isComparison)[k]? = some u ∧ Innermost (us.filter isComparison) i u ∧
      Palette.color (.ofNat 8 k) = x
  underlined : s.underline = true ↔
    ∃ span property comparator value, .comparison span property comparator value ∈ us ∧
      span.Covers i ∧ value.isJunction = true
  slanted : s.italic = true ↔
    ∃ u, Innermost (us.filter setsSlant) i u ∧ u.isRestriction = true

/-- What the strokes leave of a blank painting is how the character looks, if the terms around it
are one in the other. -/
theorem looks_strokes
    (h : us.Pairwise fun u v => u.span.Covers i → v.span.Covers i → u.Below v) :
    Looks us i (strokes us i).1 where
  uncolored := by
    rw [color_strokes, Option.map_eq_none_iff]
    exact last?_eq_none_iff
  -- the last comparison around the character is the innermost one, by `h`
  colored x := by
    rw [color_strokes, Option.map_eq_some_iff]
    constructor
    · rintro ⟨⟨u, k⟩, hlast, rfl⟩
      obtain ⟨hk, hu⟩ := (last?_eq_some_iff (h.filter _)).1 hlast
      exact ⟨k, u, hk, hu, rfl⟩
    · rintro ⟨k, u, hk, hu, rfl⟩
      exact ⟨(u, k), (last?_eq_some_iff (h.filter _)).2 ⟨hk, hu⟩, rfl⟩
  underlined := by
    rw [underline_strokes, List.any_eq_true]
    constructor
    · rintro ⟨u, hu, hjoins⟩
      rw [Bool.and_eq_true, decide_eq_true_eq] at hjoins
      cases u with
      | comparison span property comparator value =>
        exact ⟨span, property, comparator, value, hu, hjoins.2, hjoins.1⟩
      | _ => cases hjoins.1
    · rintro ⟨span, property, comparator, value, hu, hcovers, hjoins⟩
      refine ⟨_, hu, ?_⟩
      rw [Bool.and_eq_true, decide_eq_true_eq]
      exact ⟨hjoins, hcovers⟩
  slanted := by
    rw [italic_strokes, Option.any_eq_true]
    constructor
    · rintro ⟨⟨u, k⟩, hlast, hslanted⟩
      exact ⟨u, ((last?_eq_some_iff (h.filter _)).1 hlast).2, hslanted⟩
    · rintro ⟨u, hu, hslanted⟩
      obtain ⟨k, hk⟩ := List.getElem?_of_mem hu.mem
      exact ⟨(u, k), (last?_eq_some_iff (h.filter _)).2 ⟨hk, hu⟩, hslanted⟩

end Painting

namespace Query

open Painting Term

def terms (q : Query) : List Term := (q.term.map preorder).getD []

theorem pairwise_below (mode : Mode) (text : Text) (i : Nat) : (ofText mode text).terms.Pairwise
    fun u v => u.span.Covers i → v.span.Covers i → u.Below v := by
  unfold terms
  cases ht : (ofText mode text).term with
  | none => exact List.Pairwise.nil
  | some t => exact (in_ofText ht).faithful.pairwise_below i

/-- Before quotes are made plain, each character of a query has the style that the strokes of its
terms leave. -/
theorem exists_painting (mode : Mode) (text : Text) : ∃ p : Painting,
    highlight text (ofText mode text).term =
        text.zipWith (fun c style => if c = '"' then .plain else style) p.styles ∧
      ∀ i, p.styleAt i = (strokes (ofText mode text).terms i).1 := by
  let blank : Painting := ⟨text.map fun _ => .plain, .first⟩
  have hplain : ∀ i, blank.styleAt i = .plain := by
    intro i
    change (text.map fun _ => CharStyle.plain).getD i .plain = .plain
    rw [List.getD_eq_getElem?_getD, List.getElem?_map]
    cases text[i]? with
    | none => rfl
    | some c => rfl
  have hseen : ∀ i, blank.seen i = (.plain, .first) := fun i => Prod.ext (hplain i) rfl
  unfold terms
  cases ht : (ofText mode text).term with
  | none => exact ⟨blank, rfl, hplain⟩
  | some t =>
    refine ⟨blank.term t, rfl, fun i => ?_⟩
    have huniform : blank.Uniform t.span := fun j _ => (hplain j).trans (hplain _).symm
    have hfollowed := followed (in_ofText ht).faithful blank (List.length_map _) huniform i
    rw [hseen] at hfollowed
    exact congrArg Prod.fst hfollowed

/-- The highlighting of a query means what its terms say, character by character. -/
theorem highlight_ofText (mode : Mode) (text : Text) :
    (highlight text (ofText mode text).term).length = text.length ∧
      ∀ i c s, text[i]? = some c → (highlight text (ofText mode text).term)[i]? = some s →
        if c = '"' then s = .plain else Looks (ofText mode text).terms i s := by
  refine ⟨length_highlight _ _, fun i c s hc hs => ?_⟩
  obtain ⟨p, hhighlight, hstyle⟩ := exists_painting mode text
  rw [hhighlight, List.getElem?_zipWith, hc] at hs
  cases hp : p.styles[i]? with
  | none => simp [hp] at hs
  | some painted =>
    have hpainted : painted = (strokes (ofText mode text).terms i).1 := by
      rw [← hstyle, styleAt, List.getD_eq_getElem?_getD, hp]
      rfl
    rw [hp] at hs
    obtain rfl := Option.some.inj hs
    split
    · rfl
    · rw [hpainted]
      exact looks_strokes (pairwise_below mode text i)

/-- The query `a:(b:c OR d)` at its `b`: the second comparison is around it, inside the first. -/
theorem highlight_ofText_nested :
    let text := ['a', ':', '(', 'b', ':', 'c', ' ', 'O', 'R', ' ', 'd', ')']
    let q := ofText .plain text
    let style : CharStyle := ⟨some (Palette.color 1), true, true⟩
    (text[3]? = some 'b' ∧ (highlight text q.term)[3]? = some style) ∧ Looks q.terms 3 style := by
  intro text q style
  have hc : text[3]? = some 'b' := rfl
  have hs : (highlight text q.term)[3]? = some style := by decide +kernel
  have hlooks := (highlight_ofText .plain text).2 3 'b' style hc hs
  rw [if_neg (by decide)] at hlooks
  exact ⟨⟨hc, hs⟩, hlooks⟩

end Query
end QueryLine
