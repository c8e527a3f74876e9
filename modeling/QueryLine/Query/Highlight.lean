import QueryLine.Query.Term
import QueryLine.Color.Palette

/-!
The look of each character of a query. Comparisons take the palette's colours in turn and are
slanted, their values keep the colour and stand upright, and a value that joins several terms is
underlined.
-/

namespace QueryLine

structure CharStyle where
  color : Option Rgb
  italic : Bool
  underline : Bool
  deriving DecidableEq, Repr

namespace CharStyle

def plain : CharStyle := ⟨none, false, false⟩

/-- Gives one style to the characters of `span`, as far as there are any. -/
def fill (span : Span) (style : CharStyle) (styles : List CharStyle) : List CharStyle :=
  styles.mapIdx fun i s => if span.start ≤ i ∧ i < span.stop then style else s

@[simp] theorem length_fill (span : Span) (style : CharStyle) (styles : List CharStyle) :
    (fill span style styles).length = styles.length := List.length_mapIdx

end CharStyle

/-- Styles under way, and the colour that the next comparison takes. -/
structure Painting where
  styles : List CharStyle
  turn : Palette.Turn

namespace Painting

def styleAt (p : Painting) (i : Nat) : CharStyle := p.styles.getD i .plain

def fill (p : Painting) (span : Span) (style : CharStyle) : Painting :=
  ⟨style.fill span p.styles, p.turn⟩

/-- Styles what the term covers without its parts. -/
def own (p : Painting) : Term → Painting
  | .comparison span _ _ value =>
    let style := p.styleAt span.start
    let painted := p.fill span
      ⟨some p.turn.color, true, style.underline || value.isJunction⟩
    ⟨painted.styles, p.turn.next⟩
  | .resourceType span _ => p.fill span { p.styleAt span.start with italic := true }
  | .literal span _ | .resource span _ => p.fill span { p.styleAt span.start with italic := false }
  | _ => p

mutual
def term (p : Painting) : Term → Painting
  | .comparison span property comparator value =>
    (p.own (.comparison span property comparator value)).term value
  | .negation _ operand => p.term operand
  | .conjunction _ members | .disjunction _ members => p.terms members
  | .literal span text => p.own (.literal span text)
  | .resource span uri => p.own (.resource span uri)
  | .resourceType span name => p.own (.resourceType span name)

def terms (p : Painting) : List Term → Painting
  | [] => p
  | t :: ts => (p.term t).terms ts
end

@[simp] theorem length_own (p : Painting) (t : Term) :
    (p.own t).styles.length = p.styles.length := by
  cases t <;> simp [own, fill]

mutual
@[simp] theorem length_term (p : Painting) :
    (t : Term) → (p.term t).styles.length = p.styles.length
  | .comparison .. => by rw [term, length_term, length_own]
  | .negation _ operand => by rw [term, length_term p operand]
  | .conjunction _ members | .disjunction _ members => by rw [term, length_terms p members]
  | .literal .. | .resource .. | .resourceType .. => by rw [term, length_own]

@[simp] theorem length_terms (p : Painting) :
    (ts : List Term) → (p.terms ts).styles.length = p.styles.length
  | [] => rfl
  | t :: ts => by rw [terms, length_terms _ ts, length_term p t]
end

end Painting

/-- Double quotes always look plain. -/
def highlight (text : Text) (term : Option Term) : List CharStyle :=
  let blank : Painting := ⟨text.map fun _ => .plain, .first⟩
  let painted := match term with
    | some t => blank.term t
    | none => blank
  text.zipWith (fun c style => if c = '"' then .plain else style) painted.styles

theorem length_highlight (text : Text) (term : Option Term) :
    (highlight text term).length = text.length := by
  cases term <;> simp [highlight]

end QueryLine
