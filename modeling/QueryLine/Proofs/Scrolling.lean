import QueryLine.Proofs.Selecting
import QueryLine.Screen.Canvas

/-!
Where the selected row of a picker is drawn. Rows in front are left out so that it is one of the
first eight, but the box is also cut off where the screen ends; whether the row is inside the border
depends on the room that is left for it.
-/

namespace QueryLine

theorem Canvas.box_take (a : Area) (title : Text) (ground border : Style) (lines : List Line)
    (c : Canvas) :
    c.box a title ground border lines =
      c.box a title ground border (lines.take (a.height - 2)) := by
  unfold box
  congr 1
  funext y r
  split
  · rename_i hy
    dsimp only
    split
    · rfl
    · rename_i hinner
      rw [List.getElem?_take_of_lt (by omega)]
  · rfl

namespace Picker

/-- The number of the first row that is not left out. -/
def firstInView (p : Picker) : Nat := if p.page = .date then 0 else p.row + 1 - maxRows

/-- The rows from the one under `anchor` down to the end of the screen. -/
def room (anchor screen : Area) : Nat :=
  let y := (anchor.y + 1) % Area.limit
  min (screen.height - y) (Area.limit - 1 - y)

variable {p : Picker}

theorem inView_eq (p : Picker) (lines : List Line) : p.inView lines = lines.drop p.firstInView := by
  unfold inView firstInView
  split <;> rfl

theorem height_box (anchor : Area) (column rows : Nat) (screen : Area) :
    (box anchor column rows screen).height = min (min rows maxRows + 2) (room anchor screen) := by
  unfold box room Area.clamped
  dsimp only
  omega

theorem InRange.exists_lines (h : p.InRange) (hpage : p.page ≠ .date) (hfull : p.isEmpty = false)
    (theme : Theme) : ∃ lines, p.lines theme = .ok lines ∧ p.row < lines.length := by
  have hempty : ¬(p.page = .proposals ∧ p.proposals = [] ∨ p.page = .strings ∧ p.strings = []) := by
    rw [← isEmpty_iff, hfull]
    exact Bool.false_ne_true
  unfold lines row
  cases hp : p.page with
  | proposals =>
    have hpos : 0 < p.proposals.length :=
      List.length_pos_iff.2 fun hnone => hempty (.inl ⟨hp, hnone⟩)
    refine ⟨_, rfl, ?_⟩
    rw [List.length_mapIdx, if_neg nofun]
    exact h.proposals.elim (fun hzero => hzero ▸ hpos) id
  | strings =>
    have hpos : 0 < p.strings.length :=
      List.length_pos_iff.2 fun hnone => hempty (.inr ⟨hp, hnone⟩)
    refine ⟨_, rfl, ?_⟩
    rw [List.length_mapIdx, if_pos rfl]
    exact h.strings.elim (fun hzero => hzero ▸ hpos) id
  | date => exact absurd hp hpage

/-- The selected row is one of those in view, but it is inside the border only if the screen has
room for the rows in view up to it, at most eight, and the border around them. -/
theorem run_draws_selected_iff {dateFormat : Text} {date : Date} {ops : List Operation}
    (hrun : (Picker.new dateFormat date).run ops = .ok p) (hpage : p.page ≠ .date)
    (hfull : p.isEmpty = false) (theme : Theme) (anchor screen : Area) (column : Nat) :
    ∃ lines, p.lines theme = .ok lines ∧
      let shown := p.inView lines
      let area := box anchor column shown.length screen
      let place := p.row - p.firstInView
      (∃ l, lines[p.row]? = some l ∧ shown[place]? = some l) ∧
      (∀ title ground border (c : Canvas), c.box area title ground border shown =
        c.box area title ground border (shown.take (area.height - 2))) ∧
      (place < area.height - 2 ↔ min p.row (maxRows - 1) + 3 ≤ room anchor screen) := by
  have hrange : p.InRange := ((holds_new dateFormat date).run hrun).inRange
  obtain ⟨lines, hlines, hrow⟩ := hrange.exists_lines hpage hfull theme
  refine ⟨lines, hlines, ?_⟩
  intro shown area place
  have hfirst : p.firstInView = p.row + 1 - maxRows := if_neg hpage
  have hmax : maxRows = 8 := rfl
  have hplace : place = min p.row (maxRows - 1) := by
    simp only [place]
    omega
  have hshown : shown.length = lines.length - p.firstInView := by
    simp only [shown, inView_eq, List.length_drop]
  -- the box is cut where the room ends, whatever row is selected
  have hheight : area.height = min (min shown.length maxRows + 2) (room anchor screen) :=
    height_box anchor column shown.length screen
  refine ⟨⟨lines[p.row], List.getElem?_eq_getElem hrow, ?_⟩, fun title ground border c =>
    c.box_take area title ground border shown, ?_⟩
  · have hback : p.firstInView + place = p.row := by
      simp only [place]
      omega
    simp only [shown, inView_eq, List.getElem?_drop, hback, List.getElem?_eq_getElem hrow]
  · -- the eight rows at most always have a place for the selected one, so the room decides
    rw [← hplace]
    omega

theorem run_to_second (date : Date) :
    (Picker.new DateFormat.iso date).run
        [.turnTo .strings, .addStrings [['a'], ['b']] [], .next] =
      .ok ⟨.strings, [], 0, [['a'], ['b']], 1, date, DateFormat.iso, false⟩ := by
  have hsort : Text.sort [['a'], ['b']] = [['a'], ['b']] :=
    List.mergeSort_of_pairwise (by decide)
  have hformat : DateFormat.orIso DateFormat.iso = DateFormat.iso := by decide +kernel
  have hadded : ((Picker.new DateFormat.iso date).turnTo .strings).operate
      (.addStrings [['a'], ['b']] []) =
      .ok ⟨.strings, [], 0, [['a'], ['b']], 0, date, DateFormat.iso, false⟩ := by
    simp only [operate, addStrings, turnTo, new, if_true, List.nil_append, hsort, hformat]
    rfl
  rw [run_cons rfl, run_cons hadded]
  rfl

/-- Five rows of the screen are enough for two of a picker. -/
theorem run_draws_second :
    let date : Date := ⟨0, by decide⟩
    let p : Picker := ⟨.strings, [], 0, [['a'], ['b']], 1, date, DateFormat.iso, false⟩
    let anchor : Area := ⟨0, 0, 20, 1⟩
    let screen : Area := ⟨0, 0, 20, 5⟩
    ((Picker.new DateFormat.iso date).run
        [.turnTo .strings, .addStrings [['a'], ['b']] [], .next] = .ok p ∧
      p.page ≠ .date ∧ p.isEmpty = false ∧ min p.row (maxRows - 1) + 3 ≤ room anchor screen) ∧
    ∃ lines, p.lines .defaultDark = .ok lines ∧
      let shown := p.inView lines
      let area := box anchor 6 shown.length screen
      let place := p.row - p.firstInView
      (∃ l, lines[p.row]? = some l ∧ shown[place]? = some l) ∧
      (∀ title ground border (c : Canvas), c.box area title ground border shown =
        c.box area title ground border (shown.take (area.height - 2))) ∧
      (place < area.height - 2 ↔ min p.row (maxRows - 1) + 3 ≤ room anchor screen) := by
  intro date p anchor screen
  have hrun := run_to_second date
  have hpage : p.page ≠ .date := by decide
  have hfull : p.isEmpty = false := rfl
  have hroom : min p.row (maxRows - 1) + 3 ≤ room anchor screen := by decide
  exact ⟨⟨hrun, hpage, hfull, hroom⟩,
    run_draws_selected_iff hrun hpage hfull .defaultDark anchor screen 6⟩

/-- Four rows are not: there is room for one row inside the border, and the first one is drawn there
while the second one is selected. -/
theorem second_row_cut_off :
    let date : Date := ⟨0, by decide⟩
    let p : Picker := ⟨.strings, [], 0, [['a'], ['b']], 1, date, DateFormat.iso, false⟩
    (Picker.new DateFormat.iso date).run
        [.turnTo .strings, .addStrings [['a'], ['b']] [], .next] = .ok p ∧
      p.page = .strings ∧ p.isEmpty = false ∧ p.strings[p.row]? = some ['b'] ∧
      ∃ lines, p.lines .defaultDark = .ok lines ∧
        let area := box ⟨0, 0, 20, 1⟩ 6 (p.inView lines).length ⟨0, 0, 20, 4⟩
        area.height = 3 ∧ ¬p.row - p.firstInView < area.height - 2 ∧
        ((Canvas.blank 20 4).box area [] .none .none (p.inView lines))[2]?.map
          (List.map Cell.symbol) = some ([['│'], ['a']] ++ List.replicate 17 [' '] ++ [['│']]) := by
  intro date p
  refine ⟨run_to_second date, rfl, rfl, rfl, _, rfl, ?_⟩
  decide +kernel

end Picker
end QueryLine
