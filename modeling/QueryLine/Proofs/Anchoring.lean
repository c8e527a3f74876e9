import QueryLine.Proofs.Placing
import QueryLine.Proofs.Scrolling
import QueryLine.Screen.Draw

/-!
Where the picker opens, and where the caret is drawn. The picker counts the characters in front of
the caret, and the query line takes for each of them the columns that it is wide; so the picker is
under the caret where the characters in front of it take as many columns as there are of them.
-/

namespace QueryLine

theorem Picker.lines_of_proposals {p : Picker} (hpage : p.page = .proposals) (theme : Theme) :
    p.lines theme = .ok (p.proposals.mapIdx fun i q =>
      proposalLine theme (p.rowStyle theme i) q) := by
  rw [lines, hpage]

namespace Editor

variable {σ : Type}

/-- The character that the caret is drawn over. -/
def caretChar (e : Editor σ) : Char := (e.text[e.caret]?).getD ' '

def caretStyle (theme : Theme) : Style := (Style.none.colored theme.background).on theme.caret

def topLine (e : Editor σ) (theme : Theme) : Line :=
  queryLine e.text e.styles e.document.blocks e.caret theme

/-- Where the picker is drawn on a screen. -/
def pickerArea (e : Editor σ) (lines : List Line) (width height : Nat) : Area :=
  Picker.box ⟨0, 0, width, 1⟩ e.pickerColumn (e.picker.inView lines).length ⟨0, 0, width, height⟩

variable {e : Editor σ} {theme : Theme} {width height x : Nat} {lines : List Line}

theorem topLine_caret (h : e.caret ≤ e.text.length) :
    (e.topLine theme)[e.caret + 1]? = some ⟨[e.caretChar], caretStyle theme⟩ := by
  unfold topLine queryLine caretChar
  dsimp only
  rw [List.cons_append, List.getElem?_cons_succ]
  rcases Nat.lt_or_eq_of_le h with hlt | heq
  · rw [List.getElem?_append_left (by rwa [List.length_mapIdx]), List.getElem?_mapIdx,
      List.getElem?_eq_getElem hlt, if_pos rfl]
    rfl
  · rw [List.getElem?_append_right (by rw [List.length_mapIdx, heq]),
      List.length_mapIdx, heq, Nat.sub_self, if_pos (Nat.le_refl _),
      List.getElem?_eq_none (Nat.le_refl _)]
    rfl

theorem columns_prompt (hwidth : 3 ≤ width) (s : Style) (l : Line) :
    Line.columns width (Line.clusters (⟨prompt, s⟩ :: l)) =
      prompt.length + Line.columns width l.clusters := by
  have hsplit : Line.clusters (⟨prompt, s⟩ :: l) = (['>'], s) :: ([' '], s) :: l.clusters := rfl
  rw [hsplit, Line.columns, Line.columns, Line.taken_char hwidth,
    Line.taken_char hwidth, ← Nat.add_assoc]
  rfl

theorem columns_topLine (hwidth : 3 ≤ width) (h : e.caret ≤ e.text.length) :
    Line.columns width (Line.clusters ((e.topLine theme).take (e.caret + 1))) =
      prompt.length + Text.columns (e.text.take e.caret) := by
  unfold topLine queryLine
  dsimp only
  rw [List.cons_append, List.take_succ_cons, List.take_append_of_le_length (by simpa using h),
    columns_prompt hwidth]
  congr 1
  -- the styles of the characters do not matter
  apply Line.columns_chars hwidth
  rw [List.map_take, List.map_take]
  congr 1
  apply List.ext_getElem?
  intro i
  rw [List.getElem?_map, List.getElem?_mapIdx, List.getElem?_map, Option.map_map]
  rfl

theorem drawPicker_eq (hvisible : e.picker.visible = true)
    (hlines : e.picker.lines theme = .ok lines)
    (harea : 3 ≤ (e.pickerArea lines width height).height) (c : Canvas) :
    e.drawPicker theme width height c = .ok (c.box (e.pickerArea lines width height)
      s!" {e.picker.page.title} ".toList (Style.none.on theme.pickerBackground)
      (Style.none.colored theme.pickerBorder) (e.picker.inView lines)) := by
  rw [drawPicker, if_pos hvisible, hlines]
  exact congrArg Except.ok (if_neg (Nat.not_lt.2 harea))

theorem height_of_pickerArea (harea : 3 ≤ (e.pickerArea lines width height).height) :
    4 ≤ height := by
  rw [pickerArea, Picker.height_box] at harea
  have hroom : Picker.room ⟨0, 0, width, 1⟩ ⟨0, 0, width, height⟩ ≤ height - 1 :=
    Nat.min_le_left _ _
  omega

theorem exists_draw (hvisible : e.picker.visible = true) (hlines : e.picker.lines theme = .ok lines)
    (harea : 3 ≤ (e.pickerArea lines width height).height) :
    ∃ canvas, e.draw theme width height = .ok canvas ∧
      canvas[0]? = some ((e.topLine theme).write 0 width
        (List.replicate width (Cell.blank.overlay (Style.none.on theme.background)))).shown := by
  have hheight := height_of_pickerArea harea
  have htop : 3 ≤ height := by omega
  have hbottom : 2 ≤ height := by omega
  have hstatus : 1 < height := by omega
  have hbelow : 0 < (e.pickerArea lines width height).y := Nat.zero_lt_one
  have hground : (List.replicate width Cell.blank).map
      (Cell.overlay (Style.none.on theme.background)) =
        List.replicate width (Cell.blank.overlay (Style.none.on theme.background)) :=
    List.map_replicate
  unfold draw
  dsimp only
  rw [drawPicker_eq hvisible hlines harea, if_pos hbottom, if_pos htop, if_pos hstatus]
  refine ⟨_, rfl, ?_⟩
  rw [List.getElem?_map, Canvas.getElem?_box_of_lt hbelow, Canvas.getElem?_line_of_ne (by omega),
    Canvas.getElem?_line_of_ne (by omega), Canvas.line, List.getElem?_modify_eq, Canvas.blank,
    List.getElem?_replicate_of_lt (by omega), ← hground]
  rfl

theorem clearAt_ground (width x : Nat) (s : Style) :
    Row.ClearAt x (List.replicate width (Cell.blank.overlay s)) := by
  intro i cell hcell hi
  rw [List.getElem?_replicate] at hcell
  split at hcell
  · cases hcell
    exact hi
  · cases hcell

/-- Unless it is as far right as it can be, the picker is as many columns behind the prompt as there
are characters in front of the caret. -/
theorem pickerArea_x (hwidth : width < Area.limit) (hleft : e.pickerColumn ≤ width - min 48 width) :
    (e.pickerArea lines width height).x = prompt.length + e.caret := by
  -- a column that is not limited by the screen is far from the limits of 16 bits
  have hcolumn : e.pickerColumn = min (2 + min e.caret 65535) 65535 := rfl
  have hlimit : Area.limit = 65536 := rfl
  have hx : (e.pickerArea lines width height).x =
      min ((0 + e.pickerColumn) % Area.limit) (width - min 48 width) := rfl
  have hprompt : prompt.length = 2 := rfl
  rw [hx, Nat.mod_eq_of_lt (by omega)]
  omega

/-- The caret's cell is drawn as many columns behind the prompt as the characters in front of it
take, if the character it is over takes any, and these are on the screen. -/
theorem drawnAt_caret_iff (hwidth : 3 ≤ width) (h : e.caret ≤ e.text.length) :
    (e.topLine theme).DrawnAt width (e.caret + 1) x ↔
      x = prompt.length + Text.columns (e.text.take e.caret) ∧ 0 < Text.shownWidth e.caretChar ∧
        x + Text.shownWidth e.caretChar ≤ width := by
  rw [Line.drawnAt_char_iff (topLine_caret h) hwidth, columns_topLine hwidth h]

variable [Analyzer σ]

/-- The picker is drawn as many columns behind the prompt as there are characters in front of the
caret, unless the side of the screen keeps it from there. The caret's cell, wherever it is drawn, is
as many columns behind the prompt as these characters take; so the picker is under the caret exactly
if they take as many columns as there are of them. -/
theorem reachable_picker_under_caret_iff (h : e.Reachable) (hwidth : width < Area.limit)
    (hvisible : e.picker.visible = true) (hlines : e.picker.lines theme = .ok lines)
    (harea : 3 ≤ (e.pickerArea lines width height).height)
    (hleft : e.pickerColumn ≤ width - min 48 width) :
    (∀ c, ∃ title ground border shown, e.drawPicker theme width height c =
      .ok (c.box (e.pickerArea lines width height) title ground border shown)) ∧
    (e.pickerArea lines width height).x = prompt.length + e.caret ∧
    (∀ x, (e.topLine theme).DrawnAt width (e.caret + 1) x ↔
      x = prompt.length + Text.columns (e.text.take e.caret) ∧ 0 < Text.shownWidth e.caretChar ∧
        x + Text.shownWidth e.caretChar ≤ width) ∧
    ∀ x, (e.topLine theme).DrawnAt width (e.caret + 1) x →
      (∃ canvas row, e.draw theme width height = .ok canvas ∧ canvas[0]? = some row ∧
        row[x]? = some ⟨[e.caretChar], theme.background, theme.caret, false, false, false⟩) ∧
      ((e.pickerArea lines width height).x = x ↔ Text.columns (e.text.take e.caret) = e.caret) := by
  have hcaret : e.caret ≤ e.text.length := h.settled.sound.position_le
  -- a screen with room beside the picker has room for any character
  have hroom : 3 ≤ width := by
    have hcolumn : 2 ≤ e.pickerColumn := by
      change 2 ≤ min (2 + min e.caret 65535) 65535
      omega
    omega
  have hx : (e.pickerArea lines width height).x = prompt.length + e.caret :=
    pickerArea_x hwidth hleft
  refine ⟨fun c => ⟨_, _, _, _, drawPicker_eq hvisible hlines harea c⟩, hx,
    fun x => drawnAt_caret_iff hroom hcaret, fun x hdrawn => ⟨?_, ?_⟩⟩
  · obtain ⟨canvas, hcanvas, hrow⟩ := exists_draw hvisible hlines harea
    obtain ⟨-, hpos, hfits⟩ := (drawnAt_caret_iff hroom hcaret).1 hdrawn
    refine ⟨canvas, _, hcanvas, hrow, ?_⟩
    rw [Row.getElem?_shown_write hdrawn (topLine_caret hcaret) (clearAt_ground width x _),
      List.getElem?_replicate_of_lt (by omega)]
    rfl
  · obtain ⟨hcolumn, -⟩ := (drawnAt_caret_iff hroom hcaret).1 hdrawn
    rw [hx, hcolumn]
    omega

/-- Typed `a ta`: the picker that proposes a tag is under the caret, behind four characters of one
column each. -/
theorem picker_under_caret :
    let start : Editor Keywords := .new (.new [] []) (.new DateFormat.iso ⟨0, by decide⟩) true
    let e := start.perform (.insert ['a', ' ', 't', 'a'])
    (e.Reachable ∧ e.picker.visible = true ∧ e.pickerColumn ≤ 60 - min 48 60) ∧
      ∃ lines, e.picker.lines .defaultDark = .ok lines ∧ 3 ≤ (e.pickerArea lines 60 6).height ∧
        ∃ x, (e.topLine .defaultDark).DrawnAt 60 (e.caret + 1) x ∧
          (e.pickerArea lines 60 6).x = x := by
  intro start e
  have hstart : start.Reachable := .new _ _ _
  have he : e.Reachable := hstart.perform (.insert _) rfl
  have hvisible : e.picker.visible = true := by decide +kernel
  have hleft : e.pickerColumn ≤ 60 - min 48 60 := by decide +kernel
  have hlines := Picker.lines_of_proposals
    (show e.picker.page = .proposals by decide +kernel) .defaultDark
  have harea : 3 ≤ (e.pickerArea (e.picker.proposals.mapIdx fun i q =>
    Picker.proposalLine .defaultDark (e.picker.rowStyle .defaultDark i) q) 60 6).height := by
    decide +kernel
  obtain ⟨-, -, hdrawn, hunder⟩ :=
    reachable_picker_under_caret_iff he (by decide) hvisible hlines harea hleft
  have hcaret := (hdrawn 6).2 (by decide +kernel)
  exact ⟨⟨he, hvisible, hleft⟩, _, hlines, harea, 6, hcaret,
    (hunder 6 hcaret).2.2 (by decide +kernel)⟩

/-- Typed `日 ta`: the first character takes two columns, so the caret is drawn in column 7, and the
picker opens in column 6. -/
theorem picker_beside_caret :
    let start : Editor Keywords := .new (.new [] []) (.new DateFormat.iso ⟨0, by decide⟩) true
    let e := start.perform (.insert ['日', ' ', 't', 'a'])
    (e.Reachable ∧ e.picker.visible = true ∧ e.pickerColumn ≤ 60 - min 48 60) ∧
      ∃ lines, e.picker.lines .defaultDark = .ok lines ∧ 3 ≤ (e.pickerArea lines 60 6).height ∧
        (e.topLine .defaultDark).DrawnAt 60 (e.caret + 1) 7 ∧ (e.pickerArea lines 60 6).x = 6 := by
  intro start e
  have hstart : start.Reachable := .new _ _ _
  have he : e.Reachable := hstart.perform (.insert _) rfl
  have hvisible : e.picker.visible = true := by decide +kernel
  have hleft : e.pickerColumn ≤ 60 - min 48 60 := by decide +kernel
  have hlines := Picker.lines_of_proposals
    (show e.picker.page = .proposals by decide +kernel) .defaultDark
  have hdrawn : (e.topLine .defaultDark).DrawnAt 60 (e.caret + 1) 7 :=
    (drawnAt_caret_iff (by decide) he.settled.sound.position_le).2 (by decide +kernel)
  exact ⟨⟨he, hvisible, hleft⟩, _, hlines, by decide +kernel, hdrawn, by decide +kernel⟩

end Editor
end QueryLine
