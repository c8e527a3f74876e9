import QueryLine.Screen.Canvas

/-!
Lines on the screen. Clusters are placed side by side up to the end of the room, so what is in front
of a fragment tells its column; and what is written there is shown, since nothing in front reaches
over it and nothing behind begins before it.
-/

namespace QueryLine

namespace Text

theorem clusters_singleton (c : Char) : clusters [c] = [[c]] := by
  have hjoins : ClusterState.start.joins c = false := by
    unfold ClusterState.joins ClusterState.start
    cases clusterClass c <;> rfl
  rw [clusters, clustersAfter, hjoins]
  rfl

theorem width_singleton (c : Char) : width [c] = charWidth c := Nat.zero_add _

theorem charWidth_le (c : Char) : charWidth c ≤ 3 := by
  unfold charWidth
  repeat' split
  all_goals omega

/-- The columns of a character that is shown by itself. A line end is not shown. -/
def shownWidth (c : Char) : Nat := if c = '\n' then 0 else charWidth c

def columns : Text → Nat
  | [] => 0
  | c :: t => shownWidth c + columns t

end Text

namespace Line

variable {room x n : Nat}

theorem clusters_append (l m : Line) : clusters (l ++ m) = clusters l ++ clusters m :=
  List.flatMap_append

theorem clusters_char (c : Char) (s : Style) :
    clusters [⟨[c], s⟩] = if c = '\n' then [] else [([c], s)] := by
  have hsingle : clusters [⟨[c], s⟩] = ([[c]].filter (· ≠ ['\n'])).map (·, s) := by
    rw [clusters, List.flatMap_singleton, Text.clusters_singleton]
  rw [hsingle]
  by_cases hc : c = '\n'
  · simp [hc]
  · simp [hc]

/-- The columns that a cluster takes in a line. What is wider than all of the room is left out. -/
def taken (room : Nat) (symbol : Text) : Nat :=
  if room < Text.width symbol then 0 else Text.width symbol

theorem taken_eq_width {symbol : Text} (h : taken room symbol ≠ 0) :
    taken room symbol = Text.width symbol := by
  unfold taken at h ⊢
  split at h
  · exact absurd rfl h
  · rw [if_neg ‹_›]

theorem taken_char (hroom : 3 ≤ room) (c : Char) : taken room [c] = Text.charWidth c := by
  have hle := Text.charWidth_le c
  rw [taken, Text.width_singleton, if_neg (by omega)]

def columns (room : Nat) : List (Text × Style) → Nat
  | [] => 0
  | (symbol, _) :: cs => taken room symbol + columns room cs

theorem columns_append (room : Nat) (cs ds : List (Text × Style)) :
    columns room (cs ++ ds) = columns room cs + columns room ds := by
  induction cs with
  | nil => exact (Nat.zero_add _).symm
  | cons c cs ih => rw [List.cons_append, columns, columns, ih, Nat.add_assoc]

theorem columns_chars (hroom : 3 ≤ room) {l : Line} {t : Text}
    (h : l.map Fragment.text = t.map ([·])) : columns room l.clusters = Text.columns t := by
  induction l generalizing t with
  | nil =>
    obtain rfl := List.map_eq_nil_iff.1 h.symm
    rfl
  | cons f l ih =>
    cases t with
    | nil => cases h
    | cons c t =>
      obtain ⟨hf, hl⟩ := List.cons.inj h
      obtain ⟨text, s⟩ := f
      obtain rfl : text = [c] := hf
      have hsplit : clusters (⟨[c], s⟩ :: l) = clusters [⟨[c], s⟩] ++ clusters l :=
        clusters_append [⟨[c], s⟩] l
      rw [hsplit, columns_append, ih hl, Text.columns, clusters_char, Text.shownWidth]
      split
      · rfl
      · rw [columns, taken_char hroom]
        rfl

theorem place_cons (room x : Nat) (symbol : Text) (s : Style) (cs : List (Text × Style)) :
    place room x ((symbol, s) :: cs) =
      if taken room symbol = 0 then place room x cs
      else if room < x + taken room symbol then []
      else ⟨x, symbol, s⟩ :: place room (x + taken room symbol) cs := by
  rw [place]
  unfold taken
  by_cases hwide : room < Text.width symbol
  · simp [hwide]
  · simp [hwide]

/-- Where a part fits, the rest is placed behind it; where it does not, nothing more is placed. -/
theorem place_append (hx : x ≤ room) (cs ds : List (Text × Style)) :
    place room x (cs ++ ds) = place room x cs ++
      if x + columns room cs ≤ room then place room (x + columns room cs) ds else [] := by
  induction cs generalizing x with
  | nil =>
    rw [columns, Nat.add_zero, if_pos hx]
    rfl
  | cons c cs ih =>
    obtain ⟨symbol, s⟩ := c
    rw [List.cons_append, place_cons, place_cons, columns]
    by_cases hzero : taken room symbol = 0
    · rw [if_pos hzero, if_pos hzero, hzero, Nat.zero_add]
      exact ih hx
    · rw [if_neg hzero, if_neg hzero]
      by_cases hlt : room < x + taken room symbol
      · rw [if_pos hlt, if_pos hlt, if_neg (by omega)]
        rfl
      · rw [if_neg hlt, if_neg hlt, ih (by omega), Nat.add_assoc]
        rfl

theorem place_bounds {cs : List (Text × Style)} {p : Placed} (hp : p ∈ place room x cs) :
    x ≤ p.x ∧ 0 < Text.width p.symbol ∧ p.x + Text.width p.symbol ≤ x + columns room cs := by
  induction cs generalizing x with
  | nil => cases hp
  | cons c cs ih =>
    obtain ⟨symbol, s⟩ := c
    rw [place_cons] at hp
    rw [columns]
    split at hp
    · obtain ⟨hfirst, hpos, hlast⟩ := ih hp
      exact ⟨hfirst, hpos, by omega⟩
    · rename_i hzero
      split at hp
      · cases hp
      · rcases List.mem_cons.1 hp with rfl | hp
        · have htaken := taken_eq_width hzero
          dsimp only
          omega
        · obtain ⟨hfirst, hpos, hlast⟩ := ih hp
          exact ⟨by omega, hpos, by omega⟩

theorem place_last (room x : Nat) (symbol : Text) (s : Style) :
    (if x ≤ room then place room x [(symbol, s)] else []) =
      if 0 < taken room symbol ∧ x + taken room symbol ≤ room then [⟨x, symbol, s⟩] else [] := by
  rw [place_cons, place, place]
  by_cases hfits : 0 < taken room symbol ∧ x + taken room symbol ≤ room
  · rw [if_pos hfits, if_pos (by omega), if_neg (by omega), if_neg (by omega)]
  · rw [if_neg hfits]
    by_cases hx : x ≤ room
    · by_cases hzero : taken room symbol = 0
      · rw [if_pos hx, if_pos hzero]
      · rw [if_pos hx, if_neg hzero, if_pos (by omega)]
    · rw [if_neg hx]

/-- Fragment number `n` of a line is all drawn in one piece, in column `x`: it is placed there
behind what is placed of the fragments in front. -/
def DrawnAt (room : Nat) (l : Line) (n x : Nat) : Prop :=
  ∃ f, l[n]? = some f ∧ place room 0 (clusters (l.take (n + 1))) =
    place room 0 (clusters (l.take n)) ++ [⟨x, f.text, f.style⟩]

/-- A character by itself is drawn behind all in front of it, if it takes any columns and these are
there. -/
theorem drawnAt_char_iff {l : Line} {c : Char} {s : Style} (hat : l[n]? = some ⟨[c], s⟩)
    (hroom : 3 ≤ room) :
    l.DrawnAt room n x ↔ x = columns room (clusters (l.take n)) ∧ 0 < Text.shownWidth c ∧
      x + Text.shownWidth c ≤ room := by
  have htake : clusters (l.take (n + 1)) =
      clusters (l.take n) ++ if c = '\n' then [] else [([c], s)] := by
    rw [List.take_add_one, hat, clusters_append]
    exact congrArg _ (clusters_char c s)
  have hdrawn : l.DrawnAt room n x ↔
      (if columns room (clusters (l.take n)) ≤ room then
        place room (columns room (clusters (l.take n))) (if c = '\n' then [] else [([c], s)])
      else []) = [⟨x, [c], s⟩] := by
    unfold DrawnAt
    rw [hat, htake, place_append (Nat.zero_le room), Nat.zero_add]
    simp
  rw [hdrawn]
  unfold Text.shownWidth
  by_cases hend : c = '\n'
  · simp [hend, place]
  -- there is room for any single character, so none is left out for its width
  · rw [if_neg hend, if_neg hend, place_last, taken_char hroom]
    generalize columns room (clusters (l.take n)) = column
    constructor
    · intro h
      split at h
      · obtain ⟨rfl, -⟩ := Placed.mk.inj (List.singleton_inj.1 h)
        exact ⟨rfl, ‹_›⟩
      · cases h
    · rintro ⟨rfl, hfits⟩
      rw [if_pos hfits]

/-- What is drawn in a column is behind the fragments in front, and in front of the others. -/
theorem DrawnAt.exists_after {l : Line} {f : Fragment} (h : l.DrawnAt room n x)
    (hat : l[n]? = some f) :
    ∃ before after, place room 0 l.clusters = before ++ ⟨x, f.text, f.style⟩ :: after ∧
      (∀ p ∈ before, p.x < x ∧ p.x + Text.width p.symbol ≤ x) ∧ ∀ p ∈ after, x < p.x := by
  obtain ⟨g, hg, hplace⟩ := h
  obtain rfl := Option.some.inj (hg.symm.trans hat)
  have htake : clusters (l.take (n + 1)) = clusters (l.take n) ++ clusters [g] := by
    rw [List.take_add_one, hat, clusters_append]
    rfl
  have hlast : ⟨x, g.text, g.style⟩ ∈ place room 0 (clusters (l.take (n + 1))) := by
    rw [hplace]
    exact List.mem_append_right _ (List.mem_singleton_self _)
  obtain ⟨-, hpos, hend⟩ := place_bounds hlast
  have hsplit : clusters l = clusters (l.take (n + 1)) ++ clusters (l.drop (n + 1)) := by
    rw [← clusters_append, List.take_append_drop]
  rw [hsplit, place_append (Nat.zero_le room), hplace, List.append_assoc]
  refine ⟨_, _, by rw [List.singleton_append], fun p hp => ?_, fun p hp => ?_⟩
  · -- the fragment is placed where those in front of it end
    obtain ⟨-, hwidth, hfront⟩ := place_bounds hp
    have hstart : 0 + columns room (clusters (l.take n)) ≤ x := by
      rw [htake, place_append (Nat.zero_le room)] at hplace
      have hmem := List.append_cancel_left hplace
      split at hmem
      · exact (place_bounds (hmem ▸ List.mem_singleton_self _)).1
      · cases hmem
    omega
  · -- and those behind it are placed where it ends
    split at hp
    · have hbehind := (place_bounds hp).1
      dsimp only at hpos hend
      omega
    · cases hp

end Line

namespace Row

/-- Clusters in front of column `x` end there at the latest. -/
def ClearAt (x : Nat) (r : Row) : Prop :=
  ∀ i cell, r[i]? = some cell → i < x → i + Text.width cell.symbol ≤ x

variable {r : Row} {x : Nat}

theorem ClearAt.getElem?_shown (h : r.ClearAt x) : r.shown[x]? = r[x]? := by
  cases hcell : r[x]? with
  | none => simp [shown, List.getElem?_zipWith, hcell]
  | some cell =>
    cases x with
    | zero => simp [shown, List.getElem?_zipWith, hcell]
    | succ i =>
      obtain ⟨hlt, -⟩ := List.getElem?_eq_some_iff.1 hcell
      obtain ⟨before, hbefore⟩ : ∃ before, r[i]? = some before :=
        ⟨_, List.getElem?_eq_getElem (Nat.lt_of_succ_lt hlt)⟩
      have hwidth := h i before hbefore (Nat.lt_succ_self i)
      have hnarrow : ¬2 ≤ Text.width before.symbol := by omega
      simp [shown, List.getElem?_zipWith, hcell, hbefore, hnarrow]

theorem ClearAt.modify (h : r.ClearAt x) {p : Placed}
    (hp : p.x + Text.width p.symbol ≤ x ∨ x ≤ p.x) :
    ClearAt x (r.modify p.x (·.write p.symbol p.style)) := by
  intro i cell hcell hi
  by_cases hat : p.x = i
  · subst hat
    rw [List.getElem?_modify_eq] at hcell
    obtain ⟨old, -, rfl⟩ := Option.map_eq_some_iff.1 hcell
    change p.x + Text.width p.symbol ≤ x
    omega
  · rw [List.getElem?_modify_ne _ _ hat] at hcell
    exact h i cell hcell hi

/-- Writes all that is placed. -/
def put (ps : List Placed) (r : Row) : Row :=
  ps.foldl (fun r p => r.modify p.x (·.write p.symbol p.style)) r

theorem ClearAt.put {ps : List Placed} (h : r.ClearAt x)
    (hps : ∀ p ∈ ps, p.x + Text.width p.symbol ≤ x ∨ x ≤ p.x) : (r.put ps).ClearAt x := by
  induction ps generalizing r with
  | nil => exact h
  | cons p ps ih =>
    obtain ⟨hp, hps⟩ := List.forall_mem_cons.1 hps
    exact ih (h.modify hp) hps

theorem getElem?_put {ps : List Placed} (hps : ∀ p ∈ ps, p.x ≠ x) (r : Row) :
    (r.put ps)[x]? = r[x]? := by
  induction ps generalizing r with
  | nil => rfl
  | cons p ps ih =>
    obtain ⟨hp, hps⟩ := List.forall_mem_cons.1 hps
    rw [put, List.foldl_cons]
    exact (ih hps _).trans (List.getElem?_modify_ne _ _ hp)

/-- In the column of a fragment the row shows it in its style. -/
theorem getElem?_shown_write {l : Line} {room n : Nat} {f : Fragment} (h : l.DrawnAt room n x)
    (hat : l[n]? = some f) (hclear : r.ClearAt x) :
    (l.write 0 room r).shown[x]? = r[x]?.map (·.write f.text f.style) := by
  obtain ⟨before, after, hplace, hbefore, hafter⟩ := h.exists_after hat
  have hput : l.write 0 room r = r.put (before ++ ⟨x, f.text, f.style⟩ :: after) := by
    rw [Line.write, hplace]
    simp only [Nat.zero_add]
    rfl
  have hsides : ∀ p ∈ before ++ ⟨x, f.text, f.style⟩ :: after,
      p.x + Text.width p.symbol ≤ x ∨ x ≤ p.x := by
    intro p hp
    rcases List.mem_append.1 hp with hp | hp
    · exact .inl (hbefore p hp).2
    · rcases List.mem_cons.1 hp with rfl | hp
      · exact .inr (Nat.le_refl x)
      · exact .inr (Nat.le_of_lt (hafter p hp))
  rw [hput, (hclear.put hsides).getElem?_shown]
  calc (r.put (before ++ ⟨x, f.text, f.style⟩ :: after))[x]?
      = (put after ((r.put before).modify x (·.write f.text f.style)))[x]? := by
        rw [put, List.foldl_append]
        rfl
    _ = ((r.put before).modify x (·.write f.text f.style))[x]? :=
        getElem?_put (fun p hp => Nat.ne_of_gt (hafter p hp)) _
    _ = (r.put before)[x]?.map (·.write f.text f.style) := List.getElem?_modify_eq _ _ _
    _ = r[x]?.map (·.write f.text f.style) := by
        rw [getElem?_put fun p hp => Nat.ne_of_lt (hbefore p hp).1]

end Row

namespace Canvas

variable {canvas : Canvas}

theorem getElem?_line_of_ne {y i : Nat} (h : y ≠ i) (width : Nat) (s : Style) (l : Line) :
    (canvas.line y width s l)[i]? = canvas[i]? := List.getElem?_modify_ne _ _ h

theorem getElem?_box_of_lt {a : Area} {i : Nat} (h : i < a.y) (title : Text)
    (ground border : Style) (lines : List Line) :
    (canvas.box a title ground border lines)[i]? = canvas[i]? := by
  rw [box, List.getElem?_mapIdx]
  cases canvas[i]? with
  | none => rfl
  | some r =>
    rw [Option.map_some, if_neg (by omega)]

end Canvas
end QueryLine
