import QueryLine.Completion.Popup
import QueryLine.Proofs.Selecting
import QueryLine.Settings

/-!
Which formats dates can be written in. A format is read item by item, and an item hangs on the
characters it takes and not on what is behind them. A date can be written in a valid format unless
one of its items asks for the time of day, which a valid format may.
-/

namespace QueryLine
namespace DateFormat

def Item.isTime : Item → Bool
  | timeNumber | time => true
  | _ => false

/-- The letters for numbers of the time, which can be padded. -/
def timeNumbers : List Char := ['H', 'I', 'M', 'S', 'f', 'k', 'l', 's']

/-- The letters for anything else about the time or its zone. -/
def timeParts : List Char := ['P', 'R', 'T', 'X', 'Z', 'c', 'p', 'r', 'z', '+']

/-- What asks for the time of day, or for its zone, behind a percent sign. -/
def timeSpecifiers : List Text :=
  (timeNumbers ++ timeParts).map ([·]) ++
    ['-', '0', '_'].flatMap (fun padding => timeNumbers.map ([padding, ·])) ++
    ['#', 'z'] :: timeSpellings

/-- What may stand behind a percent sign, and the items it stands for. -/
inductive Specifier : Text → List Item → Prop
  | letter {c : Char} {items : List Item} (h : ofLetter? c = some items) : Specifier [c] items
  | padded {p c : Char} {padding : Padding} {plain items : List Item}
    (hpadding : padding? p = some padding) (hletter : ofLetter? c = some plain)
    (h : padded? padding plain = some items) : Specifier [p, c] items
  | zone : Specifier ['#', 'z'] [.time]
  | time {s : Text} (h : s ∈ timeSpellings) : Specifier s [.time]

theorem padding?_cases {p : Char} {padding : Padding} (h : padding? p = some padding) :
    p = '-' ∨ p = '0' ∨ p = '_' := by
  unfold padding? at h
  split at h <;> simp_all

theorem ofLetter?_of_padding {p : Char} {padding : Padding} (h : padding? p = some padding) :
    ofLetter? p = none := by
  rcases padding?_cases h with rfl | rfl | rfl
  · rfl
  · rfl
  · rfl

theorem exists_specifier {t : Text} {items : List Item} {n : Nat}
    (h : specifier? t = some (items, n)) :
    ∃ s back, t = s ++ back ∧ s.length = n ∧ Specifier s items := by
  cases t with
  | nil => cases h
  | cons c cs =>
    -- in the order in which they are tried: padded letters, the zone, letters, the longer ways
    cases hpadding : padding? c with
    | some padding =>
      cases cs with
      | nil => simp [specifier?, hpadding] at h
      | cons l back =>
        simp only [specifier?, hpadding] at h
        obtain ⟨padded, hpadded, heq⟩ := Option.map_eq_some_iff.1 h
        obtain ⟨plain, hletter, hplain⟩ := Option.bind_eq_some_iff.1 hpadded
        cases heq
        exact ⟨[c, l], back, rfl, rfl, .padded hpadding hletter hplain⟩
    | none =>
      simp only [specifier?, hpadding] at h
      split at h
      · subst c
        split at h
        · rename_i hhead
          obtain ⟨back, rfl⟩ := List.head?_eq_some_iff.1 hhead
          cases h
          exact ⟨['#', 'z'], back, rfl, rfl, .zone⟩
        · cases h
      · split at h
        · rename_i hletter
          cases h
          exact ⟨[c], cs, rfl, rfl, .letter hletter⟩
        · obtain ⟨s, hfind, heq⟩ := Option.map_eq_some_iff.1 h
          cases heq
          obtain ⟨back, hback⟩ := List.isPrefixOf_iff_prefix.1
            (List.find?_some (p := fun t : Text => t.isPrefixOf (c :: cs)) hfind)
          exact ⟨s, back, hback.symm, rfl, .time (List.mem_of_find?_eq_some hfind)⟩

theorem Specifier.specifier?_append {s : Text} {items : List Item} (h : Specifier s items)
    (back : Text) : specifier? (s ++ back) = some (items, s.length) := by
  cases h with
  | @letter c items h =>
    have hpadding : padding? c = none := by
      by_contra hsome
      obtain ⟨padding, hpadding⟩ := Option.ne_none_iff_exists'.1 hsome
      rw [ofLetter?_of_padding hpadding] at h
      cases h
    have hzone : c ≠ '#' := by
      rintro rfl
      cases h
    simp [specifier?, hpadding, hzone, h]
  | padded hpadding hletter h => simp [specifier?, hpadding, hletter, h]
  | zone => rfl
  | time h =>
    simp only [timeSpellings, List.mem_cons, List.not_mem_nil, or_false] at h
    rcases h with rfl | rfl | rfl | rfl | rfl | rfl | rfl | rfl | rfl | rfl | rfl
    all_goals rfl

theorem time_ofLetter? {c : Char} {items : List Item} (h : ofLetter? c = some items) :
    (∃ i ∈ items, i.isTime = true) ↔ c ∈ timeNumbers ++ timeParts := by
  unfold ofLetter? at h
  split at h
  all_goals cases h <;> decide

theorem ofLetter?_eq_timeNumber_iff {c : Char} :
    ofLetter? c = some [.timeNumber] ↔ c ∈ timeNumbers := by
  constructor
  · intro h
    unfold ofLetter? at h
    split at h
    all_goals cases h <;> decide
  · intro h
    simp only [timeNumbers, List.mem_cons, List.not_mem_nil, or_false] at h
    rcases h with rfl | rfl | rfl | rfl | rfl | rfl | rfl | rfl
    all_goals rfl

theorem time_padded? {padding : Padding} {plain items : List Item}
    (h : padded? padding plain = some items) :
    (∃ i ∈ items, i.isTime = true) ↔ plain = [.timeNumber] := by
  unfold padded? at h
  split at h
  · cases h
    simp [Item.isTime]
  · cases h
    simp [Item.isTime]
  · cases h

theorem Specifier.time_iff {s : Text} {items : List Item} (h : Specifier s items) :
    (∃ i ∈ items, i.isTime = true) ↔ s ∈ timeSpecifiers := by
  cases h with
  | letter h =>
    rw [time_ofLetter? h]
    simp [timeSpecifiers, timeSpellings]
  | padded hpadding hletter h =>
    rw [time_padded? h, ← Option.some_inj, ← hletter, ofLetter?_eq_timeNumber_iff]
    rcases padding?_cases hpadding with rfl | rfl | rfl
    all_goals simp [timeSpecifiers, timeSpellings]
  | zone => decide
  | time h =>
    refine iff_of_true ⟨.time, List.mem_singleton_self _, rfl⟩ ?_
    exact List.mem_append_right _ (List.mem_cons_of_mem _ h)

/-- A format and what is read of it, item by item. -/
inductive Reads : Text → List Item → Prop
  | nil : Reads [] []
  | char {c : Char} {t : Text} {items : List Item} (hc : c ≠ '%') (h : Reads t items) :
    Reads (c :: t) (.text [c] :: items)
  | item {s t : Text} {items more : List Item} (hs : Specifier s items) (h : Reads t more) :
    Reads ('%' :: (s ++ t)) (items ++ more)

theorem scan?_eq_drop (pending : Nat) (t : Text) : scan? pending t = scan? 0 (t.drop pending) := by
  induction t generalizing pending with
  | nil =>
    rw [List.drop_nil]
    cases pending with
    | _ => rfl
  | cons c t ih =>
    cases pending with
    | zero => rfl
    | succ pending => exact ih pending

theorem items?_char {c : Char} (hc : c ≠ '%') (t : Text) :
    items? (c :: t) = (items? t).map (.text [c] :: ·) := if_neg hc

theorem items?_item {s : Text} {items : List Item} (h : Specifier s items) (t : Text) :
    items? ('%' :: (s ++ t)) = (items? t).map (items ++ ·) := by
  have hscan : scan? s.length (s ++ t) = items? t := by rw [scan?_eq_drop, List.drop_left, items?]
  rw [← hscan, items?, scan?, if_pos rfl, h.specifier?_append]

theorem Reads.items?_append {front : Text} {items : List Item} (h : Reads front items)
    (back : Text) : items? (front ++ back) = (items? back).map (items ++ ·) := by
  induction h with
  | nil => simp
  | char hc _ ih =>
    rw [List.cons_append, items?_char hc, ih, Option.map_map]
    rfl
  | item hs _ ih =>
    rw [List.cons_append, List.append_assoc, items?_item hs, ih, Option.map_map]
    simp [Function.comp_def]

theorem reads_of_items? {t : Text} {items : List Item} (h : items? t = some items) :
    Reads t items := by
  match t with
  | [] =>
    cases h
    exact .nil
  | c :: cs =>
    by_cases hc : c = '%'
    · rw [items?, scan?, if_pos hc] at h
      split at h
      · rename_i found n hspecifier
        obtain ⟨s, back, hcs, rfl, hs⟩ := exists_specifier hspecifier
        -- what is read next is shorter by the percent sign at least
        have hshorter : back.length < (c :: cs).length := by
          rw [hcs, List.length_cons, List.length_append]
          omega
        rw [scan?_eq_drop, hcs, List.drop_left] at h
        obtain ⟨more, hmore, rfl⟩ := Option.map_eq_some_iff.1 h
        rw [hc, hcs]
        exact .item hs (reads_of_items? hmore)
      · cases h
    · rw [items?_char hc] at h
      obtain ⟨more, hmore, rfl⟩ := Option.map_eq_some_iff.1 h
      exact .char hc (reads_of_items? hmore)
termination_by t.length
decreasing_by
  · exact hshorter
  · exact Nat.lt_succ_self _

theorem items?_eq_some_iff {t : Text} {items : List Item} :
    items? t = some items ↔ Reads t items := by
  refine ⟨reads_of_items?, fun h => ?_⟩
  have hwhole := h.items?_append []
  rw [List.append_nil] at hwhole
  rw [hwhole]
  exact congrArg some (List.append_nil items)

theorem isValid_iff {t : Text} : isValid t = true ↔ ∃ items, Reads t items := by
  rw [isValid, Option.isSome_iff_exists]
  exact exists_congr fun _ => items?_eq_some_iff

/-- Behind a format, a percent sign and what asks for the time. -/
def AsksTime (format : Text) : Prop :=
  ∃ front s back, format = front ++ '%' :: (s ++ back) ∧ isValid front = true ∧ s ∈ timeSpecifiers

theorem AsksTime.behind {front t : Text} {items : List Item} (hfront : Reads front items)
    (h : AsksTime t) : AsksTime (front ++ t) := by
  obtain ⟨middle, s, back, rfl, hmiddle, hs⟩ := h
  obtain ⟨more, hmore⟩ := isValid_iff.1 hmiddle
  refine ⟨front ++ middle, s, back, (List.append_assoc _ _ _).symm, ?_, hs⟩
  rw [isValid, hfront.items?_append, items?_eq_some_iff.2 hmore]
  rfl

theorem exists_specifier_of_time {s : Text} (h : s ∈ timeSpecifiers) :
    ∃ items, Specifier s items := by
  have hletters : (timeNumbers ++ timeParts).all (fun c => (ofLetter? c).isSome) = true := rfl
  have hpaddings : ['-', '0', '_'].all (fun p => (padding? p).isSome) = true := rfl
  rcases List.mem_append.1 h with hshort | hlong
  · rcases List.mem_append.1 hshort with hone | htwo
    · obtain ⟨c, hc, rfl⟩ := List.mem_map.1 hone
      obtain ⟨items, hitems⟩ := Option.isSome_iff_exists.1 (List.all_eq_true.1 hletters c hc)
      exact ⟨items, .letter hitems⟩
    · obtain ⟨p, hp, hpadded⟩ := List.mem_flatMap.1 htwo
      obtain ⟨c, hc, rfl⟩ := List.mem_map.1 hpadded
      obtain ⟨padding, hpadding⟩ := Option.isSome_iff_exists.1 (List.all_eq_true.1 hpaddings p hp)
      exact ⟨_, .padded hpadding (ofLetter?_eq_timeNumber_iff.2 hc) rfl⟩
  · rcases List.mem_cons.1 hlong with rfl | hspelling
    · exact ⟨_, .zone⟩
    · exact ⟨_, .time hspelling⟩

theorem Reads.asksTime_iff {format : Text} {items : List Item} (h : Reads format items) :
    AsksTime format ↔ ∃ i ∈ items, i.isTime = true := by
  constructor
  · rintro ⟨front, s, back, rfl, hfront, hs⟩
    obtain ⟨before, hbefore⟩ := isValid_iff.1 hfront
    obtain ⟨asked, hasked⟩ := exists_specifier_of_time hs
    obtain ⟨i, hi, htime⟩ := hasked.time_iff.2 hs
    have hitems := items?_eq_some_iff.2 h
    rw [hbefore.items?_append, items?_item hasked] at hitems
    obtain ⟨behind, hbehind, rfl⟩ := Option.map_eq_some_iff.1 hitems
    obtain ⟨more, -, rfl⟩ := Option.map_eq_some_iff.1 hbehind
    exact ⟨i, List.mem_append_right _ (List.mem_append_left _ hi), htime⟩
  · rintro ⟨i, hi, htime⟩
    induction h with
    | nil => cases hi
    | @char c t items hc h ih =>
      rcases List.mem_cons.1 hi with rfl | hi
      · cases htime
      · exact (ih hi).behind (.char hc .nil)
    | @item s t items more hs h ih =>
      rcases List.mem_append.1 hi with hi | hi
      · exact ⟨[], s, t, rfl, rfl, hs.time_iff.1 ⟨i, hi, htime⟩⟩
      · have hbehind := (ih hi).behind (.item hs .nil)
        rwa [List.append_nil, List.cons_append] at hbehind

theorem itemText?_eq_none_iff {d : Date} {i : Item} : itemText? d i = none ↔ i.isTime = true := by
  cases i with
  | _ => simp [itemText?, Item.isTime]

theorem write?_eq_none_iff {d : Date} {items : List Item} :
    write? d items = none ↔ ∃ i ∈ items, i.isTime = true := by
  rw [write?, Option.map_eq_none_iff]
  induction items with
  | nil => simp
  | cons i items ih =>
    have hcons : (i :: items).mapM (itemText? d) = none ↔
        itemText? d i = none ∨ items.mapM (itemText? d) = none := by
      rw [List.mapM_cons]
      cases itemText? d i with
      | none => simp
      | some t => cases items.mapM (itemText? d) <;> simp
    rw [hcons, ih, itemText?_eq_none_iff]
    simp

theorem isValid_orIso (format : Text) : isValid (orIso format) = true := by
  unfold orIso
  split
  · assumption
  · decide

/-- A valid format that asks for the time of day. -/
def Unwritable (format : Text) : Prop := isValid format = true ∧ AsksTime format

theorem not_unwritable_iso : ¬Unwritable iso := by
  rintro ⟨-, hasks⟩
  have hreads : Reads iso _ := items?_eq_some_iff.1 rfl
  exact absurd (hreads.asksTime_iff.1 hasks) (by decide)

theorem unwritable_orIso (format : Text) : Unwritable (orIso format) ↔ Unwritable format := by
  unfold orIso
  split
  · exact Iff.rfl
  · rename_i hinvalid
    exact iff_of_false not_unwritable_iso fun h => hinvalid h.1

end DateFormat

namespace Date

open DateFormat (isValid orIso Unwritable)

/-- A date can be written unless the format asks for the time of day. -/
theorem exists_format_iff (d : Date) (format : Text) :
    (∃ t, d.format format = .ok t) ↔ ¬Unwritable format := by
  rw [← DateFormat.unwritable_orIso]
  obtain ⟨items, hreads⟩ := DateFormat.isValid_iff.1 (DateFormat.isValid_orIso format)
  have hasks : Unwritable (orIso format) ↔ DateFormat.write? d items = none :=
    (and_iff_right (DateFormat.isValid_orIso format)).trans
      (hreads.asksTime_iff.trans DateFormat.write?_eq_none_iff.symm)
  rw [hasks, Date.format, DateFormat.items?_eq_some_iff.2 hreads, Option.bind_some]
  cases DateFormat.write? d items with
  | none => simp
  | some t => simp

/-- Year, month and day. -/
def isoText (d : Date) : Text :=
  DateFormat.yearText .zeros d.civil.year ++ '-' :: DateFormat.twoDigits .zeros d.civil.month ++
    '-' :: DateFormat.twoDigits .zeros d.civil.day

theorem format_of_not_valid (d : Date) {format : Text} (h : isValid format = false) :
    d.format (orIso format) = .ok d.isoText := by
  have hiso : orIso format = DateFormat.iso := if_neg (by simp [h])
  have hwritten : d.format DateFormat.iso = .ok (DateFormat.yearText .zeros d.civil.year ++
      (['-'] ++ (DateFormat.twoDigits .zeros d.civil.month ++
        (['-'] ++ (DateFormat.twoDigits .zeros d.civil.day ++ []))))) := rfl
  rw [hiso, hwritten, isoText, List.append_nil]
  simp only [List.append_assoc, List.cons_append, List.nil_append]

end Date

theorem Settings.isValid_dateFormat (bytes : ByteArray) :
    DateFormat.isValid (Settings.ofBytes bytes).dateFormat = true := by
  unfold ofBytes
  split
  · exact DateFormat.isValid_orIso _
  · exact DateFormat.isValid_orIso DateFormat.iso

namespace Picker

variable {p q : Picker}

theorem dateFormat_run {ops : List Operation} (h : p.run ops = .ok q) :
    q.dateFormat = p.dateFormat :=
  foldlM_invariant (fun (_ : Unit) _ => ()) (P := fun _ r => r.dateFormat = p.dateFormat) (a := ())
    (fun _ hr hop => (operate_spec hop).1.trans hr) rfl h

theorem exists_map_iff {ε α β : Type} {f : α → β} {x : Except ε α} :
    (∃ b, x.map f = .ok b) ↔ ∃ a, x = .ok a := by
  cases x with
  | error e => simp [Except.map]
  | ok a => simp [Except.map]

/-- Only the date can fail to be written, so only its page can fail to give a selection. -/
theorem exists_selection_iff :
    (∃ s, p.selection = .ok s) ↔ (p.page = .date → ∃ t, p.dateText = .ok t) := by
  unfold selection
  cases p.page with
  | proposals => simp
  | strings => simp
  | date => simpa using exists_map_iff

theorem exists_lines_iff (theme : Theme) :
    (∃ ls, p.lines theme = .ok ls) ↔ (p.page = .date → ∃ t, p.dateText = .ok t) := by
  unfold lines
  cases p.page with
  | proposals => simp
  | strings => simp
  | date => simpa using exists_map_iff

/-- A picker writes its date unless its format is valid and asks for the time of day. Year, month
and day take the place of an invalid one, and that of settings is always valid. Whatever is done to
a picker, its selection and its lines fail just on the page of the date, for such a format. -/
theorem run_writes_dates_iff (format : Text) (date : Date) :
    ((∃ t, (Picker.new format date).dateText = .ok t) ↔ ¬DateFormat.Unwritable format) ∧
      (DateFormat.isValid format = false →
        (Picker.new format date).dateText = .ok date.isoText) ∧
      (∀ ops p, (Picker.new format date).run ops = .ok p →
        ((∃ s, p.selection = .ok s) ↔ ¬(p.page = .date ∧ DateFormat.Unwritable format)) ∧
        ∀ theme, (∃ ls, p.lines theme = .ok ls) ↔
          ¬(p.page = .date ∧ DateFormat.Unwritable format)) ∧
      ∀ bytes, DateFormat.isValid (Settings.ofBytes bytes).dateFormat = true := by
  have hwritten (date : Date) : (∃ t, date.format (DateFormat.orIso format) = .ok t) ↔
      ¬DateFormat.Unwritable format := by
    rw [date.exists_format_iff, DateFormat.unwritable_orIso]
  refine ⟨hwritten date, fun hinvalid => date.format_of_not_valid hinvalid, fun ops p hrun => ?_,
    Settings.isValid_dateFormat⟩
  have hdate : (∃ t, p.dateText = .ok t) ↔ ¬DateFormat.Unwritable format := by
    rw [dateText, dateFormat_run hrun]
    exact hwritten p.date
  constructor
  · rw [exists_selection_iff, hdate, not_and]
  · intro theme
    rw [exists_lines_iff, hdate, not_and]

/-- Behind a doubled percent sign an hour is a letter, so the date a day later is selected. What is
no item gives way to the year, the month and the day. -/
theorem run_writes_doubled_percent :
    let date : Date := ⟨19782, by decide⟩
    let p := Picker.new "%d.%m. %%H".toList date
    let ops : List Operation := [.turnTo .date, .shift 1]
    (∃ q, p.run ops = .ok q ∧ (∃ s, q.selection = .ok s) ∧ q.dateText = .ok "01.03. %H".toList) ∧
      DateFormat.isValid ['%', 'Q'] = false ∧
      (Picker.new ['%', 'Q'] date).dateText = .ok "2024-02-29".toList := by
  intro date p ops
  have hwritable : ¬DateFormat.Unwritable "%d.%m. %%H".toList := by
    rintro ⟨-, hasks⟩
    have hreads : DateFormat.Reads "%d.%m. %%H".toList _ := DateFormat.items?_eq_some_iff.1 rfl
    exact absurd (hreads.asksTime_iff.1 hasks) (by decide)
  obtain ⟨-, -, hruns, -⟩ := run_writes_dates_iff "%d.%m. %%H".toList date
  obtain ⟨-, hreplaced, -, -⟩ := run_writes_dates_iff ['%', 'Q'] date
  have hselects := (hruns ops _ rfl).1
  have hiso : date.isoText = "2024-02-29".toList := by decide +kernel
  refine ⟨⟨_, rfl, hselects.2 fun h => hwritable h.2, by decide +kernel⟩, rfl, ?_⟩
  rw [← hiso]
  exact hreplaced rfl

/-- Settings may ask for the hour, and then the page of the date cannot be used. -/
theorem hour_unwritten :
    let settings := Settings.ofBytes "date_format = \"%H\"".toUTF8
    let p := (Picker.new ['%', 'H'] ⟨19782, by decide⟩).turnTo .date
    settings.dateFormat = ['%', 'H'] ∧ p.dateText = .error .noTimeOfDay ∧
      p.selection = .error .noTimeOfDay ∧ ∀ theme, p.lines theme = .error .noTimeOfDay :=
  ⟨by decide +kernel, rfl, rfl, fun _ => rfl⟩

end Picker
end QueryLine
