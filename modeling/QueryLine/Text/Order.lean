import QueryLine.Text.Basic

/-!
Texts in the order of their characters.
-/

namespace QueryLine.Text

def le (s t : Text) : Bool := !decide (t < s)

theorem le_eq_true_iff {s t : Text} : le s t = true ↔ ¬t < s := by
  rw [le, Bool.not_eq_true', decide_eq_false_iff_not]

def sort (l : List Text) : List Text := l.mergeSort le

theorem sort_perm (l : List Text) : (sort l).Perm l := List.mergeSort_perm l le

theorem pairwise_sort (l : List Text) : (sort l).Pairwise fun s t => ¬t < s := by
  have htrans : ∀ s t u : Text, le s t = true → le t u = true → le s u = true := by
    simp only [le_eq_true_iff, List.not_lt]
    exact fun s t u => List.le_trans
  have htotal : ∀ s t : Text, (le s t || le t s) = true := by
    simp only [Bool.or_eq_true, le_eq_true_iff, List.not_lt]
    exact List.le_total
  exact (List.pairwise_mergeSort htrans htotal l).imp le_eq_true_iff.1

def sortedSet (l : List Text) : List Text := (sort l).eraseReps

end QueryLine.Text
