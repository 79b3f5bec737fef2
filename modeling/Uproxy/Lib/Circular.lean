import Mathlib.Data.List.Basic
import Mathlib.Tactic.SplitIfs

/-!
# Circular views of a list

A list of cells read as a circle: `circView cells r n` is the `n` cells met when walking from
position `r` and wrapping once at the end. A FIFO over a fixed array is such a view, so its
operations are facts about views:

* `circView_take` / `circView_drop`: a prefix of a view is a shorter view, a suffix is a view from
  a later position;
* `circView_regions`: a view is at most two contiguous regions, the one from `r` and the one from
  the start of the array;
* **`circView_overwrite`**: writing a region right behind a view extends the view by what was
  written, as long as the region neither wraps nor reaches the view's first cell.

Nothing here depends on what the cells hold.
-/

namespace Uproxy.Lib.Circular

variable {α : Type}

/-- The `n` cells from position `r` on, wrapping at the end of the array. -/
def circView (cells : List α) (r n : Nat) : List α :=
  (cells.drop r ++ cells).take n

/-- `memcpy` into the array: the cells `p … p + |d| - 1` become `d`. -/
def overwrite (cells : List α) (p : Nat) (d : List α) : List α :=
  cells.take p ++ d ++ cells.drop (p + d.length)

/-- The wrapped position is one conditional subtraction. -/
theorem wrap_eq {r k len : Nat} (hr : r < len) (hk : k ≤ len) :
    (r + k) % len = if r + k < len then r + k else r + k - len := by
  split_ifs with h
  · exact Nat.mod_eq_of_lt h
  · rw [Nat.mod_eq_sub_mod (by omega), Nat.mod_eq_of_lt (by omega)]

@[simp] theorem circView_zero (cells : List α) (r : Nat) : circView cells r 0 = [] := by
  simp [circView]

theorem length_circView {cells : List α} {r n : Nat} (hn : n ≤ cells.length) :
    (circView cells r n).length = n := by
  unfold circView
  rw [List.length_take, List.length_append]
  omega

theorem getElem?_circView {cells : List α} {r n i : Nat} (hr : r ≤ cells.length) (hi : i < n) :
    (circView cells r n)[i]? =
      if r + i < cells.length then cells[r + i]? else cells[r + i - cells.length]? := by
  unfold circView
  rw [List.getElem?_take_of_lt hi, List.getElem?_append, List.length_drop]
  split_ifs with h1 h2 h2
  · rw [List.getElem?_drop]
  · omega
  · omega
  · congr 1; omega

theorem circView_take (cells : List α) (r n m : Nat) :
    (circView cells r n).take m = circView cells r (min m n) := by
  unfold circView
  rw [List.take_take]

/-- Dropping from a view moves its start. -/
theorem circView_drop {cells : List α} {r n m : Nat} (hr : r < cells.length)
    (hn : n ≤ cells.length) (hm : m ≤ n) :
    (circView cells r n).drop m = circView cells ((r + m) % cells.length) (n - m) := by
  have hlt : (r + m) % cells.length < cells.length := Nat.mod_lt _ (by omega)
  apply List.ext_getElem?
  intro i
  rw [List.getElem?_drop]
  by_cases hi : i < n - m
  · rw [getElem?_circView (by omega) (by omega), getElem?_circView (by omega) hi,
      wrap_eq hr (by omega)]
    split_ifs <;> first | omega | (congr 1; omega)
  · rw [List.getElem?_eq_none (by rw [length_circView hn]; omega),
      List.getElem?_eq_none (by rw [length_circView (by omega)]; omega)]

/-- A view is the region from its start to the end of the array, then the region from the start
of the array. -/
theorem circView_regions {cells : List α} {r n : Nat} (hr : r ≤ cells.length) :
    circView cells r n =
      (cells.drop r).take (min n (cells.length - r)) ++
        cells.take (n - min n (cells.length - r)) := by
  unfold circView
  rw [List.take_append, List.length_drop]
  congr 1
  · by_cases h : n ≤ cells.length - r
    · rw [Nat.min_eq_left h]
    · rw [Nat.min_eq_right (by omega), List.take_of_length_le (by rw [List.length_drop]; omega),
        List.take_of_length_le (Nat.le_of_eq List.length_drop)]
  · congr 1; omega

/-- A view of the whole array from position 0 is a prefix of it. -/
theorem circView_start {cells : List α} {n : Nat} (hn : n ≤ cells.length) :
    circView cells 0 n = cells.take n := by
  unfold circView
  rw [List.drop_zero, List.take_append_of_le_length hn]

theorem length_overwrite {cells : List α} {p : Nat} {d : List α}
    (h : p + d.length ≤ cells.length) : (overwrite cells p d).length = cells.length := by
  unfold overwrite
  simp only [List.length_append, List.length_take, List.length_drop]
  omega

theorem getElem?_overwrite {cells : List α} {p : Nat} {d : List α} (i : Nat)
    (h : p + d.length ≤ cells.length) :
    (overwrite cells p d)[i]? =
      if p ≤ i ∧ i < p + d.length then d[i - p]? else cells[i]? := by
  have hp : (cells.take p).length = p := by rw [List.length_take]; omega
  unfold overwrite
  rw [List.append_assoc, List.getElem?_append, hp]
  by_cases h1 : i < p
  · rw [if_pos h1, if_neg (by omega), List.getElem?_take_of_lt h1]
  · rw [if_neg h1, List.getElem?_append]
    by_cases h2 : i - p < d.length
    · rw [if_pos h2, if_pos (by omega)]
    · rw [if_neg h2, if_neg (by omega), List.getElem?_drop]
      congr 1; omega

/-- **Writing right behind a view extends it.** -/
theorem circView_overwrite {cells : List α} {r n w : Nat} {d : List α} (hr : r < cells.length)
    (hw : w = (r + n) % cells.length) (hfit : w + d.length ≤ cells.length)
    (hfree : n + d.length ≤ cells.length) :
    circView (overwrite cells w d) r (n + d.length) = circView cells r n ++ d := by
  have hlen := length_overwrite hfit
  rw [wrap_eq hr (by omega)] at hw
  apply List.ext_getElem?
  intro i
  rw [List.getElem?_append, length_circView (by omega)]
  by_cases hi : i < n + d.length
  · rw [getElem?_circView (by omega) hi, hlen, getElem?_overwrite _ hfit,
      getElem?_overwrite _ hfit]
    by_cases hin : i < n
    · -- an old cell: its position is outside the written region
      rw [if_pos hin, getElem?_circView (by omega) hin]
      split_ifs at hw ⊢ <;> first | omega | rfl
    · -- a new cell: its position is `w + (i - n)`
      rw [if_neg hin]
      split_ifs at hw ⊢ <;> first | omega | (congr 1; omega)
  · rw [if_neg (by omega), List.getElem?_eq_none (by rw [length_circView (by omega)]; omega),
      List.getElem?_eq_none (by omega)]

end Uproxy.Lib.Circular
