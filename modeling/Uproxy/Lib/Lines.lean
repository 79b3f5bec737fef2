import Mathlib.Data.List.DropRight
import Mathlib.Data.List.Basic

/-!
# Texts by lines

A text is cut at a line end, which the last line may lack (`lines`); `trim p` removes the elements
that satisfy `p` at both ends of a line.

* `lines_flatMap`: lines that are written one behind the other are found again, and
  `length_lines_flatMap`: as many are found only if none holds a line end;
* `rdropWhile_append_cons`: an element that stays protects what is in front of it;
* `trim_append_cons`: trimming a line around an element that stays;
* `mem_intercalate`, `infix_intercalate`: what is in a list with separators;
* `not_mem_of_mem_splitOn`, `length_splitOn_eq_one`: the words between separators.
-/

namespace Uproxy.Lib.Lines

variable {α : Type} [DecidableEq α]

omit [DecidableEq α] in
theorem length_le_flatMap {β : Type} {f : α → List β} {l : List α} (h : ∀ a ∈ l, f a ≠ []) :
    l.length ≤ (l.flatMap f).length := by
  induction l with
  | nil => exact Nat.le_refl _
  | cons a l ih =>
    obtain ⟨ha, hl⟩ := List.forall_mem_cons.mp h
    have := ih hl
    have := List.length_pos_iff.mpr ha
    rw [List.flatMap_cons, List.length_append, List.length_cons]
    omega

omit [DecidableEq α] in
/-- Parts of which none is empty are single if there are no more elements than parts. -/
theorem length_eq_one_of_flatMap {β : Type} {f : α → List β} {l : List α} (h : ∀ a ∈ l, f a ≠ [])
    (hlen : (l.flatMap f).length = l.length) : ∀ a ∈ l, (f a).length = 1 := by
  induction l with
  | nil => exact List.forall_mem_nil _
  | cons a l ih =>
    obtain ⟨ha, hl⟩ := List.forall_mem_cons.mp h
    have := length_le_flatMap hl
    have := List.length_pos_iff.mpr ha
    rw [List.flatMap_cons, List.length_append, List.length_cons] at hlen
    exact List.forall_mem_cons.mpr ⟨by omega, ih hl (by omega)⟩

/-- The lines of a text, each up to the next `l`. -/
def lines (l : α) : List α → List (List α)
  | [] => []
  | x :: xs =>
    if x = l then [] :: lines l xs
    else
      match lines l xs with
      | [] => [[x]]
      | s :: ss => (x :: s) :: ss

theorem lines_append_cons {l : α} : ∀ {s : List α}, l ∉ s → ∀ xs : List α,
    lines l (s ++ l :: xs) = s :: lines l xs
  | [], _, xs => by rw [List.nil_append, lines, if_pos rfl]
  | x :: s, h, xs => by
    rw [List.mem_cons, not_or] at h
    rw [List.cons_append, lines, if_neg (Ne.symm h.1), lines_append_cons h.2]

/-- **Lines are found again.** -/
theorem lines_flatMap {l : α} : ∀ {ls : List (List α)}, (∀ s ∈ ls, l ∉ s) →
    lines l (ls.flatMap (· ++ [l])) = ls
  | [], _ => rfl
  | s :: ls, h => by
    obtain ⟨hs, hls⟩ := List.forall_mem_cons.mp h
    rw [List.flatMap_cons, List.append_assoc, List.singleton_append, lines_append_cons hs,
      lines_flatMap hls]

theorem lines_concat_ne_nil (l : α) (s : List α) : lines l (s ++ [l]) ≠ [] := by
  cases s with
  | nil => simp [lines]
  | cons x s =>
    rw [List.cons_append, lines]
    split_ifs
    · exact List.cons_ne_nil _ _
    · cases lines l (s ++ [l]) <;> exact List.cons_ne_nil _ _

/-- Lines that are written one behind the other are cut one by one. -/
theorem lines_flatMap_eq {l : α} (ls : List (List α)) :
    lines l (ls.flatMap (· ++ [l])) = ls.flatMap fun s => lines l (s ++ [l]) := by
  have happend : ∀ s xs : List α, lines l (s ++ l :: xs) = lines l (s ++ [l]) ++ lines l xs := by
    intro s xs
    induction s with
    | nil => simp [lines]
    | cons x s ih =>
      obtain ⟨v, vs, hv⟩ := List.exists_cons_of_ne_nil (lines_concat_ne_nil l s)
      rw [List.cons_append, List.cons_append, lines, lines, ih, hv]
      split_ifs <;> rfl
  induction ls with
  | nil => rfl
  | cons s ls ih =>
    rw [List.flatMap_cons, List.append_assoc, List.singleton_append, happend, ih, List.flatMap_cons]

/-- **As many lines as were written** are found only if none of them holds a line end. -/
theorem length_lines_flatMap {l : α} {ls : List (List α)}
    (h : (lines l (ls.flatMap (· ++ [l]))).length = ls.length) : ∀ s ∈ ls, l ∉ s := by
  intro s hs hl
  rw [lines_flatMap_eq] at h
  have hone := length_eq_one_of_flatMap (fun s _ => lines_concat_ne_nil l s) h s hs
  -- the line is cut at its first line end
  obtain ⟨a, b, rfl, ha⟩ := List.eq_append_cons_of_mem hl
  rw [List.append_assoc, List.cons_append, lines_append_cons ha, List.length_cons,
    Nat.add_eq_right, List.length_eq_zero_iff] at hone
  exact lines_concat_ne_nil l b hone

omit [DecidableEq α]

variable {p : α → Bool}

/-- Without what satisfies `p` at either end. -/
def trim (p : α → Bool) (s : List α) : List α := (s.dropWhile p).rdropWhile p

theorem rdropWhile_append_cons {x : α} (hx : p x = false) (a b : List α) :
    (a ++ x :: b).rdropWhile p = a ++ x :: b.rdropWhile p := by
  induction b using List.reverseRecOn with
  | nil => rw [List.rdropWhile_nil, List.rdropWhile_concat_neg _ _ _ (by simp [hx])]
  | append_singleton b y ih =>
    have hcons : a ++ x :: (b ++ [y]) = (a ++ x :: b) ++ [y] := by simp
    rw [hcons]
    by_cases hy : p y = true
    · rw [List.rdropWhile_concat_pos _ _ _ hy, List.rdropWhile_concat_pos _ _ _ hy, ih]
    · rw [List.rdropWhile_concat_neg _ _ _ hy, List.rdropWhile_concat_neg _ _ _ hy, hcons]

theorem trim_cons_pos {x : α} (hx : p x = true) (s : List α) : trim p (x :: s) = trim p s := by
  unfold trim
  rw [List.dropWhile_cons_of_pos hx]

theorem trim_cons_neg {x : α} (hx : p x = false) (s : List α) :
    trim p (x :: s) = x :: s.rdropWhile p := by
  unfold trim
  rw [List.dropWhile_cons_of_neg (by simp [hx])]
  exact rdropWhile_append_cons hx [] s

/-- A line between two elements that stay is left as it is. -/
theorem trim_cons_concat {x y : α} (hx : p x = false) (hy : p y = false) (s : List α) :
    trim p (x :: (s ++ [y])) = x :: (s ++ [y]) := by
  rw [trim_cons_neg hx, List.rdropWhile_concat_neg _ _ _ (by simp [hy])]

/-- **Trimming around an element that stays.** -/
theorem trim_append_cons {x : α} (hx : p x = false) (a b : List α) :
    trim p (a ++ x :: b) = a.dropWhile p ++ x :: b.rdropWhile p := by
  unfold trim
  rw [List.dropWhile_append]
  by_cases h : (a.dropWhile p).isEmpty = true
  · rw [if_pos h, List.dropWhile_cons_of_neg (by simp [hx]), List.isEmpty_iff.mp h]
    exact rdropWhile_append_cons hx [] b
  · rw [if_neg h, rdropWhile_append_cons hx]

theorem trim_concat_pos {x : α} (hx : p x = true) (s : List α) : trim p (s ++ [x]) = trim p s := by
  unfold trim
  rw [List.dropWhile_append]
  by_cases h : (s.dropWhile p).isEmpty = true
  · rw [if_pos h, List.dropWhile_cons_of_pos hx, List.isEmpty_iff.mp h]
    rfl
  · rw [if_neg h, List.rdropWhile_concat_pos _ _ _ hx]

theorem trim_rdropWhile (s : List α) : trim p (s.rdropWhile p) = trim p s := by
  induction s using List.reverseRecOn with
  | nil => rfl
  | append_singleton s x ih =>
    by_cases hx : p x = true
    · rw [List.rdropWhile_concat_pos _ _ _ hx, ih, trim_concat_pos hx]
    · rw [List.rdropWhile_concat_neg _ _ _ hx]

/-- A line that satisfies `p` nowhere is left as it is. -/
theorem trim_eq_self {s : List α} (h : ∀ x ∈ s, p x = false) : trim p s = s := by
  cases s with
  | nil => rfl
  | cons x s =>
    obtain ⟨hx, hs⟩ := List.forall_mem_cons.mp h
    rw [trim_cons_neg hx, List.rdropWhile_eq_self_iff.mpr]
    intro hne hp
    rw [hs _ (List.getLast_mem hne)] at hp
    exact Bool.noConfusion hp

/-- The elements behind the last one that does not satisfy `p`. -/
theorem rtakeWhile_append {a b : List α} (hb : ∀ x ∈ b, p x = true)
    (ha : ∀ x ∈ a.getLast?, p x = false) :
    (a ++ b).rdropWhile p = a ∧ (a ++ b).rtakeWhile p = b := by
  have hdrop : (a ++ b).rdropWhile p = a := by
    induction b using List.reverseRecOn with
    | nil =>
      rw [List.append_nil, List.rdropWhile_eq_self_iff]
      intro hne hp
      rw [ha _ (List.getLast?_eq_some_getLast hne)] at hp
      exact Bool.noConfusion hp
    | append_singleton b x ih =>
      rw [← List.append_assoc, List.rdropWhile_concat_pos _ _ _ (hb x (by simp))]
      exact ih fun y hy => hb y (List.mem_append_left _ hy)
  have hsplit := List.rdropWhile_append_rtakeWhile (p := p) (l := a ++ b)
  rw [hdrop] at hsplit
  exact ⟨hdrop, List.append_cancel_left hsplit⟩

/-! ## Lists with separators -/

theorem mem_intercalate {c : α} {sep : List α} : ∀ {ls : List (List α)},
    c ∈ sep.intercalate ls → c ∈ sep ∨ ∃ l ∈ ls, c ∈ l
  | [], h => by simp at h
  | [l], h => Or.inr ⟨l, List.mem_cons_self, by simpa using h⟩
  | l :: l' :: ls, h => by
    rw [List.intercalate_cons_cons, List.mem_append, List.mem_append] at h
    rcases h with (h | h) | h
    · exact Or.inr ⟨l, List.mem_cons_self, h⟩
    · exact Or.inl h
    · rcases mem_intercalate h with h | ⟨x, hx, h⟩
      · exact Or.inl h
      · exact Or.inr ⟨x, List.mem_cons_of_mem _ hx, h⟩

theorem infix_intercalate {l : List α} (sep : List α) : ∀ {ls : List (List α)},
    l ∈ ls → l <:+: sep.intercalate ls
  | [x], h => by
    have hx : sep.intercalate [x] = l :=
      List.intercalate_singleton.trans (List.mem_singleton.mp h).symm
    exact ⟨[], [], by rw [hx, List.nil_append, List.append_nil]⟩
  | x :: y :: ls, h => by
    rw [List.intercalate_cons_cons]
    rcases List.mem_cons.mp h with rfl | h
    · exact ⟨[], sep ++ sep.intercalate (y :: ls), by simp⟩
    · exact (infix_intercalate sep h).trans (List.suffix_append _ _).isInfix

section Words

variable [DecidableEq α]

theorem not_mem_of_mem_splitOn {x : α} : ∀ {s w : List α}, w ∈ s.splitOn x → x ∉ w
  | [], w, h => by
    rw [List.splitOn_nil, List.mem_singleton] at h
    exact h ▸ List.not_mem_nil
  | a :: s, w, h => by
    rw [List.splitOn_cons_eq_if_modifyHead] at h
    obtain ⟨v, vs, hv⟩ := List.exists_cons_of_ne_nil (List.splitOn_ne_nil x s)
    have ih : ∀ u ∈ v :: vs, x ∉ u := fun u hu => not_mem_of_mem_splitOn (hv ▸ hu)
    obtain ⟨hfirst, hrest⟩ := List.forall_mem_cons.mp ih
    split_ifs at h with ha
    · rcases List.mem_cons.mp h with rfl | h
      · exact List.not_mem_nil
      · exact not_mem_of_mem_splitOn h
    · rw [hv, List.modifyHead_cons] at h
      rcases List.mem_cons.mp h with rfl | h
      · exact List.not_mem_cons_of_ne_of_not_mem (fun he => ha (beq_iff_eq.mpr he.symm)) hfirst
      · exact hrest w h

theorem length_splitOn_eq_one {x : α} {s : List α} (h : (s.splitOn x).length = 1) : x ∉ s := by
  obtain ⟨w, hw⟩ := List.length_eq_one_iff.mp h
  have hs : w = s := by
    have := @List.intercalate_splitOn _ s _ _ x
    rwa [hw, List.intercalate_singleton] at this
  exact hs ▸ not_mem_of_mem_splitOn (hw ▸ List.mem_singleton.mpr rfl)

end Words

end Uproxy.Lib.Lines
