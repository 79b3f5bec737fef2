import Mathlib.Data.List.Basic
import Mathlib.Data.List.Infix
import Mathlib.Data.List.TakeWhile

/-!
# Substring search and delimited lines

`find pat xs` is the first position at which `pat` occurs in `xs`. The lemmas say what a found
position means (`find_eq_some_iff`, `find_eq_none_iff`), that nothing is found in front of it
(`find_take_none`), and what a search for one element finds (`find_singleton`).

A two-element delimiter `c l` (`c ≠ l`) ends lines that do not contain `l`:

* `joinLines` writes such lines, `splitLines` cuts a string at every delimiter;
* `splitLines_append`: cutting commutes with concatenation at a delimiter, whatever the parts hold;
* `lines_of_noBare`: a string in which every `l` follows a `c` is a sequence of such lines and a
  rest without `l`;
* `find_delim`, **`find_blank`**: the first delimiter ends the first line, and the first doubled
  delimiter is the blank line behind the last one;
* `find_next_line`, `find_isSome_joinLines`: what starts with a delimiter is found at the ends of
  lines only;
* `infix_around_iff`, `delim_infix_iff`: the ways in which a text lies across a delimiter.
-/

namespace Uproxy.Lib.Search

variable {α : Type} [DecidableEq α]

/-! ## Search -/

/-- The first position at which `pat` occurs. -/
def find (pat : List α) : List α → Option Nat
  | [] => if pat = [] then some 0 else none
  | x :: xs => if pat <+: x :: xs then some 0 else (find pat xs).map (· + 1)

theorem find_cons (pat : List α) (x : α) (xs : List α) :
    find pat (x :: xs) = if pat <+: x :: xs then some 0 else (find pat xs).map (· + 1) := rfl

theorem find_eq_some_iff {pat : List α} : ∀ {xs : List α} {n : Nat},
    find pat xs = some n ↔
      pat <+: xs.drop n ∧ n ≤ xs.length ∧ ∀ m < n, ¬ pat <+: xs.drop m
  | [], n => by
    unfold find
    split_ifs with h
    · subst h
      simp only [Option.some.injEq, List.drop_nil, List.length_nil, List.nil_prefix, true_and]
      constructor
      · rintro rfl; exact ⟨Nat.le_refl _, fun m hm => absurd hm (Nat.not_lt_zero m)⟩
      · rintro ⟨hn, -⟩; omega
    · simp only [List.drop_nil, List.length_nil, false_iff, not_and]
      intro hp
      exact absurd (List.prefix_nil.mp hp) h
  | x :: xs, n => by
    unfold find
    split_ifs with h
    · simp only [Option.some.injEq]
      constructor
      · rintro rfl; exact ⟨h, Nat.zero_le _, fun m hm => absurd hm (Nat.not_lt_zero m)⟩
      · rintro ⟨-, -, hmin⟩
        by_contra hn
        exact hmin 0 (by omega) h
    · cases n with
      | zero => simp [h]
      | succ n =>
        have ih : find pat xs = some n ↔ _ := find_eq_some_iff
        rw [Option.map_eq_some_iff]
        simp only [Nat.add_right_cancel_iff, exists_eq_right, ih, List.drop_succ_cons,
          List.length_cons, Nat.add_le_add_iff_right]
        refine and_congr_right fun _ => and_congr_right fun _ =>
          ⟨fun hm m hlt => ?_, fun hm m hlt => ?_⟩
        · cases m with
          | zero => exact h
          | succ m => exact hm m (by omega)
        · exact hm (m + 1) (by omega)

theorem find_eq_none_iff {pat : List α} : ∀ {xs : List α},
    find pat xs = none ↔ ∀ m ≤ xs.length, ¬ pat <+: xs.drop m
  | [] => by
    unfold find
    split_ifs with h
    · simp [h]
    · simp [h]
  | x :: xs => by
    unfold find
    split_ifs with h
    · simp only [false_iff, not_forall]
      exact ⟨0, Nat.zero_le _, fun hn => hn h⟩
    · rw [Option.map_eq_none_iff, find_eq_none_iff]
      constructor
      · intro hm m hle
        cases m with
        | zero => exact h
        | succ m => exact hm m (by simpa using hle)
      · intro hm m hle
        exact hm (m + 1) (by simpa using hle)

/-- A found occurrence, as a decomposition. -/
theorem find_split {pat xs : List α} {n : Nat} (h : find pat xs = some n) :
    xs = xs.take n ++ pat ++ xs.drop (n + pat.length) := by
  obtain ⟨⟨t, ht⟩, -, -⟩ := find_eq_some_iff.mp h
  have hd : xs.drop (n + pat.length) = t := by
    rw [← List.drop_drop, ← ht, List.drop_left]
  rw [hd, List.append_assoc, ht, List.take_append_drop]

theorem find_add_le {pat xs : List α} {n : Nat} (h : find pat xs = some n) :
    n + pat.length ≤ xs.length := by
  obtain ⟨hp, hn, -⟩ := find_eq_some_iff.mp h
  have := hp.length_le
  rw [List.length_drop] at this
  omega

theorem find_isSome_iff {pat xs : List α} : (find pat xs).isSome = true ↔ pat <:+: xs := by
  constructor
  · intro h
    obtain ⟨n, hn⟩ := Option.isSome_iff_exists.mp h
    exact ⟨_, _, (find_split hn).symm⟩
  · rintro ⟨a, b, rfl⟩
    rw [Option.isSome_iff_ne_none, Ne, find_eq_none_iff]
    intro h
    refine h a.length (by simp) ?_
    rw [List.append_assoc, List.drop_left]
    exact List.prefix_append pat b

/-- Cutting inside the occurrence loses it. -/
theorem find_take_none {pat xs : List α} {n k : Nat} (h : find pat xs = some n)
    (hk : k < n + pat.length) : find pat (xs.take k) = none := by
  obtain ⟨-, -, hmin⟩ := find_eq_some_iff.mp h
  rw [find_eq_none_iff]
  intro m hm hc
  have hlen := hc.length_le
  rw [List.length_drop, List.length_take] at hlen
  rw [List.length_take] at hm
  rw [List.drop_take] at hc
  exact hmin m (by omega) (hc.trans (List.take_prefix _ _))

/-- A search in the first `k` elements finds what ends there. -/
theorem find_take_eq_some {pat xs : List α} {n k : Nat} :
    find pat (xs.take k) = some n ↔ find pat xs = some n ∧ n + pat.length ≤ k := by
  constructor
  · intro h
    obtain ⟨hp, hn, hmin⟩ := find_eq_some_iff.mp h
    have hlen := find_add_le h
    rw [List.length_take] at hlen hn
    rw [List.drop_take] at hp
    refine ⟨find_eq_some_iff.mpr ⟨hp.trans (List.take_prefix _ _), by omega, fun m hm hc => ?_⟩,
      by omega⟩
    refine hmin m hm ?_
    rw [List.drop_take]
    exact List.prefix_take_iff.mpr ⟨hc, by omega⟩
  · rintro ⟨h, hk⟩
    cases hf : find pat (xs.take k) with
    | none =>
      obtain ⟨hp, hn, -⟩ := find_eq_some_iff.mp h
      refine absurd ?_ (find_eq_none_iff.mp hf n (by rw [List.length_take]; omega))
      rw [List.drop_take]
      exact List.prefix_take_iff.mpr ⟨hp, by omega⟩
    | some m =>
      -- an earlier one would be found in the whole list
      obtain ⟨hp, -, hmin⟩ := find_eq_some_iff.mp h
      obtain ⟨hp', -, hmin'⟩ := find_eq_some_iff.mp hf
      rw [List.drop_take] at hp'
      rcases Nat.lt_trichotomy m n with hlt | rfl | hgt
      · exact absurd (hp'.trans (List.take_prefix _ _)) (hmin m hlt)
      · rfl
      · refine absurd ?_ (hmin' n hgt)
        rw [List.drop_take]
        exact List.prefix_take_iff.mpr ⟨hp, by omega⟩

/-- Skipping a part in which no occurrence starts. -/
theorem find_skip {pat : List α} : ∀ (a b : List α),
    (∀ m < a.length, ¬ pat <+: (a ++ b).drop m) →
      find pat (a ++ b) = (find pat b).map (· + a.length)
  | [], b, _ => by simp
  | x :: a, b, h => by
    have h0 : ¬ pat <+: x :: (a ++ b) := h 0 (by simp)
    have ih := find_skip a b fun m hm => h (m + 1) (by simpa using hm)
    rw [List.cons_append, find_cons, if_neg h0, ih, Option.map_map]
    rfl

/-! ## Search for one element -/

omit [DecidableEq α] in
/-- What is behind an element, and behind two. -/
theorem drop_behind (a : List α) (x : α) (r : List α) : (a ++ x :: r).drop (a.length + 1) = r := by
  rw [← List.drop_drop, List.drop_left]
  rfl

omit [DecidableEq α] in
theorem drop_behind_two (a : List α) (x y : α) (r : List α) :
    (a ++ x :: y :: r).drop (a.length + 2) = r := by
  rw [← List.drop_drop, List.drop_left]
  rfl

theorem find_singleton_none {c : α} : ∀ {xs : List α}, find [c] xs = none ↔ c ∉ xs
  | [] => by simp [find]
  | x :: xs => by
    have ih : find [c] xs = none ↔ c ∉ xs := find_singleton_none
    rw [find_cons]
    by_cases h : c = x
    · subst h; simp
    · simp [h, ih]

/-- The first `c` splits the list. -/
theorem find_singleton {c : α} {xs : List α} {n : Nat} :
    find [c] xs = some n ↔ ∃ a b, xs = a ++ c :: b ∧ c ∉ a ∧ a.length = n := by
  constructor
  · intro h
    have hle := find_add_le h
    refine ⟨xs.take n, xs.drop (n + 1), by simpa using find_split h, fun hc => ?_,
      by rw [List.length_take]; omega⟩
    have hn : find [c] (xs.take n) = none := find_take_none h (Nat.lt_succ_self n)
    exact find_singleton_none.mp hn hc
  · rintro ⟨a, b, rfl, hc, rfl⟩
    rw [find_skip a (c :: b)]
    · simp [find]
    · intro m hm hp
      rw [List.drop_append_of_le_length (by omega)] at hp
      obtain ⟨y, ys, hy⟩ := List.exists_cons_of_ne_nil
        (List.ne_nil_of_length_pos (by rw [List.length_drop]; omega) : a.drop m ≠ [])
      rw [hy, List.cons_append, List.cons_prefix_cons] at hp
      exact hc (List.mem_of_mem_drop (by rw [hy, hp.1]; exact List.mem_cons_self))

theorem takeWhile_ne_eq_self {c : α} {xs : List α} (h : c ∉ xs) : xs.takeWhile (· ≠ c) = xs := by
  refine List.takeWhile_eq_self_iff.mpr fun x hx => decide_eq_true ?_
  rintro rfl
  exact h hx

/-- What stands in front of the first `c`. -/
theorem take_find_singleton {c : α} {xs : List α} {n : Nat} (h : find [c] xs = some n) :
    xs.take n = xs.takeWhile (· ≠ c) := by
  obtain ⟨a, b, rfl, hc, rfl⟩ := find_singleton.mp h
  have ha := List.takeWhile_eq_self_iff.mp (takeWhile_ne_eq_self hc)
  rw [List.take_left, List.takeWhile_append_of_pos ha, List.takeWhile_cons_of_neg (by simp),
    List.append_nil]

/-! ## Delimited lines -/

section Lines

variable (c l : α)

/-- The lines, each followed by the delimiter. -/
def joinLines (ls : List (List α)) : List α := ls.flatMap (· ++ [c, l])

/-- The parts of a string between its delimiters. -/
def splitLines : List α → List (List α)
  | [] => [[]]
  | [x] => [[x]]
  | x :: y :: xs =>
    if x = c ∧ y = l then [] :: splitLines xs
    else
      match splitLines (y :: xs) with
      | [] => [[x]]
      | s :: ss => (x :: s) :: ss

/-- Every `l` follows a `c`. -/
def NoBare (xs : List α) : Prop := ∀ a b, xs = a ++ l :: b → ∃ a', a = a' ++ [c]

omit [DecidableEq α] in
@[simp] theorem joinLines_nil : joinLines c l [] = [] := rfl

omit [DecidableEq α] in
@[simp] theorem joinLines_cons (s : List α) (ls : List (List α)) :
    joinLines c l (s :: ls) = s ++ c :: l :: joinLines c l ls := by
  simp [joinLines]

omit [DecidableEq α] in
theorem joinLines_append (ls ls' : List (List α)) :
    joinLines c l (ls ++ ls') = joinLines c l ls ++ joinLines c l ls' := by
  simp [joinLines]

theorem splitLines_cons_cons (x y : α) (xs : List α) :
    splitLines c l (x :: y :: xs) =
      if x = c ∧ y = l then [] :: splitLines c l xs
      else
        match splitLines c l (y :: xs) with
        | [] => [[x]]
        | s :: ss => (x :: s) :: ss := rfl

variable {c l}

theorem splitLines_ne_nil : ∀ xs : List α, splitLines c l xs ≠ []
  | [] => by simp [splitLines]
  | [x] => by simp [splitLines]
  | x :: y :: xs => by
    unfold splitLines
    split_ifs
    · simp
    · split <;> simp

/-- Cutting commutes with concatenation at a delimiter. -/
theorem splitLines_append (hne : c ≠ l) : ∀ a b : List α,
    splitLines c l (a ++ c :: l :: b) = splitLines c l a ++ splitLines c l b
  | [], b => by simp [splitLines]
  | [x], b => by
    have hx : ¬ (x = c ∧ c = l) := fun h => hne h.2
    simp [splitLines, hx]
  | x :: y :: a, b => by
    simp only [List.cons_append]
    rw [splitLines_cons_cons, splitLines_cons_cons]
    split_ifs with h
    · rw [splitLines_append hne a b, List.cons_append]
    · have ih := splitLines_append hne (y :: a) b
      rw [List.cons_append] at ih
      rw [ih]
      cases hs : splitLines c l (y :: a) with
      | nil => exact absurd hs (splitLines_ne_nil _)
      | cons s ss => simp

/-- A string without `l` is one part. -/
theorem splitLines_of_not_mem : ∀ {a : List α}, l ∉ a → splitLines c l a = [a]
  | [], _ => rfl
  | [x], _ => rfl
  | x :: y :: a, h => by
    have hy : ¬ (x = c ∧ y = l) := fun hc => h (by simp [hc.2])
    have ih : splitLines c l (y :: a) = [y :: a] :=
      splitLines_of_not_mem fun hm => h (List.mem_cons_of_mem x hm)
    unfold splitLines
    rw [if_neg hy, ih]

/-- Cutting lines that may hold delimiters of their own cuts each of them. -/
theorem splitLines_flatMap (hne : c ≠ l) (b : List α) : ∀ ls : List (List α),
    splitLines c l (joinLines c l ls ++ b) = ls.flatMap (splitLines c l) ++ splitLines c l b
  | [] => rfl
  | s :: ls => by
    rw [joinLines_cons, List.append_assoc, List.cons_append, List.cons_append,
      splitLines_append hne, splitLines_flatMap hne b ls, List.flatMap_cons, List.append_assoc]

theorem flatMap_splitLines : ∀ {ls : List (List α)}, (∀ s ∈ ls, l ∉ s) →
    ls.flatMap (splitLines c l) = ls
  | [], _ => rfl
  | s :: ls, h => by
    rw [List.flatMap_cons, splitLines_of_not_mem (h s List.mem_cons_self),
      flatMap_splitLines fun s' hs => h s' (List.mem_cons_of_mem s hs)]
    rfl

theorem splitLines_joinLines (hne : c ≠ l) (b : List α) {ls : List (List α)}
    (h : ∀ s ∈ ls, l ∉ s) : splitLines c l (joinLines c l ls ++ b) = ls ++ splitLines c l b := by
  rw [splitLines_flatMap hne, flatMap_splitLines h]

/-- Both halves of the delimiter occur only as the delimiter. -/
def Framed (c l : α) (xs : List α) : Prop := ∀ s ∈ splitLines c l xs, c ∉ s ∧ l ∉ s

instance Framed.instDecidable (c l : α) (xs : List α) : Decidable (Framed c l xs) :=
  inferInstanceAs (Decidable (∀ s ∈ splitLines c l xs, c ∉ s ∧ l ∉ s))

theorem framed_joinLines (hne : c ≠ l) {b : List α} {ls : List (List α)} :
    Framed c l (joinLines c l ls ++ b) ↔ (∀ s ∈ ls, Framed c l s) ∧ Framed c l b := by
  unfold Framed
  simp only [splitLines_flatMap hne, List.mem_append, List.mem_flatMap]
  constructor
  · intro h
    exact ⟨fun s hs t ht => h t (Or.inl ⟨s, hs, ht⟩), fun t ht => h t (Or.inr ht)⟩
  · rintro ⟨hls, hb⟩ t (⟨s, hs, ht⟩ | ht)
    · exact hls s hs t ht
    · exact hb t ht

/-- Without `l` there is no delimiter, so there may be no `c` either. -/
theorem framed_of_not_mem {a : List α} (hl : l ∉ a) : Framed c l a ↔ c ∉ a := by
  unfold Framed
  rw [splitLines_of_not_mem hl]
  simp [hl]

/-- What has neither half may stand in front. -/
theorem framed_append_left : ∀ {a : List α} (b : List α), c ∉ a → l ∉ a →
    (Framed c l (a ++ b) ↔ Framed c l b)
  | [], _, _, _ => Iff.rfl
  | x :: a, b, hc, hl => by
    rw [List.mem_cons, not_or] at hc hl
    rw [← framed_append_left b hc.2 hl.2, List.cons_append]
    unfold Framed
    cases hab : a ++ b with
    | nil => simp [splitLines, hc.1, hl.1]
    | cons y t =>
      rw [splitLines_cons_cons, if_neg fun h => hc.1 h.1.symm]
      cases hs : splitLines c l (y :: t) with
      | nil => exact absurd hs (splitLines_ne_nil _)
      | cons s ss => simp [hc.1, hl.1]

/-- Lines are determined by what they join to. -/
theorem joinLines_injective (hne : c ≠ l) {ls ls' : List (List α)} (h : ∀ s ∈ ls, l ∉ s)
    (h' : ∀ s ∈ ls', l ∉ s) (he : joinLines c l ls = joinLines c l ls') : ls = ls' := by
  have e := splitLines_joinLines hne [] h
  rw [he, splitLines_joinLines hne [] h'] at e
  exact (List.append_cancel_right e).symm

omit [DecidableEq α] in
theorem noBare_behind (hne : c ≠ l) {a b : List α} (h : NoBare c l (a ++ l :: b)) :
    NoBare c l b := by
  rintro u v rfl
  obtain ⟨w, hw⟩ := h (a ++ l :: u) v (by simp)
  cases hu : u.eq_nil_or_concat with
  | inl h0 =>
    subst h0
    have := (List.append_inj' hw rfl).2
    exact absurd (List.cons.inj this).1.symm hne
  | inr hc =>
    obtain ⟨u', x, rfl⟩ := hc
    rw [List.concat_eq_append, ← List.cons_append, ← List.append_assoc] at hw
    exact ⟨u', by rw [List.concat_eq_append, (List.append_inj' hw rfl).2]⟩

/-- A string in which every `l` follows a `c` is lines and a rest without `l`. -/
theorem lines_of_noBare (hne : c ≠ l) : ∀ (n : Nat) (xs : List α), xs.length ≤ n →
    NoBare c l xs → ∃ ls t, xs = joinLines c l ls ++ t ∧ (∀ s ∈ ls, l ∉ s) ∧ l ∉ t
  | 0, xs, hn, _ => by
    rw [List.length_eq_zero_iff.mp (Nat.le_zero.mp hn)]
    exact ⟨[], [], rfl, List.forall_mem_nil _, List.not_mem_nil⟩
  | n + 1, xs, hn, h => by
    by_cases hl : l ∈ xs
    · obtain ⟨a, b, rfl, ha⟩ := List.eq_append_cons_of_mem hl
      obtain ⟨s, rfl⟩ := h a b rfl
      have hlen : b.length ≤ n := by
        simp only [List.length_append, List.length_cons] at hn
        omega
      obtain ⟨ls, t, rfl, hls, ht⟩ := lines_of_noBare hne n b hlen (noBare_behind hne h)
      refine ⟨s :: ls, t, by simp, fun s' hs' => ?_, ht⟩
      rcases List.mem_cons.mp hs' with rfl | hs'
      · exact fun hm => ha (List.mem_append_left _ hm)
      · exact hls s' hs'
    · exact ⟨[], xs, rfl, List.forall_mem_nil _, hl⟩

omit [DecidableEq α] in
/-- Lines have no bare `l`. -/
theorem noBare_joinLines (hne : c ≠ l) : ∀ {ls : List (List α)}, (∀ s ∈ ls, l ∉ s) →
    NoBare c l (joinLines c l ls)
  | [], _ => fun a b h => by simp at h
  | s :: ls, h => by
    intro a b he
    have ih : NoBare c l (joinLines c l ls) :=
      noBare_joinLines hne fun s' hs => h s' (List.mem_cons_of_mem s hs)
    rw [joinLines_cons, show s ++ c :: l :: joinLines c l ls =
      (s ++ [c]) ++ l :: joinLines c l ls by simp] at he
    rcases List.append_eq_append_iff.mp he with ⟨u, rfl, hu⟩ | ⟨u, hu, hu'⟩
    · cases u with
      | nil => exact ⟨s, by simp⟩
      | cons x u =>
        -- the `l` lies in the later lines
        rw [List.cons_append] at hu
        obtain ⟨a', ha'⟩ := ih u b (List.cons.inj hu).2
        exact ⟨s ++ [c] ++ x :: a', by rw [ha']; simp⟩
    · cases u with
      | nil => exact ⟨s, by simpa using hu.symm⟩
      | cons x u =>
        -- it would lie in `s ++ [c]`
        have hx : x = l := (List.cons.inj hu').1.symm
        have hm : l ∈ s ++ [c] := by rw [hu, hx]; simp
        rcases List.mem_append.mp hm with hm | hm
        · exact absurd hm (h s List.mem_cons_self)
        · exact absurd (List.mem_singleton.mp hm).symm hne

/-- The first delimiter ends the first line. -/
theorem find_delim (hne : c ≠ l) {s : List α} (hs : l ∉ s) (b : List α) :
    find [c, l] (s ++ c :: l :: b) = some s.length := by
  rw [find_skip s (c :: l :: b)]
  · simp [find_cons]
  · intro m hm hp
    obtain ⟨t, ht⟩ := hp
    have h1 : ((s ++ c :: l :: b).drop m)[1]? = some l := by rw [← ht]; rfl
    rw [List.getElem?_drop, List.getElem?_append] at h1
    split_ifs at h1 with hlt
    · exact hs (List.mem_of_getElem? h1)
    · rw [show m + 1 - s.length = 0 by omega] at h1
      exact hne (by simpa using h1)

/-- A nonempty line does not start with a delimiter. -/
theorem not_delim_prefix (hne : c ≠ l) {s : List α} (h0 : s ≠ []) (hs : l ∉ s) (b : List α) :
    ¬ [c, l] <+: s ++ c :: l :: b := by
  intro hp
  have h := find_delim hne hs b
  have := (find_eq_some_iff.mp h).2.2 0 (List.length_pos_iff.mpr h0)
  exact this hp

/-- Behind a line comes the next one: what starts with the delimiter and goes on with `p` is not
found in a line, nor at its end unless `p` follows. -/
theorem find_next_line (hne : c ≠ l) {p s t : List α} (hs : l ∉ s) (ht : ¬ p <+: t) :
    find (c :: l :: p) (s ++ c :: l :: t) =
      (find (c :: l :: p) t).map (· + (s ++ [c, l]).length) := by
  have hskip : ∀ m < (s ++ [c, l]).length, ¬ c :: l :: p <+: ((s ++ [c, l]) ++ t).drop m := by
    intro m hm hp
    simp only [List.length_append, List.length_cons, List.length_nil] at hm
    have hm' : [c, l] <+: (s ++ c :: l :: t).drop m := by
      have := (List.prefix_append [c, l] p).trans hp
      simpa using this
    have hfind := find_eq_some_iff.mp (find_delim hne hs t)
    by_cases h1 : m < s.length
    · exact hfind.2.2 m h1 hm'
    · by_cases h2 : m = s.length
      · rw [h2, List.append_assoc, List.drop_left] at hp
        exact ht (by simpa using hp)
      · rw [show m = s.length + 1 by omega, ← List.drop_drop, List.drop_left] at hm'
        simp only [List.drop_succ_cons, List.drop_zero, List.cons_prefix_cons] at hm'
        exact hne hm'.1
  rw [← find_skip _ _ hskip]
  simp

/-- **What starts with the delimiter is not found in lines** that do not start with the rest of
it. -/
theorem find_isSome_joinLines (hne : c ≠ l) {p b : List α} (hb : ¬ p <+: b) :
    ∀ {ls : List (List α)} {s : List α}, l ∉ s →
      (∀ s' ∈ ls, l ∉ s' ∧ ∀ t, ¬ p <+: s' ++ c :: l :: t) →
      (find (c :: l :: p) (joinLines c l (s :: ls) ++ b)).isSome = (find (c :: l :: p) b).isSome
  | [], s, hs, _ => by
    simp only [joinLines_cons, joinLines_nil, List.append_assoc, List.cons_append, List.nil_append]
    rw [find_next_line hne hs hb, Option.isSome_map]
  | s' :: ls, s, hs, h => by
    obtain ⟨⟨hs', hp'⟩, hls⟩ := List.forall_mem_cons.mp h
    have hnext : ¬ p <+: joinLines c l (s' :: ls) ++ b := by
      rw [joinLines_cons, List.append_assoc]
      exact hp' _
    rw [joinLines_cons, List.append_assoc, List.cons_append, List.cons_append,
      find_next_line hne hs hnext, Option.isSome_map]
    exact find_isSome_joinLines hne hb hs' hls

/-- **The first doubled delimiter is the blank line** behind nonempty lines. -/
theorem find_blank (hne : c ≠ l) (b : List α) : ∀ {ls : List (List α)} {s : List α}, l ∉ s →
    (∀ s' ∈ ls, s' ≠ [] ∧ l ∉ s') →
    find [c, l, c, l] (joinLines c l (s :: ls) ++ c :: l :: b) =
      some ((joinLines c l (s :: ls)).length - 2)
  | ls, s, hs, h => by
    cases ls with
    | nil =>
      have h1 := find_delim hne hs (c :: l :: b)
      obtain ⟨-, hle, hmin⟩ := find_eq_some_iff.mp h1
      simp only [joinLines_cons, joinLines_nil, List.append_assoc, List.cons_append,
        List.nil_append, List.length_append, List.length_cons, List.length_nil]
      refine find_eq_some_iff.mpr ⟨?_, by simp, fun m hm hp => ?_⟩
      · rw [show s.length + (0 + 1 + 1) - 2 = s.length by omega, List.drop_left]
        exact ⟨b, rfl⟩
      · exact hmin m (by omega) ((List.prefix_append [c, l] [c, l]).trans hp)
    | cons s' ls =>
      have hs' := h s' List.mem_cons_self
      have hls : ∀ x ∈ ls, x ≠ [] ∧ l ∉ x := fun x hx => h x (List.mem_cons_of_mem s' hx)
      have ih := find_blank hne b hs'.2 hls
      have hpre : ¬ [c, l] <+: joinLines c l (s' :: ls) ++ c :: l :: b := by
        rw [joinLines_cons, List.append_assoc]
        exact not_delim_prefix hne hs'.1 hs'.2 _
      have e : joinLines c l (s :: s' :: ls) ++ c :: l :: b =
          s ++ c :: l :: (joinLines c l (s' :: ls) ++ c :: l :: b) := by simp
      rw [e, find_next_line hne hs hpre, ih, Option.map_some]
      simp only [joinLines_cons, List.length_append, List.length_cons, List.length_nil]
      congr 1
      omega

/-- **Lines up to a blank one** are determined by any bytes they are at the front of. -/
theorem lines_unique (hne : c ≠ l) {s s' : List α} {ls ls' : List (List α)} {b b' : List α}
    (hs : l ∉ s) (hls : ∀ x ∈ ls, x ≠ [] ∧ l ∉ x) (hs' : l ∉ s') (hls' : ∀ x ∈ ls', x ≠ [] ∧ l ∉ x)
    (he : joinLines c l (s :: ls) ++ c :: l :: b = joinLines c l (s' :: ls') ++ c :: l :: b') :
    s = s' ∧ ls = ls' ∧ b = b' := by
  have hge : ∀ (t : List α) ts, 2 ≤ (joinLines c l (t :: ts)).length := fun t ts => by
    rw [joinLines_cons, List.length_append, List.length_cons, List.length_cons]
    omega
  have hlen : (joinLines c l (s :: ls)).length = (joinLines c l (s' :: ls')).length := by
    have h := find_blank hne b hs hls
    rw [he, find_blank hne b' hs' hls', Option.some.injEq] at h
    have := hge s ls
    have := hge s' ls'
    omega
  obtain ⟨hjoin, hb⟩ := List.append_inj he hlen
  obtain ⟨h1, h2⟩ := List.cons.inj (joinLines_injective hne
    (List.forall_mem_cons.mpr ⟨hs, fun x hx => (hls x hx).2⟩)
    (List.forall_mem_cons.mpr ⟨hs', fun x hx => (hls' x hx).2⟩) hjoin)
  exact ⟨h1, h2, (List.cons.inj (List.cons.inj hb).2).2⟩

/-! ## Infixes across a delimiter -/

/-- **What starts with the delimiter** stands behind the first line or at its end. -/
theorem delim_infix_iff (hne : c ≠ l) {p s t : List α} (hs : l ∉ s) :
    c :: l :: p <:+: s ++ c :: l :: t ↔ p <+: t ∨ c :: l :: p <:+: t := by
  constructor
  · intro h
    by_cases hp : p <+: t
    · exact Or.inl hp
    · refine Or.inr (find_isSome_iff.mp ?_)
      rwa [← find_isSome_iff, find_next_line hne hs hp, Option.isSome_map] at h
  · rintro (⟨r, rfl⟩ | h)
    · exact ⟨s, r, by simp⟩
    · exact h.trans (List.suffix_append_of_suffix
        ((List.suffix_cons l t).trans (List.suffix_cons c _))).isInfix

theorem delim_infix_start (hne : c ≠ l) {p t : List α} :
    c :: l :: p <:+: c :: l :: t ↔ p <+: t ∨ c :: l :: p <:+: t :=
  delim_infix_iff hne (List.not_mem_nil (a := l))

end Lines

omit [DecidableEq α] in
/-- An infix lies on one side of a separator it does not hold. -/
theorem infix_separator_iff {pat x y : List α} {a : α} (ha : a ∉ pat) :
    pat <:+: x ++ a :: y ↔ pat <:+: x ∨ pat <:+: y := by
  constructor
  · intro h
    rcases List.infix_append_iff_ne_nil.mp h with h | h | ⟨p, q, -, hq, rfl, -, hpre⟩
    · exact Or.inl h
    · rcases List.infix_cons_iff.mp h with h | h
      · rcases List.prefix_cons_iff.mp h with rfl | ⟨t, rfl, -⟩
        · exact Or.inl List.nil_infix
        · exact absurd List.mem_cons_self ha
      · exact Or.inr h
    · rcases List.prefix_cons_iff.mp hpre with rfl | ⟨t, rfl, -⟩
      · exact absurd rfl hq
      · exact absurd (List.mem_append_right p List.mem_cons_self) ha
  · rintro (h | h)
    · exact h.trans (List.prefix_append x _).isInfix
    · exact h.trans ((List.suffix_cons a y).trans (List.suffix_append x _)).isInfix

omit [DecidableEq α] in
/-- An infix of a text with a delimiter `d` in it lies on one side, `d` included, or it holds `d`
in its middle. -/
theorem infix_around_iff {pat d x y : List α} :
    pat <:+: x ++ (d ++ y) ↔ pat <:+: x ++ d ∨ pat <:+: d ++ y ∨
      ∃ p q, p ≠ [] ∧ q ≠ [] ∧ pat = p ++ (d ++ q) ∧ p <:+ x ∧ q <+: y := by
  constructor
  · intro h
    rw [← List.append_assoc] at h
    rcases List.infix_append_iff_ne_nil.mp h with h | h | ⟨p, q, -, hq, rfl, hsuf, hpre⟩
    · exact Or.inl h
    · exact Or.inr (Or.inl (h.trans (List.suffix_append d y).isInfix))
    -- the part in front of `y` lies in `d`, or reaches beyond it
    rcases List.suffix_or_suffix_of_suffix hsuf (List.suffix_append x d) with ⟨d', rfl⟩ | ⟨p', rfl⟩
    · obtain ⟨y', rfl⟩ := hpre
      exact Or.inr (Or.inl ⟨d', y', by simp only [List.append_assoc]⟩)
    · by_cases hp : p' = []
      · obtain ⟨y', rfl⟩ := hpre
        exact Or.inr (Or.inl ⟨[], y', by simp [hp]⟩)
      · rw [List.suffix_append_self_iff] at hsuf
        exact Or.inr (Or.inr ⟨p', q, hp, hq, List.append_assoc _ _ _, hsuf, hpre⟩)
  · rintro (h | h | ⟨p, q, -, -, rfl, ⟨x', rfl⟩, ⟨y', rfl⟩⟩)
    · exact h.trans ⟨[], y, by simp⟩
    · exact h.trans (List.suffix_append x _).isInfix
    · exact ⟨x', y', by simp only [List.append_assoc]⟩

/-! ## Blank lines -/

section Blank

variable {c l : α}

omit [DecidableEq α] in
/-- A blank line lies on one side of a line end, which may be part of it. -/
theorem blank_infix_delim (hne : c ≠ l) {x y : List α} :
    [c, l, c, l] <:+: x ++ c :: l :: y ↔
      [c, l, c, l] <:+: x ++ [c, l] ∨ [c, l, c, l] <:+: c :: l :: y := by
  refine infix_around_iff (d := [c, l]).trans (or_congr_right (or_iff_left ?_))
  rintro ⟨p, q, hp, hq, heq, -⟩
  have hpos := List.length_pos_iff.mpr hp
  have hpos' := List.length_pos_iff.mpr hq
  have hlen := congrArg List.length heq
  simp only [List.length_append, List.length_cons, List.length_nil] at hlen
  -- one element in front of the line end, and one behind it
  obtain ⟨a, rfl⟩ := List.length_eq_one_iff.mp (show p.length = 1 by omega)
  exact hne (List.cons.inj (List.cons.inj heq).2).1.symm

omit [DecidableEq α] in
/-- **The lines with a blank line**, each taken between line ends. -/
theorem blank_infix_joinLines (hne : c ≠ l) {ls : List (List α)} :
    [c, l, c, l] <:+: c :: l :: joinLines c l ls ↔
      ∃ s ∈ ls, [c, l, c, l] <:+: c :: l :: (s ++ [c, l]) := by
  induction ls with
  | nil =>
    refine iff_of_false (fun h => ?_) (by simp)
    have := h.length_le
    simp at this
  | cons s ls ih =>
    have hsplit : c :: l :: joinLines c l (s :: ls) =
        (c :: l :: s) ++ c :: l :: joinLines c l ls := by simp
    rw [hsplit, blank_infix_delim hne, ih, List.exists_mem_cons_iff, List.cons_append,
      List.cons_append]

/-- The first blank line is the one behind `x` if `x` and a line end hold none. -/
theorem find_blank_iff (hne : c ≠ l) {x b : List α} :
    find [c, l, c, l] (x ++ c :: l :: c :: l :: b) = some x.length ↔
      ¬ [c, l, c, l] <:+: x ++ [c, l] := by
  have hhere : [c, l, c, l] <+: (x ++ c :: l :: c :: l :: b).drop x.length := by
    rw [List.drop_left]
    exact ⟨b, rfl⟩
  rw [find_eq_some_iff, and_iff_right hhere, and_iff_right (by simp)]
  constructor
  · rintro hmin ⟨u, v, huv⟩
    have hlen := congrArg List.length huv
    simp only [List.length_append, List.length_cons, List.length_nil] at hlen
    refine hmin u.length (by omega) ⟨v ++ c :: l :: b, ?_⟩
    have hsplit : x ++ c :: l :: c :: l :: b = u ++ ([c, l, c, l] ++ (v ++ c :: l :: b)) := by
      have := congrArg (· ++ c :: l :: b) huv
      simpa using this.symm
    rw [hsplit, List.drop_left]
  · rintro hnone m hm hpre
    rw [List.drop_append_of_le_length (Nat.le_of_lt hm)] at hpre
    rcases hx : x.drop m with _ | ⟨z, _ | ⟨z', t⟩⟩
    · have := congrArg List.length hx
      rw [List.length_drop, List.length_nil] at this
      omega
    · -- the blank line would start one element in front of a line end
      rw [hx] at hpre
      simp only [List.cons_append, List.nil_append, List.cons_prefix_cons] at hpre
      exact hne hpre.2.1.symm
    · refine hnone ?_
      have hcut : [c, l, c, l] <+: x.drop m ++ [c, l] := by
        refine List.prefix_of_prefix_length_le hpre ?_ (by simp [hx])
        exact (List.prefix_append_right_inj _).mpr ⟨c :: l :: b, rfl⟩
      exact hcut.isInfix.trans ((List.suffix_append_self_iff).mpr (List.drop_suffix m x)).isInfix

end Blank

end Uproxy.Lib.Search
