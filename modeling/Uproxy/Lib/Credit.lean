import Mathlib.Algebra.BigOperators.Ring.Finset
import Mathlib.Algebra.Order.BigOperators.Group.Finset
import Mathlib.Tactic.Linarith
import Mathlib.Tactic.Ring

/-!
# Sharing turns by credit

Members of a finite set `A` share turns in proportion to their weights. In a turn every member
earns its weight, and the one who takes the turn, a richest one, pays what all have earned
together. So the credits of the members always add up to the same amount, and a member's credit
says how far its number of turns is from its share (`credit_eq`).

* `Richest.pos`: a richest member has more than the smaller of 0 and that amount, since otherwise
  all members together would have too little;
* `Greedy.floor`: hence there is a floor that no credit passes, and with it a ceiling
  (`Greedy.ceiling`);
* **`Greedy.count_lt`**, **`Greedy.count_eq`**: from zero credits, a member has taken fewer than one
  turn above its share, and exactly its share when the number of turns is a multiple of the total
  weight;
* **`Greedy.drift`**: from any credits, it stays within a fixed distance of its share.
-/

namespace Uproxy.Lib.Credit

open Finset

variable {ι : Type} [DecidableEq ι] (A : Finset ι) (w : ι → ℤ)

/-- The weight of all members. -/
def total : ℤ := ∑ i ∈ A, w i

/-- One turn, taken by `j`. -/
def turn (c : ι → ℤ) (j : ι) : ι → ℤ := fun i =>
  c i + (if i ∈ A then w i else 0) - if i = j then total A w else 0

/-- `j` is a member with the most credit once all have earned. -/
def Richest (c : ι → ℤ) (j : ι) : Prop := j ∈ A ∧ ∀ i ∈ A, c i + w i ≤ c j + w j

/-- Each turn is taken by a richest member. -/
def Greedy : (ι → ℤ) → List ι → Prop
  | _, [] => True
  | c, j :: js => Richest A w c j ∧ Greedy (turn A w c j) js

variable {A w}

/-! ## One turn -/

theorem turn_of_notMem {c : ι → ℤ} {j i : ι} (hj : j ∈ A) (hi : i ∉ A) :
    turn A w c j i = c i := by
  have hne : i ≠ j := fun h => hi (h ▸ hj)
  simp [turn, hi, hne]

/-- A turn moves credit between members. -/
theorem sum_turn {c : ι → ℤ} {j : ι} (hj : j ∈ A) : ∑ i ∈ A, turn A w c j i = ∑ i ∈ A, c i := by
  have hearn : ∑ i ∈ A, (if i ∈ A then w i else 0) = total A w :=
    sum_congr rfl fun i hi => if_pos hi
  simp only [turn, sum_sub_distrib, sum_add_distrib, hearn, sum_ite_eq' A j, if_pos hj]
  ring

omit [DecidableEq ι] in
/-- Who takes a turn has more than the smaller of 0 and the sum of all credits. -/
theorem Richest.pos {c : ι → ℤ} {j : ι} (h : Richest A w c j) (hw : 0 < total A w) :
    min (∑ i ∈ A, c i) 0 < c j + w j := by
  by_contra hle
  obtain ⟨hS, h0⟩ := le_min_iff.mp (not_lt.mp hle)
  have hcard : 1 ≤ A.card := card_pos.mpr ⟨j, h.1⟩
  have hall : ∑ i ∈ A, (c i + w i) ≤ A.card • (c j + w j) := sum_le_card_nsmul A _ _ h.2
  have hone : A.card • (c j + w j) ≤ c j + w j := by
    rw [nsmul_eq_mul]
    nlinarith [Int.ofNat_le.mpr hcard]
  have hsum : ∑ i ∈ A, (c i + w i) = ∑ i ∈ A, c i + total A w := sum_add_distrib
  linarith

/-- A richest member of a larger set is the newcomer or the one before. -/
theorem Richest.insert {c : ι → ℤ} {b k : ι} (h : Richest A w c b) :
    Richest (insert k A) w c (if c b + w b < c k + w k then k else b) := by
  split_ifs with hlt
  · refine ⟨mem_insert_self k A, fun i hi => ?_⟩
    rcases mem_insert.mp hi with rfl | hi
    · exact le_refl _
    · exact (h.2 i hi).trans (le_of_lt hlt)
  · refine ⟨mem_insert_of_mem h.1, fun i hi => ?_⟩
    rcases mem_insert.mp hi with rfl | hi
    · exact not_lt.mp hlt
    · exact h.2 i hi

omit [DecidableEq ι] in
theorem richest_singleton (c : ι → ℤ) (j : ι) : Richest {j} w c j :=
  ⟨mem_singleton_self j, fun i hi => by rw [mem_singleton.mp hi]⟩

/-! ## Sequences of turns -/

/-- The credits after a sequence of turns. -/
def after (A : Finset ι) (w c : ι → ℤ) (js : List ι) : ι → ℤ := js.foldl (turn A w) c

/-- A member's credit counts its turns against its share. -/
theorem credit_eq {i : ι} (hi : i ∈ A) : ∀ (c : ι → ℤ) (js : List ι),
    after A w c js i = c i + js.length * w i - total A w * js.count i
  | c, [] => by simp [after]
  | c, j :: js => by
    have ih := credit_eq hi (turn A w c j) js
    unfold after at ih ⊢
    rw [List.foldl_cons, ih, List.length_cons, List.count_cons]
    by_cases hij : i = j
    · subst hij
      simp [turn, hi]
      ring
    · simp [turn, hi, hij, Ne.symm hij]
      ring

namespace Greedy

variable {c : ι → ℤ} {js : List ι}

theorem mem (h : Greedy A w c js) {j : ι} (hj : j ∈ js) : j ∈ A := by
  induction js generalizing c with
  | nil => exact absurd hj List.not_mem_nil
  | cons k js ih =>
    rcases List.mem_cons.mp hj with rfl | hj
    · exact h.1.1
    · exact ih h.2 hj

theorem sum_eq (h : Greedy A w c js) : ∑ i ∈ A, after A w c js i = ∑ i ∈ A, c i := by
  induction js generalizing c with
  | nil => rfl
  | cons j js ih => exact (ih h.2).trans (sum_turn h.1.1)

theorem of_notMem (h : Greedy A w c js) {i : ι} (hi : i ∉ A) : after A w c js i = c i := by
  induction js generalizing c with
  | nil => rfl
  | cons j js ih => exact (ih h.2).trans (turn_of_notMem h.1.1 hi)

/-- **No credit passes a floor** that lies a total weight below the smaller of 0 and the sum. -/
theorem floor (h : Greedy A w c js) (hw : ∀ i ∈ A, 0 ≤ w i) (hW : 0 < total A w) {L : ℤ}
    (hL : L ≤ min (∑ i ∈ A, c i) 0 - total A w) (hc : ∀ i ∈ A, L < c i) :
    ∀ i ∈ A, L < after A w c js i := by
  induction js generalizing c with
  | nil => exact hc
  | cons j js ih =>
    refine ih h.2 (by rwa [sum_turn h.1.1]) fun i hi => ?_
    have hpos := h.1.pos hW
    have hci := hc i hi
    have hwi := hw i hi
    unfold turn
    rw [if_pos hi]
    -- only the one who takes the turn pays
    by_cases hij : i = j
    · subst hij
      rw [if_pos rfl]
      linarith
    · rw [if_neg hij]
      linarith

/-- With a floor under the others, no credit passes a ceiling. -/
theorem ceiling (h : Greedy A w c js) {L : ℤ} (hL : ∀ i ∈ A, L ≤ after A w c js i) {i : ι}
    (hi : i ∈ A) : after A w c js i ≤ ∑ k ∈ A, c k - (A.card - 1 : ℤ) * L := by
  have hothers : (A.erase i).card • L ≤ ∑ k ∈ A.erase i, after A w c js k :=
    card_nsmul_le_sum _ _ _ fun k hk => hL k (mem_of_mem_erase hk)
  have hcard : ((A.erase i).card : ℤ) = A.card - 1 := by
    have := card_erase_add_one hi
    omega
  rw [nsmul_eq_mul, hcard] at hothers
  have hsplit := add_sum_erase A (after A w c js) hi
  rw [h.sum_eq] at hsplit
  linarith

/-- The floor under zero credits. -/
theorem floor_zero (h : Greedy A w (fun _ => 0) js) (hw : ∀ i ∈ A, 0 ≤ w i) (hW : 0 < total A w) :
    ∀ i ∈ A, -total A w < after A w (fun _ => 0) js i :=
  h.floor hw hW (by simp) fun _ _ => by simpa using hW

/-- From zero credits, no credit passes the total weight times the number of members. -/
theorem abs_le_card_mul (h : Greedy A w (fun _ => 0) js) (hw : ∀ i ∈ A, 0 ≤ w i)
    (hW : 0 < total A w) (i : ι) : |after A w (fun _ => 0) js i| ≤ A.card * total A w := by
  by_cases hi : i ∈ A
  · have hfloor := h.floor_zero hw hW
    have hceil := h.ceiling (fun k hk => le_of_lt (hfloor k hk)) hi
    have hlow := hfloor i hi
    have hcard : (1 : ℤ) ≤ A.card := Int.ofNat_le.mpr (card_pos.mpr ⟨i, hi⟩)
    rw [sum_const_zero] at hceil
    rw [abs_le]
    constructor
    · nlinarith
    · nlinarith
  · rw [h.of_notMem hi, abs_zero]
    exact mul_nonneg (Int.natCast_nonneg _) (le_of_lt hW)

/-- **From zero credits, less than one turn above the share.** -/
theorem count_lt (h : Greedy A w (fun _ => 0) js) (hw : ∀ i ∈ A, 0 ≤ w i) (hW : 0 < total A w)
    {i : ι} (hi : i ∈ A) : total A w * js.count i < js.length * w i + total A w := by
  have hfloor := h.floor_zero hw hW i hi
  rw [credit_eq hi] at hfloor
  linarith

/-- **After a multiple of the total weight, exactly the share**, and no credit is left. -/
theorem count_eq (h : Greedy A w (fun _ => 0) js) (hw : ∀ i ∈ A, 0 ≤ w i) (hW : 0 < total A w)
    {k : ℤ} (hk : js.length = k * total A w) {i : ι} (hi : i ∈ A) :
    js.count i = k * w i ∧ after A w (fun _ => 0) js i = 0 := by
  have hcredit : ∀ l ∈ A, after A w (fun _ => 0) js l = total A w * (k * w l - js.count l) :=
    fun l hl => by
      rw [credit_eq hl, hk]
      ring
  have hnonneg : ∀ l ∈ A, 0 ≤ after A w (fun _ => 0) js l := fun l hl => by
    have hlt := h.count_lt hw hW hl
    rw [hk] at hlt
    have hle : (js.count l : ℤ) < k * w l + 1 :=
      lt_of_mul_lt_mul_left (by linarith) (le_of_lt hW)
    rw [hcredit l hl]
    exact mul_nonneg (le_of_lt hW) (by linarith)
  have hzero : after A w (fun _ => 0) js i = 0 :=
    (sum_eq_zero_iff_of_nonneg hnonneg).mp (by rw [h.sum_eq, sum_const_zero]) i hi
  refine ⟨?_, hzero⟩
  rw [hcredit i hi, mul_eq_zero] at hzero
  rcases hzero with h0 | h0
  · exact absurd h0 (ne_of_gt hW)
  · linarith

/-- How far the credits of `c` let a member drift from its share. -/
def driftBound (A : Finset ι) (w c : ι → ℤ) : ℤ :=
  |∑ i ∈ A, c i| + (A.card + 1) * (|∑ i ∈ A, c i| + total A w + ∑ i ∈ A, |c i| + 1)

/-- **From any credits, a member stays within a fixed distance of its share.** -/
theorem drift (h : Greedy A w c js) (hw : ∀ i ∈ A, 0 ≤ w i) (hW : 0 < total A w) {i : ι}
    (hi : i ∈ A) : |total A w * js.count i - js.length * w i| ≤ driftBound A w c := by
  set S := ∑ i ∈ A, c i with hS
  set M := |S| + total A w + ∑ i ∈ A, |c i| + 1 with hM
  have hsingle : ∀ k ∈ A, |c k| ≤ ∑ i ∈ A, |c i| := fun k hk =>
    single_le_sum (fun l _ => abs_nonneg (c l)) hk
  have hSabs : -|S| ≤ min S 0 := le_min (neg_abs_le S) (neg_nonpos.mpr (abs_nonneg S))
  have hfloor : ∀ k ∈ A, -M < after A w c js k := by
    refine h.floor hw hW ?_ fun k hk => ?_
    · have hnn := sum_nonneg fun k (_ : k ∈ A) => abs_nonneg (c k)
      rw [← hS]
      linarith
    · have := neg_abs_le (c k)
      have := hsingle k hk
      have := abs_nonneg S
      linarith
  have hceil := h.ceiling (fun k hk => le_of_lt (hfloor k hk)) hi
  have hlow := hfloor i hi
  have hci := abs_le.mp (hsingle i hi)
  have hcard : (1 : ℤ) ≤ A.card := Int.ofNat_le.mpr (card_pos.mpr ⟨i, hi⟩)
  have hnnS := abs_nonneg S
  have hMpos : 0 ≤ M := by
    have := sum_nonneg fun k (_ : k ∈ A) => abs_nonneg (c k)
    linarith
  have hcM : ∑ k ∈ A, |c k| ≤ M := by linarith
  have hSle := le_abs_self S
  rw [credit_eq hi] at hceil hlow
  unfold driftBound
  rw [← hS, ← hM, abs_le]
  constructor
  · nlinarith
  · nlinarith

end Greedy

end Uproxy.Lib.Credit
