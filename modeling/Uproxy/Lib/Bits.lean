import Mathlib.Data.Nat.Bitwise
import Mathlib.Data.List.Basic

/-!
# Bit strings of numbers

`bits w n` are the low `w` bits of `n`, most significant first. The lemmas say how shifting,
masking and or-ing a number act on its bit string, which is all a bit accumulator does:

* `bits_add`: a bit string splits at any point, the front being that of the shifted number;
* `bits_mod`: reducing above the width changes nothing;
* `bits_shiftLeft_or`: shifting left and or-ing a short number in appends its bits.
-/

namespace Uproxy.Lib.Bits

/-- The low `w` bits of `n`, most significant first. -/
def bits : Nat → Nat → List Bool
  | 0, _ => []
  | w + 1, n => n.testBit w :: bits w n

@[simp] theorem length_bits : ∀ w n : Nat, (bits w n).length = w
  | 0, _ => rfl
  | w + 1, n => by rw [bits, List.length_cons, length_bits w n]

theorem bits_congr {x y : Nat} : ∀ {w : Nat}, (∀ i < w, x.testBit i = y.testBit i) →
    bits w x = bits w y
  | 0, _ => rfl
  | w + 1, h => by
    rw [bits, bits, h w (Nat.lt_succ_self w), bits_congr fun i hi => h i (Nat.lt_succ_of_lt hi)]

theorem testBit_eq_of_bits {x y : Nat} : ∀ {w : Nat}, bits w x = bits w y →
    ∀ i < w, x.testBit i = y.testBit i
  | 0, _, i, hi => absurd hi (Nat.not_lt_zero i)
  | w + 1, h, i, hi => by
    obtain ⟨h1, h2⟩ := List.cons.inj h
    rcases Nat.lt_succ_iff_lt_or_eq.mp hi with hi | rfl
    · exact testBit_eq_of_bits h2 i hi
    · exact h1

/-- Numbers that fit are determined by their bits. -/
theorem bits_injective {w x y : Nat} (hx : x < 2 ^ w) (hy : y < 2 ^ w) (h : bits w x = bits w y) :
    x = y := by
  apply Nat.eq_of_testBit_eq
  intro i
  rcases Nat.lt_or_ge i w with hi | hi
  · exact testBit_eq_of_bits h i hi
  · have hle : 2 ^ w ≤ 2 ^ i := Nat.pow_le_pow_right (by decide) hi
    rw [Nat.testBit_lt_two_pow (Nat.lt_of_lt_of_le hx hle),
      Nat.testBit_lt_two_pow (Nat.lt_of_lt_of_le hy hle)]

theorem bits_add (b n : Nat) : ∀ a : Nat, bits (a + b) n = bits a (n >>> b) ++ bits b n
  | 0 => by rw [Nat.zero_add]; rfl
  | a + 1 => by
    rw [Nat.succ_add, bits, bits, bits_add b n a, Nat.testBit_shiftRight, Nat.add_comm b a,
      List.cons_append]

theorem bits_mod {w k : Nat} (h : w ≤ k) (n : Nat) : bits w (n % 2 ^ k) = bits w n :=
  bits_congr fun i hi => by
    rw [Nat.testBit_mod_two_pow, decide_eq_true (by omega), Bool.true_and]

/-- Appending a short number to an accumulator. -/
theorem bits_shiftLeft_or {b y : Nat} (hy : y < 2 ^ b) (a x : Nat) :
    bits (a + b) (x <<< b ||| y) = bits a x ++ bits b y := by
  rw [bits_add]
  congr 1
  · refine bits_congr fun i _ => ?_
    rw [Nat.testBit_shiftRight, Nat.testBit_or, Nat.testBit_shiftLeft,
      Nat.testBit_lt_two_pow (Nat.lt_of_lt_of_le hy (Nat.pow_le_pow_right (by decide) (by omega))),
      Bool.or_false, decide_eq_true (by omega), Bool.true_and, Nat.add_sub_cancel_left]
  · refine bits_congr fun i hi => ?_
    rw [Nat.testBit_or, Nat.testBit_shiftLeft, decide_eq_false (by omega), Bool.false_and,
      Bool.false_or]

theorem bits_ones : ∀ {k w : Nat}, w ≤ k → bits w (2 ^ k - 1) = List.replicate w true
  | _, 0, _ => rfl
  | k, w + 1, h => by
    rw [bits, bits_ones (by omega), Nat.testBit_two_pow_sub_one, decide_eq_true (by omega)]
    rfl

/-- The eight bits of a byte, in the order they are sent. -/
def byteBits (b : UInt8) : List Bool := bits 8 b.toNat

theorem byteBits_ofNat (n : Nat) : byteBits (UInt8.ofNat n) = bits 8 n := by
  unfold byteBits
  rw [UInt8.toNat_ofNat']
  exact bits_mod (Nat.le_refl 8) n

theorem length_flatMap_byteBits : ∀ bs : List UInt8, (bs.flatMap byteBits).length = 8 * bs.length
  | [] => rfl
  | b :: bs => by
    rw [List.flatMap_cons, List.length_append, length_flatMap_byteBits bs, List.length_cons,
      byteBits, length_bits]
    omega

end Uproxy.Lib.Bits
