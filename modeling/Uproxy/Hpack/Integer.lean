import Uproxy.Basic
import Mathlib.Algebra.Order.Ring.Nat
import Mathlib.Tactic.Ring

/-!
# HPACK integers (`encode_int`, `HpackDecoder::decode_int`)

An integer is written in the low `n` bits of a byte, or, when it does not fit, as all ones there
and groups of seven bits behind, least significant first. `decode_int` adds the groups up in a
`uint64_t`; `readGroups` is the same sum in `Nat`.

* `group_fits`, `decodeIntTail_eq`: the accumulator never wraps, because a group shifted by more
  than 56 is refused; so the sum is the exact one;
* `decodeInt_cons`: what `decode_int` answers, by the first byte;
* `decodeInt_encodeInt`: what `encode_int` wrote is read back, whatever follows. The value 0 under a
  7-bit prefix is the exception: `decode_int` refuses it;
* `decodeInt_form`: the same for every way to write an integer, of which `decode_int` reads those
  with up to nine groups; `decodeInt_sound`: it reads nothing else;
* **`hpack_integer_exact`**: round trip, and exactness on every input.
-/

namespace Uproxy

def hpackError (msg : String) : Error := .fromCode .hpackError msg

/-! ## The code -/

/-- The loop of `encode_int`. The fuel is the value itself, which the division lowers. -/
def encodeIntTail : Nat → Nat → Bytes
  | 0, v => [v.toUInt8]
  | fuel + 1, v =>
    if v < 128 then [v.toUInt8] else (v % 128 + 128).toUInt8 :: encodeIntTail fuel (v / 128)

/-- `encode_int`; `lead` holds the bits in front of the integer. -/
def encodeInt (value prefixBits : Nat) (lead : UInt8) : Bytes :=
  let maxPrefix := 2 ^ prefixBits - 1
  if value < maxPrefix then [lead ||| value.toUInt8]
  else (lead ||| maxPrefix.toUInt8) :: encodeIntTail (value - maxPrefix) (value - maxPrefix)

/-- The loop of `decode_int`: the value and what is left of the input. -/
def decodeIntTail (value m : Nat) : Bytes → Result (Nat × Bytes)
  | [] => .error (hpackError "truncated HPACK integer")
  | b :: data =>
    let value := (value + ((b &&& 0x7f).toNat <<< m) % sizeMod) % sizeMod
    if b &&& 0x80 = 0 then .ok (value, data)
    else if m + 7 > 56 then .error (hpackError "HPACK integer overflow")
    else decodeIntTail value (m + 7) data

/-- `decode_int`. -/
def decodeInt (prefixBits : Nat) : Bytes → Result (Nat × Bytes)
  | [] => .error (hpackError "truncated HPACK integer")
  | b :: data =>
    if prefixBits = 0 ∨ 8 < prefixBits then .error (hpackError "truncated HPACK integer")
    else
      let mask := 2 ^ prefixBits - 1
      let value := b.toNat &&& mask
      if value < mask then
        if value = 0 ∧ prefixBits = 7 then .error (hpackError "invalid index 0")
        else .ok (value, data)
      else decodeIntTail value 0 data

/-! ## Bytes -/

theorem and_0x7f (b : UInt8) : (b &&& 0x7f).toNat = b.toNat % 128 := by
  rw [UInt8.toNat_and]
  exact Nat.and_two_pow_sub_one_eq_mod b.toNat 7

theorem and_0x80_eq_zero (b : UInt8) : b &&& 0x80 = 0 ↔ b.toNat < 128 :=
  forall_byte (P := fun b => b &&& 0x80 = 0 ↔ b.toNat < 128) (by decide +kernel) b

/-! ## The exact sum -/

/-- The groups from number `j` on, as a number, and what is left of the input. -/
def readGroups (j : Nat) : Bytes → Result (Nat × Bytes)
  | [] => .error (hpackError "truncated HPACK integer")
  | b :: data =>
    if b.toNat < 128 then .ok (b.toNat * 128 ^ j, data)
    else if 8 ≤ j then .error (hpackError "HPACK integer overflow")
    else (readGroups (j + 1) data).map fun r => (b.toNat % 128 * 128 ^ j + r.1, r.2)

theorem readGroups_cons_lt {b : UInt8} (h : b.toNat < 128) (j : Nat) (data : Bytes) :
    readGroups j (b :: data) = .ok (b.toNat * 128 ^ j, data) := if_pos h

theorem pow_group (j : Nat) : 128 ^ (j + 1) = 128 * 128 ^ j := by rw [Nat.pow_succ, Nat.mul_comm]

theorem pow_group_le {j : Nat} (hj : j ≤ 8) : 128 ^ (j + 1) ≤ 128 ^ 9 :=
  Nat.pow_le_pow_right (by decide) (by omega)

/-- **There is room for a group**: from any value that leaves room for the groups to come, the next
one neither loses bits when it is shifted nor makes the sum wrap, and leaves room for the rest. -/
theorem group_fits {j v : Nat} (hj : j ≤ 8) (hv : v + 2 ^ 63 < sizeMod + 128 ^ j) (b : UInt8) :
    (b &&& 0x7f).toNat <<< (7 * j) = b.toNat % 128 * 128 ^ j ∧
      v + b.toNat % 128 * 128 ^ j < sizeMod ∧
      v + b.toNat % 128 * 128 ^ j + 2 ^ 63 < sizeMod + 128 ^ (j + 1) := by
  have hpow : 2 ^ (7 * j) = 128 ^ j := Nat.pow_mul 2 7 j
  have hb : b.toNat % 128 * 128 ^ j + 128 ^ j ≤ 128 * 128 ^ j := by
    have hlt := Nat.mod_lt b.toNat (show 0 < 128 by decide)
    calc b.toNat % 128 * 128 ^ j + 128 ^ j = (b.toNat % 128 + 1) * 128 ^ j := by ring
      _ ≤ 128 * 128 ^ j := Nat.mul_le_mul_right _ hlt
  have hj' := pow_group_le hj
  rw [pow_group] at hj'
  have h63 : 128 ^ 9 = 2 ^ 63 := by decide
  have hmod : sizeMod = 2 * 2 ^ 63 := by decide
  refine ⟨?_, by omega, by rw [pow_group]; omega⟩
  rw [and_0x7f, Nat.shiftLeft_eq, hpow]

/-- **The accumulator does not wrap**: from any value that leaves room for the groups to come, the
loop computes the exact sum. -/
theorem decodeIntTail_eq : ∀ (data : Bytes) {j v : Nat}, j ≤ 8 →
    v + 2 ^ 63 < sizeMod + 128 ^ j →
    decodeIntTail v (7 * j) data = (readGroups j data).map fun r => (v + r.1, r.2)
  | [], _, _, _, _ => rfl
  | b :: data, j, v, hj, hv => by
    obtain ⟨hshift, hsum, hroom⟩ := group_fits hj hv b
    unfold decodeIntTail readGroups
    simp only [hshift, Nat.mod_eq_of_lt (Nat.lt_of_le_of_lt (Nat.le_add_left _ v) hsum),
      Nat.mod_eq_of_lt hsum, and_0x80_eq_zero]
    by_cases hlast : b.toNat < 128
    · simp only [if_pos hlast, Nat.mod_eq_of_lt hlast]
      rfl
    · simp only [if_neg hlast]
      by_cases h8 : 8 ≤ j
      · rw [if_pos (by omega), if_pos h8]
        rfl
      · rw [if_neg (by omega), if_neg h8, show 7 * j + 7 = 7 * (j + 1) by omega,
          decodeIntTail_eq data (by omega) hroom]
        cases readGroups (j + 1) data with
        | error e => rfl
        | ok r => simp only [Except.map, Nat.add_assoc]

/-- What `decode_int` answers, by the first byte. -/
theorem decodeInt_cons {n : Nat} (h0 : 0 < n) (h8 : n ≤ 8) (b : UInt8) (data : Bytes) :
    decodeInt n (b :: data) =
      if b.toNat % 2 ^ n < 2 ^ n - 1 then
        if b.toNat % 2 ^ n = 0 ∧ n = 7 then .error (hpackError "invalid index 0")
        else .ok (b.toNat % 2 ^ n, data)
      else (readGroups 0 data).map fun r => (2 ^ n - 1 + r.1, r.2) := by
  have hpow : 2 ^ n ≤ 2 ^ 8 := Nat.pow_le_pow_right (by decide) h8
  have hpos : 0 < 2 ^ n := Nat.pow_pos (by decide)
  have hlt := Nat.mod_lt b.toNat hpos
  have hn : ¬ (n = 0 ∨ 8 < n) := by omega
  simp only [decodeInt, if_neg hn, Nat.and_two_pow_sub_one_eq_mod]
  split_ifs with h1 h2
  · rfl
  · rfl
  · have he : b.toNat % 2 ^ n = 2 ^ n - 1 := by omega
    rw [he]
    exact decodeIntTail_eq data (Nat.zero_le 8) (by unfold sizeMod; omega)

/-! ## Round trip -/

theorem readGroups_encodeIntTail (r : Bytes) : ∀ {fuel v j : Nat}, v ≤ fuel → j ≤ 8 →
    v < 128 ^ (9 - j) → readGroups j (encodeIntTail fuel v ++ r) = .ok (v * 128 ^ j, r)
  | 0, v, j, hf, hj, hv => by
    rw [Nat.le_zero.mp hf]
    exact readGroups_cons_lt (by decide) j r
  | fuel + 1, v, j, hf, hj, hv => by
    unfold encodeIntTail
    split_ifs with h
    · have hb : v.toUInt8.toNat = v := Nat.mod_eq_of_lt (by omega)
      rw [List.cons_append, readGroups_cons_lt (by rw [hb]; exact h), hb]
      rfl
    · have hb : (v % 128 + 128).toUInt8.toNat = v % 128 + 128 := Nat.mod_eq_of_lt (by omega)
      have hj8 : j < 8 := by
        rcases Nat.lt_or_ge j 8 with hlt | hge
        · exact hlt
        · rw [show 9 - j = 1 by omega] at hv
          omega
      have hdiv : v / 128 < 128 ^ (9 - (j + 1)) := by
        rw [Nat.div_lt_iff_lt_mul (by decide), ← Nat.pow_succ]
        rwa [show (9 - (j + 1)).succ = 9 - j by omega]
      have ih := readGroups_encodeIntTail r (j := j + 1) (show v / 128 ≤ fuel by omega)
        (by omega) hdiv
      rw [List.cons_append, readGroups, hb, if_neg (by omega), if_neg (by omega), ih]
      simp only [Except.map, Nat.add_mod_right, Nat.mod_mod, pow_group]
      have hsplit : v % 128 * 128 ^ j + v / 128 * (128 * 128 ^ j) = v * 128 ^ j := by
        calc v % 128 * 128 ^ j + v / 128 * (128 * 128 ^ j)
            = (v % 128 + 128 * (v / 128)) * 128 ^ j := by ring
          _ = v * 128 ^ j := by rw [Nat.mod_add_div]
      rw [hsplit]

/-- The first byte holds what was or-ed into the low bits. -/
theorem lead_or_mod {n v : Nat} {lead : UInt8} (h8 : n ≤ 8) (hl : lead.toNat % 2 ^ n = 0)
    (hv : v < 2 ^ n) : (lead ||| v.toUInt8).toNat % 2 ^ n = v := by
  have hpow : 2 ^ n ≤ 2 ^ 8 := Nat.pow_le_pow_right (by decide) h8
  have hb : v.toUInt8.toNat = v := Nat.mod_eq_of_lt (by omega)
  rw [UInt8.toNat_or, hb, Nat.or_mod_two_pow, hl, Nat.zero_or, Nat.mod_eq_of_lt hv]

/-- **`decode_int` reads back what `encode_int` wrote**, up to 63 bits behind the prefix. -/
theorem decodeInt_encodeInt {n v : Nat} {lead : UInt8} (h0 : 0 < n) (h8 : n ≤ 8)
    (hl : lead.toNat % 2 ^ n = 0) (hz : ¬ (v = 0 ∧ n = 7)) (hv : v < 2 ^ n - 1 + 2 ^ 63)
    (r : Bytes) :
    decodeInt n (encodeInt v n lead ++ r) = .ok (v, r) := by
  have hpos : 2 ^ 1 ≤ 2 ^ n := Nat.pow_le_pow_right (by decide) h0
  unfold encodeInt
  dsimp only
  split_ifs with h
  · rw [List.singleton_append, decodeInt_cons h0 h8, lead_or_mod h8 hl (by omega), if_pos h,
      if_neg hz]
  · rw [List.cons_append, decodeInt_cons h0 h8, lead_or_mod h8 hl (by omega),
      if_neg (Nat.lt_irrefl _),
      readGroups_encodeIntTail r (Nat.le_refl _) (Nat.zero_le 8)
        (show v - (2 ^ n - 1) < 128 ^ 9 by
          have h63 : 128 ^ 9 = 2 ^ 63 := by decide
          omega)]
    simp only [Except.map, Nat.pow_zero, Nat.mul_one]
    rw [show 2 ^ n - 1 + (v - (2 ^ n - 1)) = v by omega]

/-- Groups beyond the ninth are refused. -/
theorem readGroups_encodeIntTail_large (r : Bytes) : ∀ {fuel v j : Nat}, v ≤ fuel → j ≤ 8 →
    128 ^ (9 - j) ≤ v →
      readGroups j (encodeIntTail fuel v ++ r) = .error (hpackError "HPACK integer overflow")
  | fuel, v, j, hf, hj, hv => by
    have h128 : 128 ≤ v := by
      have : 128 ^ 1 ≤ 128 ^ (9 - j) := Nat.pow_le_pow_right (by decide) (by omega)
      omega
    cases fuel with
    | zero => omega
    | succ fuel =>
      have hb : (v % 128 + 128).toUInt8.toNat = v % 128 + 128 := Nat.mod_eq_of_lt (by omega)
      unfold encodeIntTail
      rw [if_neg (by omega), List.cons_append, readGroups, hb, if_neg (by omega)]
      by_cases h8 : 8 ≤ j
      · rw [if_pos h8]
      · have hdiv : 128 ^ (9 - (j + 1)) ≤ v / 128 := by
          rw [Nat.le_div_iff_mul_le (by decide), ← Nat.pow_succ]
          rwa [show (9 - (j + 1)).succ = 9 - j by omega]
        have ih := readGroups_encodeIntTail_large r (j := j + 1) (show v / 128 ≤ fuel by omega)
          (by omega) hdiv
        rw [if_neg h8, ih]
        rfl

/-- Longer integers are refused. -/
theorem decodeInt_encodeInt_large {n v : Nat} {lead : UInt8} (h0 : 0 < n) (h8 : n ≤ 8)
    (hl : lead.toNat % 2 ^ n = 0) (hv : 2 ^ n - 1 + 2 ^ 63 ≤ v) (r : Bytes) :
    decodeInt n (encodeInt v n lead ++ r) = .error (hpackError "HPACK integer overflow") := by
  have hpos : 2 ^ 1 ≤ 2 ^ n := Nat.pow_le_pow_right (by decide) h0
  unfold encodeInt
  dsimp only
  rw [if_neg (by omega), List.cons_append, decodeInt_cons h0 h8, lead_or_mod h8 hl (by omega),
    if_neg (Nat.lt_irrefl _),
    readGroups_encodeIntTail_large r (Nat.le_refl _) (Nat.zero_le 8)
      (show 128 ^ 9 ≤ v - (2 ^ n - 1) by
        have h63 : 128 ^ 9 = 2 ^ 63 := by decide
        omega)]
  rfl

/-! ## The shape of an integer -/

/-- The bytes behind the first one. -/
def encodeIntRest (value prefixBits : Nat) : Bytes :=
  if value < 2 ^ prefixBits - 1 then []
  else encodeIntTail (value - (2 ^ prefixBits - 1)) (value - (2 ^ prefixBits - 1))

/-- The first byte holds the bits in front and the value, as far as it goes. -/
theorem encodeInt_eq (v n : Nat) (lead : UInt8) :
    encodeInt v n lead = (lead ||| (min v (2 ^ n - 1)).toUInt8) :: encodeIntRest v n := by
  unfold encodeInt encodeIntRest
  dsimp only
  split_ifs with h
  · rw [Nat.min_eq_left (by omega)]
  · rw [Nat.min_eq_right (by omega)]

/-! ## Integers of any length

An encoder may write more groups than the value needs (`IntForm` asks for no minimal one), and
`decode_int` takes up to nine. -/

/-- The groups behind a first byte full of ones, and their sum. -/
inductive Groups : Bytes → Nat → Prop where
  | last {b} (h : b.toNat < 128) : Groups [b] b.toNat
  | more {b gs v} (h : 128 ≤ b.toNat) (hg : Groups gs v) :
      Groups (b :: gs) (b.toNat % 128 + 128 * v)

/-- An integer in the low `n` bits of `b` and the bytes behind it. -/
inductive IntForm (n : Nat) (b : UInt8) : Bytes → Nat → Prop where
  | short (h : b.toNat % 2 ^ n < 2 ^ n - 1) : IntForm n b [] (b.toNat % 2 ^ n)
  | long {gs v} (h : b.toNat % 2 ^ n = 2 ^ n - 1) (hg : Groups gs v) :
      IntForm n b gs (2 ^ n - 1 + v)

theorem readGroups_groups {gs : Bytes} {v : Nat} (hg : Groups gs v) (r : Bytes) :
    ∀ {j : Nat}, j ≤ 8 → readGroups j (gs ++ r) =
      if gs.length + j ≤ 9 then .ok (v * 128 ^ j, r)
      else .error (hpackError "HPACK integer overflow") := by
  induction hg with
  | last h =>
    intro j hj
    rw [List.singleton_append, readGroups_cons_lt h, if_pos (by rw [List.length_singleton]; omega)]
  | @more b gs v h hg ih =>
    intro j hj
    have hpos : gs ≠ [] := by cases hg <;> exact List.cons_ne_nil _ _
    have hlen := List.length_pos_iff.mpr hpos
    rw [List.cons_append, readGroups, if_neg (by omega), List.length_cons]
    by_cases h8 : 8 ≤ j
    · rw [if_pos h8, if_neg (by omega)]
    · rw [if_neg h8, ih (by omega)]
      by_cases h9 : gs.length + 1 + j ≤ 9
      · have hsum : b.toNat % 128 * 128 ^ j + v * 128 ^ (j + 1) =
            (b.toNat % 128 + 128 * v) * 128 ^ j := by ring
        rw [if_pos (by omega), if_pos h9]
        simp only [Except.map, hsum]
      · rw [if_neg (by omega), if_neg h9]
        rfl

/-- **`decode_int` on an integer of any form.** -/
theorem decodeInt_form {n v : Nat} {b : UInt8} {gs : Bytes} (h0 : 0 < n) (h8 : n ≤ 8)
    (hi : IntForm n b gs v) (hz : ¬ (v = 0 ∧ n = 7)) (r : Bytes) :
    decodeInt n (b :: (gs ++ r)) =
      if gs.length ≤ 9 then .ok (v, r) else .error (hpackError "HPACK integer overflow") := by
  rw [decodeInt_cons h0 h8]
  cases hi with
  | short h =>
    rw [if_pos h, if_neg hz, List.nil_append, if_pos (by simp)]
  | long h hg =>
    rw [if_neg (by omega), readGroups_groups hg r (Nat.zero_le 8), Nat.add_zero]
    split_ifs
    · simp only [Except.map, Nat.pow_zero, Nat.mul_one]
    · rfl

/-! ## Every input -/

/-- No turn of the loop of `decode_int` wraps: neither the group shifted into its place nor the sum
exceeds 64 bits. -/
def NoWrap (value m : Nat) : Bytes → Prop
  | [] => True
  | b :: data =>
    let group := (b &&& 0x7f).toNat <<< m
    group < sizeMod ∧ value + group < sizeMod ∧
      (b &&& 0x80 ≠ 0 → m + 7 ≤ 56 → NoWrap (value + group) (m + 7) data)

theorem noWrap_groups : ∀ (data : Bytes) {j v : Nat}, j ≤ 8 → v + 2 ^ 63 < sizeMod + 128 ^ j →
    NoWrap v (7 * j) data
  | [], _, _, _, _ => trivial
  | b :: data, j, v, hj, hv => by
    obtain ⟨hshift, hsum, hroom⟩ := group_fits hj hv b
    unfold NoWrap
    simp only [hshift]
    refine ⟨Nat.lt_of_le_of_lt (Nat.le_add_left _ v) hsum, hsum, fun _ hm => ?_⟩
    exact noWrap_groups data (j := j + 1) (by omega) hroom

/-- Groups that were read are groups with their sum. -/
theorem readGroups_sound : ∀ {data : Bytes} {j v : Nat} {rest : Bytes},
    readGroups j data = .ok (v, rest) →
      ∃ gs w, data = gs ++ rest ∧ Groups gs w ∧ v = w * 128 ^ j
  | b :: data, j, v, rest, h => by
    unfold readGroups at h
    split_ifs at h with hlast h8
    · cases h
      exact ⟨[b], b.toNat, rfl, .last hlast, rfl⟩
    · cases hr : readGroups (j + 1) data with
      | error e =>
        rw [hr] at h
        cases h
      | ok p =>
        rw [hr] at h
        cases h
        obtain ⟨gs, w, hdata, hg, hw⟩ := readGroups_sound hr
        refine ⟨b :: gs, _, by rw [hdata, List.cons_append], .more (Nat.le_of_not_lt hlast) hg, ?_⟩
        rw [hw, pow_group]
        ring

/-- **What was decoded is the value of its encoding.** -/
theorem decodeInt_sound {n : Nat} (h0 : 0 < n) (h8 : n ≤ 8) {b : UInt8} {data rest : Bytes}
    {v : Nat} (h : decodeInt n (b :: data) = .ok (v, rest)) :
    ∃ gs, data = gs ++ rest ∧ IntForm n b gs v := by
  rw [decodeInt_cons h0 h8] at h
  split_ifs at h with hshort hz
  · cases h
    exact ⟨[], rfl, .short hshort⟩
  · cases hr : readGroups 0 data with
    | error e =>
      rw [hr] at h
      cases h
    | ok p =>
      rw [hr] at h
      cases h
      obtain ⟨gs, w, hdata, hg, hw⟩ := readGroups_sound hr
      have hfull : b.toNat % 2 ^ n = 2 ^ n - 1 := by
        have := Nat.mod_lt b.toNat (Nat.two_pow_pos n)
        omega
      rw [hw, Nat.pow_zero, Nat.mul_one]
      exact ⟨gs, hdata, .long hfull hg⟩

/-- **HPACK integers.** `decode_int` reads back what `encode_int` wrote up to 63 bits behind the
prefix and refuses what is larger; on every input its accumulator stays within 64 bits, and the
value it returns is that of the encoding it has read. -/
theorem hpack_integer_exact {n : Nat} (h0 : 0 < n) (h8 : n ≤ 8) :
    (∀ (lead : UInt8) (v : Nat) (r : Bytes), lead.toNat % 2 ^ n = 0 → ¬ (v = 0 ∧ n = 7) →
      (v < 2 ^ n - 1 + 2 ^ 63 → decodeInt n (encodeInt v n lead ++ r) = .ok (v, r)) ∧
        (2 ^ n - 1 + 2 ^ 63 ≤ v → ∃ e, decodeInt n (encodeInt v n lead ++ r) = .error e)) ∧
    (∀ (b : UInt8) (data : Bytes), NoWrap (b.toNat &&& (2 ^ n - 1)) 0 data) ∧
    ∀ (b : UInt8) (data : Bytes) (v : Nat) (rest : Bytes),
      decodeInt n (b :: data) = .ok (v, rest) → ∃ gs, data = gs ++ rest ∧ IntForm n b gs v := by
  refine ⟨fun lead v r hl hz => ⟨fun hv => decodeInt_encodeInt h0 h8 hl hz hv r,
    fun hv => ⟨_, decodeInt_encodeInt_large h0 h8 hl hv r⟩⟩, fun b data => ?_,
    fun b data v rest h => decodeInt_sound h0 h8 h⟩
  have hmask : b.toNat &&& (2 ^ n - 1) ≤ b.toNat := Nat.and_le_left
  have hb := b.toNat_lt
  refine noWrap_groups data (j := 0) (Nat.zero_le 8) ?_
  unfold sizeMod
  omega

/-- The integer 1337 with a 5-bit prefix, and the first one that is too large. -/
theorem hpack_integer_exact_five :
    decodeInt 5 (encodeInt 1337 5 0xe0 ++ [0x82]) = .ok (1337, [0x82]) ∧
      ∃ e, decodeInt 5 (encodeInt (31 + 2 ^ 63) 5 0) = .error e := by
  obtain ⟨hround, -⟩ := hpack_integer_exact (n := 5) (by decide) (by decide)
  refine ⟨(hround 0xe0 1337 [0x82] (by decide) (by decide)).1 (by decide), ?_⟩
  have hlarge := (hround 0 (31 + 2 ^ 63) [] (by decide) (by decide)).2 (by decide)
  rwa [List.append_nil] at hlarge

end Uproxy
