import Uproxy.Basic
import Uproxy.Lib.Bits
import Uproxy.Lib.Trie
import Mathlib.Data.List.Pairwise

/-!
# The Huffman code (`hpack_huffman_table.h`)

`HPACK_HUFFMAN_SYM_TABLE` gives for each byte, and for the end-of-string symbol 256, the number of
bits of its code and the code itself, left-aligned in 32 bits. `codePath` is a code as a bit string
and `codeTable` the table the decoder builds its tree from.

`prefixFree_codeTable`: no code is a prefix of another. It is checked on the numbers: in the order
of the codes, the 32-bit words that start with one code end before the next code.
-/

namespace Uproxy

open Lib.Bits Lib

/-- `HpackHuffmanSym`. -/
structure HpackHuffmanSym where
  nbits : Nat
  code  : Nat
  deriving DecidableEq, Repr

/-- `HPACK_HUFFMAN_SYM_TABLE`. -/
def huffmanSymTable : List HpackHuffmanSym :=
  [⟨13, 0xffc00000⟩, ⟨23, 0xffffb000⟩, ⟨28, 0xfffffe20⟩, ⟨28, 0xfffffe30⟩, ⟨28, 0xfffffe40⟩,
    ⟨28, 0xfffffe50⟩, ⟨28, 0xfffffe60⟩, ⟨28, 0xfffffe70⟩, ⟨28, 0xfffffe80⟩, ⟨24, 0xffffea00⟩,
    ⟨30, 0xfffffff0⟩, ⟨28, 0xfffffe90⟩, ⟨28, 0xfffffea0⟩, ⟨30, 0xfffffff4⟩, ⟨28, 0xfffffeb0⟩,
    ⟨28, 0xfffffec0⟩, ⟨28, 0xfffffed0⟩, ⟨28, 0xfffffee0⟩, ⟨28, 0xfffffef0⟩, ⟨28, 0xffffff00⟩,
    ⟨28, 0xffffff10⟩, ⟨28, 0xffffff20⟩, ⟨30, 0xfffffff8⟩, ⟨28, 0xffffff30⟩, ⟨28, 0xffffff40⟩,
    ⟨28, 0xffffff50⟩, ⟨28, 0xffffff60⟩, ⟨28, 0xffffff70⟩, ⟨28, 0xffffff80⟩, ⟨28, 0xffffff90⟩,
    ⟨28, 0xffffffa0⟩, ⟨28, 0xffffffb0⟩, ⟨6, 0x50000000⟩, ⟨10, 0xfe000000⟩, ⟨10, 0xfe400000⟩,
    ⟨12, 0xffa00000⟩, ⟨13, 0xffc80000⟩, ⟨6, 0x54000000⟩, ⟨8, 0xf8000000⟩, ⟨11, 0xff400000⟩,
    ⟨10, 0xfe800000⟩, ⟨10, 0xfec00000⟩, ⟨8, 0xf9000000⟩, ⟨11, 0xff600000⟩, ⟨8, 0xfa000000⟩,
    ⟨6, 0x58000000⟩, ⟨6, 0x5c000000⟩, ⟨6, 0x60000000⟩, ⟨5, 0x0⟩, ⟨5, 0x8000000⟩, ⟨5, 0x10000000⟩,
    ⟨6, 0x64000000⟩, ⟨6, 0x68000000⟩, ⟨6, 0x6c000000⟩, ⟨6, 0x70000000⟩, ⟨6, 0x74000000⟩,
    ⟨6, 0x78000000⟩, ⟨6, 0x7c000000⟩, ⟨7, 0xb8000000⟩, ⟨8, 0xfb000000⟩, ⟨15, 0xfff80000⟩,
    ⟨6, 0x80000000⟩, ⟨12, 0xffb00000⟩, ⟨10, 0xff000000⟩, ⟨13, 0xffd00000⟩, ⟨6, 0x84000000⟩,
    ⟨7, 0xba000000⟩, ⟨7, 0xbc000000⟩, ⟨7, 0xbe000000⟩, ⟨7, 0xc0000000⟩, ⟨7, 0xc2000000⟩,
    ⟨7, 0xc4000000⟩, ⟨7, 0xc6000000⟩, ⟨7, 0xc8000000⟩, ⟨7, 0xca000000⟩, ⟨7, 0xcc000000⟩,
    ⟨7, 0xce000000⟩, ⟨7, 0xd0000000⟩, ⟨7, 0xd2000000⟩, ⟨7, 0xd4000000⟩, ⟨7, 0xd6000000⟩,
    ⟨7, 0xd8000000⟩, ⟨7, 0xda000000⟩, ⟨7, 0xdc000000⟩, ⟨7, 0xde000000⟩, ⟨7, 0xe0000000⟩,
    ⟨7, 0xe2000000⟩, ⟨7, 0xe4000000⟩, ⟨8, 0xfc000000⟩, ⟨7, 0xe6000000⟩, ⟨8, 0xfd000000⟩,
    ⟨13, 0xffd80000⟩, ⟨19, 0xfffe0000⟩, ⟨13, 0xffe00000⟩, ⟨14, 0xfff00000⟩, ⟨6, 0x88000000⟩,
    ⟨15, 0xfffa0000⟩, ⟨5, 0x18000000⟩, ⟨6, 0x8c000000⟩, ⟨5, 0x20000000⟩, ⟨6, 0x90000000⟩,
    ⟨5, 0x28000000⟩, ⟨6, 0x94000000⟩, ⟨6, 0x98000000⟩, ⟨6, 0x9c000000⟩, ⟨5, 0x30000000⟩,
    ⟨7, 0xe8000000⟩, ⟨7, 0xea000000⟩, ⟨6, 0xa0000000⟩, ⟨6, 0xa4000000⟩, ⟨6, 0xa8000000⟩,
    ⟨5, 0x38000000⟩, ⟨6, 0xac000000⟩, ⟨7, 0xec000000⟩, ⟨6, 0xb0000000⟩, ⟨5, 0x40000000⟩,
    ⟨5, 0x48000000⟩, ⟨6, 0xb4000000⟩, ⟨7, 0xee000000⟩, ⟨7, 0xf0000000⟩, ⟨7, 0xf2000000⟩,
    ⟨7, 0xf4000000⟩, ⟨7, 0xf6000000⟩, ⟨15, 0xfffc0000⟩, ⟨11, 0xff800000⟩, ⟨14, 0xfff40000⟩,
    ⟨13, 0xffe80000⟩, ⟨28, 0xffffffc0⟩, ⟨20, 0xfffe6000⟩, ⟨22, 0xffff4800⟩, ⟨20, 0xfffe7000⟩,
    ⟨20, 0xfffe8000⟩, ⟨22, 0xffff4c00⟩, ⟨22, 0xffff5000⟩, ⟨22, 0xffff5400⟩, ⟨23, 0xffffb200⟩,
    ⟨22, 0xffff5800⟩, ⟨23, 0xffffb400⟩, ⟨23, 0xffffb600⟩, ⟨23, 0xffffb800⟩, ⟨23, 0xffffba00⟩,
    ⟨23, 0xffffbc00⟩, ⟨24, 0xffffeb00⟩, ⟨23, 0xffffbe00⟩, ⟨24, 0xffffec00⟩, ⟨24, 0xffffed00⟩,
    ⟨22, 0xffff5c00⟩, ⟨23, 0xffffc000⟩, ⟨24, 0xffffee00⟩, ⟨23, 0xffffc200⟩, ⟨23, 0xffffc400⟩,
    ⟨23, 0xffffc600⟩, ⟨23, 0xffffc800⟩, ⟨21, 0xfffee000⟩, ⟨22, 0xffff6000⟩, ⟨23, 0xffffca00⟩,
    ⟨22, 0xffff6400⟩, ⟨23, 0xffffcc00⟩, ⟨23, 0xffffce00⟩, ⟨24, 0xffffef00⟩, ⟨22, 0xffff6800⟩,
    ⟨21, 0xfffee800⟩, ⟨20, 0xfffe9000⟩, ⟨22, 0xffff6c00⟩, ⟨22, 0xffff7000⟩, ⟨23, 0xffffd000⟩,
    ⟨23, 0xffffd200⟩, ⟨21, 0xfffef000⟩, ⟨23, 0xffffd400⟩, ⟨22, 0xffff7400⟩, ⟨22, 0xffff7800⟩,
    ⟨24, 0xfffff000⟩, ⟨21, 0xfffef800⟩, ⟨22, 0xffff7c00⟩, ⟨23, 0xffffd600⟩, ⟨23, 0xffffd800⟩,
    ⟨21, 0xffff0000⟩, ⟨21, 0xffff0800⟩, ⟨22, 0xffff8000⟩, ⟨21, 0xffff1000⟩, ⟨23, 0xffffda00⟩,
    ⟨22, 0xffff8400⟩, ⟨23, 0xffffdc00⟩, ⟨23, 0xffffde00⟩, ⟨20, 0xfffea000⟩, ⟨22, 0xffff8800⟩,
    ⟨22, 0xffff8c00⟩, ⟨22, 0xffff9000⟩, ⟨23, 0xffffe000⟩, ⟨22, 0xffff9400⟩, ⟨22, 0xffff9800⟩,
    ⟨23, 0xffffe200⟩, ⟨26, 0xfffff800⟩, ⟨26, 0xfffff840⟩, ⟨20, 0xfffeb000⟩, ⟨19, 0xfffe2000⟩,
    ⟨22, 0xffff9c00⟩, ⟨23, 0xffffe400⟩, ⟨22, 0xffffa000⟩, ⟨25, 0xfffff600⟩, ⟨26, 0xfffff880⟩,
    ⟨26, 0xfffff8c0⟩, ⟨26, 0xfffff900⟩, ⟨27, 0xfffffbc0⟩, ⟨27, 0xfffffbe0⟩, ⟨26, 0xfffff940⟩,
    ⟨24, 0xfffff100⟩, ⟨25, 0xfffff680⟩, ⟨19, 0xfffe4000⟩, ⟨21, 0xffff1800⟩, ⟨26, 0xfffff980⟩,
    ⟨27, 0xfffffc00⟩, ⟨27, 0xfffffc20⟩, ⟨26, 0xfffff9c0⟩, ⟨27, 0xfffffc40⟩, ⟨24, 0xfffff200⟩,
    ⟨21, 0xffff2000⟩, ⟨21, 0xffff2800⟩, ⟨26, 0xfffffa00⟩, ⟨26, 0xfffffa40⟩, ⟨28, 0xffffffd0⟩,
    ⟨27, 0xfffffc60⟩, ⟨27, 0xfffffc80⟩, ⟨27, 0xfffffca0⟩, ⟨20, 0xfffec000⟩, ⟨24, 0xfffff300⟩,
    ⟨20, 0xfffed000⟩, ⟨21, 0xffff3000⟩, ⟨22, 0xffffa400⟩, ⟨21, 0xffff3800⟩, ⟨21, 0xffff4000⟩,
    ⟨23, 0xffffe600⟩, ⟨22, 0xffffa800⟩, ⟨22, 0xffffac00⟩, ⟨25, 0xfffff700⟩, ⟨25, 0xfffff780⟩,
    ⟨24, 0xfffff400⟩, ⟨24, 0xfffff500⟩, ⟨26, 0xfffffa80⟩, ⟨23, 0xffffe800⟩, ⟨26, 0xfffffac0⟩,
    ⟨27, 0xfffffcc0⟩, ⟨26, 0xfffffb00⟩, ⟨26, 0xfffffb40⟩, ⟨27, 0xfffffce0⟩, ⟨27, 0xfffffd00⟩,
    ⟨27, 0xfffffd20⟩, ⟨27, 0xfffffd40⟩, ⟨27, 0xfffffd60⟩, ⟨28, 0xffffffe0⟩, ⟨27, 0xfffffd80⟩,
    ⟨27, 0xfffffda0⟩, ⟨27, 0xfffffdc0⟩, ⟨27, 0xfffffde0⟩, ⟨27, 0xfffffe00⟩, ⟨26, 0xfffffb80⟩,
    ⟨30, 0xfffffffc⟩]

/-- `sym.code >> (32 - sym.nbits)`. -/
def HpackHuffmanSym.value (s : HpackHuffmanSym) : Nat := s.code >>> (32 - s.nbits)

/-- The code as bits, in the order they are sent. -/
def codePath (s : HpackHuffmanSym) : List Bool := bits s.nbits s.value

/-- The codes with their symbols, in the order the tree is built. -/
def codeTable : List (List Bool × Nat) := huffmanSymTable.zipIdx.map fun e => (codePath e.1, e.2)

/-- `HPACK_HUFFMAN_SYM_TABLE[c]`. -/
def huffmanSym (c : UInt8) : HpackHuffmanSym := huffmanSymTable.getD c.toNat ⟨0, 0⟩

/-! ## The code is prefix-free -/

/-- A code is left-aligned and not empty. -/
def HpackHuffmanSym.Ok (s : HpackHuffmanSym) : Prop :=
  0 < s.nbits ∧ s.nbits ≤ 30 ∧ s.code < 2 ^ 32 ∧ s.code % 2 ^ (32 - s.nbits) = 0

instance (s : HpackHuffmanSym) : Decidable s.Ok := inferInstanceAs (Decidable (_ ∧ _ ∧ _ ∧ _))

theorem huffmanSymTable_ok : ∀ s ∈ huffmanSymTable, s.Ok := by decide +kernel

/-- The 32-bit words that start with code `s` lie below code `s'`. -/
def Below (s s' : HpackHuffmanSym) : Prop := s.code + 2 ^ (32 - s.nbits) ≤ s'.code

theorem Below.trans {a b c : HpackHuffmanSym} (h : Below a b) (h' : Below b c) : Below a c :=
  Nat.le_trans (Nat.le_trans h (Nat.le_add_right _ _)) h'

/-- The table in the order of its codes: by length, then by symbol. -/
def sortedTable : List (HpackHuffmanSym × Nat) :=
  (List.range 31).flatMap fun n => huffmanSymTable.zipIdx.filter fun e => e.1.nbits == n

theorem sortedTable_chain : sortedTable.IsChain fun e e' => Below e.1 e'.1 := by
  unfold Below
  decide +kernel

theorem mem_sortedTable {e : HpackHuffmanSym × Nat} (h : e ∈ huffmanSymTable.zipIdx) :
    e ∈ sortedTable := by
  have hs := huffmanSymTable_ok e.1 (List.fst_mem_of_mem_zipIdx h)
  refine List.mem_flatMap.mpr ⟨e.1.nbits, List.mem_range.mpr ?_, List.mem_filter.mpr ⟨h, by simp⟩⟩
  have := hs.2.1
  omega

/-- Two symbols' codes do not overlap. -/
theorem below_or_below {e e' : HpackHuffmanSym × Nat} (he : e ∈ huffmanSymTable.zipIdx)
    (he' : e' ∈ huffmanSymTable.zipIdx) (hne : e ≠ e') : Below e.1 e'.1 ∨ Below e'.1 e.1 := by
  have htrans : IsTrans (HpackHuffmanSym × Nat) fun e e' => Below e.1 e'.1 :=
    ⟨fun _ _ _ => Below.trans⟩
  have hpair : sortedTable.Pairwise fun e e' => Below e.1 e'.1 ∨ Below e'.1 e.1 :=
    (List.isChain_iff_pairwise.mp sortedTable_chain).imp Or.inl
  have hsym : Std.Symm fun e e' : HpackHuffmanSym × Nat => Below e.1 e'.1 ∨ Below e'.1 e.1 :=
    ⟨fun _ _ h => h.symm⟩
  exact hpair.forall (mem_sortedTable he) (mem_sortedTable he') hne

theorem HpackHuffmanSym.Ok.value_lt {s : HpackHuffmanSym} (h : s.Ok) : s.value < 2 ^ s.nbits := by
  obtain ⟨-, h30, hlt, -⟩ := h
  unfold HpackHuffmanSym.value
  rw [Nat.shiftRight_eq_div_pow, Nat.div_lt_iff_lt_mul (Nat.pow_pos (by decide)), ← Nat.pow_add,
    show s.nbits + (32 - s.nbits) = 32 by omega]
  exact hlt

theorem HpackHuffmanSym.Ok.code_eq {s : HpackHuffmanSym} (h : s.Ok) :
    s.code = s.value * 2 ^ (32 - s.nbits) := by
  unfold HpackHuffmanSym.value
  rw [Nat.shiftRight_eq_div_pow]
  exact (Nat.div_mul_cancel (Nat.dvd_of_mod_eq_zero h.2.2.2)).symm

/-- A code that starts with another one lies among the words that start with it. -/
theorem code_of_prefix {s s' : HpackHuffmanSym} (h : s.Ok) (h' : s'.Ok)
    (hp : codePath s <+: codePath s') :
    s.code ≤ s'.code ∧ s'.code < s.code + 2 ^ (32 - s.nbits) := by
  have hle : s.nbits ≤ s'.nbits := by
    have := hp.length_le
    unfold codePath at this
    rwa [length_bits, length_bits] at this
  obtain ⟨d, hd⟩ := Nat.exists_eq_add_of_le hle
  have hv : s.value = s'.value / 2 ^ d := by
    refine bits_injective h.value_lt ?_ ?_ (w := s.nbits)
    · rw [Nat.div_lt_iff_lt_mul (Nat.pow_pos (by decide)), ← Nat.pow_add, ← hd]
      exact h'.value_lt
    · unfold codePath at hp
      rw [hd, bits_add, Nat.shiftRight_eq_div_pow] at hp
      obtain ⟨t, ht⟩ := hp
      exact (List.append_inj ht (by rw [length_bits, length_bits])).1
  have hpow : 2 ^ (32 - s.nbits) = 2 ^ d * 2 ^ (32 - s'.nbits) := by
    rw [← Nat.pow_add]
    congr 1
    have := h'.2.1
    omega
  have hpos : 0 < 2 ^ d := Nat.pow_pos (by decide)
  rw [h.code_eq, h'.code_eq, hv, hpow, ← Nat.mul_assoc]
  constructor
  · exact Nat.mul_le_mul_right _ (Nat.div_mul_le_self _ _)
  · rw [← Nat.add_mul]
    refine Nat.mul_lt_mul_of_pos_right ?_ (Nat.pow_pos (by decide))
    rw [← Nat.succ_mul, Nat.mul_comm]
    exact Nat.lt_mul_div_succ _ hpos

/-- **No code is a prefix of another.** -/
theorem prefixFree_codeTable : Trie.PrefixFree codeTable := by
  constructor
  · rintro e he h0
    obtain ⟨x, hx, rfl⟩ := List.mem_map.mp he
    have hlen := congrArg List.length h0
    rw [codePath, length_bits] at hlen
    have := (huffmanSymTable_ok x.1 (List.fst_mem_of_mem_zipIdx hx)).1
    simp only [List.length_nil] at hlen
    omega
  · rintro e he e' he' hp
    obtain ⟨x, hx, rfl⟩ := List.mem_map.mp he
    obtain ⟨x', hx', rfl⟩ := List.mem_map.mp he'
    obtain ⟨h1, h2⟩ := code_of_prefix (huffmanSymTable_ok x.1 (List.fst_mem_of_mem_zipIdx hx))
      (huffmanSymTable_ok x'.1 (List.fst_mem_of_mem_zipIdx hx')) hp
    by_cases hne : x = x'
    · rw [hne]
    · have hpos : 0 < 2 ^ (32 - x'.1.nbits) := Nat.pow_pos (by decide)
      rcases below_or_below hx hx' hne with hb | hb
      · exact absurd h2 (Nat.not_lt.mpr hb)
      · unfold Below at hb
        omega

theorem huffmanSymTable_getElem? (c : UInt8) : huffmanSymTable[c.toNat]? = some (huffmanSym c) := by
  have hlt : c.toNat < huffmanSymTable.length :=
    Nat.lt_of_lt_of_le (UInt8.toNat_lt c) (by decide +kernel)
  unfold huffmanSym
  rw [List.getD_eq_getElem?_getD, List.getElem?_eq_getElem hlt]
  rfl

theorem huffmanSym_ok (c : UInt8) : (huffmanSym c).Ok :=
  huffmanSymTable_ok _ (List.mem_of_getElem? (huffmanSymTable_getElem? c))

/-- The code of a byte is in the table. -/
theorem mem_codeTable (c : UInt8) : (codePath (huffmanSym c), c.toNat) ∈ codeTable :=
  List.mem_map.mpr ⟨(huffmanSym c, c.toNat),
    List.mem_zipIdx_iff_getElem?.mpr (huffmanSymTable_getElem? c), rfl⟩

/-- The end-of-string code is 30 ones. -/
theorem eos_mem_codeTable : (List.replicate 30 true, 256) ∈ codeTable := by
  have h : (⟨30, 0xfffffffc⟩, 256) ∈ huffmanSymTable.zipIdx := by decide +kernel
  exact List.mem_map.mpr ⟨_, h, by decide⟩

end Uproxy
