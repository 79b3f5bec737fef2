import Uproxy.Hpack.Strings

/-!
# What the Huffman decoder takes, and the string codec

The walk of `decode_string` stops wherever the input ends. The bits behind the last symbol are then
a proper prefix of some code (`Trie.Stub`), and nothing else is asked of them. `encode_string`
leaves fewer than eight ones there.

* `huffmanDecode_eq_ok`: **what is decoded**: the codes of the result and a proper prefix of a code;
* `eq_huffmanEncode_iff`: what `encode_string` writes;
* **`huffman_canonical`**: the decoder is canonical on a byte string exactly if what is left behind
  the last symbol is fewer than eight ones, as far as the length is one it takes;
* **`string_round_trip`**: every non-empty string survives, in either form, with the facts about the
  announced length, the code table, the tree and the accumulator it rests on.
-/

namespace Uproxy

open Lib.Bits Lib

/-- The codes of some bytes. -/
def codes (s : Bytes) : List Bool := s.flatMap fun c => codePath (huffmanSym c)

/-! ## Decoding -/

/-- A walk that succeeds is a run of the tree's reader that meets no end of string. -/
theorem huffmanWalk_ok {tree : Trie.Tree Nat} : ∀ {bs : List Bool} {node : Nat} {out s : Bytes},
    huffmanWalk tree node out bs = .ok s →
      ∃ syms next, Trie.run tree node bs = some (syms, next) ∧ 256 ∉ syms ∧
        s = out ++ syms.map Nat.toUInt8
  | [], node, out, s, h => by
    cases h
    exact ⟨[], node, rfl, List.not_mem_nil, (List.append_nil out).symm⟩
  | bit :: bs, node, out, s, h => by
    unfold huffmanWalk at h
    rw [Trie.run]
    rcases hstep : Trie.step tree node bit with _ | ⟨c, _ | sym⟩
    · rw [hstep] at h
      cases h
    · simp only [hstep] at h
      obtain ⟨syms, next, hrun, heos, hs⟩ := huffmanWalk_ok h
      exact ⟨syms, next, by rw [Option.bind_some, hrun]; rfl, heos, hs⟩
    · simp only [hstep] at h
      split_ifs at h with h256
      obtain ⟨syms, next, hrun, heos, hs⟩ := huffmanWalk_ok h
      have hc := Trie.step_sym hstep
      refine ⟨sym :: syms, next, ?_, ?_, ?_⟩
      · rw [Option.bind_some, hc, hrun]
        rfl
      · rw [List.mem_cons, not_or]
        exact ⟨Ne.symm h256, heos⟩
      · rw [hs, List.append_assoc]
        rfl

/-- The entries of the code table. -/
theorem codeTable_entry {e : List Bool × Nat} (he : e ∈ codeTable) (h : e.2 ≠ 256) :
    e = (codePath (huffmanSym e.2.toUInt8), e.2) := by
  obtain ⟨x, hx, rfl⟩ := List.mem_map.mp he
  have hget := List.mem_zipIdx_iff_getElem?.mp hx
  have hlt : x.2 < huffmanSymTable.length := (List.getElem?_eq_some_iff.mp hget).1
  have hlen : huffmanSymTable.length = 257 := by decide +kernel
  have hbyte : x.2.toUInt8.toNat = x.2 := by
    have h256 : x.2 ≠ 256 := h
    exact Nat.mod_eq_of_lt (by omega)
  have hsym := huffmanSymTable_getElem? x.2.toUInt8
  rw [hbyte, hget] at hsym
  rw [← Option.some.inj hsym]

/-- **What is decoded**: the codes of the result, and a proper prefix of a code. -/
theorem huffmanDecode_eq_ok {p s : Bytes} : huffmanDecode p = .ok s ↔
    ∃ t, Trie.Stub codeTable t ∧ p.flatMap byteBits = codes s ++ t := by
  constructor
  · intro h
    obtain ⟨syms, next, hrun, heos, hs⟩ := huffmanWalk_ok h
    obtain ⟨es, t, hes, hstub, hbits, rfl⟩ := (prefixFree_codeTable.run_eq_some_iff
      (List.ne_nil_of_mem eos_mem_codeTable)).mp ⟨next, hrun⟩
    refine ⟨t, hstub, ?_⟩
    rw [hbits, hs, List.nil_append, List.map_map, codes, List.flatMap_map]
    congr 1
    refine List.flatMap_congr fun e he => ?_
    have hentry := codeTable_entry (hes e he) fun h256 => heos (List.mem_map.mpr ⟨e, he, h256⟩)
    exact congrArg Prod.fst hentry
  · rintro ⟨t, hstub, hbits⟩
    exact huffmanDecode_codes hstub hbits

/-- One string is decoded, so the bits behind its codes are determined. -/
theorem codes_stub_unique {p s s' : Bytes} {t t' : List Bool} (ht : Trie.Stub codeTable t)
    (h : p.flatMap byteBits = codes s ++ t) (ht' : Trie.Stub codeTable t')
    (h' : p.flatMap byteBits = codes s' ++ t') : s' = s ∧ t' = t := by
  have hs : s' = s := Except.ok.inj ((huffmanDecode_codes ht' h').symm.trans
    (huffmanDecode_codes ht h))
  refine ⟨hs, ?_⟩
  rw [hs, h] at h'
  exact (List.append_cancel_left h').symm

/-! ## Encoding -/

/-- The byte string is the codes of some bytes, filled up with fewer than eight ones. -/
def Padded (p s : Bytes) : Prop :=
  ∃ k < 8, p.flatMap byteBits = codes s ++ List.replicate k true

theorem byteBits_injective : Function.Injective byteBits := fun a b h =>
  UInt8.toNat_inj.mp (bits_injective (w := 8) (UInt8.toNat_lt a) (UInt8.toNat_lt b) h)

theorem flatMap_byteBits_injective : ∀ {p q : Bytes}, p.flatMap byteBits = q.flatMap byteBits →
    p = q
  | [], q, h => by
    have hlen := congrArg List.length h
    rw [length_flatMap_byteBits, length_flatMap_byteBits, List.length_nil] at hlen
    exact (List.length_eq_zero_iff.mp (by omega)).symm
  | a :: p, q, h => by
    have hlen := congrArg List.length h
    rw [length_flatMap_byteBits, length_flatMap_byteBits, List.length_cons] at hlen
    obtain ⟨b, q, rfl⟩ := List.exists_cons_of_length_pos (show 0 < q.length by omega)
    rw [List.flatMap_cons, List.flatMap_cons] at h
    obtain ⟨hb, hr⟩ := List.append_inj h (by rw [byteBits, byteBits, length_bits, length_bits])
    rw [byteBits_injective hb, flatMap_byteBits_injective hr]

/-- **What `encode_string` writes.** -/
theorem eq_huffmanEncode_iff {p s : Bytes} : huffmanEncode s = p ↔ Padded p s := by
  obtain ⟨k, hk, hbits⟩ := bits_huffmanEncode s
  constructor
  · rintro rfl
    exact ⟨k, hk, hbits⟩
  · rintro ⟨k', hk', hbits'⟩
    refine flatMap_byteBits_injective (hbits.trans ?_)
    -- both fill the codes up to a multiple of eight
    have hlen := congrArg List.length hbits
    have hlen' := congrArg List.length hbits'
    rw [length_flatMap_byteBits, List.length_append, List.length_replicate] at hlen hlen'
    rw [hbits', show k = k' by unfold codes at hlen'; omega]
    rfl

/-! ## Canonical decoding -/

/-- `decode_string` on a Huffman-coded string, however its length is written. -/
theorem decodeString_huffman {p : Bytes} (hp : p ≠ []) {b : UInt8} (hb : b &&& 0x80 ≠ 0)
    {gs : Bytes} (hn : IntForm 7 b gs p.length) (r : Bytes) :
    decodeString (b :: (gs ++ (p ++ r))) =
      if gs.length ≤ 9 then
        if p.length ≤ 65535 then (huffmanDecode p).map fun s => (s, r)
        else .error (hpackError "invalid HPACK string length")
      else .error (hpackError "HPACK integer overflow") := by
  have hpos := List.length_pos_iff.mpr hp
  have hint := decodeInt_form (by decide) (by decide) hn (by omega) (p ++ r)
  unfold decodeString
  simp only [hint]
  by_cases h9 : gs.length ≤ 9
  · simp only [if_pos h9, if_pos hb, List.take_left, List.drop_left]
    by_cases hlen : p.length ≤ 65535
    · rw [if_pos hlen, if_neg (by rw [List.length_append]; omega)]
    · rw [if_neg hlen, if_pos (Or.inl (by omega))]
  · simp only [if_neg h9]

/-- Canonical decoding of a Huffman-coded byte string: `result` is ok exactly on what is padded as
it should be, and what it returns encodes to the byte string. -/
def CanonicalOn (p : Bytes) (result : Result (Bytes × Bytes)) : Prop :=
  ((∃ s r, result = .ok (s, r)) ↔ ∃ s, Padded p s) ∧
    ∀ s r, result = .ok (s, r) → huffmanEncode s = p

/-- What `decode_string` finds behind the last symbol. -/
def Leftover (p : Bytes) (t : List Bool) : Prop :=
  ∃ s, Trie.Stub codeTable t ∧ p.flatMap byteBits = codes s ++ t

theorem Padded.leftover {p s : Bytes} (h : Padded p s) {t : List Bool} (ht : Leftover p t) :
    ∃ k < 8, t = List.replicate k true := by
  obtain ⟨k, hk, hbits⟩ := h
  obtain ⟨s', hstub, hbits'⟩ := ht
  exact ⟨k, hk, (codes_stub_unique (stub_ones (by omega)) hbits hstub hbits').2⟩

/-- An error is canonical on what is not padded. -/
theorem canonicalOn_error (p : Bytes) (e : Error) :
    CanonicalOn p (.error e) ↔ ∀ s, ¬ Padded p s := by
  constructor
  · rintro ⟨hiff, -⟩ s hs
    obtain ⟨_, _, heq⟩ := hiff.mpr ⟨s, hs⟩
    cases heq
  · intro hno
    refine ⟨iff_of_false ?_ fun ⟨s, hs⟩ => hno s hs, fun _ _ heq => by cases heq⟩
    rintro ⟨_, _, heq⟩
    cases heq

/-- The decoder is canonical where it leaves padding only. -/
theorem canonicalOn_huffmanDecode (p r : Bytes) :
    CanonicalOn p ((huffmanDecode p).map fun s => (s, r)) ↔
      ∀ t, Leftover p t → ∃ k < 8, t = List.replicate k true := by
  have hres : ∀ s r', (huffmanDecode p).map (fun s => (s, r)) = .ok (s, r') ↔
      huffmanDecode p = .ok s ∧ r' = r := by
    intro s r'
    cases huffmanDecode p with
    | error e => simp [Except.map]
    | ok s' => simp [Except.map, eq_comm]
  constructor
  · rintro ⟨-, henc⟩ t ⟨s, ht, hbits⟩
    have hs := (hres s r).mpr ⟨huffmanDecode_eq_ok.mpr ⟨t, ht, hbits⟩, rfl⟩
    exact (eq_huffmanEncode_iff.mp (henc s r hs)).leftover ⟨s, ht, hbits⟩
  · intro hleft
    have hpadded : ∀ s, huffmanDecode p = .ok s → Padded p s := by
      intro s hs
      obtain ⟨t, ht, hbits⟩ := huffmanDecode_eq_ok.mp hs
      obtain ⟨k, hk, rfl⟩ := hleft t ⟨s, ht, hbits⟩
      exact ⟨k, hk, hbits⟩
    refine ⟨⟨?_, ?_⟩, ?_⟩
    · rintro ⟨s, r', hs⟩
      exact ⟨s, hpadded s ((hres s r').mp hs).1⟩
    · rintro ⟨s, k, hk, hbits⟩
      exact ⟨s, r, (hres s r).mpr ⟨huffmanDecode_codes (stub_ones (by omega)) hbits, rfl⟩⟩
    · intro s r' hs
      exact eq_huffmanEncode_iff.mpr (hpadded s ((hres s r').mp hs).1)

/-- **Canonical Huffman decoding.** On a byte string carried with the H bit and its length in any
form, `decode_string` is canonical exactly if what it finds behind the last symbol is fewer than
eight ones; a length it does not take matters only if the byte string is padded as it should be. -/
theorem huffman_canonical {p : Bytes} (hp : p ≠ []) {b : UInt8} (hb : b &&& 0x80 ≠ 0) {gs : Bytes}
    (hn : IntForm 7 b gs p.length) (r : Bytes) :
    CanonicalOn p (decodeString (b :: (gs ++ (p ++ r)))) ↔
      if gs.length ≤ 9 ∧ p.length ≤ 65535 then
        ∀ t, Leftover p t → ∃ k < 8, t = List.replicate k true
      else ∀ s, ¬ Padded p s := by
  rw [decodeString_huffman hp hb hn]
  by_cases h9 : gs.length ≤ 9
  · by_cases hlen : p.length ≤ 65535
    · rw [if_pos h9, if_pos hlen, if_pos ⟨h9, hlen⟩, canonicalOn_huffmanDecode]
    · rw [if_pos h9, if_neg hlen, if_neg fun h => hlen h.2, canonicalOn_error]
  · rw [if_neg h9, if_neg fun h => h9 h.1, canonicalOn_error]

theorem padded_zero : Padded [0x07] (ascii "0") := ⟨3, by decide, by decide +kernel⟩

/-- The byte `00000111` is `0` and three ones. -/
theorem huffman_canonical_zero : CanonicalOn [0x07] (decodeString [0x81, 0x07]) := by
  refine (huffman_canonical (p := [0x07]) (List.cons_ne_nil _ _) (b := 0x81) (by decide)
    (.short (by decide)) []).mpr ?_
  rw [if_pos (by simp)]
  exact fun _ ht => padded_zero.leftover ht

/-- **Other bits are taken as well**: the byte `00000000` is decoded to `0`, whose encoding is
another one, and sixteen ones are decoded to the empty string. -/
theorem huffman_canonical_fails :
    decodeString [0x81, 0x00] = .ok (ascii "0", []) ∧ huffmanEncode (ascii "0") = [0x07] ∧
      ¬ CanonicalOn [0x00] (decodeString [0x81, 0x00]) ∧
      decodeString [0x82, 0xff, 0xff] = .ok ([], []) ∧
      ¬ CanonicalOn [0xff, 0xff] (decodeString [0x82, 0xff, 0xff]) := by
  have hzero : huffmanDecode [0x00] = .ok (ascii "0") :=
    huffmanDecode_codes (t := [false, false, false])
      ⟨_, mem_codeTable 48, by decide +kernel, by decide +kernel⟩ (by decide +kernel)
  have hones : huffmanDecode [0xff, 0xff] = .ok [] :=
    huffmanDecode_codes (stub_ones (k := 16) (by decide)) (by decide +kernel)
  have h1 : decodeString [0x81, 0x00] = .ok (ascii "0", []) := by
    have h := decodeString_huffman (p := [0x00]) (List.cons_ne_nil _ _) (b := 0x81) (by decide)
      (.short (by decide)) []
    rw [if_pos (by simp), if_pos (by simp), hzero] at h
    exact h
  have h2 : decodeString [0x82, 0xff, 0xff] = .ok ([], []) := by
    have h := decodeString_huffman (p := [0xff, 0xff]) (List.cons_ne_nil _ _) (b := 0x82)
      (by decide)
      (.short (by decide)) []
    rw [if_pos (by simp), if_pos (by simp), hones] at h
    exact h
  have henc : huffmanEncode (ascii "0") = [0x07] := eq_huffmanEncode_iff.mpr padded_zero
  refine ⟨h1, henc, fun hc => ?_, h2, fun hc => ?_⟩
  · have h := hc.2 _ _ h1
    rw [henc] at h
    exact absurd h (by decide)
  · have h := hc.2 _ _ h2
    exact absurd h (by decide)

/-! ## The string codec -/

/-- What `bit_buf` and `bit_len` hold when a code is shifted in: the bits not emitted yet and the
code fit into the 64 bits, and the shift keeps them all. -/
def BitAcc.Keeps (a : BitAcc) (c : UInt8) : Prop :=
  a.bitLen + (huffmanSym c).nbits ≤ 64 ∧
    bits (a.bitLen + (huffmanSym c).nbits)
        ((a.bitBuf <<< (huffmanSym c).nbits) % sizeMod ||| (huffmanSym c).value) =
      bits a.bitLen a.bitBuf ++ codePath (huffmanSym c)

/-- **String round trip.** A non-empty string whose body `decode_string` takes is read back, in
whichever form `encode_string` chose, and leaves what follows. In the Huffman form the announced
number of bytes follows; no code is a prefix of another and no node of the tree has both a symbol
and a child; and at each byte the accumulator has emitted or still holds all codes so far, of which
it loses none. -/
theorem string_round_trip {s : Bytes} (h0 : s ≠ []) (hlen : encodedLength s ≤ 65535) :
    (∀ r, decodeString (encodeString s ++ r) = .ok (s, r)) ∧
    (huffmanBytes s < s.length →
      encodeString s = encodeInt (huffmanBytes s) 7 0x80 ++ huffmanEncode s ∧
        (huffmanEncode s).length = huffmanBytes s) ∧
    Trie.PrefixFree codeTable ∧
    (∀ node sym, Trie.symAt huffmanTree node = some sym →
      ∀ bit, Trie.child huffmanTree node bit = none) ∧
    ∀ u c v, s = u ++ c :: v →
      (u.foldl BitAcc.push {}).written = codes u ∧ (u.foldl BitAcc.push {}).Keeps c := by
  refine ⟨decodeString_encodeString h0 hlen, fun hh => ⟨if_pos hh, length_huffmanEncode s⟩,
    prefixFree_codeTable, fun node sym hs bit => prefixFree_codeTable.leaf hs bit, ?_⟩
  intro u c v _
  obtain ⟨h8, hwritten⟩ := BitAcc.foldl_push_spec u (a := {}) (by decide)
  have h30 := (huffmanSym_ok c).2.1
  exact ⟨hwritten, by omega, BitAcc.bits_shift h8 c⟩

/-- A string for which the Huffman form is shorter. -/
theorem string_round_trip_gzip :
    let s := ascii "gzip, deflate"
    encodedLength s ≤ 65535 ∧ huffmanBytes s < s.length ∧
      ∀ r, decodeString (encodeString s ++ r) = .ok (s, r) := by
  intro s
  have hlen : encodedLength s ≤ 65535 := by decide +kernel
  exact ⟨hlen, by decide +kernel, (string_round_trip (by decide) hlen).1⟩

end Uproxy
