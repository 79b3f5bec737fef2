import Uproxy.Hpack.HuffmanTable
import Uproxy.Hpack.Integer

/-!
# HPACK strings (`encode_string`, `HpackDecoder::decode_string`)

A string is its length and its bytes, or the length of its Huffman form and that, whichever is
shorter. The encoder packs codes into a 64-bit accumulator and takes bytes off it; the decoder
walks a tree of nodes, built once from the table, bit by bit.

* `BitAcc.push_spec`: the bits taken off the accumulator and those still in it are the codes pushed
  so far; no bit is lost although the accumulator wraps;
* `bits_huffmanEncode`: the encoder's bytes are the codes and at most seven ones;
* `huffmanDecode_huffmanEncode`: the tree reads them back;
* `decodeString_rawString`, `decodeString_huffmanString`: either form of a non-empty string is read
  back, whatever follows. The empty string is not (`decodeString_encodeString_nil`): its length is
  0 under a 7-bit prefix, which `decode_int` takes for the index 0.
-/

namespace Uproxy

open Lib.Bits Lib

/-! ## Encoding -/

/-- `bit_buf`, `bit_len` and `enc` of `encode_string`. -/
structure BitAcc where
  bitBuf : Nat := 0
  bitLen : Nat := 0
  enc    : Bytes := []
  deriving DecidableEq, Repr

namespace BitAcc

/-- `while (bit_len >= 8)`; the fuel is `bit_len`. -/
def drain : Nat → BitAcc → BitAcc
  | 0, a => a
  | fuel + 1, a =>
    if 8 ≤ a.bitLen then
      drain fuel { a with
        bitLen := a.bitLen - 8
        enc := a.enc ++ [((a.bitBuf >>> (a.bitLen - 8)) &&& 0xff).toUInt8] }
    else a

/-- The loop body of `encode_string`. -/
def push (a : BitAcc) (c : UInt8) : BitAcc :=
  let sym := huffmanSym c
  let len := a.bitLen + sym.nbits
  drain len { a with bitBuf := (a.bitBuf <<< sym.nbits) % sizeMod ||| sym.value, bitLen := len }

/-- The padding with ones behind the loop. -/
def finish (a : BitAcc) : Bytes :=
  if 0 < a.bitLen then
    a.enc ++
      [(((a.bitBuf <<< (8 - a.bitLen)) % sizeMod ||| (2 ^ (8 - a.bitLen) - 1)) &&& 0xff).toUInt8]
  else a.enc

end BitAcc

/-- The Huffman bytes of a string. -/
def huffmanEncode (s : Bytes) : Bytes := (s.foldl BitAcc.push {}).finish

/-- `huffman_bytes`. -/
def huffmanBytes (s : Bytes) : Nat := ((s.map fun c => (huffmanSym c).nbits).sum + 7) / 8

/-- `encode_string`. -/
def encodeString (s : Bytes) : Bytes :=
  if huffmanBytes s < s.length then encodeInt (huffmanBytes s) 7 0x80 ++ huffmanEncode s
  else encodeInt s.length 7 0x00 ++ s

/-! ## Decoding -/

/-- The `static` tree of `decode_string`. -/
def huffmanTree : Trie.Tree Nat := Trie.build codeTable

/-- The loop of `decode_string` over the bits, from a node and with the output so far. -/
def huffmanWalk (tree : Trie.Tree Nat) : Nat → Bytes → List Bool → Result Bytes
  | _, out, [] => .ok out
  | node, out, bit :: bs =>
    match Trie.step tree node bit with
    | none => .error (hpackError "invalid Huffman code")
    | some (_, some sym) =>
      if sym = 256 then .error (hpackError "EOS symbol in Huffman")
      else huffmanWalk tree 0 (out ++ [sym.toUInt8]) bs
    | some (next, none) => huffmanWalk tree next out bs

def huffmanDecode (data : Bytes) : Result Bytes :=
  huffmanWalk huffmanTree 0 [] (data.flatMap byteBits)

/-- `decode_string`. -/
def decodeString (data : Bytes) : Result (Bytes × Bytes) :=
  match data with
  | [] => .error (hpackError "truncated HPACK string")
  | b :: _ =>
    match decodeInt 7 data with
    | .error e => .error e
    | .ok (len, data) =>
      if len > 65535 ∨ len > data.length then .error (hpackError "invalid HPACK string length")
      else if b &&& 0x80 ≠ 0 then
        (huffmanDecode (data.take len)).map fun out => (out, data.drop len)
      else .ok (data.take len, data.drop len)

/-! ## The accumulator -/

namespace BitAcc

/-- The bits pushed so far: those taken off and those still held. -/
def written (a : BitAcc) : List Bool := a.enc.flatMap byteBits ++ bits a.bitLen a.bitBuf

/-- Taking bytes off changes nothing and leaves less than a byte. -/
theorem drain_spec : ∀ {fuel : Nat} (a : BitAcc), a.bitLen ≤ fuel →
    (drain fuel a).bitLen < 8 ∧ (drain fuel a).written = a.written
  | 0, a, h => ⟨by unfold drain; omega, rfl⟩
  | fuel + 1, a, h => by
    unfold drain
    split_ifs with h8
    · obtain ⟨hlt, hw⟩ := drain_spec { a with
        bitLen := a.bitLen - 8
        enc := a.enc ++ [((a.bitBuf >>> (a.bitLen - 8)) &&& 0xff).toUInt8] }
        (show a.bitLen - 8 ≤ fuel by omega)
      refine ⟨hlt, hw.trans ?_⟩
      have hbyte : byteBits ((a.bitBuf >>> (a.bitLen - 8)) &&& 0xff).toUInt8 =
          bits 8 (a.bitBuf >>> (a.bitLen - 8)) := by
        refine (byteBits_ofNat _).trans ?_
        rw [show (0xff : Nat) = 2 ^ 8 - 1 from rfl, Nat.and_two_pow_sub_one_eq_mod]
        exact bits_mod (Nat.le_refl 8) _
      have hsplit := bits_add (a.bitLen - 8) a.bitBuf 8
      rw [show 8 + (a.bitLen - 8) = a.bitLen by omega] at hsplit
      unfold written
      rw [List.flatMap_append, List.flatMap_cons, List.flatMap_nil, List.append_nil, hbyte,
        List.append_assoc, ← hsplit]
    · exact ⟨by omega, rfl⟩

/-- Shifting a code in keeps the bits held. They are at most 7 + 30 with the code, so what `<<`
shifts out of the 64 bits was taken off before. -/
theorem bits_shift {a : BitAcc} (h : a.bitLen < 8) (c : UInt8) :
    bits (a.bitLen + (huffmanSym c).nbits)
        ((a.bitBuf <<< (huffmanSym c).nbits) % sizeMod ||| (huffmanSym c).value) =
      bits a.bitLen a.bitBuf ++ codePath (huffmanSym c) := by
  have hok := huffmanSym_ok c
  have h30 := hok.2.1
  refine Eq.trans (bits_congr fun i hi => ?_) (bits_shiftLeft_or hok.value_lt a.bitLen a.bitBuf)
  rw [Nat.testBit_or, Nat.testBit_or, show sizeMod = 2 ^ 64 from rfl, Nat.testBit_mod_two_pow,
    decide_eq_true (by omega), Bool.true_and]

/-- **Pushing a code appends its bits.** -/
theorem push_spec {a : BitAcc} (h : a.bitLen < 8) (c : UInt8) :
    (a.push c).bitLen < 8 ∧ (a.push c).written = a.written ++ codePath (huffmanSym c) := by
  obtain ⟨hlt, hw⟩ := drain_spec ({ a with
    bitBuf := (a.bitBuf <<< (huffmanSym c).nbits) % sizeMod ||| (huffmanSym c).value
    bitLen := a.bitLen + (huffmanSym c).nbits }) (Nat.le_refl _)
  refine ⟨hlt, hw.trans ?_⟩
  show a.enc.flatMap byteBits ++ bits _ _ = _
  rw [bits_shift h, ← List.append_assoc]
  rfl

theorem foldl_push_spec : ∀ (s : Bytes) {a : BitAcc}, a.bitLen < 8 →
    (s.foldl push a).bitLen < 8 ∧
      (s.foldl push a).written = a.written ++ s.flatMap fun c => codePath (huffmanSym c)
  | [], a, h => ⟨h, (List.append_nil _).symm⟩
  | c :: s, a, h => by
    obtain ⟨h1, h2⟩ := push_spec h c
    obtain ⟨h3, h4⟩ := foldl_push_spec s h1
    refine ⟨h3, h4.trans ?_⟩
    rw [h2, List.flatMap_cons, List.append_assoc]

/-- The last byte is filled up with ones. -/
theorem finish_spec {a : BitAcc} (h : a.bitLen < 8) :
    ∃ k < 8, a.finish.flatMap byteBits = a.written ++ List.replicate k true := by
  unfold finish written
  split_ifs with h0
  · refine ⟨8 - a.bitLen, by omega, ?_⟩
    have hbyte : bits 8 (((a.bitBuf <<< (8 - a.bitLen)) % sizeMod ||| (2 ^ (8 - a.bitLen) - 1)) &&&
        0xff) = bits a.bitLen a.bitBuf ++ List.replicate (8 - a.bitLen) true := by
      have hlt : 2 ^ (8 - a.bitLen) - 1 < 2 ^ (8 - a.bitLen) :=
        Nat.sub_lt (Nat.pow_pos (by decide)) Nat.one_pos
      have happ := bits_shiftLeft_or hlt a.bitLen a.bitBuf
      rw [show a.bitLen + (8 - a.bitLen) = 8 by omega, bits_ones (Nat.le_refl _)] at happ
      rw [show (0xff : Nat) = 2 ^ 8 - 1 from rfl, Nat.and_two_pow_sub_one_eq_mod,
        bits_mod (Nat.le_refl 8), ← happ]
      refine bits_congr fun i hi => ?_
      rw [Nat.testBit_or, Nat.testBit_or, show sizeMod = 2 ^ 64 from rfl, Nat.testBit_mod_two_pow,
        decide_eq_true (by omega), Bool.true_and]
    rw [List.flatMap_append, List.flatMap_cons, List.flatMap_nil, List.append_nil,
      List.append_assoc, ← hbyte]
    exact congrArg _ (byteBits_ofNat _)
  · exact ⟨0, by decide, by rw [show a.bitLen = 0 by omega]; simp [bits]⟩

end BitAcc

/-- **The Huffman form is the codes and a padding of ones.** -/
theorem bits_huffmanEncode (s : Bytes) : ∃ k < 8, (huffmanEncode s).flatMap byteBits =
    (s.flatMap fun c => codePath (huffmanSym c)) ++ List.replicate k true := by
  obtain ⟨h1, h2⟩ := BitAcc.foldl_push_spec s (a := {}) (by decide)
  obtain ⟨k, hk, h3⟩ := BitAcc.finish_spec h1
  exact ⟨k, hk, h3.trans (by rw [h2]; rfl)⟩

/-- The announced length is the number of bytes that follow. -/
theorem length_huffmanEncode (s : Bytes) : (huffmanEncode s).length = huffmanBytes s := by
  obtain ⟨k, hk, h⟩ := bits_huffmanEncode s
  have hlen := congrArg List.length h
  have hcodes : (s.flatMap fun c => codePath (huffmanSym c)).length =
      (s.map fun c => (huffmanSym c).nbits).sum := by
    rw [List.length_flatMap]
    simp [codePath]
  rw [length_flatMap_byteBits, List.length_append, hcodes, List.length_replicate] at hlen
  unfold huffmanBytes
  omega

/-! ## The tree reads the codes back -/

/-- The walk of `decode_string` is a run of the tree's reader, if that meets no end of string. -/
theorem huffmanWalk_eq {tree : Trie.Tree Nat} : ∀ {bs : List Bool} {node next : Nat}
    {syms : List Nat} (out : Bytes), Trie.run tree node bs = some (syms, next) → 256 ∉ syms →
      huffmanWalk tree node out bs = .ok (out ++ syms.map Nat.toUInt8)
  | [], node, next, syms, out, h, _ => by
    cases h
    exact congrArg _ (List.append_nil out).symm
  | bit :: bs, node, next, syms, out, h, heos => by
    rw [Trie.run] at h
    obtain ⟨⟨c, sym⟩, hstep, h⟩ := Option.bind_eq_some_iff.mp h
    obtain ⟨⟨syms', next'⟩, hrest, h⟩ := Option.map_eq_some_iff.mp h
    obtain ⟨rfl, rfl⟩ := Prod.mk.inj h
    unfold huffmanWalk
    rw [hstep]
    cases sym with
    | none => exact huffmanWalk_eq out hrest heos
    | some sym =>
      have hc := Trie.step_sym hstep
      rw [Option.toList_some, List.singleton_append, List.mem_cons, not_or] at heos
      have ih := huffmanWalk_eq (out ++ [sym.toUInt8]) (hc ▸ hrest) heos.2
      simp only [if_neg (Ne.symm heos.1), ih, Option.toList_some, List.singleton_append,
        List.map_cons, List.append_assoc]

/-- **Codes are read back**, whatever proper prefix of a code follows. -/
theorem huffmanDecode_codes {p s : Bytes} {t : List Bool} (ht : Trie.Stub codeTable t)
    (hbits : p.flatMap byteBits = (s.flatMap fun c => codePath (huffmanSym c)) ++ t) :
    huffmanDecode p = .ok s := by
  have hmem : ∀ e ∈ s.map fun c => (codePath (huffmanSym c), c.toNat), e ∈ codeTable := by
    intro e he
    obtain ⟨c, -, rfl⟩ := List.mem_map.mp he
    exact mem_codeTable c
  obtain ⟨next, hrun⟩ := (prefixFree_codeTable.run_eq_some_iff
    (List.ne_nil_of_mem eos_mem_codeTable)).mpr ⟨_, t, hmem, ht, rfl, rfl⟩
  rw [List.flatMap_map, ← hbits, List.map_map] at hrun
  refine (huffmanWalk_eq [] hrun fun hm => ?_).trans ?_
  · obtain ⟨c, -, hc⟩ := List.mem_map.mp hm
    have := UInt8.toNat_lt c
    simp only [Function.comp_apply] at hc
    omega
  · rw [List.nil_append, List.map_map]
    congr 1
    refine (List.map_congr_left fun c _ => ?_).trans (List.map_id s)
    exact UInt8.ofNat_toNat

/-- Fewer than 30 ones are a proper prefix of the end-of-string code. -/
theorem stub_ones {k : Nat} (hk : k < 30) : Trie.Stub codeTable (List.replicate k true) := by
  refine ⟨_, eos_mem_codeTable, ?_, fun he => ?_⟩
  · rw [show 30 = k + (30 - k) by omega, ← List.replicate_append_replicate]
    exact List.prefix_append _ _
  · have := congrArg List.length he
    simp only [List.length_replicate] at this
    omega

/-- **Huffman round trip.** -/
theorem huffmanDecode_huffmanEncode (s : Bytes) : huffmanDecode (huffmanEncode s) = .ok s := by
  obtain ⟨k, hk, hbits⟩ := bits_huffmanEncode s
  exact huffmanDecode_codes (stub_ones (by omega)) hbits

/-! ## Strings -/

/-- The two forms of a string. -/
def rawString (s : Bytes) : Bytes := encodeInt s.length 7 0x00 ++ s

def huffmanString (s : Bytes) : Bytes :=
  encodeInt (huffmanEncode s).length 7 0x80 ++ huffmanEncode s

theorem encodeString_eq (s : Bytes) :
    encodeString s = if huffmanBytes s < s.length then huffmanString s else rawString s := by
  unfold encodeString huffmanString rawString
  rw [length_huffmanEncode]

/-- The length of the bytes behind the announced length. -/
def encodedLength (s : Bytes) : Nat := min (huffmanBytes s) s.length

/-- The first byte of a length under a 7-bit prefix keeps the bit in front of it. -/
theorem huffman_flag (huffman : Bool) : ∀ m ≤ 127,
    (((if huffman then 0x80 else 0x00) ||| m.toUInt8 : UInt8) &&& 0x80 ≠ 0 ↔ huffman = true) := by
  cases huffman <;> decide

/-- `decode_string` on an announced length and that many bytes. -/
theorem decodeString_form {body : Bytes} (h0 : body ≠ []) (hlen : body.length ≤ 65535)
    (huffman : Bool) (r : Bytes) :
    decodeString (encodeInt body.length 7 (if huffman then 0x80 else 0x00) ++ (body ++ r)) =
      if huffman then (huffmanDecode body).map fun out => (out, r) else .ok (body, r) := by
  have hb := huffman_flag huffman (min body.length (2 ^ 7 - 1)) (Nat.min_le_right _ _)
  have hpos : 0 < body.length := List.length_pos_iff.mpr h0
  have hint :
      decodeInt 7 (encodeInt body.length 7 (if huffman then 0x80 else 0x00) ++ (body ++ r)) =
      .ok (body.length, body ++ r) :=
    decodeInt_encodeInt (by decide) (by decide) (by cases huffman <;> decide) (by omega)
      (by omega) _
  rw [encodeInt_eq, List.cons_append] at hint ⊢
  unfold decodeString
  simp only [hint]
  rw [if_neg (by rw [List.length_append]; omega), List.take_left, List.drop_left]
  simp only [hb]

theorem huffmanEncode_ne_nil {s : Bytes} (h : s ≠ []) : huffmanEncode s ≠ [] := by
  intro he
  obtain ⟨k, -, hbits⟩ := bits_huffmanEncode s
  obtain ⟨c, t, rfl⟩ := List.exists_cons_of_ne_nil h
  rw [he] at hbits
  have hlen := congrArg List.length hbits
  rw [List.flatMap_cons] at hlen
  simp only [List.flatMap_nil, List.length_nil, List.length_append, codePath, length_bits] at hlen
  have := (huffmanSym_ok c).1
  omega

/-- **The raw form is read back.** -/
theorem decodeString_rawString {s : Bytes} (h0 : s ≠ []) (hlen : s.length ≤ 65535) (r : Bytes) :
    decodeString (rawString s ++ r) = .ok (s, r) := by
  unfold rawString
  rw [List.append_assoc]
  exact decodeString_form h0 hlen false r

/-- **The Huffman form is read back.** -/
theorem decodeString_huffmanString {s : Bytes} (h0 : s ≠ [])
    (hlen : (huffmanEncode s).length ≤ 65535) (r : Bytes) :
    decodeString (huffmanString s ++ r) = .ok (s, r) := by
  unfold huffmanString
  rw [List.append_assoc]
  refine (decodeString_form (huffmanEncode_ne_nil h0) hlen true r).trans ?_
  rw [if_pos rfl, huffmanDecode_huffmanEncode]
  rfl

/-- The encodings of a string that fit the decoder's limit. -/
inductive StringForm (s : Bytes) : Bytes → Prop where
  | raw (h : s.length ≤ 65535) : StringForm s (rawString s)
  | huffman (h : (huffmanEncode s).length ≤ 65535) : StringForm s (huffmanString s)

theorem StringForm.decodeString {s str : Bytes} (h : StringForm s str) (h0 : s ≠ []) (r : Bytes) :
    decodeString (str ++ r) = .ok (s, r) := by
  cases h with
  | raw h => exact decodeString_rawString h0 h r
  | huffman h => exact decodeString_huffmanString h0 h r

theorem decodeString_encodeString {s : Bytes} (h0 : s ≠ []) (hlen : encodedLength s ≤ 65535)
    (r : Bytes) : decodeString (encodeString s ++ r) = .ok (s, r) := by
  unfold encodedLength at hlen
  rw [encodeString_eq]
  split_ifs with h
  · exact decodeString_huffmanString h0 (by rw [length_huffmanEncode]; omega) r
  · exact decodeString_rawString h0 (by omega) r

/-- The empty string is refused. -/
theorem decodeString_encodeString_nil (r : Bytes) :
    decodeString (encodeString [] ++ r) = .error (hpackError "invalid index 0") := rfl

end Uproxy
