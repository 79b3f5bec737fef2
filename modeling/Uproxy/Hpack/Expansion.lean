import Uproxy.Hpack.Accounting
import Uproxy.Hpack.Canonical

/-!
# How much a header block expands to

A byte of a header block may stand for a whole entry of the table, and `HpackDecoder::decode` sets
no limit to the headers it puts out: what bounds them is the size of the table, which the other side
cannot raise above the limit that was set (`DecoderRun`), and the length of the block. An entry that
fits the table has 32 bytes less than its limit, and a Huffman code at least five bits.

* `decodeString_size`: a string of the block;
* `lookup_size`: an entry of the tables;
* `decodeStep_size`: one representation;
* **`decode_expansion`**: the names and values of a block;
* **`decode_expansion_reached`**: a table with one entry of the greatest size gives it out once for
  each byte of a block.
-/

namespace Uproxy

open HpackTable Lib.Bits

/-- The bytes of a header. -/
def headerBytes (h : HpackHeader) : Nat := h.name.length + h.value.length

/-- The bytes of some headers. -/
def headersBytes (hs : List HpackHeader) : Nat := (hs.map headerBytes).sum

/-- The longest entry of the static table has 28 bytes, and one that fits a table within a limit has
32 less than the limit. -/
def longestEntry (limit : Nat) : Nat := max 28 (limit - 32)

/-! ## Strings -/

theorem five_le_nbits (c : UInt8) : 5 ≤ (codePath (huffmanSym c)).length := by
  refine forall_byte (P := fun c => 5 ≤ (codePath (huffmanSym c)).length) ?_ c
  decide +kernel

theorem length_codes (s : Bytes) : 5 * s.length ≤ (codes s).length := by
  induction s with
  | nil => exact Nat.le_refl _
  | cons c s ih =>
    have := five_le_nbits c
    simp only [codes, List.flatMap_cons, List.length_append, List.length_cons] at ih ⊢
    omega

/-- A Huffman string has at most eight characters for five bytes. -/
theorem huffmanDecode_size {p s : Bytes} (h : huffmanDecode p = .ok s) :
    5 * s.length ≤ 8 * p.length := by
  obtain ⟨t, -, hbits⟩ := huffmanDecode_eq_ok.mp h
  have hlen := congrArg List.length hbits
  rw [length_flatMap_byteBits, List.length_append] at hlen
  have := length_codes s
  omega

theorem decodeString_size {data s rest : Bytes} (h : decodeString data = .ok (s, rest)) :
    5 * s.length + 8 * rest.length ≤ 8 * data.length := by
  unfold decodeString at h
  cases data with
  | nil => cases h
  | cons b data =>
    cases hi : decodeInt 7 (b :: data) with
    | error e => rw [hi] at h; cases h
    | ok r =>
      have hlt := decodeInt_length (by decide) (by decide) hi
      rw [hi] at h
      simp only at h
      split_ifs at h with hbad hhuff
      · cases hd : huffmanDecode (r.2.take r.1) with
        | error e => rw [hd] at h; cases h
        | ok out =>
          rw [hd] at h
          obtain ⟨rfl, rfl⟩ := Prod.mk.inj (Except.ok.inj h)
          have hsize := huffmanDecode_size hd
          rw [List.length_take] at hsize
          rw [List.length_drop]
          omega
      · obtain ⟨rfl, rfl⟩ := Prod.mk.inj (Except.ok.inj h)
        rw [List.length_take, List.length_drop]
        omega

/-! ## Entries -/

theorem static_size : ∀ h ∈ staticTable, headerBytes h ≤ 28 := by decide +kernel

theorem entrySize_le_total {h : HpackHeader} {hs : List HpackHeader} (hm : h ∈ hs) :
    entrySize h ≤ total hs := by
  obtain ⟨a, b, rfl⟩ := List.append_of_mem hm
  simp only [total, List.map_append, List.map_cons, List.sum_append, List.sum_cons]
  omega

theorem DecoderRun.sound {limit : Nat} {t : HpackDecoder} (h : DecoderRun limit t) : t.Sound := by
  induction h with
  | new => exact sound_init
  | setMaxTableSize h n ih => exact ih.setMaxTableSize n
  | @turn limit t t' data e rest h hs ih =>
    cases data with
    | nil =>
      cases hs
      exact ih
    | cons b data =>
      rcases decodeStep_cases hs with ⟨idx, x, -, -, rfl, -⟩ | ⟨n, -, -, rfl, -⟩ | ⟨hl, -⟩
      · exact ih
      · exact ih.setMaxTableSize n
      · obtain ⟨idx, d₁, name, d₂, value, -, -, -, -, -, rfl⟩ := decodeLiteral_ok_iff.mp hl
        split_ifs
        · exact ih.addToDynamic _
        · exact ih

theorem lookup_size {limit : Nat} {t : HpackDecoder} (h : DecoderRun limit t) {i : Nat}
    {e : HpackHeader} (he : t.lookup i = some e) : headerBytes e ≤ longestEntry limit := by
  unfold HpackTable.lookup at he
  split_ifs at he
  · have := static_size e (List.mem_of_getElem? he)
    exact this.trans (Nat.le_max_left _ _)
  · simp only at he
    split_ifs at he
    have hle := entrySize_le_total (List.mem_of_getElem? he)
    have hmax := h.maxTableSize_le
    obtain ⟨hs, hm⟩ := h.sound
    refine le_trans ?_ (Nat.le_max_right _ _)
    unfold entrySize at hle
    unfold headerBytes
    omega

/-! ## Blocks -/

theorem decodeStep_size {limit : Nat} {t t' : HpackDecoder} (h : DecoderRun limit t)
    {data rest : Bytes} {e : Option HpackHeader} (hne : data ≠ [])
    (hs : decodeStep t data = .ok (t', e, rest)) :
    5 * headersBytes e.toList + 8 * rest.length ≤ 5 * longestEntry limit + 8 * data.length := by
  obtain ⟨b, data, rfl⟩ := List.exists_cons_of_ne_nil hne
  rcases decodeStep_cases hs with ⟨idx, x, hi, hl, rfl, rfl, -⟩ | ⟨n, hi, -, rfl, rfl, -⟩ | ⟨hl, -⟩
  · have := lookup_size h hl
    have := decodeInt_length (by decide) (by decide) hi
    simp only [headersBytes, Option.toList_some, List.map_cons, List.map_nil, List.sum_cons,
      List.sum_nil]
    omega
  · have := decodeInt_length (by decide) (by decide) hi
    simp only [headersBytes, Option.toList_none, List.map_nil, List.sum_nil]
    omega
  · obtain ⟨idx, d₁, name, d₂, value, hi, hn, hv, -, rfl, -⟩ := decodeLiteral_ok_iff.mp hl
    have h1 : d₁.length < (b :: data).length := by
      split_ifs at hi
      · exact decodeInt_length (by decide) (by decide) hi
      · exact decodeInt_length (by decide) (by decide) hi
    have hvalue := decodeString_size hv
    have hname : 5 * name.length + 8 * d₂.length ≤ 5 * longestEntry limit + 8 * d₁.length := by
      unfold decodeName at hn
      split_ifs at hn
      · have := decodeString_size hn
        omega
      · cases hx : t.lookup idx with
        | none => rw [hx] at hn; cases hn
        | some x =>
          rw [hx] at hn
          obtain ⟨rfl, rfl⟩ := Prod.mk.inj (Except.ok.inj hn)
          have := lookup_size h hx
          unfold headerBytes at this
          omega
    simp only [headersBytes, headerBytes, Option.toList_some, List.map_cons, List.map_nil,
      List.sum_cons, List.sum_nil]
    omega

theorem headersBytes_append (a b : List HpackHeader) :
    headersBytes (a ++ b) = headersBytes a + headersBytes b := by
  simp [headersBytes]

theorem decodeLoop_size {limit : Nat} : ∀ (fuel : Nat) {t : HpackDecoder} (data : Bytes)
    (out : List HpackHeader), DecoderRun limit t →
      5 * headersBytes (decodeLoop fuel t data out).2.2 ≤
        5 * headersBytes out + (5 * longestEntry limit + 8) * data.length
  | 0, _, _, _, _ => Nat.le_add_right _ _
  | fuel + 1, t, data, out, h => by
    unfold decodeLoop
    split_ifs with hne
    · exact Nat.le_add_right _ _
    · rcases hs : decodeStep t data with err | ⟨t', e, rest⟩
      · exact Nat.le_add_right _ _
      · have ih := decodeLoop_size fuel rest (out ++ e.toList) (h.turn hs)
        have hstep := decodeStep_size h hne hs
        have hmul : 5 * longestEntry limit * (rest.length + 1) ≤
            5 * longestEntry limit * data.length :=
          Nat.mul_le_mul_left _ (decodeStep_length hne hs)
        rw [headersBytes_append] at ih
        rw [Nat.add_mul] at ih ⊢
        rw [Nat.mul_succ] at hmul
        simp only
        omega

/-- **What a header block expands to**, however the table was filled. -/
theorem decode_expansion {limit : Nat} {t : HpackDecoder} (h : DecoderRun limit t) (data : Bytes) :
    5 * headersBytes (decode t data []).2.2 ≤ (5 * longestEntry limit + 8) * data.length := by
  have hsize := decodeLoop_size data.length data [] h
  rw [show headersBytes [] = 0 from rfl, Nat.mul_zero, Nat.zero_add] at hsize
  exact hsize

/-- Two indexed fields, in a new decoder. -/
theorem decode_expansion_new :
    (decode {} [0x82, 0x84] []).2.2 = [⟨ascii ":method", ascii "GET", false⟩,
        ⟨ascii ":path", ascii "/", false⟩] ∧
      5 * headersBytes (decode {} [0x82, 0x84] []).2.2 ≤ 20328 * 2 :=
  ⟨by decide +kernel, decode_expansion .new [0x82, 0x84]⟩

/-! ## The bound is reached -/

/-- The byte `0xbf` gives out the newest entry. -/
theorem decodeStep_newest {t : HpackDecoder} {h : HpackHeader} (hl : t.lookup 63 = some h)
    (data : Bytes) : decodeStep t (0xbf :: data) = .ok (t, some h, data) := by
  have hint : decodeInt 7 (0xbf :: data) = .ok (63, data) := rfl
  show decodeIndexed t (0xbf :: data) = _
  unfold decodeIndexed
  rw [hint]
  simp only [hl]

theorem decodeLoop_repeated {t : HpackDecoder} {h : HpackHeader} (hl : t.lookup 63 = some h) :
    ∀ (n : Nat) (out : List HpackHeader),
      decodeLoop n t (List.replicate n 0xbf) out = (.ok (), t, out ++ List.replicate n h)
  | 0, out => by rw [decodeLoop, List.replicate_zero, List.append_nil]
  | n + 1, out => by
    rw [decodeLoop, List.replicate_succ, if_neg (List.cons_ne_nil _ _), decodeStep_newest hl]
    simp only [Option.toList_some]
    rw [decodeLoop_repeated hl n, List.replicate_succ, List.append_assoc, List.singleton_append]

section Greatest

variable {v : Bytes} (hv : v.length = 4063)

include hv

/-- A header of the greatest size is one turn of a new decoder. -/
theorem decodeStep_greatest :
    decodeStep {} (encodeHeader ⟨ascii "a", v, false⟩) =
      .ok (({} : HpackTable).addToDynamic ⟨ascii "a", v, false⟩,
        some ⟨ascii "a", v, false⟩, []) := by
  have hne : v ≠ [] := fun h => by
    rw [h] at hv
    cases hv
  have hname : decodeString (encodeString (ascii "a") ++ encodeString v) =
      .ok (ascii "a", encodeString v) :=
    decodeString_encodeString (by decide) (by decide +kernel) _
  have hvalue := decodeString_encodeString hne
    ((Nat.min_le_right _ _).trans (by omega : v.length ≤ 65535)) []
  rw [List.append_nil] at hvalue
  have hstep := decodeStep_newName {} false (encodeString (ascii "a") ++ encodeString v)
  have hup : hasUppercase (ascii "a") = false := by decide
  have hsens : isSensitive ⟨ascii "a", v, false⟩ = false := rfl
  rw [encodeHeader_eq, hsens]
  simp only [hname, hvalue, hup, Bool.false_eq_true, if_false] at hstep ⊢
  exact hstep

/-- It fills the table. -/
theorem lookup_greatest :
    (({} : HpackTable).addToDynamic ⟨ascii "a", v, false⟩).lookup 63 =
      some ⟨ascii "a", v, false⟩ := by
  have hsize : entrySize ⟨ascii "a", v, false⟩ = 4096 := by
    show (ascii "a").length + v.length + 32 = 4096
    rw [hv]
    rfl
  have htable : ({} : HpackTable).addToDynamic ⟨ascii "a", v, false⟩ =
      ⟨[⟨ascii "a", v, false⟩], 4096, 4096⟩ := by
    unfold HpackTable.addToDynamic HpackTable.evict
    simp [HpackTable.evictLoop, hsize]
  rw [htable]
  rfl

end Greatest

/-- **The bound is reached** but for its last part: behind a header of 4064 bytes, which fills the
table, every byte of a block gives out 4064 bytes. -/
theorem decode_expansion_reached (n : Nat) :
    ∃ t, DecoderRun 4096 t ∧
      headersBytes (decode t (List.replicate n 0xbf) []).2.2 = longestEntry 4096 * n := by
  obtain ⟨v, hv⟩ : ∃ v : Bytes, v.length = 4063 := ⟨_, List.length_replicate (a := 97)⟩
  refine ⟨_, DecoderRun.new.turn (decodeStep_greatest hv), ?_⟩
  have hbytes : headerBytes ⟨ascii "a", v, false⟩ = longestEntry 4096 := by
    show (ascii "a").length + v.length = _
    rw [hv]
    rfl
  have hdecode := decodeLoop_repeated (lookup_greatest hv) n []
  unfold decode
  rw [List.length_replicate, hdecode, List.nil_append, headersBytes, List.map_replicate, hbytes]
  simp [Nat.mul_comm]

end Uproxy
