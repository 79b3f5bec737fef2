import Uproxy.Hpack.Codec
import Uproxy.Lib.Run
import Mathlib.Data.List.TakeWhile

/-!
# Encoder and decoder keep the same table

`HpackEncoder::encode` inserts the headers it does not send as sensitive, in its own loop;
`HpackDecoder::decode` inserts the literals it reads with incremental indexing. `insertAll` is what
both do to a table on a list of headers. The encoder accepts more than the decoder does (empty and
very long strings), so the statements here are about blocks that were decoded.

* `encode_ok`: an encoder that succeeds has written the headers and inserted them;
* `encode_table`: an encoder that fails has inserted the headers in front of the refused one;
* `decodeString_encodeString_ok`: a string that is read at all is read as it was written;
* `decode_encoded`: a block that is decoded yields the headers sent and inserts them;
* **`hpack_tables_agree`**: encoder and decoder have the same table after every sequence of blocks
  and changes of the maximum.
-/

namespace Uproxy

open Lib.Run

/-- A table behind a list of headers sent. -/
def insertAll (t : HpackTable) (hs : List HpackHeader) : HpackTable :=
  hs.foldl (fun t h => if isSensitive h then t else t.addToDynamic h) t

/-! ## One block -/

/-- **An encoder that succeeds** has written all headers, and inserted all but the sensitive. -/
theorem encode_ok : ∀ {hs : List HpackHeader} {t t' : HpackEncoder} {out out' : Bytes},
    encode t hs out = (.ok (), t', out') →
      t' = insertAll t hs ∧ out' = out ++ hs.flatMap encodeHeader
  | [], t, t', out, out', h => by
    cases h
    exact ⟨rfl, (List.append_nil out).symm⟩
  | h :: hs, t, t', out, out', he => by
    unfold encode at he
    by_cases hup : hasUppercase h.name = true
    · rw [if_pos hup] at he
      cases he
    · rw [if_neg hup] at he
      obtain ⟨ht, hout⟩ := encode_ok he
      exact ⟨ht, by rw [hout, List.flatMap_cons, List.append_assoc]⟩

/-- The headers `encode` writes: those in front of the first name in upper case. -/
def encodedHeaders (headers : List HpackHeader) : List HpackHeader :=
  headers.takeWhile fun h => !hasUppercase h.name

/-- What `encode` leaves in the table, whatever it returns. -/
theorem encode_table : ∀ (hs : List HpackHeader) (t : HpackEncoder) (out : Bytes),
    (encode t hs out).2.1 = insertAll t (encodedHeaders hs)
  | [], _, _ => rfl
  | h :: hs, t, out => by
    unfold encode encodedHeaders
    by_cases hup : hasUppercase h.name = true
    · rw [if_pos hup, List.takeWhile_cons_of_neg (by simp [hup])]
      rfl
    · rw [if_neg hup, List.takeWhile_cons_of_pos (by simp [hup])]
      exact encode_table hs _ _

theorem encodedHeaders_of_lower {hs : List HpackHeader}
    (h : ∀ x ∈ hs, hasUppercase x.name = false) : encodedHeaders hs = hs :=
  List.takeWhile_eq_self_iff.mpr fun x hx => by rw [h x hx]; rfl

/-- `decode_string` on a length above its limit. -/
theorem decodeString_long {body : Bytes} (hlen : 65535 < body.length) (huffman : Bool)
    (r : Bytes) : ∃ e, decodeString
      (encodeInt body.length 7 (if huffman then 0x80 else 0x00) ++ (body ++ r)) = .error e := by
  have hlead : (if huffman then 0x80 else 0x00 : UInt8).toNat % 2 ^ 7 = 0 := by
    cases huffman <;> decide
  by_cases h63 : body.length < 2 ^ 7 - 1 + 2 ^ 63
  · have hint := @decodeInt_encodeInt 7 body.length _ (by decide) (by decide) hlead (by omega) h63
      (body ++ r)
    rw [encodeInt_eq, List.cons_append] at hint ⊢
    unfold decodeString
    simp only [hint]
    rw [if_pos (Or.inl hlen)]
    exact ⟨_, rfl⟩
  · have hint := @decodeInt_encodeInt_large 7 body.length _ (by decide) (by decide) hlead
      (Nat.le_of_not_lt h63) (body ++ r)
    rw [encodeInt_eq, List.cons_append] at hint ⊢
    unfold decodeString
    simp only [hint]
    exact ⟨_, rfl⟩

/-- **A string that is read at all is read as it was written.** -/
theorem decodeString_encodeString_ok {s s' r r' : Bytes}
    (h : decodeString (encodeString s ++ r) = .ok (s', r')) : s' = s ∧ r' = r := by
  by_cases h0 : s = []
  · rw [h0, decodeString_encodeString_nil] at h
    cases h
  by_cases hlen : encodedLength s ≤ 65535
  · rw [decodeString_encodeString h0 hlen] at h
    cases h
    exact ⟨rfl, rfl⟩
  · unfold encodedLength at hlen
    have herr : ∃ e, decodeString (encodeString s ++ r) = .error e := by
      rw [encodeString_eq]
      split_ifs
      · rw [huffmanString, List.append_assoc]
        exact decodeString_long (by rw [length_huffmanEncode]; omega) true r
      · rw [rawString, List.append_assoc]
        exact decodeString_long (by omega) false r
    obtain ⟨e, he⟩ := herr
    rw [he] at h
    cases h

/-- A header that is read at all is inserted as the encoder inserted it. -/
theorem decodeStep_encodeHeader_ok {t t' : HpackDecoder} {h : HpackHeader} {r r' : Bytes}
    {x : Option HpackHeader} (hd : decodeStep t (encodeHeader h ++ r) = .ok (t', x, r')) :
    t' = (if isSensitive h then t else t.addToDynamic h) ∧ x = some (sent h) ∧ r' = r := by
  rw [encodeHeader_eq, List.cons_append, List.append_assoc, decodeStep_newName] at hd
  rcases hn : decodeString (encodeString h.name ++ (encodeString h.value ++ r)) with e | ⟨name, d⟩
  · rw [hn] at hd
    cases hd
  · obtain ⟨rfl, rfl⟩ := decodeString_encodeString_ok hn
    rw [hn] at hd
    rcases hv : decodeString (encodeString h.value ++ r) with e | ⟨value, d'⟩
    · simp only [hv] at hd
      cases hd
    · obtain ⟨rfl, rfl⟩ := decodeString_encodeString_ok hv
      simp only [hv] at hd
      split_ifs at hd with hup hs
      · cases hd
        rw [if_pos hs]
        exact ⟨rfl, by rw [sent, hs], rfl⟩
      · cases hd
        -- a header that is not sent as sensitive is not marked so
        have hplain : h = ⟨h.name, h.value, false⟩ := by
          have hflag : h.sensitive = false := by
            by_contra hflag
            exact hs (by simp [isSensitive, hflag])
          rw [← hflag]
        rw [if_neg hs, ← hplain, sent, Bool.eq_false_iff.mpr hs, ← hplain]
        exact ⟨rfl, rfl, rfl⟩

/-- **A block that is decoded** yields the headers that were sent, and inserts all but the
sensitive. -/
theorem decode_encoded : ∀ {hs : List HpackHeader} {t t' : HpackDecoder}
    {out out' : List HpackHeader}, decode t (hs.flatMap encodeHeader) out = (.ok (), t', out') →
      t' = insertAll t hs ∧ out' = out ++ hs.map sent
  | [], t, t', out, out', h => by
    cases h
    exact ⟨rfl, (List.append_nil out).symm⟩
  | h :: hs, t, t', out, out', hd => by
    rw [List.flatMap_cons,
      decode_eq (List.append_ne_nil_of_left_ne_nil (encodeHeader_ne_nil h) _)] at hd
    rcases hstep : decodeStep t (encodeHeader h ++ hs.flatMap encodeHeader) with e | ⟨t₁, x, r⟩
    · rw [hstep] at hd
      cases hd
    · obtain ⟨rfl, rfl, rfl⟩ := decodeStep_encodeHeader_ok hstep
      rw [hstep] at hd
      obtain ⟨ht, hout⟩ := decode_encoded hd
      exact ⟨ht, by rw [hout, List.map_cons, Option.toList_some, List.append_assoc]; rfl⟩

/-! ## Sequences of blocks -/

/-- What is done to an encoder and its decoder. -/
inductive HpackOp where
  /-- The headers are encoded into a block, which is decoded. -/
  | block (headers : List HpackHeader)
  /-- `set_max_table_size` on both sides. -/
  | setMaxTableSize (n : Nat)
  deriving DecidableEq, Repr

/-- One operation; `none` is an error of `encode` or `decode`. -/
def exchange : HpackEncoder × HpackDecoder → HpackOp → Option (HpackEncoder × HpackDecoder)
  | (enc, dec), .setMaxTableSize n => some (enc.setMaxTableSize n, dec.setMaxTableSize n)
  | (enc, dec), .block headers =>
    match encode enc headers [] with
    | (.error _, _, _) => none
    | (.ok (), enc', bytes) =>
      match decode dec bytes [] with
      | (.error _, _, _) => none
      | (.ok (), dec', _) => some (enc', dec')

/-- What was encoded and decoded without an error does the same to both tables. -/
theorem exchange_agree {enc enc' : HpackEncoder} {dec dec' : HpackDecoder} {op : HpackOp}
    (h : dec = enc) (he : exchange (enc, dec) op = some (enc', dec')) : dec' = enc' := by
  cases op with
  | setMaxTableSize n =>
    cases he
    rw [h]
  | block headers =>
    unfold exchange at he
    rcases henc : encode enc headers [] with ⟨e | ⟨⟩, t, bytes⟩
    · simp only [henc] at he
      cases he
    · obtain ⟨ht, hbytes⟩ := encode_ok henc
      simp only [henc, hbytes, List.nil_append] at he
      rcases hdec : decode dec (headers.flatMap encodeHeader) [] with ⟨e | ⟨⟩, t', out⟩
      · simp only [hdec] at he
        cases he
      · simp only [hdec] at he
        cases he
        rw [(decode_encoded hdec).1, ht, h]

/-- **The tables of encoder and decoder agree.** Whatever blocks are encoded by one encoder and
decoded by one decoder, and whatever maxima are set on both sides in between, both have the same
entries in the same order, the same size and the same maximum, as long as no call fails. -/
theorem hpack_tables_agree (t : HpackTable) (ops : List HpackOp) (enc : HpackEncoder)
    (dec : HpackDecoder) (h : runM exchange (t, t) ops = some (enc, dec)) :
    dec.dynamicTable = enc.dynamicTable ∧ dec.tableSize = enc.tableSize ∧
      dec.maxTableSize = enc.maxTableSize := by
  have hsame : dec = enc := runM_inv (P := fun s : HpackEncoder × HpackDecoder => s.2 = s.1)
    (fun _ _ _ hs he => exchange_agree hs he) ops rfl h
  rw [hsame]
  exact ⟨rfl, rfl, rfl⟩

/-- A plain and a sensitive header, a smaller table, and a header that evicts the first. -/
def sampleOps : List HpackOp :=
  [.block [⟨ascii "a", ascii "b", false⟩, ⟨ascii "c", ascii "d", true⟩], .setMaxTableSize 40,
    .block [⟨ascii "x", ascii "y", false⟩]]

/-- One entry is left on both sides. -/
theorem hpack_tables_agree_evicted :
    ∃ enc dec, runM exchange ({}, {}) sampleOps = some (enc, dec) ∧
      enc.dynamicTable = [⟨ascii "x", ascii "y", false⟩] ∧
      dec.dynamicTable = enc.dynamicTable := by
  have hrun : runM exchange ({}, {}) sampleOps =
      some (⟨[⟨ascii "x", ascii "y", false⟩], 34, 40⟩,
        ⟨[⟨ascii "x", ascii "y", false⟩], 34, 40⟩) := by decide +kernel
  exact ⟨_, _, hrun, rfl, (hpack_tables_agree {} sampleOps _ _ hrun).1⟩

end Uproxy
