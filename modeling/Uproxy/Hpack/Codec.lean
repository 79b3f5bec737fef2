import Uproxy.Hpack.Strings
import Uproxy.Hpack.Table

/-!
# The HPACK encoder and decoder

`HpackEncoder::encode` writes every header as a literal with a new name, never indexed if it is
sensitive and with incremental indexing otherwise. `HpackDecoder::decode` is a loop over
representations; `decodeStep` is one turn of it. A turn that fails leaves the tables as they were,
and the headers and insertions of the turns before it stay (`decodeLoop`). The encoder's buffer is
the queue of bytes a ring buffer stands for; `Ring.encode_spec` is the encoder on the ring buffer.

* `decodeStep_length`: a turn consumes input, so the fuel of the loop is never used up
  (`decode_eq`);
* `decodeLiteral_ok_iff`: a literal goes by its name, its value and the case of the name;
* `decodeStep_encodeHeader`: one encoded header is one turn of the decoder;
* `hpack_round_trip`: a header list survives exactly when no name and no value in it is empty.
-/

namespace Uproxy

abbrev HpackEncoder := HpackTable

abbrev HpackDecoder := HpackTable

/-! ## The code -/

/-- `sensitive` of `HpackEncoder::encode`. -/
def isSensitive (h : HpackHeader) : Bool :=
  h.sensitive || h.name == ascii "authorization" || h.name == ascii "cookie" ||
    h.name == ascii "proxy-authorization"

/-- The bytes of one header. -/
def encodeHeader (h : HpackHeader) : Bytes :=
  encodeInt 0 (if isSensitive h then 4 else 6) (if isSensitive h then 0x10 else 0x40) ++
    (encodeString h.name ++ encodeString h.value)

/-- `HpackEncoder::encode`: the result, the table and the buffer behind the call. -/
def encode (t : HpackEncoder) : List HpackHeader → Bytes → Result Unit × HpackEncoder × Bytes
  | [], out => (.ok (), t, out)
  | h :: hs, out =>
    if hasUppercase h.name then (.error (hpackError "uppercase HTTP/2 header name"), t, out)
    else encode (if isSensitive h then t else t.addToDynamic h) hs (out ++ encodeHeader h)

/-- What a representation does: the table, the header emitted and the input left. -/
abbrev StepResult := Result (HpackDecoder × Option HpackHeader × Bytes)

def decodeIndexed (t : HpackDecoder) (data : Bytes) : StepResult :=
  match decodeInt 7 data with
  | .error e => .error e
  | .ok (idx, data) =>
    match t.lookup idx with
    | none => .error (hpackError "invalid HPACK index")
    | some h => .ok (t, some h, data)

def decodeSizeUpdate (t : HpackDecoder) (data : Bytes) : StepResult :=
  match decodeInt 5 data with
  | .error e => .error e
  | .ok (size, data) =>
    if size > t.maxTableSize then .error (hpackError "dynamic table size update too large")
    else .ok (t.setMaxTableSize size, none, data)

/-- The name of a literal: spelled out, or that of a table entry. -/
def decodeName (t : HpackDecoder) (nameIdx : Nat) (data : Bytes) : Result (Bytes × Bytes) :=
  if nameIdx = 0 then decodeString data
  else
    match t.lookup nameIdx with
    | none => .error (hpackError "invalid HPACK name index")
    | some h => .ok (h.name, data)

def decodeLiteral (t : HpackDecoder) (indexed neverIndexed : Bool) (data : Bytes) : StepResult :=
  match decodeInt (if indexed then 6 else 4) data with
  | .error e => .error e
  | .ok (nameIdx, data) =>
    match decodeName t nameIdx data with
    | .error e => .error e
    | .ok (name, data) =>
      match decodeString data with
      | .error e => .error e
      | .ok (value, data) =>
        if hasUppercase name then .error (hpackError "uppercase HTTP/2 header name")
        else
          let header : HpackHeader := ⟨name, value, neverIndexed⟩
          .ok (if indexed then t.addToDynamic header else t, some header, data)

/-- The body of the loop of `HpackDecoder::decode`. -/
def decodeStep (t : HpackDecoder) (data : Bytes) : StepResult :=
  match data with
  | [] => .ok (t, none, [])
  | b :: _ =>
    if b &&& 0x80 ≠ 0 then decodeIndexed t data
    else if b &&& 0x20 ≠ 0 then decodeSizeUpdate t data
    else decodeLiteral t (b &&& 0x40 ≠ 0) (b &&& 0x10 ≠ 0) data

def decodeLoop : Nat → HpackDecoder → Bytes → List HpackHeader →
    Result Unit × HpackDecoder × List HpackHeader
  | 0, t, _, out => (.ok (), t, out)
  | fuel + 1, t, data, out =>
    if data = [] then (.ok (), t, out)
    else
      match decodeStep t data with
      | .error e => (.error e, t, out)
      | .ok (t', h, rest) => decodeLoop fuel t' rest (out ++ h.toList)

/-- `HpackDecoder::decode`: the result, the table and the headers behind the call. The fuel is the
input, which every turn shortens. -/
def decode (t : HpackDecoder) (data : Bytes) (out : List HpackHeader) :
    Result Unit × HpackDecoder × List HpackHeader :=
  decodeLoop data.length t data out

/-! ## Progress -/

theorem decodeInt_length {n : Nat} (h0 : 0 < n) (h8 : n ≤ 8) {data rest : Bytes} {v : Nat}
    (h : decodeInt n data = .ok (v, rest)) : rest.length < data.length := by
  cases data with
  | nil => cases h
  | cons b data =>
    obtain ⟨gs, rfl, -⟩ := decodeInt_sound h0 h8 h
    rw [List.length_cons, List.length_append]
    omega

theorem decodeString_length {data s rest : Bytes} (h : decodeString data = .ok (s, rest)) :
    rest.length < data.length := by
  unfold decodeString at h
  cases data with
  | nil => cases h
  | cons b data =>
    simp only at h
    cases hi : decodeInt 7 (b :: data) with
    | error e => rw [hi] at h; cases h
    | ok r =>
      have hlt := decodeInt_length (by decide) (by decide) hi
      rw [hi] at h
      simp only at h
      have hrest : rest = r.2.drop r.1 := by
        split_ifs at h
        · cases hd : huffmanDecode (r.2.take r.1) with
          | error e => rw [hd] at h; cases h
          | ok out => rw [hd] at h; exact (Prod.mk.inj (Except.ok.inj h)).2.symm
        · exact (Prod.mk.inj (Except.ok.inj h)).2.symm
      rw [hrest, List.length_drop]
      omega

theorem decodeName_length {t : HpackDecoder} {idx : Nat} {data name rest : Bytes}
    (h : decodeName t idx data = .ok (name, rest)) : rest.length ≤ data.length := by
  unfold decodeName at h
  split_ifs at h
  · exact Nat.le_of_lt (decodeString_length h)
  · cases hl : t.lookup idx with
    | none => rw [hl] at h; cases h
    | some e =>
      rw [hl] at h
      rw [(Prod.mk.inj (Except.ok.inj h)).2]

/-- What a literal that is accepted holds, and what it does. -/
theorem decodeLiteral_ok_iff {t t' : HpackDecoder} {indexed neverIndexed : Bool} {data rest : Bytes}
    {e : Option HpackHeader} :
    decodeLiteral t indexed neverIndexed data = .ok (t', e, rest) ↔
      ∃ idx d₁ name d₂ value, decodeInt (if indexed then 6 else 4) data = .ok (idx, d₁) ∧
        decodeName t idx d₁ = .ok (name, d₂) ∧ decodeString d₂ = .ok (value, rest) ∧
        hasUppercase name = false ∧ e = some ⟨name, value, neverIndexed⟩ ∧
        t' = if indexed then t.addToDynamic ⟨name, value, neverIndexed⟩ else t := by
  unfold decodeLiteral
  constructor
  · intro h
    cases hi : decodeInt (if indexed then 6 else 4) data with
    | error err => rw [hi] at h; cases h
    | ok r =>
      rw [hi] at h
      simp only at h
      cases hn : decodeName t r.1 r.2 with
      | error err => rw [hn] at h; cases h
      | ok n =>
        rw [hn] at h
        simp only at h
        cases hv : decodeString n.2 with
        | error err => rw [hv] at h; cases h
        | ok v =>
          rw [hv] at h
          simp only at h
          by_cases hu : hasUppercase n.1 = true
          · rw [if_pos hu] at h
            cases h
          · rw [if_neg hu] at h
            simp only [Except.ok.injEq, Prod.mk.injEq] at h
            obtain ⟨rfl, rfl, rfl⟩ := h
            exact ⟨r.1, r.2, n.1, n.2, v.1, rfl, hn, hv, by simpa using hu, rfl, rfl⟩
  · rintro ⟨idx, d₁, name, d₂, value, hi, hn, hv, hu, rfl, rfl⟩
    simp only [hi, hn, hv, hu, Bool.false_eq_true, if_false]

/-- What a turn of the decoder can do. -/
theorem decodeStep_cases {t t' : HpackDecoder} {b : UInt8} {data rest : Bytes}
    {e : Option HpackHeader} (h : decodeStep t (b :: data) = .ok (t', e, rest)) :
    (∃ idx h, decodeInt 7 (b :: data) = .ok (idx, rest) ∧ t.lookup idx = some h ∧ t' = t ∧
        e = some h ∧ b &&& 0x80 ≠ 0) ∨
      (∃ size, decodeInt 5 (b :: data) = .ok (size, rest) ∧ size ≤ t.maxTableSize ∧
        t' = t.setMaxTableSize size ∧ e = none ∧ b &&& 0x80 = 0 ∧ b &&& 0x20 ≠ 0) ∨
      (decodeLiteral t (b &&& 0x40 ≠ 0) (b &&& 0x10 ≠ 0) (b :: data) = .ok (t', e, rest) ∧
        b &&& 0x80 = 0 ∧ b &&& 0x20 = 0) := by
  unfold decodeStep at h
  simp only at h
  split_ifs at h with h80 h20
  · left
    unfold decodeIndexed at h
    cases hi : decodeInt 7 (b :: data) with
    | error err => rw [hi] at h; cases h
    | ok r =>
      rw [hi] at h
      simp only at h
      cases hl : t.lookup r.1 with
      | none => rw [hl] at h; cases h
      | some x =>
        rw [hl] at h
        simp only [Except.ok.injEq, Prod.mk.injEq] at h
        obtain ⟨rfl, rfl, rfl⟩ := h
        exact ⟨r.1, x, rfl, hl, rfl, rfl, h80⟩
  · right; left
    unfold decodeSizeUpdate at h
    cases hi : decodeInt 5 (b :: data) with
    | error err => rw [hi] at h; cases h
    | ok r =>
      rw [hi] at h
      simp only at h
      split_ifs at h with hgt
      simp only [Except.ok.injEq, Prod.mk.injEq] at h
      obtain ⟨rfl, rfl, rfl⟩ := h
      exact ⟨r.1, rfl, Nat.le_of_not_gt hgt, rfl, rfl, Decidable.not_not.mp h80, h20⟩
  · right; right
    exact ⟨h, Decidable.not_not.mp h80, Decidable.not_not.mp h20⟩

/-- Every turn consumes input. -/
theorem decodeStep_length {t t' : HpackDecoder} {data rest : Bytes} {e : Option HpackHeader}
    (hne : data ≠ []) (h : decodeStep t data = .ok (t', e, rest)) : rest.length < data.length := by
  obtain ⟨b, data, rfl⟩ := List.exists_cons_of_ne_nil hne
  rcases decodeStep_cases h with ⟨idx, x, hi, -⟩ | ⟨size, hi, -⟩ | ⟨hl, -⟩
  · exact decodeInt_length (by decide) (by decide) hi
  · exact decodeInt_length (by decide) (by decide) hi
  · obtain ⟨idx, d₁, name, d₂, value, hi, hn, hv, -⟩ := decodeLiteral_ok_iff.mp hl
    have h1 : d₁.length < (b :: data).length := by
      split_ifs at hi
      · exact decodeInt_length (by decide) (by decide) hi
      · exact decodeInt_length (by decide) (by decide) hi
    have h2 := decodeName_length hn
    have h3 := decodeString_length hv
    omega

/-- More fuel than input changes nothing. -/
theorem decodeLoop_fuel : ∀ {fuel fuel' : Nat} {t : HpackDecoder} {data : Bytes}
    {out : List HpackHeader}, data.length ≤ fuel → data.length ≤ fuel' →
      decodeLoop fuel t data out = decodeLoop fuel' t data out
  | 0, fuel', t, data, out, h, _ => by
    rw [List.length_eq_zero_iff.mp (Nat.le_zero.mp h)]
    cases fuel' <;> rfl
  | fuel + 1, 0, t, data, out, _, h => by
    rw [List.length_eq_zero_iff.mp (Nat.le_zero.mp h)]
    rfl
  | fuel + 1, fuel' + 1, t, data, out, h, h' => by
    by_cases h0 : data = []
    · rw [h0]
      rfl
    · rw [decodeLoop, decodeLoop, if_neg h0, if_neg h0]
      cases hs : decodeStep t data with
      | error e => rfl
      | ok r =>
        obtain ⟨t', e, rest⟩ := r
        have hlt := decodeStep_length h0 hs
        exact decodeLoop_fuel (by omega) (by omega)

/-- **`decode` by turns.** -/
theorem decode_eq {data : Bytes} (hne : data ≠ []) (t : HpackDecoder) (out : List HpackHeader) :
    decode t data out =
      match decodeStep t data with
      | .error e => (.error e, t, out)
      | .ok (t', h, rest) => decode t' rest (out ++ h.toList) := by
  obtain ⟨b, tl, rfl⟩ := List.exists_cons_of_ne_nil hne
  unfold decode
  rw [List.length_cons, decodeLoop, if_neg hne]
  cases hs : decodeStep t (b :: tl) with
  | error e => rfl
  | ok r =>
    obtain ⟨t', e, rest⟩ := r
    have hlt := decodeStep_length hne hs
    rw [List.length_cons] at hlt
    exact decodeLoop_fuel (by omega) (Nat.le_refl _)

theorem decodeLoop_out : ∀ (fuel : Nat) (t : HpackDecoder) (data : Bytes) (out : List HpackHeader),
    decodeLoop fuel t data out = ((decodeLoop fuel t data []).1, (decodeLoop fuel t data []).2.1,
      out ++ (decodeLoop fuel t data []).2.2)
  | 0, t, data, out => by
    simp only [decodeLoop, List.append_nil]
  | fuel + 1, t, data, out => by
    rw [decodeLoop, decodeLoop]
    by_cases h0 : data = []
    · simp only [if_pos h0, List.append_nil]
    · simp only [if_neg h0]
      cases decodeStep t data with
      | error e => simp only [List.append_nil]
      | ok r =>
        simp only
        rw [decodeLoop_out fuel r.1 r.2.2 (out ++ r.2.1.toList),
          decodeLoop_out fuel r.1 r.2.2 ([] ++ r.2.1.toList)]
        simp only [List.nil_append, List.append_assoc]

/-- `decode` adds behind the headers it is handed, which have no part in what it does. -/
theorem decode_out (t : HpackDecoder) (data : Bytes) (out : List HpackHeader) :
    decode t data out = ((decode t data []).1, (decode t data []).2.1,
      out ++ (decode t data []).2.2) :=
  decodeLoop_out _ t data out

/-! ## One header -/

/-- The decoder's header for an encoded one. -/
def sent (h : HpackHeader) : HpackHeader := ⟨h.name, h.value, isSensitive h⟩

/-- A literal with a new name, behind its first byte. -/
theorem decodeStep_newName (t : HpackDecoder) (sensitive : Bool) (data : Bytes) :
    decodeStep t ((if sensitive then 0x10 else 0x40) :: data) =
      match decodeString data with
      | .error e => .error e
      | .ok (name, data) =>
        match decodeString data with
        | .error e => .error e
        | .ok (value, data) =>
          if hasUppercase name then .error (hpackError "uppercase HTTP/2 header name")
          else .ok (if sensitive then t else t.addToDynamic ⟨name, value, false⟩,
            some ⟨name, value, sensitive⟩, data) := by
  cases sensitive with
  | true => rfl
  | false => rfl

theorem encodeHeader_eq (h : HpackHeader) :
    encodeHeader h = (if isSensitive h then 0x10 else 0x40) ::
      (encodeString h.name ++ encodeString h.value) := by
  unfold encodeHeader
  cases isSensitive h <;> rfl

/-- **One encoded header is one turn of the decoder**, in any state of it. -/
theorem decodeStep_encodeHeader {h : HpackHeader} (hup : hasUppercase h.name = false)
    (hn : h.name ≠ []) (hv : h.value ≠ []) (hln : encodedLength h.name ≤ 65535)
    (hlv : encodedLength h.value ≤ 65535) (t : HpackDecoder) (r : Bytes) :
    ∃ t', decodeStep t (encodeHeader h ++ r) = .ok (t', some (sent h), r) := by
  rw [encodeHeader_eq, List.cons_append, List.append_assoc, decodeStep_newName,
    decodeString_encodeString hn hln]
  simp only [decodeString_encodeString hv hlv, hup, Bool.false_eq_true, if_false]
  exact ⟨_, rfl⟩

/-- A header with an empty name or value is refused. -/
theorem decodeStep_encodeHeader_nil {h : HpackHeader} (hln : encodedLength h.name ≤ 65535)
    (hnil : h.name = [] ∨ h.value = []) (t : HpackDecoder) (r : Bytes) :
    decodeStep t (encodeHeader h ++ r) = .error (hpackError "invalid index 0") := by
  rw [encodeHeader_eq, List.cons_append, List.append_assoc, decodeStep_newName]
  by_cases hn : h.name = []
  · rw [hn, decodeString_encodeString_nil]
  · rw [decodeString_encodeString hn hln, hnil.resolve_left hn]
    simp only [decodeString_encodeString_nil]

theorem encodeHeader_ne_nil (h : HpackHeader) : encodeHeader h ≠ [] := by
  rw [encodeHeader_eq]
  exact List.cons_ne_nil _ _

/-! ## Header lists -/

/-- The encoder writes the headers one after the other. -/
theorem encode_eq : ∀ {hs : List HpackHeader}, (∀ h ∈ hs, hasUppercase h.name = false) →
    ∀ (t : HpackEncoder) (out : Bytes),
      ∃ t', encode t hs out = (.ok (), t', out ++ hs.flatMap encodeHeader)
  | [], _, t, out => ⟨t, by rw [List.flatMap_nil, List.append_nil]; rfl⟩
  | h :: hs, hup, t, out => by
    unfold encode
    rw [hup h List.mem_cons_self]
    obtain ⟨t', ht'⟩ := encode_eq (fun x hx => hup x (List.mem_cons_of_mem h hx))
      (if isSensitive h then t else t.addToDynamic h) (out ++ encodeHeader h)
    refine ⟨t', ?_⟩
    rw [if_neg (by decide), ht', List.flatMap_cons, List.append_assoc]

/-- A name in upper case is refused. -/
theorem encode_uppercase : ∀ {hs : List HpackHeader}, (∃ h ∈ hs, hasUppercase h.name = true) →
    ∀ (t : HpackEncoder) (out : Bytes), ∃ e t' out', encode t hs out = (.error e, t', out')
  | [], h, _, _ => by simp at h
  | h :: hs, hex, t, out => by
    unfold encode
    by_cases hup : hasUppercase h.name = true
    · rw [if_pos hup]
      exact ⟨_, _, _, rfl⟩
    · rw [if_neg hup]
      refine encode_uppercase ?_ _ _
      obtain ⟨x, hx, hxu⟩ := hex
      rcases List.mem_cons.mp hx with rfl | hx
      · exact absurd hxu hup
      · exact ⟨x, hx, hxu⟩

/-- A list of headers without empty strings is decoded to what was sent. -/
theorem decode_flatMap_encodeHeader : ∀ {hs : List HpackHeader},
    (∀ h ∈ hs, hasUppercase h.name = false) →
    (∀ h ∈ hs, encodedLength h.name ≤ 65535 ∧ encodedLength h.value ≤ 65535) →
    (∀ h ∈ hs, h.name ≠ [] ∧ h.value ≠ []) → ∀ (t : HpackDecoder) (out : List HpackHeader),
      ∃ t', decode t (hs.flatMap encodeHeader) out = (.ok (), t', out ++ hs.map sent)
  | [], _, _, _, t, out => ⟨t, by rw [List.map_nil, List.append_nil]; rfl⟩
  | h :: hs, hup, hlen, hne, t, out => by
    obtain ⟨hln, hlv⟩ := hlen h List.mem_cons_self
    obtain ⟨hn, hv⟩ := hne h List.mem_cons_self
    obtain ⟨t₁, ht₁⟩ := decodeStep_encodeHeader (hup h List.mem_cons_self) hn hv hln hlv t
      (hs.flatMap encodeHeader)
    obtain ⟨t₂, ht₂⟩ := decode_flatMap_encodeHeader
      (fun x hx => hup x (List.mem_cons_of_mem h hx))
      (fun x hx => hlen x (List.mem_cons_of_mem h hx))
      (fun x hx => hne x (List.mem_cons_of_mem h hx)) t₁ (out ++ [sent h])
    refine ⟨t₂, ?_⟩
    rw [List.flatMap_cons, decode_eq (List.append_ne_nil_of_left_ne_nil (encodeHeader_ne_nil h) _),
      ht₁]
    simp only [Option.toList_some, ht₂, List.map_cons, List.append_assoc, List.singleton_append]

/-- An empty name or value anywhere makes the decoder give up. -/
theorem decode_flatMap_encodeHeader_nil : ∀ {hs : List HpackHeader},
    (∀ h ∈ hs, hasUppercase h.name = false) →
    (∀ h ∈ hs, encodedLength h.name ≤ 65535 ∧ encodedLength h.value ≤ 65535) →
    (∃ h ∈ hs, h.name = [] ∨ h.value = []) → ∀ (t : HpackDecoder) (out : List HpackHeader),
      (decode t (hs.flatMap encodeHeader) out).1 = .error (hpackError "invalid index 0")
  | [], _, _, hnil, _, _ => by
    obtain ⟨h, hh, -⟩ := hnil
    exact absurd hh List.not_mem_nil
  | h :: hs, hup, hlen, hnil, t, out => by
    obtain ⟨hln, hlv⟩ := hlen h List.mem_cons_self
    rw [List.flatMap_cons, decode_eq (List.append_ne_nil_of_left_ne_nil (encodeHeader_ne_nil h) _)]
    by_cases hbad : h.name = [] ∨ h.value = []
    · rw [decodeStep_encodeHeader_nil hln hbad]
    · rw [not_or] at hbad
      obtain ⟨t₁, ht₁⟩ := decodeStep_encodeHeader (hup h List.mem_cons_self) hbad.1 hbad.2 hln hlv t
        (hs.flatMap encodeHeader)
      rw [ht₁]
      refine decode_flatMap_encodeHeader_nil
        (fun x hx => hup x (List.mem_cons_of_mem h hx))
        (fun x hx => hlen x (List.mem_cons_of_mem h hx)) ?_ t₁ _
      obtain ⟨x, hx, hx0⟩ := hnil
      rcases List.mem_cons.mp hx with rfl | hx
      · exact absurd hx0 (not_or.mpr hbad)
      · exact ⟨x, hx, hx0⟩

/-- **HPACK round trip**: encoded from any state into an empty buffer and decoded in any state, a
list of headers comes out as it went in exactly when it holds no empty name and no empty value. -/
theorem hpack_round_trip (enc : HpackEncoder) (dec : HpackDecoder) (hs out : List HpackHeader)
    (hup : ∀ h ∈ hs, hasUppercase h.name = false)
    (hlen : ∀ h ∈ hs, encodedLength h.name ≤ 65535 ∧ encodedLength h.value ≤ 65535) :
    ∃ enc' bytes, encode enc hs [] = (.ok (), enc', bytes) ∧
      ((∃ dec', decode dec bytes out = (.ok (), dec', out ++ hs.map fun h =>
          ⟨h.name, h.value, h.sensitive || h.name == ascii "authorization" ||
            h.name == ascii "cookie" || h.name == ascii "proxy-authorization"⟩)) ↔
        ∀ h ∈ hs, h.name ≠ [] ∧ h.value ≠ []) := by
  obtain ⟨enc', henc⟩ := encode_eq hup enc []
  refine ⟨enc', hs.flatMap encodeHeader, henc, fun ⟨dec', hdec⟩ h hh => ?_, fun hne => ?_⟩
  · rw [← not_or]
    intro hbad
    have herr := decode_flatMap_encodeHeader_nil hup hlen ⟨h, hh, hbad⟩ dec out
    rw [hdec] at herr
    cases herr
  · exact decode_flatMap_encodeHeader hup hlen hne dec out

/-- A plain and a sensitive header. -/
theorem hpack_round_trip_cookie :
    let hs : List HpackHeader :=
      [⟨ascii ":method", ascii "GET", false⟩, ⟨ascii "cookie", ascii "a=b", false⟩]
    (∀ h ∈ hs, hasUppercase h.name = false) ∧
      (∀ h ∈ hs, encodedLength h.name ≤ 65535 ∧ encodedLength h.value ≤ 65535) ∧
      ∃ enc' bytes dec', encode {} hs [] = (.ok (), enc', bytes) ∧
        decode {} bytes [] = (.ok (), dec', [⟨ascii ":method", ascii "GET", false⟩,
          ⟨ascii "cookie", ascii "a=b", true⟩]) := by
  intro hs
  have hup : ∀ h ∈ hs, hasUppercase h.name = false := by decide
  have hlen : ∀ h ∈ hs, encodedLength h.name ≤ 65535 ∧ encodedLength h.value ≤ 65535 := by
    decide +kernel
  obtain ⟨enc', bytes, henc, hiff⟩ := hpack_round_trip {} {} hs [] hup hlen
  obtain ⟨dec', hdec⟩ := hiff.mpr (by decide)
  exact ⟨hup, hlen, enc', bytes, dec', henc, hdec⟩

/-- A header without a value, which `encode` accepts and no decoder reads. -/
theorem hpack_round_trip_no_value :
    encode {} [⟨ascii "x", [], false⟩] [] =
        (.ok (), ⟨[⟨ascii "x", [], false⟩], 33, 4096⟩, [0x40, 0x01, 0x78, 0x00]) ∧
      decode {} [0x40, 0x01, 0x78, 0x00] [] = (.error (hpackError "invalid index 0"), {}, []) := by
  decide +kernel

end Uproxy
