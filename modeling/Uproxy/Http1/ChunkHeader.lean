import Uproxy.Buffer.Limits
import Uproxy.Http1.Chunked
import Uproxy.Http1.Serializer

/-!
# Chunk headers (`parse_chunk_header`, `write_chunk_header`)

`write_chunk_header` appends the size as `printf` writes it in hexadecimal, and a line end.
`parse_chunk_header` looks for a line end in the first 128 bytes of the buffer, takes what stands in
front of it up to a semicolon for the size, and only then consumes the line.

* `parseChunkHeader_eq`: what is returned and consumed, in terms of the contents; the size of a line
  is that of the reference grammar (`chunkSize`);
* `parseChunkHeader_line`: a short line with a size is read;
* `parseChunkHeader_written`, `writeChunkHeader_fits`: what was written is read back, and it is
  written as long as the sizes fit;
* **`chunk_header_round_trip`**: a header is read back and leaves what follows, and whatever the
  buffer holds, either one whole line is consumed or nothing.
-/

namespace Uproxy

open Lib.Search

/-! ## The code -/

def semicolon : UInt8 := 59

/-- `%zx`. -/
def hexadecimal (n : Nat) : Bytes := digitText 16 n

/-- `Http1Parser::parse_chunk_header`. -/
def parseChunkHeader (buf : RingBuffer) : Int × RingBuffer :=
  let sv := buf.peek (min buf.readable 128)
  match find crlf sv with
  | none => (-1, buf)
  | some eol =>
    let line := sv.take eol
    let hex :=
      match find [semicolon] line with
      | none => line
      | some semi => line.take semi
    match fromChars 16 hex with
    | some (n, []) => if n > 2 ^ 63 - 1 then (-1, buf) else (n, buf.commitRead (eol + 2))
    | _ => (-1, buf)

/-- `Http1Serializer::write_chunk_header`; `tmp` has room for 32 bytes. -/
def writeChunkHeader (buf : RingBuffer) (size : Nat) : Option (Result Unit × RingBuffer) :=
  let tmp := hexadecimal size ++ crlf
  if 32 ≤ tmp.length then some (.error (.fromCode .httpMalformed "chunk too large"), buf)
  else buf.append tmp

/-! ## Reading -/

theorem chunkSize_eq_some {line : Bytes} {n : Nat} :
    chunkSize line = some n ↔ Numeral 16 (line.takeWhile (· ≠ semicolon)) ∧
      digitsVal 16 (line.takeWhile (· ≠ semicolon)) < sizeMod ∧
      n = digitsVal 16 (line.takeWhile (· ≠ semicolon)) := by
  rw [← fromChars_numeral]
  unfold chunkSize
  show (match fromChars 16 (line.takeWhile (· ≠ semicolon)) with
    | some (n, []) => some n
    | _ => none) = some n ↔ _
  rcases fromChars 16 (line.takeWhile (· ≠ semicolon)) with _ | ⟨m, _ | ⟨c, rest⟩⟩ <;> simp

/-- **`parse_chunk_header` by the contents of the buffer.** -/
theorem parseChunkHeader_eq {b : RingBuffer} (h : b.WF) :
    parseChunkHeader b =
      match find crlf (b.contents.take 128) with
      | none => (-1, b)
      | some eol =>
        match chunkSize (b.contents.take eol) with
        | none => (-1, b)
        | some n => if n > 2 ^ 63 - 1 then (-1, b) else (n, b.commitRead (eol + 2)) := by
  have hpeek : b.peek (min b.readable 128) = b.contents.take 128 := by
    rw [RingBuffer.peek_spec h]
    refine List.take_eq_take_iff.mpr ?_
    rw [h.length_contents, RingBuffer.readable]
    omega
  have hhex : ∀ line : Bytes, (match find [semicolon] line with
      | none => line
      | some semi => line.take semi) = line.takeWhile (· ≠ semicolon) := by
    intro line
    cases hf : find [semicolon] line with
    | none => exact (takeWhile_ne_eq_self (find_singleton_none.mp hf)).symm
    | some semi => exact take_find_singleton hf
  unfold parseChunkHeader
  simp only [hpeek, hhex]
  cases hf : find crlf (b.contents.take 128) with
  | none => rfl
  | some eol =>
    have hle := (find_take_eq_some.mp hf).2
    have hline : (b.contents.take 128).take eol = b.contents.take eol := by
      rw [List.take_take, Nat.min_eq_left (by omega)]
    simp only [hline]
    unfold chunkSize
    show _ = match (match fromChars 16 ((b.contents.take eol).takeWhile (· ≠ semicolon)) with
      | some (n, []) => some n
      | _ => none) with
      | none => (-1, b)
      | some n => if n > 2 ^ 63 - 1 then (-1, b) else ((n : Int), b.commitRead (eol + 2))
    rcases fromChars 16 ((b.contents.take eol).takeWhile (· ≠ semicolon)) with
      _ | ⟨n, _ | ⟨c, rest⟩⟩ <;> rfl

/-- A line with a size that ends within 128 bytes is read. -/
theorem parseChunkHeader_line {b : RingBuffer} (h : b.WF) {line rest : Bytes} {n : Nat}
    (hc : b.contents = line ++ crlf ++ rest) (hlf : lf ∉ line) (hlen : line.length + 2 ≤ 128)
    (hsize : chunkSize line = some n) (hn : n < 2 ^ 63) :
    parseChunkHeader b = ((n : Int), b.commitRead (line.length + 2)) := by
  have hfind : find crlf b.contents = some line.length := by
    rw [hc, List.append_assoc]
    exact find_delim cr_ne_lf hlf rest
  have hwindow : find crlf (b.contents.take 128) = some line.length :=
    find_take_eq_some.mpr ⟨hfind, hlen⟩
  have hline : b.contents.take line.length = line := by
    rw [hc, List.append_assoc, List.take_left]
  rw [parseChunkHeader_eq h, hwindow]
  simp only [hline, hsize]
  rw [if_neg (by omega)]

/-- One line is taken off the front: up to the first CRLF and with it, and in front of any semicolon
a hexadecimal numeral of value `n`. -/
def TakesLine (s rest : Bytes) (n : Nat) : Prop :=
  ∃ line, s = line ++ crlf ++ rest ∧ (∀ m < line.length, ¬ crlf <+: s.drop m) ∧
    Numeral 16 (line.takeWhile (· ≠ semicolon)) ∧
    digitsVal 16 (line.takeWhile (· ≠ semicolon)) = n

/-- **Nothing is consumed, or one line.** -/
theorem parseChunkHeader_cases {b : RingBuffer} (h : b.WF) :
    parseChunkHeader b = (-1, b) ∨
      ∃ n : Nat, (parseChunkHeader b).1 = n ∧
        TakesLine b.contents (parseChunkHeader b).2.contents n := by
  rw [parseChunkHeader_eq h]
  cases hf : find crlf (b.contents.take 128) with
  | none => exact Or.inl rfl
  | some eol =>
    obtain ⟨hfind, -⟩ := find_take_eq_some.mp hf
    simp only
    cases hs : chunkSize (b.contents.take eol) with
    | none => exact Or.inl rfl
    | some n =>
      simp only
      split_ifs with hn
      · exact Or.inl rfl
      · obtain ⟨hnum, -, hval⟩ := chunkSize_eq_some.mp hs
        obtain ⟨-, hle, hmin⟩ := find_eq_some_iff.mp hfind
        have hlen : (b.contents.take eol).length = eol := by
          rw [List.length_take]
          omega
        refine Or.inr ⟨n, rfl, b.contents.take eol, ?_, fun m hm => hmin m (hlen ▸ hm), hnum,
          hval.symm⟩
        rw [(RingBuffer.commitRead_spec h (eol + 2)).2]
        exact find_split hfind

/-! ## Writing -/

theorem length_hexadecimal {n : Nat} (hn : n < 2 ^ 64) : (hexadecimal n).length ≤ 16 :=
  length_digitText_le (by decide) (by decide) hn

/-- The text fits into `tmp`. -/
theorem writeChunkHeader_eq (b : RingBuffer) {n : Nat} (hn : n < 2 ^ 64) :
    writeChunkHeader b n = b.append (hexadecimal n ++ crlf) := by
  have := length_hexadecimal hn
  refine if_neg ?_
  rw [List.length_append]
  show ¬ 32 ≤ (hexadecimal n).length + 2
  omega

/-- Digits are neither a line end nor a semicolon. -/
theorem hexadecimal_not_mem {c : UInt8} (hc : digitVal 16 c = none) (n : Nat) :
    c ∉ hexadecimal n := by
  intro hm
  have h := (digitText_spec (show 1 < 16 by decide) (by decide) n).1.2 c hm
  rw [hc] at h
  cases h

theorem chunkSize_hexadecimal {n : Nat} (hn : n < 2 ^ 64) :
    chunkSize (hexadecimal n) = some n := by
  obtain ⟨hnum, hval⟩ := digitText_spec (show 1 < 16 by decide) (by decide) n
  have hsemi := hexadecimal_not_mem (show digitVal 16 semicolon = none by decide) n
  rw [chunkSize_eq_some, takeWhile_ne_eq_self hsemi]
  exact ⟨hnum, hval.trans_lt hn, hval.symm⟩

/-- **A header is read back** in front of anything. -/
theorem parseChunkHeader_hexadecimal {b : RingBuffer} (h : b.WF) {n : Nat} (hn : n < 2 ^ 63)
    {r : Bytes} (hc : b.contents = hexadecimal n ++ crlf ++ r) :
    (parseChunkHeader b).1 = n ∧ (parseChunkHeader b).2.contents = r := by
  have hn64 : n < 2 ^ 64 := Nat.lt_trans hn (by decide)
  have hlen := length_hexadecimal hn64
  have hlf := hexadecimal_not_mem (show digitVal 16 lf = none by decide) n
  rw [parseChunkHeader_line h hc hlf (by omega) (chunkSize_hexadecimal hn64) hn]
  refine ⟨rfl, ?_⟩
  rw [(RingBuffer.commitRead_spec h _).2, hc, List.append_assoc]
  exact drop_behind_two (hexadecimal n) cr lf r

/-- What was appended to an empty buffer behind a header is all that is left. -/
theorem parseChunkHeader_written {b b₁ b₂ : RingBuffer} (h : b.WF) (h0 : b.contents = []) {n : Nat}
    (hn : n < 2 ^ 63) {r : Bytes} (hw : writeChunkHeader b n = some (.ok (), b₁))
    (ha : b₁.append r = some (.ok (), b₂)) :
    (parseChunkHeader b₂).1 = n ∧ (parseChunkHeader b₂).2.contents = r := by
  rw [writeChunkHeader_eq b (Nat.lt_trans hn (by decide))] at hw
  obtain ⟨r₁, b₁', e₁, hwf₁, -, hok₁⟩ := RingBuffer.append_answers h (hexadecimal n ++ crlf)
  rw [hw] at e₁
  cases e₁
  obtain ⟨r₂, b₂', e₂, hwf₂, -, hok₂⟩ := RingBuffer.append_answers hwf₁ r
  rw [ha] at e₂
  cases e₂
  refine parseChunkHeader_hexadecimal hwf₂ hn ?_
  rw [hok₂ rfl, hok₁ rfl, h0, List.nil_append]

/-- Both are appended as long as the sizes fit `size_t`. -/
theorem writeChunkHeader_fits {b : RingBuffer} (h : b.WF) {n : Nat} (hn : n < 2 ^ 64) {r : Bytes}
    (hfit : 2 * b.capacity + 18 + r.length < sizeMod) :
    ∃ b₁ b₂, writeChunkHeader b n = some (.ok (), b₁) ∧ b₁.append r = some (.ok (), b₂) := by
  have htext : (hexadecimal n ++ crlf).length ≤ 18 := by
    rw [List.length_append]
    exact Nat.add_le_add_right (length_hexadecimal hn) 2
  rw [writeChunkHeader_eq b hn]
  obtain ⟨b₁, e₁, hwf₁, -, hcap₁⟩ :=
    RingBuffer.append_spec h (d := hexadecimal n ++ crlf) (by omega)
  obtain ⟨b₂, e₂, -⟩ := RingBuffer.append_spec hwf₁ (d := r) (by omega)
  exact ⟨b₁, b₂, e₁, e₂⟩

/-- **Chunk headers.** In an empty buffer, a header and what was appended behind it are read as the
size and what was appended, and both are appended as long as the sizes fit `size_t`. In any buffer,
-1 means that nothing was consumed, and any other answer is the size in the line that was. -/
theorem chunk_header_round_trip (b : Buffer) :
    (b.contents = [] → ∀ (n : Nat) (r : Bytes), n < 2 ^ 63 →
      (∀ b₁ b₂, writeChunkHeader b.toRingBuffer n = some (.ok (), b₁) →
        b₁.append r = some (.ok (), b₂) →
          (parseChunkHeader b₂).1 = n ∧ (parseChunkHeader b₂).2.contents = r) ∧
      (2 * b.capacity + 18 + r.length < sizeMod →
        ∃ b₁ b₂, writeChunkHeader b.toRingBuffer n = some (.ok (), b₁) ∧
          b₁.append r = some (.ok (), b₂))) ∧
    ((parseChunkHeader b.toRingBuffer).1 = -1 →
      (parseChunkHeader b.toRingBuffer).2 = b.toRingBuffer) ∧
    ((parseChunkHeader b.toRingBuffer).1 ≠ -1 →
      ∃ n : Nat, (parseChunkHeader b.toRingBuffer).1 = n ∧
        TakesLine b.contents (parseChunkHeader b.toRingBuffer).2.contents n) := by
  refine ⟨fun h0 n r hn => ⟨fun b₁ b₂ hw ha => parseChunkHeader_written b.wf h0 hn hw ha,
    fun hfit => writeChunkHeader_fits b.wf (Nat.lt_trans hn (by decide)) hfit⟩,
    fun hneg => ?_, fun hpos => ?_⟩
  · rcases parseChunkHeader_cases b.wf with he | ⟨n, hn, -⟩
    · rw [he]
    · rw [hn] at hneg
      omega
  · rcases parseChunkHeader_cases b.wf with he | h
    · rw [he] at hpos
      exact absurd rfl hpos
    · exact h

/-- A chunk of 255 bytes, of which the first is there. -/
theorem chunk_header_round_trip_ff :
    ∃ b₁ b₂, writeChunkHeader (Buffer.ofBytes []).toRingBuffer 255 = some (.ok (), b₁) ∧
      b₁.contents = ascii "ff" ++ crlf ∧ b₁.append (ascii "x") = some (.ok (), b₂) ∧
      (parseChunkHeader b₂).1 = 255 ∧ (parseChunkHeader b₂).2.contents = ascii "x" := by
  obtain ⟨hempty, -⟩ := chunk_header_round_trip (Buffer.ofBytes [])
  obtain ⟨hread, hexists⟩ := hempty rfl 255 (ascii "x") (by decide)
  obtain ⟨b₁, b₂, hw, ha⟩ := hexists (by decide)
  have hw' : writeChunkHeader (Buffer.ofBytes []).toRingBuffer 255 =
      some (.ok (), ⟨ascii "ff" ++ crlf, 0, 0, 4⟩) := by decide +kernel
  obtain ⟨h255, hx⟩ := hread b₁ b₂ hw ha
  rw [hw] at hw'
  cases hw'
  exact ⟨_, b₂, hw, by decide +kernel, ha, h255, hx⟩

end Uproxy
