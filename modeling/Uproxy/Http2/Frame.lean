import Uproxy.Http1.Message

/-!
# HTTP/2 frames (`http2.cpp`)

`H2FrameReader::read_frame` and the functions of `H2FrameWriter`.

* A buffer is the queue of bytes a ring buffer stands for: `append` adds at the end, `peek` and
  `commit_read` take from the front. `Http2.Buffers` has the same functions on ring buffers, which
  do to the queue what is modelled here (`Ring.readFrame_spec`, `WriterCall.writeRing_refines`);
  the error branches behind `append` are there, and not taken below `2^62` bytes
  (`RingBuffer.Stores.append`).
* A writer returns its result along with the buffer, since it may fail behind bytes it has written.
* `static_cast<H2FrameType>` accepts every byte; one without a name is `unknown`.
* The reader puts numbers together with shifts and ors of disjoint bytes, which is reading them in
  base 256 (`beNat`).

Results:
* `readFrame_frameBytes`: a frame that is written is read back, whatever follows;
* `readFrame_append`, `readFrame_error_append`: more bytes behind a frame, or behind a length that
  is refused, change nothing;
* `writeHeaders_ok`, `writeData_ok`: what is written is a `HEADERS` frame, or `DATA` frames whose
  payloads make up the data (`dataFrames_payload`), the last with `END_STREAM` (`dataFrames_flags`).
-/

namespace Uproxy

/-! ## The code -/

/-- `H2FrameType`. -/
inductive H2FrameType where
  | data | headers | priority | rstStream | settings | pushPromise | ping | goaway | windowUpdate
  | continuation
  | unknown (code : UInt8)
  deriving DecidableEq, Repr

namespace H2FrameType

def code : H2FrameType → UInt8
  | data => 0x0
  | headers => 0x1
  | priority => 0x2
  | rstStream => 0x3
  | settings => 0x4
  | pushPromise => 0x5
  | ping => 0x6
  | goaway => 0x7
  | windowUpdate => 0x8
  | continuation => 0x9
  | unknown c => c

/-- `static_cast<H2FrameType>`. -/
def ofCode (c : UInt8) : H2FrameType :=
  match c.toNat with
  | 0 => data
  | 1 => headers
  | 2 => priority
  | 3 => rstStream
  | 4 => settings
  | 5 => pushPromise
  | 6 => ping
  | 7 => goaway
  | 8 => windowUpdate
  | 9 => continuation
  | _ => unknown c

end H2FrameType

namespace H2Flags

def endStream : UInt8 := 0x1
def endHeaders : UInt8 := 0x4
def padded : UInt8 := 0x8
def priority : UInt8 := 0x20
def ack : UInt8 := 0x1

end H2Flags

/-- `H2Error`. -/
inductive H2Error where
  | noError | protocolError | internalError | flowControlError | settingsTimeout | streamClosed
  | frameSizeError | refusedStream | cancel | compressionError | connectError | enhanceYourCalm
  | inadequateSecurity | http11Required
  deriving DecidableEq, Repr

def H2Error.code : H2Error → Nat
  | noError => 0x0
  | protocolError => 0x1
  | internalError => 0x2
  | flowControlError => 0x3
  | settingsTimeout => 0x4
  | streamClosed => 0x5
  | frameSizeError => 0x6
  | refusedStream => 0x7
  | cancel => 0x8
  | compressionError => 0x9
  | connectError => 0xa
  | enhanceYourCalm => 0xb
  | inadequateSecurity => 0xc
  | http11Required => 0xd

/-- `H2Setting`. -/
inductive H2Setting where
  | headerTableSize | enablePush | maxConcurrentStreams | initialWindowSize | maxFrameSize
  | maxHeaderListSize
  deriving DecidableEq, Repr

def H2Setting.code : H2Setting → Nat
  | headerTableSize => 0x1
  | enablePush => 0x2
  | maxConcurrentStreams => 0x3
  | initialWindowSize => 0x4
  | maxFrameSize => 0x5
  | maxHeaderListSize => 0x6

/-- `H2Frame`. -/
structure H2Frame where
  length   : Nat
  type     : H2FrameType
  flags    : UInt8
  streamId : Nat
  payload  : Bytes
  deriving DecidableEq, Repr

/-- `frame.flags & flag`. -/
def H2Frame.has (f : H2Frame) (flag : UInt8) : Bool := f.flags &&& flag != 0

/-- `byte`. -/
def byte (v shift : Nat) : UInt8 := (v >>> shift).toUInt8

/-- Bytes as a number, the first being the most significant. -/
def beNat (bs : Bytes) : Nat := bs.foldl (fun acc b => acc * 256 + b.toNat) 0

/-- `H2FrameReader::FRAME_HEADER_SIZE`. -/
def frameHeaderSize : Nat := 9

def http2Error (msg : String) : Error := .fromCode .http2Protocol msg

/-- `H2FrameReader::read_frame`: the frame and the buffer behind it. -/
def readFrame (buf : Bytes) (maxFrameSize : Nat) : Except ParseResult (H2Frame × Bytes) :=
  if buf.length < frameHeaderSize then .error .incomplete
  else
    let len := beNat (buf.take 3)
    if len > maxFrameSize then .error .error
    else if buf.length < frameHeaderSize + len then .error .incomplete
    else
      let rest := buf.drop frameHeaderSize
      .ok ({ length := len
             type := .ofCode (buf.getD 3 0)
             flags := buf.getD 4 0
             streamId := beNat ((buf.drop 5).take 4) % 2 ^ 31
             payload := rest.take len },
        rest.drop len)

/-- The nine bytes in front of a payload. -/
def frameHeader (length : Nat) (type : H2FrameType) (flags : UInt8) (streamId : Nat) : Bytes :=
  [byte length 16, byte length 8, byte length 0, type.code, flags, byte streamId 24,
    byte streamId 16, byte streamId 8, byte streamId 0]

/-- `write_frame_header`. -/
def writeFrameHeader (buf : Bytes) (length : Nat) (type : H2FrameType) (flags : UInt8)
    (streamId : Nat) : Result Unit × Bytes :=
  if length > 0x00ffffff ∨ 2 ^ 31 ≤ streamId then (.error (http2Error "invalid frame header"), buf)
  else (.ok (), buf ++ frameHeader length type flags streamId)

/-- The four bytes of `append_u32`. -/
def u32 (v : Nat) : Bytes := [byte v 24, byte v 16, byte v 8, byte v 0]

/-- A frame header, and the rest of the frame if it was written. -/
def writeFrame (buf : Bytes) (length : Nat) (type : H2FrameType) (flags : UInt8) (streamId : Nat)
    (payload : Bytes) : Result Unit × Bytes :=
  match writeFrameHeader buf length type flags streamId with
  | (.error e, buf) => (.error e, buf)
  | (.ok (), buf) => (.ok (), buf ++ payload)

def writeSettings (buf : Bytes) (settings : List (H2Setting × Nat)) : Result Unit × Bytes :=
  writeFrame buf (settings.length * 6 % 2 ^ 32) .settings 0 0
    (settings.flatMap fun s => [byte s.1.code 8, byte s.1.code 0] ++ u32 s.2)

def writeSettingsAck (buf : Bytes) : Result Unit × Bytes :=
  writeFrameHeader buf 0 .settings H2Flags.ack 0

def writePing (buf : Bytes) (data : Nat) (ack : Bool) : Result Unit × Bytes :=
  writeFrame buf 8 .ping (if ack then H2Flags.ack else 0) 0
    [byte data 56, byte data 48, byte data 40, byte data 32, byte data 24, byte data 16,
      byte data 8, byte data 0]

def writeWindowUpdate (buf : Bytes) (streamId increment : Nat) : Result Unit × Bytes :=
  if increment = 0 ∨ increment > 0x7fffffff then
    (.error (http2Error "invalid window increment"), buf)
  else writeFrame buf 4 .windowUpdate 0 streamId (u32 increment)

def writeGoaway (buf : Bytes) (lastStreamId : Nat) (error : H2Error) (debugData : Bytes) :
    Result Unit × Bytes :=
  writeFrame buf ((8 + debugData.length) % 2 ^ 32) .goaway 0 0
    (u32 (lastStreamId % 2 ^ 31) ++ u32 error.code ++ debugData)

def writeRstStream (buf : Bytes) (streamId : Nat) (error : H2Error) : Result Unit × Bytes :=
  if streamId = 0 then (.error (http2Error "RST_STREAM on stream 0"), buf)
  else writeFrame buf 4 .rstStream 0 streamId (u32 error.code)

def writeHeaders (buf : Bytes) (streamId : Nat) (headerBlock : Bytes) (endStream : Bool)
    (maxFrameSize : Nat) : Result Unit × Bytes :=
  if streamId = 0 ∨ headerBlock.length > maxFrameSize then
    (.error (http2Error "invalid HEADERS frame"), buf)
  else
    writeFrame buf headerBlock.length .headers
      (H2Flags.endHeaders ||| if endStream then H2Flags.endStream else 0) streamId headerBlock

/-- The loop of `write_data` over the data from `offset` on. Every turn takes at least one byte, so
the number of bytes bounds the turns. -/
def writeDataLoop (streamId : Nat) (endStream : Bool) (maxFrameSize : Nat) :
    Nat → Bytes → Bytes → Result Unit × Bytes
  | 0, buf, _ => (.ok (), buf)
  | fuel + 1, buf, data =>
    if data = [] then (.ok (), buf)
    else
      let chunk := min maxFrameSize data.length
      let finalChunk := endStream && chunk == data.length
      match writeFrame buf chunk .data (if finalChunk then H2Flags.endStream else 0) streamId
          (data.take chunk) with
      | (.error e, buf) => (.error e, buf)
      | (.ok (), buf) => writeDataLoop streamId endStream maxFrameSize fuel buf (data.drop chunk)

def writeData (buf : Bytes) (streamId : Nat) (data : Bytes) (endStream : Bool)
    (maxFrameSize : Nat) : Result Unit × Bytes :=
  if streamId = 0 ∨ maxFrameSize = 0 then (.error (http2Error "invalid DATA frame"), buf)
  else writeDataLoop streamId endStream maxFrameSize data.length buf data

/-! ## Reading -/

theorem beNat_u24 (v : Nat) : beNat [byte v 16, byte v 8, byte v 0] = v % 2 ^ 24 := by
  simp only [beNat, byte, List.foldl_cons, List.foldl_nil, Nat.toUInt8, UInt8.toNat_ofNat',
    Nat.shiftRight_eq_div_pow]
  omega

theorem beNat_u32 (v : Nat) : beNat (u32 v) = v % 2 ^ 32 := by
  simp only [u32, beNat, byte, List.foldl_cons, List.foldl_nil, Nat.toUInt8, UInt8.toNat_ofNat',
    Nat.shiftRight_eq_div_pow]
  omega

/-- The bytes of a frame. -/
def frameBytes (f : H2Frame) : Bytes := frameHeader f.length f.type f.flags f.streamId ++ f.payload

/-- The frames `read_frame` can return under a limit. -/
structure H2Frame.Fits (limit : Nat) (f : H2Frame) : Prop where
  length_eq   : f.length = f.payload.length
  length_le   : f.length ≤ limit
  type_eq     : .ofCode f.type.code = f.type
  streamId_lt : f.streamId < 2 ^ 31

/-- **A written frame is read back**, whatever follows. -/
theorem readFrame_frameBytes {f : H2Frame} {limit : Nat} (h : f.Fits limit) (hl : limit < 2 ^ 24)
    (rest : Bytes) : readFrame (frameBytes f ++ rest) limit = .ok (f, rest) := by
  obtain ⟨hlen, hle, htype, hid⟩ := h
  have hsize : (frameBytes f ++ rest).length = 9 + f.length + rest.length := by
    simp [frameBytes, frameHeader, hlen]
    omega
  have hbuf : frameBytes f ++ rest =
      frameHeader f.length f.type f.flags f.streamId ++ (f.payload ++ rest) :=
    List.append_assoc _ _ _
  have h3 : beNat ((frameBytes f ++ rest).take 3) = f.length := by
    rw [hbuf]
    exact (beNat_u24 f.length).trans (Nat.mod_eq_of_lt (by omega))
  have h4 : beNat (((frameBytes f ++ rest).drop 5).take 4) % 2 ^ 31 = f.streamId := by
    rw [hbuf]
    show beNat (u32 f.streamId) % 2 ^ 31 = _
    rw [beNat_u32]
    omega
  have h9 : (frameBytes f ++ rest).drop frameHeaderSize = f.payload ++ rest := by rw [hbuf]; rfl
  unfold readFrame
  rw [if_neg (by rw [hsize]; unfold frameHeaderSize; omega)]
  simp only [h3, h4, h9]
  rw [if_neg (by omega), if_neg (by rw [hsize]; unfold frameHeaderSize; omega)]
  have hcode : H2FrameType.ofCode ((frameBytes f ++ rest).getD 3 0) = f.type := by
    rw [hbuf]
    exact htype
  have hflags : (frameBytes f ++ rest).getD 4 0 = f.flags := by
    rw [hbuf]
    rfl
  rw [hcode, hflags, List.take_left' hlen.symm, List.drop_left' hlen.symm]

theorem H2FrameType.ofCode_code_ofCode (c : UInt8) : ofCode (ofCode c).code = ofCode c :=
  forall_byte (P := fun c => ofCode (ofCode c).code = ofCode c) (by decide +kernel) c

/-- What a frame that is read takes off the buffer. -/
theorem readFrame_ok {buf rest : Bytes} {limit : Nat} {f : H2Frame}
    (h : readFrame buf limit = .ok (f, rest)) :
    f.Fits limit ∧ buf.length = frameHeaderSize + f.length + rest.length ∧
      rest = buf.drop (frameHeaderSize + f.length) := by
  simp only [readFrame] at h
  split_ifs at h with h1 h2 h3
  simp only [Except.ok.injEq, Prod.mk.injEq] at h
  obtain ⟨rfl, rfl⟩ := h
  refine ⟨⟨?_, ?_, ?_, ?_⟩, ?_, List.drop_drop⟩
  · simp only [List.length_take, List.length_drop]
    omega
  · exact Nat.le_of_not_gt h2
  · exact H2FrameType.ofCode_code_ofCode _
  · exact Nat.mod_lt _ (by decide)
  · simp only [List.length_drop]
    omega

/-- The front of a buffer that holds a frame header decides as it does in a longer buffer. -/
theorem header_append {buf : Bytes} (h : frameHeaderSize ≤ buf.length) (d : Bytes) :
    (buf ++ d).take 3 = buf.take 3 ∧ (buf ++ d).getD 3 0 = buf.getD 3 0 ∧
      (buf ++ d).getD 4 0 = buf.getD 4 0 ∧
      ((buf ++ d).drop 5).take 4 = (buf.drop 5).take 4 ∧
      (buf ++ d).drop frameHeaderSize = buf.drop frameHeaderSize ++ d := by
  unfold frameHeaderSize at h ⊢
  refine ⟨List.take_append_of_le_length (by omega), ?_, ?_, ?_,
    List.drop_append_of_le_length (by omega)⟩
  · rw [List.getD_eq_getElem?_getD, List.getElem?_append_left (by omega),
      List.getD_eq_getElem?_getD]
  · rw [List.getD_eq_getElem?_getD, List.getElem?_append_left (by omega),
      List.getD_eq_getElem?_getD]
  · rw [List.drop_append_of_le_length (by omega),
      List.take_append_of_le_length (by rw [List.length_drop]; omega)]

theorem readFrame_append {buf rest : Bytes} {limit : Nat} {f : H2Frame} (d : Bytes)
    (h : readFrame buf limit = .ok (f, rest)) :
    readFrame (buf ++ d) limit = .ok (f, rest ++ d) := by
  simp only [readFrame] at h ⊢
  split_ifs at h with h1 h2 h3
  obtain ⟨e1, e2, e3, e4, e5⟩ := header_append (Nat.le_of_not_lt h1) d
  simp only [Except.ok.injEq, Prod.mk.injEq] at h
  obtain ⟨rfl, rfl⟩ := h
  have hlen : beNat (buf.take 3) ≤ (buf.drop frameHeaderSize).length := by
    rw [List.length_drop]
    omega
  rw [e1, e2, e3, e4, e5, if_neg (by rw [List.length_append]; omega), if_neg h2,
    if_neg (by rw [List.length_append]; omega), List.take_append_of_le_length hlen,
    List.drop_append_of_le_length hlen]

theorem readFrame_error_append {buf : Bytes} {limit : Nat} (d : Bytes)
    (h : readFrame buf limit = .error .error) : readFrame (buf ++ d) limit = .error .error := by
  simp only [readFrame] at h ⊢
  have h1 : ¬ buf.length < frameHeaderSize := fun h1 => by
    rw [if_pos h1] at h
    cases h
  obtain ⟨e1, -⟩ := header_append (Nat.le_of_not_lt h1) d
  rw [if_neg h1] at h
  rw [e1, if_neg (by rw [List.length_append]; omega)]
  by_cases h2 : beNat (buf.take 3) > limit
  · rw [if_pos h2]
  · rw [if_neg h2] at h
    split_ifs at h
    all_goals cases h

theorem readFrame_ne_complete (buf : Bytes) (limit : Nat) :
    readFrame buf limit ≠ .error .complete := by
  simp only [readFrame]
  split_ifs <;> simp

/-! ## Writing -/

theorem writeFrame_ok {length streamId : Nat} (hl : length < 2 ^ 24) (hid : streamId < 2 ^ 31)
    (buf : Bytes) (type : H2FrameType) (flags : UInt8) (payload : Bytes) :
    writeFrame buf length type flags streamId payload =
      (.ok (), buf ++ frameBytes ⟨length, type, flags, streamId, payload⟩) := by
  have hbad : ¬ (length > 0x00ffffff ∨ 2 ^ 31 ≤ streamId) := by omega
  simp only [writeFrame, writeFrameHeader, if_neg hbad, frameBytes, List.append_assoc]

/-- The frame of `write_headers`. -/
def blockFrame (streamId : Nat) (headerBlock : Bytes) (endStream : Bool) : H2Frame :=
  ⟨headerBlock.length, .headers,
    H2Flags.endHeaders ||| (if endStream then H2Flags.endStream else 0), streamId, headerBlock⟩

theorem blockFrame_endStream (streamId : Nat) (headerBlock : Bytes) (endStream : Bool) :
    (blockFrame streamId headerBlock endStream).has H2Flags.endStream = endStream := by
  unfold H2Frame.has blockFrame
  cases endStream <;> simp only <;> decide

/-- **`write_headers`** appends its frame. -/
theorem writeHeaders_ok {streamId maxFrameSize : Nat} {headerBlock : Bytes} (hpos : 0 < streamId)
    (hid : streamId < 2 ^ 31) (hlen : headerBlock.length ≤ maxFrameSize)
    (hmax : maxFrameSize < 2 ^ 24) (buf : Bytes) (endStream : Bool) :
    writeHeaders buf streamId headerBlock endStream maxFrameSize =
      (.ok (), buf ++ frameBytes (blockFrame streamId headerBlock endStream)) := by
  rw [writeHeaders, if_neg (by omega), writeFrame_ok (by omega) hid]
  rfl

/-- `write_headers` refuses the stream 0, ids and blocks that are too large. -/
theorem writeHeaders_error {streamId maxFrameSize : Nat} {headerBlock : Bytes}
    (h : ¬ (0 < streamId ∧ streamId < 2 ^ 31 ∧ headerBlock.length ≤ maxFrameSize)) (buf : Bytes)
    (endStream : Bool) :
    ∃ e, writeHeaders buf streamId headerBlock endStream maxFrameSize = (.error e, buf) := by
  unfold writeHeaders
  by_cases hbad : streamId = 0 ∨ headerBlock.length > maxFrameSize
  · rw [if_pos hbad]
    exact ⟨_, rfl⟩
  · have hid : headerBlock.length > 0x00ffffff ∨ 2 ^ 31 ≤ streamId := by omega
    simp only [if_neg hbad, writeFrame, writeFrameHeader, if_pos hid]
    exact ⟨_, rfl⟩

/-- The frames of `write_data`. -/
def dataFrames (streamId : Nat) (endStream : Bool) (maxFrameSize : Nat) :
    Nat → Bytes → List H2Frame
  | 0, _ => []
  | fuel + 1, data =>
    if data = [] then []
    else
      ⟨(data.take maxFrameSize).length, .data,
          if endStream && data.length ≤ maxFrameSize then H2Flags.endStream else 0, streamId,
          data.take maxFrameSize⟩ ::
        dataFrames streamId endStream maxFrameSize fuel (data.drop maxFrameSize)

section DataFrames

variable {streamId maxFrameSize : Nat} {endStream : Bool}

/-- A chunk of `write_data` is what a frame takes at most. -/
theorem chunk_eq (data : Bytes) (maxFrameSize : Nat) :
    min maxFrameSize data.length = (data.take maxFrameSize).length ∧
      data.take (min maxFrameSize data.length) = data.take maxFrameSize ∧
      data.drop (min maxFrameSize data.length) = data.drop maxFrameSize ∧
      (min maxFrameSize data.length == data.length) = decide (data.length ≤ maxFrameSize) := by
  refine ⟨List.length_take.symm, ?_, ?_, ?_⟩
  · rw [← List.take_take, List.take_length]
  · rcases Nat.le_total maxFrameSize data.length with h | h
    · rw [Nat.min_eq_left h]
    · rw [Nat.min_eq_right h, List.drop_length, List.drop_of_length_le h]
  · rw [Bool.eq_iff_iff, beq_iff_eq, decide_eq_true_iff]
    omega

theorem writeDataLoop_ok (hid : streamId < 2 ^ 31) (hmax : maxFrameSize < 2 ^ 24) :
    ∀ (fuel : Nat) (buf data : Bytes),
      writeDataLoop streamId endStream maxFrameSize fuel buf data =
        (.ok (), buf ++ (dataFrames streamId endStream maxFrameSize fuel data).flatMap frameBytes)
  | 0, buf, data => by rw [dataFrames, List.flatMap_nil, List.append_nil]; rfl
  | fuel + 1, buf, data => by
    rw [writeDataLoop, dataFrames]
    by_cases h0 : data = []
    · rw [if_pos h0, if_pos h0, List.flatMap_nil, List.append_nil]
    · obtain ⟨e1, e2, e3, e4⟩ := chunk_eq data maxFrameSize
      have hchunk : (data.take maxFrameSize).length < 2 ^ 24 := by omega
      simp only [if_neg h0, e2, e3, e4]
      simp only [e1, writeFrame_ok hchunk hid, writeDataLoop_ok hid hmax fuel, List.flatMap_cons,
        List.append_assoc]

/-- **`write_data`** appends its frames. -/
theorem writeData_ok (hpos : 0 < streamId) (hid : streamId < 2 ^ 31) (hmax0 : 0 < maxFrameSize)
    (hmax : maxFrameSize < 2 ^ 24) (buf data : Bytes) :
    writeData buf streamId data endStream maxFrameSize = (.ok (), buf ++
      (dataFrames streamId endStream maxFrameSize data.length data).flatMap frameBytes) := by
  rw [writeData, if_neg (by omega), writeDataLoop_ok hid hmax]

theorem dataFrames_fits (hid : streamId < 2 ^ 31) : ∀ (fuel : Nat) (data : Bytes),
    ∀ f ∈ dataFrames streamId endStream maxFrameSize fuel data,
      f.Fits maxFrameSize ∧ f.type = .data ∧ f.streamId = streamId
  | 0, _, f, hf => absurd hf List.not_mem_nil
  | fuel + 1, data, f, hf => by
    rw [dataFrames] at hf
    by_cases h0 : data = []
    · rw [if_pos h0] at hf
      exact absurd hf List.not_mem_nil
    · rw [if_neg h0] at hf
      rcases List.mem_cons.mp hf with rfl | hf
      · exact ⟨⟨rfl, List.length_take_le _ _, rfl, hid⟩, rfl, rfl⟩
      · exact dataFrames_fits hid fuel _ f hf

/-- The payloads make up the data. -/
theorem dataFrames_payload (hmax : 0 < maxFrameSize) : ∀ {fuel : Nat} {data : Bytes},
    data.length ≤ fuel →
      (dataFrames streamId endStream maxFrameSize fuel data).flatMap H2Frame.payload = data
  | 0, data, h => by
    rw [List.length_eq_zero_iff.mp (Nat.le_zero.mp h)]
    rfl
  | fuel + 1, data, h => by
    rw [dataFrames]
    by_cases h0 : data = []
    · rw [if_pos h0, h0]
      rfl
    · have hpos : 0 < data.length := List.length_pos_iff.mpr h0
      rw [if_neg h0, List.flatMap_cons, dataFrames_payload hmax (by rw [List.length_drop]; omega)]
      exact List.take_append_drop _ _

/-- Flags stand on the last frame only. -/
theorem dataFrames_last (hmax : 0 < maxFrameSize) : ∀ {fuel : Nat} {data : Bytes},
    data ≠ [] → data.length ≤ fuel →
      ∃ fs f, dataFrames streamId endStream maxFrameSize fuel data = fs ++ [f] ∧
        (f.flags = if endStream then H2Flags.endStream else 0) ∧ ∀ g ∈ fs, g.flags = 0
  | 0, data, h0, h => absurd (List.length_eq_zero_iff.mp (Nat.le_zero.mp h)) h0
  | fuel + 1, data, h0, h => by
    have hpos : 0 < data.length := List.length_pos_iff.mpr h0
    rw [dataFrames, if_neg h0]
    by_cases hlast : data.length ≤ maxFrameSize
    · -- one frame takes all that is left
      refine ⟨[], ⟨(data.take maxFrameSize).length, .data,
        if endStream then H2Flags.endStream else 0, streamId, data.take maxFrameSize⟩, ?_, rfl,
        List.forall_mem_nil _⟩
      have hnil : dataFrames streamId endStream maxFrameSize fuel [] = [] := by cases fuel <;> rfl
      rw [List.drop_of_length_le hlast, hnil, decide_eq_true hlast, Bool.and_true]
      rfl
    · have hne : data.drop maxFrameSize ≠ [] := by
        rw [← List.length_pos_iff, List.length_drop]
        omega
      obtain ⟨fs, f, hfs, hf, hall⟩ := @dataFrames_last hmax fuel _ hne
        (by rw [List.length_drop]; omega)
      refine ⟨_ :: fs, f, by rw [hfs]; rfl, hf, fun g hg => ?_⟩
      rcases List.mem_cons.mp hg with rfl | hg
      · simp [hlast]
      · exact hall g hg

/-- `END_STREAM` stands on the last frame, and only there. -/
theorem dataFrames_flags (hmax : 0 < maxFrameSize) {fuel : Nat} {data : Bytes} (h0 : data ≠ [])
    (h : data.length ≤ fuel) :
    ∃ fs f, dataFrames streamId true maxFrameSize fuel data = fs ++ [f] ∧
      f.flags = H2Flags.endStream ∧ ∀ g ∈ fs, g.flags = 0 :=
  dataFrames_last hmax h0 h

end DataFrames

/-! ## Frames in a buffer -/

/-- The frames `read_frame` returns one after the other. -/
def framesLoop (limit : Nat) : Nat → Bytes → List H2Frame
  | 0, _ => []
  | fuel + 1, buf =>
    match readFrame buf limit with
    | .error _ => []
    | .ok (f, rest) => f :: framesLoop limit fuel rest

/-- The frames at the front of a buffer, read with the largest limit. -/
def framesIn (buf : Bytes) : List H2Frame := framesLoop 0x00ffffff buf.length buf

theorem framesLoop_flatMap {limit : Nat} (hl : limit < 2 ^ 24) {fs : List H2Frame}
    (h : ∀ f ∈ fs, f.Fits limit) {fuel : Nat}
    (hfuel : (fs.flatMap frameBytes).length ≤ fuel) :
    framesLoop limit fuel (fs.flatMap frameBytes) = fs := by
  induction fs generalizing fuel with
  | nil =>
    cases fuel with
    | zero => rfl
    | succ fuel => rfl
  | cons f fs ih =>
    rw [List.flatMap_cons, List.length_append] at hfuel
    have hpos : 0 < (frameBytes f).length := by simp [frameBytes, frameHeader]
    cases fuel with
    | zero => omega
    | succ fuel =>
      rw [List.flatMap_cons, framesLoop, readFrame_frameBytes (h f List.mem_cons_self) hl]
      simp only
      rw [ih (fun g hg => h g (List.mem_cons_of_mem f hg)) (by omega)]

/-- **Written frames are read back**, in order. -/
theorem framesIn_flatMap {fs : List H2Frame} (h : ∀ f ∈ fs, f.Fits 0x00ffffff) :
    framesIn (fs.flatMap frameBytes) = fs :=
  framesLoop_flatMap (by decide) h (Nat.le_refl _)

end Uproxy
