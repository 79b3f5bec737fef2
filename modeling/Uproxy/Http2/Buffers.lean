import Uproxy.Buffer.Writer
import Uproxy.Http2.Run
import Uproxy.Http2.Writer

/-!
# HTTP/2 on ring buffers

The model of a connection (`H2Conn`) has the bytes of its buffers where the code has ring buffers:
`recv_buf_`, `send_buf_` and the `recv_buf` of each stream. Here are the functions that touch a ring
buffer, on ring buffers and with every single `append`, `peek` and `commit_read` (namespace `Ring`),
and that the bytes of the model are what the ring buffers hold.

* `Ring.readFrame_spec`: `read_frame`;
* `WriterCall.writeRing_refines`: all functions of `H2FrameWriter`;
* `Ring.encode_spec`, `Ring.sendResponse_spec`: the encoder and `send_response`;
* `handleFrame_move`: what `handle_frame` does to the buffers (`H2Core.BufferMove`);
* `H2Buffers.process_spec`: `process`, by a step for each frame;
* **`buffers_hold`**: in every run of a connection the ring buffers hold the bytes of the model.

Bytes that are in the receive buffer pay for what is written and stored when they are processed
(`Bounded`): a frame of `9 + n` bytes is answered with at most 17, and adds at most `n` to a body.
-/

namespace Uproxy

open Lib.Run

/-! ## Frames -/

namespace Ring

open RingBuffer

/-- `H2FrameReader::read_frame`: the frame and the buffer behind it. -/
def readFrame (buf : RingBuffer) (maxFrameSize : Nat) : Except ParseResult (H2Frame × RingBuffer) :=
  if buf.readable < frameHeaderSize then .error .incomplete
  else
    let h := buf.peek frameHeaderSize
    let len := beNat (h.take 3)
    if len > maxFrameSize then .error .error
    else if buf.readable < frameHeaderSize + len then .error .incomplete
    else
      let rest := buf.commitRead frameHeaderSize
      .ok ({ length := len
             type := .ofCode (h.getD 3 0)
             flags := h.getD 4 0
             streamId := beNat ((h.drop 5).take 4) % 2 ^ 31
             payload := rest.peek len },
        rest.commitRead len)

/-- `write_frame_header`. -/
def writeFrameHeader (length : Nat) (type : H2FrameType) (flags : UInt8) (streamId : Nat) :
    Writer := fun buf =>
  if length > 0x00ffffff ∨ 2 ^ 31 ≤ streamId then
    some (.error (http2Error "invalid frame header"), buf)
  else buf.append (frameHeader length type flags streamId)

/-- `append_u32`. -/
def appendU32 (v : Nat) : Writer := fun buf => buf.append (u32 v)

/-- The loop of `write_settings`. -/
def appendSettings : List (H2Setting × Nat) → Writer
  | [] => fun buf => some (.ok (), buf)
  | s :: ss =>
    andThen (fun buf => buf.append ([byte s.1.code 8, byte s.1.code 0] ++ u32 s.2))
      (appendSettings ss)

def writeSettings (settings : List (H2Setting × Nat)) : Writer :=
  andThen (writeFrameHeader (settings.length * 6 % 2 ^ 32) .settings 0 0) (appendSettings settings)

def writeSettingsAck : Writer := writeFrameHeader 0 .settings H2Flags.ack 0

def writePing (data : Nat) (ack : Bool) : Writer :=
  andThen (writeFrameHeader 8 .ping (if ack then H2Flags.ack else 0) 0) fun buf =>
    buf.append [byte data 56, byte data 48, byte data 40, byte data 32, byte data 24, byte data 16,
      byte data 8, byte data 0]

def writeWindowUpdate (streamId increment : Nat) : Writer := fun buf =>
  if increment = 0 ∨ increment > 0x7fffffff then
    some (.error (http2Error "invalid window increment"), buf)
  else andThen (writeFrameHeader 4 .windowUpdate 0 streamId) (appendU32 increment) buf

def writeGoaway (lastStreamId : Nat) (error : H2Error) (debugData : Bytes) : Writer :=
  andThen (writeFrameHeader ((8 + debugData.length) % 2 ^ 32) .goaway 0 0)
    (andThen (andThen (appendU32 (lastStreamId % 2 ^ 31)) (appendU32 error.code)) fun buf =>
      buf.append debugData)

def writeRstStream (streamId : Nat) (error : H2Error) : Writer := fun buf =>
  if streamId = 0 then some (.error (http2Error "RST_STREAM on stream 0"), buf)
  else andThen (writeFrameHeader 4 .rstStream 0 streamId) (appendU32 error.code) buf

def writeHeaders (streamId : Nat) (headerBlock : Bytes) (endStream : Bool) (maxFrameSize : Nat) :
    Writer := fun buf =>
  if streamId = 0 ∨ headerBlock.length > maxFrameSize then
    some (.error (http2Error "invalid HEADERS frame"), buf)
  else
    andThen (writeFrameHeader headerBlock.length .headers
      (H2Flags.endHeaders ||| if endStream then H2Flags.endStream else 0) streamId)
      (fun buf => buf.append headerBlock) buf

/-- The loop of `write_data`. -/
def writeDataLoop (streamId : Nat) (endStream : Bool) (maxFrameSize : Nat) : Nat → Bytes → Writer
  | 0, _ => fun buf => some (.ok (), buf)
  | fuel + 1, data => fun buf =>
    if data = [] then some (.ok (), buf)
    else
      let chunk := min maxFrameSize data.length
      let finalChunk := endStream && chunk == data.length
      andThen
        (andThen
          (writeFrameHeader chunk .data (if finalChunk then H2Flags.endStream else 0) streamId)
          fun buf => buf.append (data.take chunk))
        (writeDataLoop streamId endStream maxFrameSize fuel (data.drop chunk)) buf

def writeData (streamId : Nat) (data : Bytes) (endStream : Bool) (maxFrameSize : Nat) : Writer :=
  fun buf =>
    if streamId = 0 ∨ maxFrameSize = 0 then some (.error (http2Error "invalid DATA frame"), buf)
    else writeDataLoop streamId endStream maxFrameSize data.length data buf

/-- **`read_frame`** takes the frame off the ring buffer that stands at the front of its bytes. -/
theorem readFrame_spec {n : Nat} {buf : RingBuffer} {d : Bytes} (h : Stores n buf d)
    (maxFrameSize : Nat) :
    (∃ e, readFrame buf maxFrameSize = .error e ∧ Uproxy.readFrame d maxFrameSize = .error e) ∨
      ∃ f rest d', readFrame buf maxFrameSize = .ok (f, rest) ∧ Stores n rest d' ∧
        Uproxy.readFrame d maxFrameSize = .ok (f, d') := by
  have hsize : buf.readable = d.length := h.size_eq
  have h9 := h.commitRead frameHeaderSize
  -- the nine bytes that are looked at are those of the front
  have h3 : (buf.peek frameHeaderSize).take 3 = d.take 3 := by
    rw [h.peek, List.take_take]
    rfl
  have hget : ∀ i < 9, (buf.peek frameHeaderSize).getD i 0 = d.getD i 0 := by
    intro i hi
    rw [h.peek, frameHeaderSize, List.getD_eq_getElem?_getD, List.getElem?_take_of_lt hi,
      List.getD_eq_getElem?_getD]
  have h5 : ((buf.peek frameHeaderSize).drop 5).take 4 = (d.drop 5).take 4 := by
    rw [h.peek, List.drop_take, List.take_take]
    rfl
  unfold readFrame Uproxy.readFrame
  simp only [hsize, h3, h5, hget 3 (by decide), hget 4 (by decide), h9.peek]
  split_ifs
  · exact Or.inl ⟨_, rfl, rfl⟩
  · exact Or.inl ⟨_, rfl, rfl⟩
  · exact Or.inl ⟨_, rfl, rfl⟩
  · exact Or.inr ⟨_, _, _, rfl, h9.commitRead _, rfl⟩

theorem writeFrameHeader_refines (length : Nat) (type : H2FrameType) (flags : UInt8)
    (streamId : Nat) :
    Refines (writeFrameHeader length type flags streamId)
      (fun d => Uproxy.writeFrameHeader d length type flags streamId) 9 :=
  Refines.ite (fun _ => .fail _ 9) fun _ => Refines.append (frameHeader length type flags streamId)

/-- A frame, whose payload may be appended in pieces. -/
theorem writeFrame_refines {w : Writer} {payload : Bytes} (h : Adds w payload) (length : Nat)
    (type : H2FrameType) (flags : UInt8) (streamId : Nat) :
    Refines (andThen (writeFrameHeader length type flags streamId) w)
      (fun d => writeFrame d length type flags streamId payload) (9 + payload.length) :=
  (writeFrameHeader_refines length type flags streamId).andThen h

theorem appendSettings_adds : ∀ settings : List (H2Setting × Nat),
    Adds (appendSettings settings)
      (settings.flatMap fun s => [byte s.1.code 8, byte s.1.code 0] ++ u32 s.2)
  | [] => .done
  | _ :: ss => (Adds.append _).andThen (appendSettings_adds ss)

theorem writeDataLoop_refines (streamId : Nat) (endStream : Bool) {maxFrameSize : Nat}
    (hmax : 0 < maxFrameSize) : ∀ (fuel : Nat) (data : Bytes),
    Refines (writeDataLoop streamId endStream maxFrameSize fuel data)
      (fun d => Uproxy.writeDataLoop streamId endStream maxFrameSize fuel d data) (10 * data.length)
  | 0, data => .done _
  | fuel + 1, data => by
    refine Refines.ite (fun _ => .done _) fun hne => ?_
    have hpos : 0 < data.length := List.length_pos_iff.mpr hne
    -- every chunk has a byte, which pays for the nine of its header
    refine ((writeFrame_refines (Adds.append (data.take (min maxFrameSize data.length))) _ _ _
      streamId).andThen (writeDataLoop_refines streamId endStream hmax fuel
        (data.drop (min maxFrameSize data.length)))).mono ?_
    rw [List.length_take, List.length_drop]
    omega

end Ring

namespace WriterCall

open RingBuffer

/-- The call on a ring buffer. -/
def writeRing : WriterCall → Writer
  | .settings s => Ring.writeSettings s
  | .settingsAck => Ring.writeSettingsAck
  | .ping value ack => Ring.writePing value ack
  | .windowUpdate streamId increment => Ring.writeWindowUpdate streamId increment
  | .goaway lastStreamId error debugData => Ring.writeGoaway lastStreamId error debugData
  | .rstStream streamId error => Ring.writeRstStream streamId error
  | .headers streamId headerBlock endStream maxFrameSize =>
    Ring.writeHeaders streamId headerBlock endStream maxFrameSize
  | .data streamId bytes endStream maxFrameSize =>
    Ring.writeData streamId bytes endStream maxFrameSize

/-- A bound on the bytes a call writes. -/
def cost : WriterCall → Nat
  | .settings s => 9 + 6 * s.length
  | .settingsAck => 9
  | .ping _ _ => 17
  | .windowUpdate _ _ => 13
  | .goaway _ _ debugData => 17 + debugData.length
  | .rstStream _ _ => 13
  | .headers _ headerBlock _ _ => 9 + headerBlock.length
  | .data _ bytes _ _ => 10 * bytes.length

/-- **The functions of `H2FrameWriter`** write to a ring buffer what they write to its bytes. -/
theorem writeRing_refines (call : WriterCall) :
    Refines call.writeRing (fun d => call.write d) call.cost := by
  cases call with
  | settings s =>
    refine (Ring.writeFrame_refines (Ring.appendSettings_adds s) _ _ _ _).mono ?_
    have hlen : (s.flatMap fun s => [byte s.1.code 8, byte s.1.code 0] ++ u32 s.2).length =
        6 * s.length := by
      simp [List.length_flatMap, u32, Nat.mul_comm]
    rw [hlen]
    rfl
  | settingsAck => exact Ring.writeFrameHeader_refines 0 .settings H2Flags.ack 0
  | ping value ack => exact Ring.writeFrame_refines (.append _) _ _ _ _
  | windowUpdate streamId increment =>
    exact .ite (fun _ => .fail _ _) fun _ => Ring.writeFrame_refines (.append _) _ _ _ _
  | goaway lastStreamId error debugData =>
    refine (Ring.writeFrame_refines (((Adds.append _).andThen (.append _)).andThen
      (.append debugData)) _ _ _ _).mono ?_
    rw [List.length_append]
    show 9 + (8 + debugData.length) ≤ 17 + debugData.length
    omega
  | rstStream streamId error =>
    exact .ite (fun _ => .fail _ _) fun _ => Ring.writeFrame_refines (.append _) _ _ _ _
  | headers streamId headerBlock endStream maxFrameSize =>
    exact .ite (fun _ => .fail _ _) fun _ => Ring.writeFrame_refines (.append _) _ _ _ _
  | data streamId bytes endStream maxFrameSize =>
    refine .ite (fun _ => .fail _ _) fun h => ?_
    exact Ring.writeDataLoop_refines _ _ (Nat.pos_of_ne_zero fun h0 => h (Or.inr h0)) _ _

end WriterCall

/-! ## Header blocks -/

namespace Ring

open RingBuffer

/-- The loop of `encode_int`, which appends byte by byte. -/
def encodeIntTail : Nat → Nat → Writer
  | 0, v => fun out => out.append [v.toUInt8]
  | fuel + 1, v =>
    if v < 128 then fun out => out.append [v.toUInt8]
    else
      andThen (fun out => out.append [(v % 128 + 128).toUInt8]) (encodeIntTail fuel (v / 128))

/-- `encode_int`. -/
def encodeInt (value prefixBits : Nat) (lead : UInt8) : Writer :=
  let maxPrefix := 2 ^ prefixBits - 1
  if value < maxPrefix then fun out => out.append [lead ||| value.toUInt8]
  else
    andThen (fun out => out.append [lead ||| maxPrefix.toUInt8])
      (encodeIntTail (value - maxPrefix) (value - maxPrefix))

/-- `encode_string`. -/
def encodeString (s : Bytes) : Writer :=
  if huffmanBytes s < s.length then
    andThen (encodeInt (huffmanBytes s) 7 0x80) fun out => out.append (huffmanEncode s)
  else andThen (encodeInt s.length 7 0x00) fun out => out.append s

/-- What `HpackEncoder::encode` writes for one header. -/
def encodeHeader (h : HpackHeader) : Writer :=
  andThen (encodeInt 0 (if isSensitive h then 4 else 6) (if isSensitive h then 0x10 else 0x40))
    (andThen (encodeString h.name) (encodeString h.value))

/-- `HpackEncoder::encode`. -/
def encode (t : HpackEncoder) : List HpackHeader → RingBuffer →
    Option (Result Unit × HpackEncoder × RingBuffer)
  | [], out => some (.ok (), t, out)
  | h :: hs, out =>
    if hasUppercase h.name then some (.error (hpackError "uppercase HTTP/2 header name"), t, out)
    else
      match encodeHeader h out with
      | none => none
      | some (.error e, out) => some (.error e, t, out)
      | some (.ok (), out) => encode (if isSensitive h then t else t.addToDynamic h) hs out

theorem encodeIntTail_adds : ∀ fuel v : Nat,
    Adds (encodeIntTail fuel v) (Uproxy.encodeIntTail fuel v)
  | 0, v => .append _
  | fuel + 1, v => by
    unfold encodeIntTail Uproxy.encodeIntTail
    split_ifs
    · exact .append _
    · exact (Adds.append _).andThen (encodeIntTail_adds fuel (v / 128))

theorem encodeInt_adds (value prefixBits : Nat) (lead : UInt8) :
    Adds (encodeInt value prefixBits lead) (Uproxy.encodeInt value prefixBits lead) := by
  unfold encodeInt Uproxy.encodeInt
  simp only
  split_ifs
  · exact .append _
  · exact (Adds.append _).andThen (encodeIntTail_adds _ _)

theorem encodeString_adds (s : Bytes) : Adds (encodeString s) (Uproxy.encodeString s) := by
  unfold encodeString Uproxy.encodeString
  split_ifs
  · exact (encodeInt_adds _ _ _).andThen (.append _)
  · exact (encodeInt_adds _ _ _).andThen (.append _)

theorem encodeHeader_adds (h : HpackHeader) : Adds (encodeHeader h) (Uproxy.encodeHeader h) :=
  (encodeInt_adds _ _ _).andThen ((encodeString_adds h.name).andThen (encodeString_adds h.value))

/-- **`encode`** writes the block of the model and leaves its table. -/
theorem encode_spec {n : Nat} (hn : n < 2 ^ 62) : ∀ (hs : List HpackHeader) (t : HpackEncoder)
    {out : RingBuffer} {d : Bytes}, Stores n out d →
    d.length + (hs.flatMap Uproxy.encodeHeader).length ≤ n →
    ∃ out', encode t hs out = some ((Uproxy.encode t hs d).1, (Uproxy.encode t hs d).2.1, out') ∧
      Stores n out' (Uproxy.encode t hs d).2.2 ∧
      (Uproxy.encode t hs d).2.2.length ≤ d.length + (hs.flatMap Uproxy.encodeHeader).length
  | [], t, out, d, h, _ => ⟨out, rfl, h, Nat.le_add_right _ _⟩
  | x :: hs, t, out, d, h, hfit => by
    rw [List.flatMap_cons, List.length_append] at hfit ⊢
    unfold encode Uproxy.encode
    by_cases hup : hasUppercase x.name = true
    · rw [if_pos hup, if_pos hup]
      exact ⟨out, rfl, h, Nat.le_add_right _ _⟩
    · obtain ⟨out₁, heq, h₁⟩ := (encodeHeader_adds x).stores hn h (by omega)
      rw [if_neg hup, if_neg hup, heq]
      obtain ⟨out', heq', h', hlen⟩ := encode_spec hn hs _ h₁ (by rw [List.length_append]; omega)
      rw [List.length_append] at hlen
      exact ⟨out', heq', h', by omega⟩

/-- What `send_response` writes behind the encoder. -/
def responseWriter (id : Nat) (block body : Bytes) (endStream : Bool) : Writer :=
  andThen (writeHeaders id block (body.isEmpty && endStream) h2MaxFrameSize) fun buf =>
    if body = [] then some (.ok (), buf) else writeData id body endStream h2MaxFrameSize buf

/-- `send_response`, of which the table of the encoder and the send buffer are left. -/
def sendResponse (t : HpackEncoder) (sendBuf : RingBuffer) (id : Nat) (headers : List HpackHeader)
    (body : Bytes) (endStream : Bool) : Option (Result Unit × HpackEncoder × RingBuffer) :=
  match encode t headers (.new 4096) with
  | none => none
  | some (.error e, t, _) => some (.error e, t, sendBuf)
  | some (.ok (), t, encoded) =>
    (responseWriter id (encoded.peek encoded.readable) body endStream sendBuf).map fun p =>
      (p.1, t, p.2)

/-- A bound on the bytes a response takes. -/
def responseCost (headers : List HpackHeader) (body : Bytes) : Nat :=
  9 + (headers.flatMap Uproxy.encodeHeader).length + 10 * body.length

theorem responseWriter_refines (id : Nat) (block body : Bytes) (endStream : Bool) :
    Refines (responseWriter id block body endStream)
      (Queue.andThen
        (fun d => Uproxy.writeHeaders d id block (body.isEmpty && endStream) h2MaxFrameSize)
        fun d => if body = [] then (.ok (), d)
          else Uproxy.writeData d id body endStream h2MaxFrameSize)
      (9 + block.length + 10 * body.length) :=
  (WriterCall.writeRing_refines (.headers id block (body.isEmpty && endStream)
    h2MaxFrameSize)).andThen (.ite (fun _ => .done _) fun _ =>
      WriterCall.writeRing_refines (.data id body endStream h2MaxFrameSize))

/-- **`send_response`** writes to the ring buffer what the model writes. -/
theorem sendResponse_spec {n : Nat} (hn : n < 2 ^ 62) (c : H2Core) {sendBuf : RingBuffer}
    (h : Stores n sendBuf c.sendBuf) (id : Nat) (headers : List HpackHeader) (body : Bytes)
    (endStream : Bool) (hfit : c.sendBuf.length + responseCost headers body ≤ n) :
    ∃ sendBuf', sendResponse c.hpackEnc sendBuf id headers body endStream =
        some ((c.sendResponse id headers body endStream).1,
          (c.sendResponse id headers body endStream).2.hpackEnc, sendBuf') ∧
      Stores n sendBuf' (c.sendResponse id headers body endStream).2.sendBuf ∧
      (c.sendResponse id headers body endStream).2.sendBuf.length ≤
        c.sendBuf.length + responseCost headers body := by
  unfold responseCost at hfit ⊢
  obtain ⟨encoded, heq, hblock, hlen⟩ := encode_spec hn headers c.hpackEnc
    (stores_new n (by decide : 4096 ≤ 65536)) (by rw [List.length_nil]; omega)
  unfold sendResponse H2Core.sendResponse
  rw [heq]
  generalize Uproxy.encode c.hpackEnc headers [] = r at hblock hlen ⊢
  obtain ⟨e | _, t, block⟩ := r <;> simp only [List.length_nil, Nat.zero_add] at hblock hlen
  · exact ⟨sendBuf, rfl, h, by simp only; omega⟩
  · obtain ⟨sendBuf', hw, h', hlen'⟩ :=
      responseWriter_refines id block body endStream hn h (by omega)
    simp only [hblock.peek_readable, hw, Option.map_some]
    refine ⟨sendBuf', ?_⟩
    simp only [Queue.andThen] at h' hlen' ⊢
    generalize Uproxy.writeHeaders c.sendBuf id block (body.isEmpty && endStream)
      h2MaxFrameSize = r at h' hlen' ⊢
    obtain ⟨e | _, d⟩ := r
    · exact ⟨rfl, h', by simp only at hlen' ⊢; omega⟩
    · by_cases hbody : body = []
      · simp only [if_pos hbody] at h' hlen' ⊢
        exact ⟨trivial, h', by omega⟩
      · simp only [if_neg hbody] at h' hlen' ⊢
        exact ⟨trivial, h', by omega⟩

end Ring

/-! ## What a frame does to the buffers -/

namespace H2Core

/-- The function of `H2FrameWriter` that `handle_frame` calls. -/
def call (c : H2Core) (f : H2Frame) : Option WriterCall :=
  match f.type with
  | .settings =>
    if f.streamId ≠ 0 ∨ f.length % 6 ≠ 0 then none
    else if ¬ f.has H2Flags.ack then some .settingsAck
    else none
  | .ping =>
    if f.streamId ≠ 0 ∨ f.length ≠ 8 then none
    else if ¬ f.has H2Flags.ack then some (.ping (beNat f.payload) true)
    else none
  | .headers | .data =>
    if f.streamId = 0 then none
    else if (c.stream f.streamId).state.Ended then some (.rstStream f.streamId .streamClosed)
    else none
  | _ => none

/-- `handle_frame` appends the payload to the buffer of the stream. -/
def Collects (c : H2Core) (f : H2Frame) : Prop :=
  f.type = .data ∧ f.streamId ≠ 0 ∧
    ((c.stream f.streamId).state = .opened ∨ (c.stream f.streamId).state = .halfClosedLocal)

instance instDecidableCollects (c : H2Core) (f : H2Frame) : Decidable (c.Collects f) :=
  inferInstanceAs (Decidable (_ ∧ _ ∧ _))

/-- **What `handle_frame` does to the buffers**: it calls the writer once, appends to the body of
the stream, or touches none. -/
inductive BufferMove (c : H2Core) (f : H2Frame) (r : Result Unit) (c' : H2Core) : Prop
  | writes {call : WriterCall} (hcall : c.call f = some call) (hcost : call.cost ≤ 17)
      (hwrite : call.write c.sendBuf = (r, c'.sendBuf))
      (hbody : ∀ id, (c'.stream id).recvBuf = (c.stream id).recvBuf)
  | collects (hcall : c.call f = none) (hcollects : c.Collects f) (hok : r = .ok ())
      (hsend : c'.sendBuf = c.sendBuf)
      (hbody : ∀ id, (c'.stream id).recvBuf =
        if id = f.streamId then (c.stream id).recvBuf ++ f.payload else (c.stream id).recvBuf)
  | quiet (hcall : c.call f = none) (hcollects : ¬ c.Collects f) (hsend : c'.sendBuf = c.sendBuf)
      (hbody : ∀ id, (c'.stream id).recvBuf = (c.stream id).recvBuf)

section Move

variable {c : H2Core} {f : H2Frame}

theorem handleStreamFrame_recvBuf (c : H2Core) (f : H2Frame) (id : Nat) :
    ((c.handleStreamFrame f).2.1.stream id).recvBuf =
      if id = f.streamId then
        (streamFrame c.hpackDec (c.stream f.streamId) c.sendBuf f).stream.recvBuf
      else (c.stream id).recvBuf := by
  unfold handleStreamFrame stream setStream
  by_cases hid : id = f.streamId <;> simp [hid]

theorem not_collects_of_type (h : f.type ≠ .data) : ¬ c.Collects f := fun hc => h hc.1

/-- A frame on a stream that has ended is answered with `RST_STREAM`. -/
theorem handleStreamFrame_ended (ht : f.type = .headers ∨ f.type = .data) (h0 : f.streamId ≠ 0)
    (hs : (c.stream f.streamId).state.Ended) :
    BufferMove c f (c.handleStreamFrame f).1 (c.handleStreamFrame f).2.1 := by
  have hreset : streamFrame c.hpackDec (c.stream f.streamId) c.sendBuf f =
      resetStream c.hpackDec (c.stream f.streamId) c.sendBuf f := by
    rcases ht with ht | ht
    · rw [streamFrame_headers ht, headersFrame_ended hs]
    · rw [streamFrame_data ht, dataFrame_ended hs]
  have hcall : c.call f = some (.rstStream f.streamId .streamClosed) := by
    rcases ht with ht | ht <;> simp only [call, ht] <;> rw [if_neg h0, if_pos hs]
  refine .writes hcall (show 13 ≤ 17 by decide) ?_ fun id => ?_
  · simp only [handleStreamFrame, hreset, resetStream]
    rfl
  · rw [handleStreamFrame_recvBuf, hreset]
    split_ifs with hid
    · rw [hid]
      rfl
    · rfl

/-- A frame on a stream of which no buffer is touched. -/
theorem handleStreamFrame_quiet (hcall : c.call f = none) (hcollects : ¬ c.Collects f)
    (hsend : (streamFrame c.hpackDec (c.stream f.streamId) c.sendBuf f).sendBuf = c.sendBuf)
    (hbody : (streamFrame c.hpackDec (c.stream f.streamId) c.sendBuf f).stream.recvBuf =
      (c.stream f.streamId).recvBuf) :
    BufferMove c f (c.handleStreamFrame f).1 (c.handleStreamFrame f).2.1 := by
  refine .quiet hcall hcollects hsend fun id => ?_
  rw [handleStreamFrame_recvBuf, hbody]
  split_ifs with hid
  · rw [hid]
  · rfl

/-- A header block on a stream that has not ended. -/
theorem headersFrame_keeps {dec : HpackDecoder} {s : H2Stream} {sendBuf : Bytes}
    (hs : ¬ s.state.Ended) :
    (headersFrame dec s sendBuf f).sendBuf = sendBuf ∧
      (headersFrame dec s sendBuf f).stream.recvBuf = s.recvBuf := by
  by_cases heh : f.has H2Flags.endHeaders = true
  · rw [headersFrame_block hs heh]
    rcases decode dec f.payload s.requestHeaders with ⟨e | _, dec', headers⟩ <;> exact ⟨rfl, rfl⟩
  · rw [headersFrame_continued hs heh]
    exact ⟨rfl, rfl⟩

/-- `DATA` on a stream that takes it. -/
theorem handleStreamFrame_collects (hcall : c.call f = none) (hcollects : c.Collects f) :
    BufferMove c f (c.handleStreamFrame f).1 (c.handleStreamFrame f).2.1 := by
  have hadds : streamFrame c.hpackDec (c.stream f.streamId) c.sendBuf f = _ :=
    (streamFrame_data hcollects.1).trans (dataFrame_adds hcollects.2.2)
  refine .collects hcall hcollects ?_ ?_ fun id => ?_
  · simp only [handleStreamFrame, hadds]
  · simp only [handleStreamFrame, hadds]
  · rw [handleStreamFrame_recvBuf, hadds]
    split_ifs with hid
    · rw [hid]
    · rfl

theorem handleStreamFrame_move (h0 : f.streamId ≠ 0) (hc : ¬ f.OnConn) :
    BufferMove c f (c.handleStreamFrame f).1 (c.handleStreamFrame f).2.1 := by
  cases ht : f.type with
  | headers =>
    by_cases hs : (c.stream f.streamId).state.Ended
    · exact handleStreamFrame_ended (Or.inl ht) h0 hs
    · have hcall : c.call f = none := by
        simp only [call, ht]
        rw [if_neg h0, if_neg hs]
      refine handleStreamFrame_quiet hcall (not_collects_of_type (by simp [ht])) ?_ ?_
      · rw [streamFrame_headers ht, (headersFrame_keeps hs).1]
      · rw [streamFrame_headers ht, (headersFrame_keeps hs).2]
  | data =>
    by_cases hs : (c.stream f.streamId).state.Ended
    · exact handleStreamFrame_ended (Or.inr ht) h0 hs
    · have hcall : c.call f = none := by
        simp only [call, ht]
        rw [if_neg h0, if_neg hs]
      rcases H2StreamState.not_ended_iff.mp hs with hi | ho
      · refine handleStreamFrame_quiet hcall (fun h => ?_) ?_ ?_
        · rcases h.2.2 with h | h <;> rw [hi] at h <;> cases h
        · rw [streamFrame_data ht, dataFrame_idle hi]
        · rw [streamFrame_data ht, dataFrame_idle hi]
      · exact handleStreamFrame_collects hcall ⟨ht, h0, ho⟩
  | windowUpdate =>
    have hcall : c.call f = none := by simp only [call, ht]
    refine handleStreamFrame_quiet hcall (not_collects_of_type (by simp [ht])) ?_ ?_ <;>
      rw [streamFrame_windowUpdate ht] <;> unfold windowUpdateFrame <;> split_ifs <;> rfl
  | settings => exact absurd (Or.inl ht) hc
  | ping => exact absurd (Or.inr (Or.inl ht)) hc
  | goaway => exact absurd (Or.inr (Or.inr ht)) hc
  | _ =>
    refine handleStreamFrame_quiet (by simp only [call, ht]) (not_collects_of_type (by simp [ht]))
      ?_ ?_ <;> simp only [streamFrame, ht]

theorem handleFrame_move (c : H2Core) (f : H2Frame) :
    BufferMove c f (c.handleFrame f).1 (c.handleFrame f).2.1 := by
  by_cases hc : f.OnConn
  · have hcollects : ¬ c.Collects f := by
      rintro ⟨ht, -⟩
      rcases hc with h | h | h <;> rw [ht] at h <;> cases h
    rcases hc with ht | ht | ht
    · have hcall : c.call f = if f.streamId ≠ 0 ∨ f.length % 6 ≠ 0 then none
          else if ¬ f.has H2Flags.ack then some .settingsAck else none := by
        simp only [call, ht]
      simp only [handleFrame, ht]
      split_ifs at hcall ⊢
      · exact .quiet hcall hcollects rfl fun _ => rfl
      · exact .quiet hcall hcollects rfl fun _ => rfl
      · exact .writes hcall (show 9 ≤ 17 by decide) rfl fun _ => rfl
    · have hcall : c.call f = if f.streamId ≠ 0 ∨ f.length ≠ 8 then none
          else if ¬ f.has H2Flags.ack then some (.ping (beNat f.payload) true) else none := by
        simp only [call, ht]
      simp only [handleFrame, ht]
      split_ifs at hcall ⊢
      · exact .quiet hcall hcollects rfl fun _ => rfl
      · exact .quiet hcall hcollects rfl fun _ => rfl
      · exact .writes hcall (show 17 ≤ 17 by decide) rfl fun _ => rfl
    · simp only [handleFrame, ht]
      exact .quiet (by simp only [call, ht]) hcollects rfl fun _ => rfl
  · rw [handleFrame_onStream hc]
    split_ifs with h0
    · have hnone : c.call f = none := by
        unfold H2Frame.OnConn at hc
        unfold call
        cases ht : f.type <;> simp [ht, h0] at hc ⊢
      exact .quiet hnone (fun h => h.2.1 h0) rfl fun _ => rfl
    · exact handleStreamFrame_move h0 hc

end Move

end H2Core

/-! ## The buffers of a connection -/

/-- `recv_buf_`, `send_buf_` and the `recv_buf` of each stream. A stream that is made gets an empty
one, so every id may have its own from the start. -/
structure H2Buffers where
  recv : RingBuffer := .new 65536
  send : RingBuffer := .new 65536
  body : Nat → RingBuffer := fun _ => .new 65536

namespace H2Buffers

open RingBuffer H2Conn

def setBody (b : H2Buffers) (id : Nat) (buf : RingBuffer) : H2Buffers :=
  { b with body := fun i => if i = id then buf else b.body i }

/-- `H2Conn::H2Conn`. -/
def new (isServer : Bool) : Option H2Buffers :=
  if isServer then some {}
  else ((RingBuffer.new 65536).append h2Preface).map fun p => { send := p.2 }

/-- `handle_frame` as far as the buffers go: `c` has the other members, by which it decides. -/
def handleFrame (b : H2Buffers) (c : H2Core) (f : H2Frame) : Option (Result Unit × H2Buffers) :=
  match c.call f with
  | some call => (call.writeRing b.send).map fun p => (p.1, { b with send := p.2 })
  | none =>
    if c.Collects f then
      ((b.body f.streamId).append f.payload).map fun p => (p.1, b.setBody f.streamId p.2)
    else some ((c.handleFrame f).1, b)

/-- The loop of `process`. -/
def processLoop : Nat → H2Core → H2Buffers → List Nat →
    Option (Result (List Nat) × H2Core × H2Buffers)
  | 0, c, b, ready => some (.ok ready, c, b)
  | fuel + 1, c, b, ready =>
    match Ring.readFrame b.recv h2MaxFrameSize with
    | .error .incomplete => some (.ok ready, c, b)
    | .error _ => some (.error (http2Error "invalid HTTP/2 frame"), { c with done := true }, b)
    | .ok (f, recv) =>
      match { b with recv }.handleFrame c f with
      | none => none
      | some (.error e, b) => some (.error e, (c.handleFrame f).2.1, b)
      | some (.ok (), b) =>
        processLoop fuel (c.handleFrame f).2.1 b (ready ++ (c.handleFrame f).2.2.toList)

/-- `process`. -/
def process (b : H2Buffers) (c : H2Core) : Option (Result (List Nat) × H2Core × H2Buffers) :=
  if c.Awaits then
    if b.recv.readable < h2Preface.length then some (.ok [], c, b)
    else if b.recv.peek h2Preface.length ≠ h2Preface then
      some (.error (http2Error "invalid HTTP/2 preface"), { c with done := true }, b)
    else
      let recv := b.recv.commitRead h2Preface.length
      match Ring.writeSettings [] b.send with
      | none => none
      | some (.error e, send) => some (.error e, c.greet.2, { b with recv, send })
      | some (.ok (), send) => processLoop recv.readable c.greet.2 { b with recv, send } []
  else processLoop b.recv.readable c b []

/-- One call on the buffers. -/
def exec (b : H2Buffers) (c : H2Conn) : H2Conn.Op → Option H2Buffers
  | .feed data => (b.recv.append data).map fun p => { b with recv := p.2 }
  | .process => (b.process c.toH2Core).map fun p => p.2.2
  | .sendResponse id headers body endStream =>
    (Ring.sendResponse c.hpackEnc b.send id headers body endStream).map fun p =>
      { b with send := p.2.2 }
  | .sendWindowUpdate id increment =>
    (Ring.writeWindowUpdate id increment b.send).map fun p => { b with send := p.2 }
  | .consumeOutput n => some { b with send := b.send.commitRead n }
  | .consumeBody id n => some (b.setBody id ((b.body id).commitRead n))
  | .goaway error debugData =>
    (Ring.writeGoaway c.lastPeerStream error debugData b.send).map fun p => { b with send := p.2 }

/-- The buffers hold the bytes of the model, and never more than `n` of them. -/
structure Holds (n : Nat) (b : H2Buffers) (c : H2Conn) : Prop where
  recv : Stores n b.recv c.recvBuf
  send : Stores n b.send c.sendBuf
  body : ∀ id, Stores n (b.body id) (c.stream id).recvBuf

/-- There is room for what `process` will make of the bytes received. -/
structure Bounded (n : Nat) (c : H2Conn) : Prop where
  send : c.sendBuf.length + 2 * c.recvBuf.length ≤ n
  body : ∀ id, (c.stream id).recvBuf.length + c.recvBuf.length ≤ n

section Process

variable {n k : Nat} {b : H2Buffers} {c : H2Core} {f : H2Frame} {rest : Bytes}

/-- **`handle_frame`** on the ring buffers, with room for its answer and its payload. -/
theorem handleFrame_spec (hn : n < 2 ^ 62) (h : b.Holds n ⟨c, rest⟩)
    (hsend : c.sendBuf.length + 17 ≤ n)
    (hbody : ∀ id, (c.stream id).recvBuf.length + f.payload.length ≤ n) :
    ∃ b', b.handleFrame c f = some ((c.handleFrame f).1, b') ∧
      b'.Holds n ⟨(c.handleFrame f).2.1, rest⟩ ∧
      (c.handleFrame f).2.1.sendBuf.length ≤ c.sendBuf.length + 17 ∧
      ∀ id, ((c.handleFrame f).2.1.stream id).recvBuf.length ≤
        (c.stream id).recvBuf.length + f.payload.length := by
  unfold handleFrame
  cases c.handleFrame_move f with
  | @writes call hcall hcost hwrite hsame =>
    obtain ⟨send, heq, hs, hlen⟩ := call.writeRing_refines hn h.send (by simp only; omega)
    simp only [hwrite] at heq hs hlen
    simp only [hcall, heq, Option.map_some]
    refine ⟨_, rfl, ⟨h.recv, hs, fun id => ?_⟩, by omega, fun id => ?_⟩
    · simp only [hsame]
      exact h.body id
    · rw [hsame]
      omega
  | collects hcall hcollects hok hsame hadds =>
    obtain ⟨-, buf, heq, hs⟩ := (h.body f.streamId).append hn (hbody f.streamId)
    simp only [hcall, if_pos hcollects, heq, Option.map_some, hok]
    refine ⟨_, rfl, ⟨h.recv, by simp only [hsame]; exact h.send, fun id => ?_⟩,
      by rw [hsame]; omega, fun id => ?_⟩
    · simp only [hadds, setBody]
      split_ifs with hid
      · rw [hid]
        exact hs
      · exact h.body id
    · rw [hadds]
      split_ifs
      · exact Nat.le_of_eq List.length_append
      · omega
  | quiet hcall hcollects hsame hkeep =>
    simp only [hcall, if_neg hcollects]
    refine ⟨b, rfl, ⟨h.recv, by simp only [hsame]; exact h.send, fun id => ?_⟩,
      by rw [hsame]; omega, fun id => ?_⟩
    · simp only [hkeep]
      exact h.body id
    · rw [hkeep]
      omega

/-- **The loop of `process`** on the ring buffers. -/
theorem processLoop_spec (hn : n < 2 ^ 62) (hk : k ≤ n) : ∀ (fuel : Nat) {c : H2Core}
    {b : H2Buffers} {recv : Bytes} (ready : List Nat), b.Holds n ⟨c, recv⟩ → Bounded k ⟨c, recv⟩ →
    ∃ b', processLoop fuel c b ready =
        some ((H2Conn.processLoop fuel c recv ready).1,
          (H2Conn.processLoop fuel c recv ready).2.toH2Core, b') ∧
      b'.Holds n (H2Conn.processLoop fuel c recv ready).2 ∧
      Bounded k (H2Conn.processLoop fuel c recv ready).2
  | 0, c, b, recv, ready, h, hfit => ⟨b, rfl, h, hfit⟩
  | fuel + 1, c, b, recv, ready, h, hfit => by
    unfold processLoop H2Conn.processLoop
    rcases Ring.readFrame_spec h.recv h2MaxFrameSize with
      ⟨e, heq, hmodel⟩ | ⟨f, buf, rest, heq, hbuf, hmodel⟩
    · simp only at hmodel
      rw [heq, hmodel]
      cases e with
      | incomplete => exact ⟨b, rfl, h, hfit⟩
      | complete => exact absurd hmodel (readFrame_ne_complete _ _)
      | error => exact ⟨b, rfl, ⟨h.recv, h.send, h.body⟩, ⟨hfit.send, hfit.body⟩⟩
    · simp only at hmodel
      -- the bytes of the frame make room for what it leads to
      obtain ⟨hf, hlen, -⟩ := readFrame_ok hmodel
      have h9 : frameHeaderSize = 9 := rfl
      have hsend := hfit.send
      have hbody := hfit.body
      have hpayload := hf.length_eq
      simp only at hsend hbody
      obtain ⟨b', hframe, hb', hsend', hbody'⟩ := handleFrame_spec (f := f) hn
        (b := { b with recv := buf }) ⟨hbuf, h.send, h.body⟩ (by omega)
        fun id => by have := hbody id; omega
      rw [heq, hmodel]
      simp only [hframe]
      have hfit' : Bounded k ⟨(c.handleFrame f).2.1, rest⟩ :=
        ⟨by simp only; omega, fun id => by
          have := hbody id
          have := hbody' id
          simp only
          omega⟩
      rcases hh : c.handleFrame f with ⟨e | _, c', id⟩ <;> rw [hh] at hb' hfit'
      · exact ⟨b', rfl, hb', hfit'⟩
      · exact processLoop_spec hn hk fuel _ hb' hfit'

/-- **`process`** on the ring buffers returns what the model returns. -/
theorem process_spec (hn : n < 2 ^ 62) (hk : k ≤ n) {c : H2Conn} (h : b.Holds n c)
    (hfit : Bounded k c) :
    ∃ b', b.process c.toH2Core = some (c.process.1, c.process.2.toH2Core, b') ∧
      b'.Holds n c.process.2 ∧ Bounded k c.process.2 := by
  have hreadable : b.recv.readable = c.recvBuf.length := h.recv.size_eq
  unfold process H2Conn.process
  rw [hreadable, h.recv.peek]
  split_ifs with ha hlen hpre
  · exact ⟨b, rfl, h, hfit⟩
  · exact ⟨b, rfl, ⟨h.recv, h.send, h.body⟩, ⟨hfit.send, hfit.body⟩⟩
  · have h24 : h2Preface.length = 24 := by decide
    have hsend := hfit.send
    have hrest : (c.recvBuf.drop h2Preface.length).length = c.recvBuf.length - 24 := by
      rw [List.length_drop, h24]
    obtain ⟨send, heq, hs, hgrown⟩ := (WriterCall.settings []).writeRing_refines hn h.send
      (by simp only [WriterCall.cost, List.length_nil]; omega)
    have hcost : (WriterCall.settings []).cost = 9 := rfl
    have hwritten : Ring.writeSettings [] b.send = some (.ok (), send) := heq
    have hrecv := h.recv.commitRead h2Preface.length
    simp only [hwritten]
    rw [show (b.recv.commitRead h2Preface.length).readable = _ from hrecv.size_eq]
    refine processLoop_spec hn hk _ [] ⟨hrecv, hs, h.body⟩ ⟨?_, fun id => ?_⟩
    · show (writeSettings c.sendBuf []).2.length + 2 * (c.recvBuf.drop h2Preface.length).length ≤ k
      have : (writeSettings c.sendBuf []).2.length ≤ c.sendBuf.length + 9 := hgrown
      omega
    · have := hfit.body id
      show (c.stream id).recvBuf.length + (c.recvBuf.drop h2Preface.length).length ≤ k
      omega
  · exact processLoop_spec hn hk _ [] h hfit

/-- A bound on the bytes that a call leads to. -/
def weight : H2Conn.Op → Nat
  | .feed data => 2 * data.length
  | .sendResponse _ headers body _ => Ring.responseCost headers body
  | .sendWindowUpdate _ _ => 13
  | .goaway _ debugData => 17 + debugData.length
  | _ => 0

/-- A call that touches the send buffer only. -/
theorem Holds.sends {c : H2Conn} {core : H2Core} {send : RingBuffer} {m : Nat} (h : b.Holds n c)
    (hfit : Bounded k c) (hs : Stores n send core.sendBuf)
    (hlen : core.sendBuf.length ≤ c.sendBuf.length + m) (hstreams : core.streams = c.streams) :
    { b with send }.Holds n { c with toH2Core := core } ∧
      Bounded (k + m) { c with toH2Core := core } := by
  have hstream : ∀ id, core.stream id = c.stream id := fun id => by
    unfold H2Core.stream
    rw [hstreams]
  have hsend := hfit.send
  refine ⟨⟨h.recv, hs, fun id => ?_⟩, by simp only; omega, fun id => ?_⟩
  · simp only [hstream]
    exact h.body id
  · have := hfit.body id
    simp only [hstream]
    omega

/-- `consume_body`. -/
theorem Holds.consumes {c : H2Conn} (h : b.Holds n c) (hfit : Bounded k c) (id m : Nat) :
    (b.setBody id ((b.body id).commitRead m)).Holds n { c with toH2Core := c.consumeBody id m } ∧
      Bounded k { c with toH2Core := c.consumeBody id m } := by
  obtain ⟨streams, hmembers⟩ := c.consumeBody_eq id m
  have hsame : (c.consumeBody id m).sendBuf = c.sendBuf := by rw [hmembers]
  refine ⟨⟨h.recv, ?_, fun i => ?_⟩, ?_, fun i => ?_⟩
  · simp only [hsame]
    exact h.send
  · simp only [H2Core.stream_consumeBody, setBody]
    split_ifs with hi
    · rw [hi]
      exact (h.body id).commitRead m
    · exact h.body i
  · simp only [hsame]
    exact hfit.send
  · have := hfit.body i
    simp only [H2Core.stream_consumeBody]
    split_ifs
    · rw [List.length_drop]
      exact (Nat.add_le_add_right (Nat.sub_le _ _) _).trans this
    · exact this

/-- **One call** on the ring buffers, with room for what it leads to. -/
theorem exec_spec (hn : n < 2 ^ 62) {c c' : H2Conn} {op : H2Conn.Op} (h : b.Holds n c)
    (hfit : Bounded k c) (hk : k + weight op ≤ n) (he : c.exec op = some c') :
    ∃ b', b.exec c op = some b' ∧ b'.Holds n c' ∧ Bounded (k + weight op) c' := by
  have hsend := hfit.send
  cases op with
  | feed data =>
    cases he
    simp only [weight] at hk ⊢
    obtain ⟨-, recv, heq, hr⟩ := h.recv.append hn (show c.recvBuf.length + data.length ≤ n by omega)
    simp only [exec, heq, Option.map_some]
    refine ⟨_, rfl, ⟨hr, h.send, h.body⟩, ?_, fun id => ?_⟩
    · simp only [feed, List.length_append]
      omega
    · have := hfit.body id
      simp only [feed, List.length_append]
      omega
  | process =>
    obtain ⟨b', heq, hb', hfit'⟩ := process_spec hn hk h hfit
    have hc : c.process.2 = c' := by
      unfold H2Conn.exec at he
      rcases hp : c.process with ⟨e | r, d⟩ <;> rw [hp] at he <;> cases he
      rfl
    rw [hc] at hb' hfit'
    exact ⟨b', by simp only [exec, heq, Option.map_some], hb', hfit'⟩
  | sendResponse id headers body endStream =>
    cases he
    simp only [weight] at hk ⊢
    obtain ⟨send, heq, hs, hlen⟩ :=
      Ring.sendResponse_spec hn c.toH2Core h.send id headers body endStream (by omega)
    simp only [exec, heq, Option.map_some]
    obtain ⟨hpackEnc, sendBuf, hmembers⟩ :=
      sendResponse_members c.toH2Core id headers body endStream
    exact ⟨_, rfl, h.sends hfit hs hlen (by rw [hmembers])⟩
  | sendWindowUpdate id increment =>
    cases he
    simp only [weight] at hk ⊢
    obtain ⟨send, heq, hs, hlen⟩ := (WriterCall.windowUpdate id increment).writeRing_refines hn
      h.send (show c.sendBuf.length + 13 ≤ n by omega)
    simp only [exec, show Ring.writeWindowUpdate id increment b.send = _ from heq, Option.map_some]
    exact ⟨_, rfl, h.sends hfit hs hlen rfl⟩
  | consumeOutput m =>
    cases he
    refine ⟨_, rfl, h.sends hfit (h.send.commitRead m) ?_ rfl⟩
    show (c.sendBuf.drop m).length ≤ c.sendBuf.length + 0
    rw [List.length_drop]
    exact Nat.sub_le _ _
  | consumeBody id m =>
    cases he
    exact ⟨_, rfl, h.consumes hfit id m⟩
  | goaway error debugData =>
    cases he
    simp only [weight] at hk ⊢
    obtain ⟨send, heq, hs, hlen⟩ := (WriterCall.goaway c.lastPeerStream error
      debugData).writeRing_refines hn h.send
      (show c.sendBuf.length + (17 + debugData.length) ≤ n by omega)
    simp only [exec, show Ring.writeGoaway c.lastPeerStream error debugData b.send = _ from heq,
      Option.map_some]
    exact ⟨_, rfl, h.sends hfit hs hlen rfl⟩

/-- The buffers as they are made. -/
theorem new_spec (hn : n < 2 ^ 62) (h24 : 24 ≤ n) (isServer : Bool) :
    ∃ b, new isServer = some b ∧ b.Holds n (.new isServer) ∧ Bounded 24 (.new isServer) := by
  have hempty : Stores n (RingBuffer.new 65536) [] := stores_new n (Nat.le_refl _)
  have hpreface : h2Preface.length = 24 := by decide
  cases isServer with
  | true => exact ⟨{}, rfl, ⟨hempty, hempty, fun _ => hempty⟩, by decide, fun _ => Nat.zero_le 24⟩
  | false =>
    obtain ⟨-, send, heq, hs⟩ := hempty.append (e := h2Preface) hn (by simpa [hpreface] using h24)
    refine ⟨{ send }, ?_, ⟨hempty, hs, fun _ => hempty⟩, by decide, fun _ => Nat.zero_le 24⟩
    simp only [new, heq, Option.map_some, Bool.false_eq_true, if_false]

end Process

/-! ## Runs -/

/-- The buffers behind some calls. -/
def after (isServer : Bool) (calls : List (H2Conn × H2Conn.Op)) : Option H2Buffers :=
  (new isServer).bind fun b => runM (fun b p => b.exec p.1 p.2) b calls

/-- What the calls of a run lead to, with the preface of a client. -/
def total (calls : List (H2Conn × H2Conn.Op)) : Nat := 24 + (calls.map fun p => weight p.2).sum

theorem total_concat (calls : List (H2Conn × H2Conn.Op)) (p : H2Conn × H2Conn.Op) :
    total (calls ++ [p]) = total calls + weight p.2 := by
  simp only [total, List.map_append, List.map_cons, List.map_nil, List.sum_append, List.sum_cons,
    List.sum_nil, Nat.add_zero, Nat.add_assoc]

theorem after_concat (isServer : Bool) (calls : List (H2Conn × H2Conn.Op)) (c : H2Conn)
    (op : H2Conn.Op) :
    after isServer (calls ++ [(c, op)]) = (after isServer calls).bind fun b => b.exec c op := by
  simp only [after, runM_concat, Option.bind_assoc]

/-- A run keeps the bytes of the model in the ring buffers. -/
theorem after_spec {n : Nat} (hn : n < 2 ^ 62) {isServer : Bool}
    {calls : List (H2Conn × H2Conn.Op)} {c : H2Conn} (h : Reach isServer calls c)
    (hfit : total calls ≤ n) :
    ∃ b, after isServer calls = some b ∧ b.Holds n c ∧ Bounded (total calls) c := by
  induction h with
  | new =>
    obtain ⟨b, heq, hb, hbound⟩ := new_spec hn hfit isServer
    exact ⟨b, by rw [after, heq]; rfl, hb, hbound⟩
  | @call calls c op c' h he ih =>
    rw [total_concat] at hfit ⊢
    obtain ⟨b, heq, hb, hbound⟩ := ih (Nat.le_of_add_right_le hfit)
    obtain ⟨b', hexec, hb', hbound'⟩ := exec_spec hn hb hbound hfit he
    exact ⟨b', by rw [after_concat, heq, Option.bind_some, hexec], hb', hbound'⟩

/-- **The ring buffers hold the bytes of the model in every run**: all calls return, and what
`pending_output` and `stream_body` let the caller see are the bytes of the model. -/
theorem buffers_hold {isServer : Bool} {calls : List (H2Conn × H2Conn.Op)} {c : H2Conn}
    (h : Reach isServer calls c) (hfit : total calls < 2 ^ 62) :
    ∃ b, after isServer calls = some b ∧ b.Holds (total calls) c ∧
      b.send.peek b.send.readable = c.pendingOutput ∧
      ∀ id body, c.streamBody id = some body → (b.body id).peek (b.body id).readable = body := by
  obtain ⟨b, heq, hb, -⟩ := after_spec hfit h (Nat.le_refl _)
  refine ⟨b, heq, hb, hb.send.peek_readable, fun id body hbody => ?_⟩
  obtain ⟨s, hs, rfl⟩ := Option.map_eq_some_iff.mp hbody
  rw [(hb.body id).peek_readable]
  simp only [H2Core.stream, hs, Option.getD_some]

end H2Buffers

end Uproxy
