import Uproxy.Hpack.Codec
import Uproxy.Http2.Frame
import Uproxy.Lib.Stream

/-!
# HTTP/2 connections (`H2Conn`)

The members of `H2Conn` and its public functions. `handle_frame` is cut along its branches: frames
of the connection, and one function for each kind of frame on a stream, which is handed the members
it changes (`StreamResult`). The id it pushes to `ready` is returned.

* `recv_buf_`, `send_buf_` and the `recv_buf` of a stream are queues of bytes; in every run they are
  what the ring buffers hold (`H2Buffers.buffers_hold`).
* `streams_` is a map from ids to streams; `get_or_create_stream` stores the stream of every id a
  frame names, so a failed frame leaves it there too.
* `max_frame_size_` is never assigned, so it is a constant.
* Of a stream, the members nothing uses are left out (`send_buf`, `response_headers`,
  `end_stream_recv`, `end_stream_sent`).
* `send_window` is an `int32_t`: sums are taken into its range.
* `streams_.at` throws on an id without a stream: `streamHeaders` and `streamBody` are `none` then,
  and `consumeBody` changes nothing.

Results:
* `handleFrame_ok` says what a frame that is accepted can do, `StreamMove` what it does to a stream;
* `process_eq_drain`: `process` drains the receive buffer as a machine of `Lib.Stream` does;
* **`h2_segmentation`**: bytes fed in pieces are processed as bytes fed at once.
-/

namespace Uproxy

open Lib.Stream

/-! ## The code -/

/-- `H2StreamState`. -/
inductive H2StreamState where
  | idle | opened | halfClosedLocal | halfClosedRemote | closed
  deriving DecidableEq, Repr

/-- `H2Stream`. -/
structure H2Stream where
  id             : Nat := 0
  state          : H2StreamState := .idle
  recvWindow     : Int := 65535
  sendWindow     : Int := 65535
  recvBuf        : Bytes := []
  requestHeaders : List HpackHeader := []
  deriving DecidableEq, Repr

/-- `max_frame_size_`. -/
def h2MaxFrameSize : Nat := 16384

/-- `H2_PREFACE`. -/
def h2Preface : Bytes := ascii "PRI * HTTP/2.0\r\n\r\nSM\r\n\r\n"

/-- The members of `H2Conn` other than `recv_buf_`, which only `feed` and `process` touch. -/
structure H2Core where
  isServer       : Bool
  hpackEnc       : HpackEncoder := {}
  hpackDec       : HpackDecoder := {}
  streams        : Nat → Option H2Stream := fun _ => none
  lastPeerStream : Nat := 0
  sendBuf        : Bytes := []
  done           : Bool := false
  sawPreface     : Bool := false

/-- `H2Conn`. -/
structure H2Conn extends H2Core where
  recvBuf : Bytes := []

/-- What a frame on a stream changes. -/
structure StreamResult where
  result  : Result Unit := .ok ()
  dec     : HpackDecoder
  stream  : H2Stream
  sendBuf : Bytes
  /-- The id pushed to `ready`. -/
  ready   : Option Nat := none

/-- The stream's state behind a `HEADERS` frame. -/
def H2StreamState.afterHeaders (s : H2StreamState) (endStream : Bool) : H2StreamState :=
  match s with
  | .idle => if endStream then .halfClosedRemote else .opened
  | .opened => if endStream then .halfClosedRemote else .opened
  | .halfClosedLocal => if endStream then .closed else .halfClosedLocal
  | s => s

/-- The stream's state behind a `DATA` frame. -/
def H2StreamState.afterData (s : H2StreamState) (endStream : Bool) : H2StreamState :=
  match s with
  | .opened => if endStream then .halfClosedRemote else .opened
  | .halfClosedLocal => if endStream then .closed else .halfClosedLocal
  | s => s

/-- `RST_STREAM` on a closed stream. -/
def resetStream (dec : HpackDecoder) (stream : H2Stream) (sendBuf : Bytes) (f : H2Frame) :
    StreamResult :=
  let (result, sendBuf) := writeRstStream sendBuf f.streamId .streamClosed
  { result, dec, stream, sendBuf }

/-- `HEADERS`. -/
def headersFrame (dec : HpackDecoder) (stream : H2Stream) (sendBuf : Bytes) (f : H2Frame) :
    StreamResult :=
  if stream.state ≠ .idle ∧ stream.state ≠ .opened ∧ stream.state ≠ .halfClosedLocal then
    resetStream dec stream sendBuf f
  else if ¬ f.has H2Flags.endHeaders then
    { result := .error (http2Error "CONTINUATION unsupported in simple block")
      dec, stream, sendBuf }
  else
    match decode dec f.payload stream.requestHeaders with
    | (.error e, dec, requestHeaders) =>
      { result := .error e, dec, stream := { stream with requestHeaders }, sendBuf }
    | (.ok (), dec, requestHeaders) =>
      { dec
        stream := { stream with
          requestHeaders
          state := stream.state.afterHeaders (f.has H2Flags.endStream) }
        sendBuf
        ready := if f.has H2Flags.endStream then some f.streamId else none }

/-- `DATA`. -/
def dataFrame (dec : HpackDecoder) (stream : H2Stream) (sendBuf : Bytes) (f : H2Frame) :
    StreamResult :=
  if stream.state = .idle then
    { result := .error (http2Error "DATA on idle stream"), dec, stream, sendBuf }
  else if stream.state = .halfClosedRemote ∨ stream.state = .closed then
    resetStream dec stream sendBuf f
  else if stream.state ≠ .opened ∧ stream.state ≠ .halfClosedLocal then
    { result := .error (http2Error "DATA on closed stream"), dec, stream, sendBuf }
  else
    { dec
      stream := { stream with
        recvBuf := stream.recvBuf ++ f.payload
        state := stream.state.afterData (f.has H2Flags.endStream) }
      sendBuf
      ready := if f.has H2Flags.endStream then some f.streamId else none }

/-- The increment of a `WINDOW_UPDATE` payload. -/
def H2Frame.increment (f : H2Frame) : Nat := beNat f.payload % 2 ^ 31

/-- `WINDOW_UPDATE`. -/
def windowUpdateFrame (dec : HpackDecoder) (stream : H2Stream) (sendBuf : Bytes) (f : H2Frame) :
    StreamResult :=
  if f.length ≠ 4 ∨ f.payload.length ≠ 4 then
    { result := .error (http2Error "bad WINDOW_UPDATE"), dec, stream, sendBuf }
  else if f.increment = 0 then
    { result := .error (http2Error "zero WINDOW_UPDATE"), dec, stream, sendBuf }
  else
    { dec, sendBuf
      stream := { stream with
        sendWindow := Int.bmod (stream.sendWindow + f.increment) (2 ^ 32) } }

/-- `handle_frame` behind `get_or_create_stream`. -/
def streamFrame (dec : HpackDecoder) (stream : H2Stream) (sendBuf : Bytes) (f : H2Frame) :
    StreamResult :=
  match f.type with
  | .headers => headersFrame dec stream sendBuf f
  | .data => dataFrame dec stream sendBuf f
  | .windowUpdate => windowUpdateFrame dec stream sendBuf f
  | _ => { dec, stream, sendBuf }

namespace H2Core

/-- The stream `get_or_create_stream` returns. -/
def stream (c : H2Core) (id : Nat) : H2Stream := { (c.streams id).getD {} with id }

def setStream (c : H2Core) (id : Nat) (s : H2Stream) : H2Core :=
  { c with streams := fun i => if i = id then some s else c.streams i }

/-- `handle_frame` on a frame of a stream. -/
def handleStreamFrame (c : H2Core) (f : H2Frame) : Result Unit × H2Core × Option Nat :=
  let s := streamFrame c.hpackDec (c.stream f.streamId) c.sendBuf f
  (s.result,
    { c.setStream f.streamId s.stream with
      lastPeerStream := max c.lastPeerStream f.streamId
      hpackDec := s.dec
      sendBuf := s.sendBuf },
    s.ready)

/-- `handle_frame`. -/
def handleFrame (c : H2Core) (f : H2Frame) : Result Unit × H2Core × Option Nat :=
  match f.type with
  | .settings =>
    if f.streamId ≠ 0 ∨ f.length % 6 ≠ 0 then (.error (http2Error "bad SETTINGS"), c, none)
    else if ¬ f.has H2Flags.ack then
      let (r, sendBuf) := writeSettingsAck c.sendBuf
      (r, { c with sendBuf }, none)
    else (.ok (), c, none)
  | .ping =>
    if f.streamId ≠ 0 ∨ f.length ≠ 8 then (.error (http2Error "bad PING"), c, none)
    else if ¬ f.has H2Flags.ack then
      let (r, sendBuf) := writePing c.sendBuf (beNat f.payload) true
      (r, { c with sendBuf }, none)
    else (.ok (), c, none)
  | .goaway => (.ok (), { c with done := true }, none)
  | _ =>
    if f.streamId = 0 then (.error (http2Error "stream frame on stream 0"), c, none)
    else c.handleStreamFrame f

/-- What `process` does behind the client's preface. -/
def greet (c : H2Core) : Result Unit × H2Core :=
  let (r, sendBuf) := writeSettings c.sendBuf []
  (r, { c with sawPreface := true, sendBuf })

def streamHeaders (c : H2Core) (id : Nat) : Option (List HpackHeader) :=
  (c.streams id).map H2Stream.requestHeaders

def streamBody (c : H2Core) (id : Nat) : Option Bytes := (c.streams id).map H2Stream.recvBuf

def consumeBody (c : H2Core) (id n : Nat) : H2Core :=
  match c.streams id with
  | none => c
  | some s => c.setStream id { s with recvBuf := s.recvBuf.drop n }

/-- `send_response`. -/
def sendResponse (c : H2Core) (id : Nat) (headers : List HpackHeader) (body : Bytes)
    (endStream : Bool) : Result Unit × H2Core :=
  match encode c.hpackEnc headers [] with
  | (.error e, hpackEnc, _) => (.error e, { c with hpackEnc })
  | (.ok (), hpackEnc, block) =>
    match writeHeaders c.sendBuf id block (body.isEmpty && endStream) h2MaxFrameSize with
    | (.error e, sendBuf) => (.error e, { c with hpackEnc, sendBuf })
    | (.ok (), sendBuf) =>
      if body = [] then (.ok (), { c with hpackEnc, sendBuf })
      else
        let (r, sendBuf) := writeData sendBuf id body endStream h2MaxFrameSize
        (r, { c with hpackEnc, sendBuf })

/-- `send_window_update`. -/
def sendWindowUpdate (c : H2Core) (id increment : Nat) : Result Unit × H2Core :=
  let (r, sendBuf) := writeWindowUpdate c.sendBuf id increment
  (r, { c with sendBuf })

def pendingOutput (c : H2Core) : Bytes := c.sendBuf

def consumeOutput (c : H2Core) (n : Nat) : H2Core := { c with sendBuf := c.sendBuf.drop n }

/-- `goaway`. -/
def goaway (c : H2Core) (error : H2Error) (debugData : Bytes) : Result Unit × H2Core :=
  let (r, sendBuf) := writeGoaway c.sendBuf c.lastPeerStream error debugData
  (r, { c with done := true, sendBuf })

def isDone (c : H2Core) : Bool := c.done

/-- The server has not seen the client's preface. -/
def Awaits (c : H2Core) : Prop := c.isServer = true ∧ ¬ c.sawPreface = true

instance instDecidableAwaits (c : H2Core) : Decidable c.Awaits :=
  inferInstanceAs (Decidable (_ ∧ _))

end H2Core

namespace H2Conn

/-- `H2Conn::H2Conn`. -/
def new (isServer : Bool) : H2Conn :=
  { isServer, sendBuf := if isServer then [] else h2Preface }

/-- `feed`. -/
def feed (c : H2Conn) (data : Bytes) : H2Conn := { c with recvBuf := c.recvBuf ++ data }

/-- The loop of `process`. Every frame takes bytes off the buffer, whose length bounds the turns. -/
def processLoop : Nat → H2Core → Bytes → List Nat → Result (List Nat) × H2Conn
  | 0, c, buf, ready => (.ok ready, ⟨c, buf⟩)
  | fuel + 1, c, buf, ready =>
    match readFrame buf h2MaxFrameSize with
    | .error .incomplete => (.ok ready, ⟨c, buf⟩)
    | .error _ => (.error (http2Error "invalid HTTP/2 frame"), ⟨{ c with done := true }, buf⟩)
    | .ok (f, rest) =>
      match c.handleFrame f with
      | (.error e, c, _) => (.error e, ⟨c, rest⟩)
      | (.ok (), c, id) => processLoop fuel c rest (ready ++ id.toList)

/-- `process`. -/
def process (c : H2Conn) : Result (List Nat) × H2Conn :=
  if c.Awaits then
    if c.recvBuf.length < h2Preface.length then (.ok [], c)
    else if c.recvBuf.take h2Preface.length ≠ h2Preface then
      (.error (http2Error "invalid HTTP/2 preface"), { c with done := true })
    else
      let rest := c.recvBuf.drop h2Preface.length
      match c.greet with
      | (.error e, core) => (.error e, ⟨core, rest⟩)
      | (.ok (), core) => processLoop rest.length core rest []
  else processLoop c.recvBuf.length c.toH2Core c.recvBuf []

/-- `feed` and `process` for each chunk, up to the first error: the ready lists, one behind the
other. -/
def feedProcess (c : H2Conn) : List Bytes → Result (List Nat) × H2Conn
  | [] => (.ok [], c)
  | d :: ds =>
    match (c.feed d).process with
    | (.error e, c) => (.error e, c)
    | (.ok ready, c) =>
      match feedProcess c ds with
      | (.error e, c) => (.error e, c)
      | (.ok ready', c) => (.ok (ready ++ ready'), c)

end H2Conn

/-! ## One frame -/

/-- The peer has ended the stream. -/
def H2StreamState.Ended (s : H2StreamState) : Prop := s = .halfClosedRemote ∨ s = .closed

instance H2StreamState.instDecidableEnded (s : H2StreamState) : Decidable s.Ended :=
  inferInstanceAs (Decidable (_ ∨ _))

/-- The id a frame reports if it is accepted. -/
def H2Frame.reports (f : H2Frame) : Option Nat :=
  if f.has H2Flags.endStream then some f.streamId else none

/-- What an accepted frame does to its stream and to the decoder, and the id it reports. -/
inductive StreamMove (f : H2Frame) (dec : HpackDecoder) (s : H2Stream) :
    HpackDecoder → H2Stream → Option Nat → Prop
  | headers {dec' requestHeaders} (ht : f.type = .headers) (hs : ¬ s.state.Ended)
      (hdec : decode dec f.payload s.requestHeaders = (.ok (), dec', requestHeaders)) :
      StreamMove f dec s dec' { s with
        requestHeaders, state := s.state.afterHeaders (f.has H2Flags.endStream) } f.reports
  | data (ht : f.type = .data) (hs : s.state = .opened ∨ s.state = .halfClosedLocal) :
      StreamMove f dec s dec { s with
        recvBuf := s.recvBuf ++ f.payload
        state := s.state.afterData (f.has H2Flags.endStream) } f.reports
  | windowUpdate (ht : f.type = .windowUpdate) (hinc : f.increment ≠ 0) :
      StreamMove f dec s dec { s with
        sendWindow := Int.bmod (s.sendWindow + f.increment) (2 ^ 32) } none
  | refused (ht : f.type = .headers ∨ f.type = .data) (hs : s.state.Ended) :
      StreamMove f dec s dec s none
  | ignored (ht : f.type ≠ .headers ∧ f.type ≠ .data ∧ f.type ≠ .windowUpdate) :
      StreamMove f dec s dec s none

theorem H2Frame.reports_some {f : H2Frame} {i : Nat} (h : f.reports = some i) : i = f.streamId := by
  unfold H2Frame.reports at h
  split_ifs at h
  exact (Option.some.inj h).symm

theorem StreamMove.ready_eq {f : H2Frame} {dec dec' : HpackDecoder} {s s' : H2Stream}
    {id : Option Nat} (h : StreamMove f dec s dec' s' id) {i : Nat} (hi : id = some i) :
    i = f.streamId := by
  cases h with
  | headers => exact H2Frame.reports_some hi
  | data => exact H2Frame.reports_some hi
  | windowUpdate => cases hi
  | refused => cases hi
  | ignored => cases hi

section StreamFrame

variable {dec : HpackDecoder} {s : H2Stream} {sendBuf : Bytes} {f : H2Frame}

theorem H2StreamState.ended_iff {s : H2StreamState} :
    s.Ended ↔ s ≠ .idle ∧ s ≠ .opened ∧ s ≠ .halfClosedLocal := by
  unfold Ended
  cases s <;> decide

theorem H2StreamState.not_ended_iff {s : H2StreamState} :
    ¬ s.Ended ↔ s = .idle ∨ s = .opened ∨ s = .halfClosedLocal := by
  unfold Ended
  cases s <;> decide

theorem headersFrame_ended (hs : s.state.Ended) :
    headersFrame dec s sendBuf f = resetStream dec s sendBuf f :=
  if_pos (H2StreamState.ended_iff.mp hs)

theorem headersFrame_continued (hs : ¬ s.state.Ended) (heh : ¬ f.has H2Flags.endHeaders = true) :
    headersFrame dec s sendBuf f =
      { result := .error (http2Error "CONTINUATION unsupported in simple block")
        dec, stream := s, sendBuf } := by
  rw [headersFrame, if_neg (mt H2StreamState.ended_iff.mpr hs), if_pos heh]

/-- A header block that is decoded. -/
theorem headersFrame_block (hs : ¬ s.state.Ended) (heh : f.has H2Flags.endHeaders = true) :
    headersFrame dec s sendBuf f =
      match decode dec f.payload s.requestHeaders with
      | (.error e, dec, requestHeaders) =>
        { result := .error e, dec, stream := { s with requestHeaders }, sendBuf }
      | (.ok (), dec, requestHeaders) =>
        { dec
          stream := { s with
            requestHeaders
            state := s.state.afterHeaders (f.has H2Flags.endStream) }
          sendBuf
          ready := f.reports } := by
  rw [headersFrame, if_neg (mt H2StreamState.ended_iff.mpr hs), if_neg (not_not.mpr heh)]
  rfl

theorem headersFrame_ok (ht : f.type = .headers)
    (h : (headersFrame dec s sendBuf f).result = .ok ()) :
    StreamMove f dec s (headersFrame dec s sendBuf f).dec (headersFrame dec s sendBuf f).stream
      (headersFrame dec s sendBuf f).ready := by
  by_cases hend : s.state.Ended
  · rw [headersFrame_ended hend]
    exact .refused (Or.inl ht) hend
  · by_cases heh : f.has H2Flags.endHeaders = true
    · rw [headersFrame_block hend heh] at h ⊢
      rcases hd : decode dec f.payload s.requestHeaders with ⟨e | ⟨⟩, dec', hs⟩
      · rw [hd] at h
        cases h
      · exact .headers ht hend hd
    · rw [headersFrame_continued hend heh] at h
      cases h

theorem headersFrame_idle (hs : s.state = .idle) (heh : f.has H2Flags.endHeaders = true)
    (hdec : (decode dec f.payload []).1 = .ok ()) :
    headersFrame dec s sendBuf f =
      { dec := (decode dec f.payload []).2.1
        stream := { s with
          requestHeaders := s.requestHeaders ++ (decode dec f.payload []).2.2
          state := if f.has H2Flags.endStream then .halfClosedRemote else .opened }
        sendBuf
        ready := f.reports } := by
  have hend : ¬ s.state.Ended := H2StreamState.not_ended_iff.mpr (Or.inl hs)
  rw [headersFrame_block hend heh, decode_out, hdec]
  simp [hs, H2StreamState.afterHeaders]

theorem dataFrame_ended (hs : s.state.Ended) :
    dataFrame dec s sendBuf f = resetStream dec s sendBuf f := by
  rw [dataFrame, if_neg (H2StreamState.ended_iff.mp hs).1]
  exact if_pos hs

theorem dataFrame_idle (hs : s.state = .idle) :
    dataFrame dec s sendBuf f =
      { result := .error (http2Error "DATA on idle stream"), dec, stream := s, sendBuf } :=
  if_pos hs

/-- Data that is added to the body. -/
theorem dataFrame_adds (hs : s.state = .opened ∨ s.state = .halfClosedLocal) :
    dataFrame dec s sendBuf f =
      { dec
        stream := { s with
          recvBuf := s.recvBuf ++ f.payload
          state := s.state.afterData (f.has H2Flags.endStream) }
        sendBuf
        ready := f.reports } := by
  have hidle : s.state ≠ .idle := by rcases hs with h | h <;> simp [h]
  have hend : ¬ s.state.Ended := H2StreamState.not_ended_iff.mpr (Or.inr hs)
  rw [dataFrame, if_neg hidle, if_neg (show ¬ (_ ∨ _) from hend),
    if_neg fun h => hs.elim h.1 h.2]
  rfl

theorem dataFrame_ok (ht : f.type = .data) (h : (dataFrame dec s sendBuf f).result = .ok ()) :
    StreamMove f dec s (dataFrame dec s sendBuf f).dec (dataFrame dec s sendBuf f).stream
      (dataFrame dec s sendBuf f).ready := by
  by_cases hend : s.state.Ended
  · rw [dataFrame_ended hend]
    exact .refused (Or.inr ht) hend
  · rcases H2StreamState.not_ended_iff.mp hend with hi | ho
    · rw [dataFrame_idle hi] at h
      cases h
    · rw [dataFrame_adds ho]
      exact .data ht ho

theorem dataFrame_opened (hs : s.state = .opened) :
    dataFrame dec s sendBuf f =
      { dec
        stream := { s with
          recvBuf := s.recvBuf ++ f.payload
          state := if f.has H2Flags.endStream then .halfClosedRemote else .opened }
        sendBuf
        ready := f.reports } := by
  rw [dataFrame_adds (Or.inl hs)]
  simp [hs, H2StreamState.afterData]

theorem windowUpdateFrame_increment (hlen : f.length = 4) (hpay : f.payload.length = 4)
    (hinc : f.increment ≠ 0) :
    windowUpdateFrame dec s sendBuf f =
      { dec, sendBuf
        stream := { s with sendWindow := Int.bmod (s.sendWindow + f.increment) (2 ^ 32) } } := by
  rw [windowUpdateFrame, if_neg (by omega), if_neg hinc]

theorem windowUpdateFrame_ok (ht : f.type = .windowUpdate)
    (h : (windowUpdateFrame dec s sendBuf f).result = .ok ()) :
    StreamMove f dec s (windowUpdateFrame dec s sendBuf f).dec
      (windowUpdateFrame dec s sendBuf f).stream (windowUpdateFrame dec s sendBuf f).ready := by
  unfold windowUpdateFrame at h ⊢
  by_cases hlen : f.length ≠ 4 ∨ f.payload.length ≠ 4
  · simp only [if_pos hlen] at h
    cases h
  · simp only [if_neg hlen] at h ⊢
    by_cases hinc : f.increment = 0
    · simp only [if_pos hinc] at h
      cases h
    · simp only [if_neg hinc]
      exact .windowUpdate ht hinc

theorem streamFrame_headers (ht : f.type = .headers) :
    streamFrame dec s sendBuf f = headersFrame dec s sendBuf f := by
  simp only [streamFrame, ht]

theorem streamFrame_data (ht : f.type = .data) :
    streamFrame dec s sendBuf f = dataFrame dec s sendBuf f := by
  simp only [streamFrame, ht]

theorem streamFrame_windowUpdate (ht : f.type = .windowUpdate) :
    streamFrame dec s sendBuf f = windowUpdateFrame dec s sendBuf f := by
  simp only [streamFrame, ht]

/-- **What an accepted frame does to its stream.** -/
theorem streamFrame_ok (h : (streamFrame dec s sendBuf f).result = .ok ()) :
    StreamMove f dec s (streamFrame dec s sendBuf f).dec (streamFrame dec s sendBuf f).stream
      (streamFrame dec s sendBuf f).ready := by
  cases ht : f.type with
  | headers =>
    rw [streamFrame_headers ht] at h ⊢
    exact headersFrame_ok ht h
  | data =>
    rw [streamFrame_data ht] at h ⊢
    exact dataFrame_ok ht h
  | windowUpdate =>
    rw [streamFrame_windowUpdate ht] at h ⊢
    exact windowUpdateFrame_ok ht h
  | _ =>
    simp only [streamFrame, ht]
    exact .ignored (by simp [ht])

end StreamFrame

/-- The frames that belong to the connection and not to a stream. -/
def H2Frame.OnConn (f : H2Frame) : Prop := f.type = .settings ∨ f.type = .ping ∨ f.type = .goaway

instance H2Frame.instDecidableOnConn (f : H2Frame) : Decidable f.OnConn :=
  inferInstanceAs (Decidable (_ ∨ _))

namespace H2Core

/-- A frame of the connection touches the send buffer and `done_` at most. -/
theorem handleFrame_onConn {c : H2Core} {f : H2Frame} (h : f.OnConn) :
    ∃ r sendBuf done, c.handleFrame f = (r, { c with sendBuf, done }, none) := by
  rcases h with h | h | h
  · simp only [handleFrame, h]
    split_ifs <;> exact ⟨_, _, _, rfl⟩
  · simp only [handleFrame, h]
    split_ifs <;> exact ⟨_, _, _, rfl⟩
  · simp only [handleFrame, h]
    exact ⟨_, _, _, rfl⟩

theorem handleFrame_onStream {c : H2Core} {f : H2Frame} (h : ¬ f.OnConn) :
    c.handleFrame f =
      if f.streamId = 0 then (.error (http2Error "stream frame on stream 0"), c, none)
      else c.handleStreamFrame f := by
  unfold H2Frame.OnConn at h
  unfold handleFrame
  cases ht : f.type <;> simp [ht] at h <;> rfl

/-- A frame on a stream, from what it does to the stream. -/
theorem handleFrame_stream {c : H2Core} {f : H2Frame} {s : StreamResult} (hc : ¬ f.OnConn)
    (h0 : f.streamId ≠ 0) (hs : streamFrame c.hpackDec (c.stream f.streamId) c.sendBuf f = s) :
    ∃ c', c.handleFrame f = (s.result, c', s.ready) ∧
      c'.streams = (c.setStream f.streamId s.stream).streams ∧ c'.hpackDec = s.dec := by
  rw [handleFrame_onStream hc, if_neg h0, handleStreamFrame, hs]
  exact ⟨_, rfl, rfl, rfl⟩

theorem handleFrame_role (c : H2Core) (f : H2Frame) :
    (c.handleFrame f).2.1.isServer = c.isServer ∧
      (c.handleFrame f).2.1.sawPreface = c.sawPreface := by
  by_cases h : f.OnConn
  · obtain ⟨r, sendBuf, done, he⟩ := handleFrame_onConn (c := c) h
    rw [he]
    exact ⟨rfl, rfl⟩
  · rw [handleFrame_onStream h]
    split_ifs <;> exact ⟨rfl, rfl⟩

/-- The second connection has the streams, the decoder and the role of the first. -/
structure Quiet (c c' : H2Core) : Prop where
  streams    : c'.streams = c.streams
  hpackDec   : c'.hpackDec = c.hpackDec
  isServer   : c'.isServer = c.isServer

/-- **What an accepted frame can do.** -/
theorem handleFrame_ok {c c' : H2Core} {f : H2Frame} {id : Option Nat}
    (h : c.handleFrame f = (.ok (), c', id)) :
    (f.OnConn ∧ id = none ∧ Quiet c c') ∨
      (¬ f.OnConn ∧ f.streamId ≠ 0 ∧ ∃ s, c'.streams = (c.setStream f.streamId s).streams ∧
        StreamMove f c.hpackDec (c.stream f.streamId) c'.hpackDec s id) := by
  by_cases hc : f.OnConn
  · obtain ⟨r, sendBuf, done, he⟩ := handleFrame_onConn (c := c) hc
    rw [h] at he
    cases he
    exact Or.inl ⟨hc, rfl, rfl, rfl, rfl⟩
  · rw [handleFrame_onStream hc] at h
    split_ifs at h with h0
    · cases h
    · unfold handleStreamFrame at h
      simp only [Prod.mk.injEq] at h
      obtain ⟨hr, rfl, rfl⟩ := h
      exact Or.inr ⟨hc, h0, _, rfl, streamFrame_ok hr⟩

theorem greet_ok (c : H2Core) : ∃ sendBuf,
    c.greet = (.ok (), { c with sawPreface := true, sendBuf }) := ⟨_, rfl⟩

/-- `consume_body` touches the streams only. -/
theorem consumeBody_eq (c : H2Core) (id n : Nat) :
    ∃ streams, c.consumeBody id n = { c with streams } := by
  unfold consumeBody
  cases c.streams id with
  | none => exact ⟨c.streams, rfl⟩
  | some s => exact ⟨_, rfl⟩

/-- It takes bytes off the body of one stream. -/
theorem stream_consumeBody (c : H2Core) (i n id : Nat) :
    (c.consumeBody i n).stream id = { c.stream id with
      recvBuf := if id = i then (c.stream id).recvBuf.drop n else (c.stream id).recvBuf } := by
  unfold consumeBody
  by_cases hid : id = i
  · subst hid
    cases hs : c.streams id <;> simp [stream, setStream, hs]
  · cases hs : c.streams i <;> simp [stream, setStream, hid]

end H2Core

/-! ## Segmentation -/

namespace H2Conn

/-- The items of the stream are the preface (`none`) and the frames. -/
def read (c : H2Core) (b : Bytes) : Read UInt8 H2Core (Option H2Frame) Error :=
  if c.Awaits then
    if b.length < h2Preface.length then .more
    else if b.take h2Preface.length ≠ h2Preface then
      .fail (http2Error "invalid HTTP/2 preface") { c with done := true }
    else .item none (b.drop h2Preface.length)
  else
    match readFrame b h2MaxFrameSize with
    | .error .incomplete => .more
    | .error _ => .fail (http2Error "invalid HTTP/2 frame") { c with done := true }
    | .ok (f, rest) => .item (some f) rest

/-- The output is the ready list. -/
def handle (c : H2Core) : Option H2Frame → Option Error × H2Core × List Nat
  | none =>
    match c.greet with
    | (.error e, c) => (some e, c, [])
    | (.ok (), c) => (none, c, [])
  | some f =>
    match c.handleFrame f with
    | (.error e, c, id) => (some e, c, id.toList)
    | (.ok (), c, id) => (none, c, id.toList)

section Read

variable {c c' : H2Core} {b r : Bytes} {x : Option H2Frame} {e : Error}

theorem read_frame (ha : ¬ c.Awaits) (b : Bytes) :
    read c b =
      match readFrame b h2MaxFrameSize with
      | .error .incomplete => .more
      | .error _ => .fail (http2Error "invalid HTTP/2 frame") { c with done := true }
      | .ok (f, rest) => .item (some f) rest :=
  if_neg ha

theorem read_preface (ha : c.Awaits) (b : Bytes) :
    read c b =
      if b.length < h2Preface.length then .more
      else if b.take h2Preface.length ≠ h2Preface then
        .fail (http2Error "invalid HTTP/2 preface") { c with done := true }
      else .item none (b.drop h2Preface.length) :=
  if_pos ha

theorem read_item_length (h : read c b = .item x r) : r.length < b.length := by
  have h24 : 0 < h2Preface.length := by decide
  by_cases ha : c.Awaits
  · rw [read_preface ha] at h
    split_ifs at h with h1 h2
    cases h
    rw [List.length_drop]
    omega
  · rw [read_frame ha] at h
    rcases hr : readFrame b h2MaxFrameSize with (_ | _ | _) | ⟨f, rest⟩ <;> rw [hr] at h <;> cases h
    have hlen := (readFrame_ok hr).2.1
    unfold frameHeaderSize at hlen
    omega

theorem read_item_fits {f : H2Frame} (h : read c b = .item (some f) r) :
    f.Fits h2MaxFrameSize := by
  by_cases ha : c.Awaits
  · rw [read_preface ha] at h
    split_ifs at h
    cases h
  · rw [read_frame ha] at h
    rcases hr : readFrame b h2MaxFrameSize with (_ | _ | _) | ⟨f, rest⟩ <;> rw [hr] at h <;> cases h
    exact (readFrame_ok hr).1

/-- The item at the front is the preface exactly as long as it is awaited. -/
theorem read_item_awaits (h : read c b = .item x r) : x = none ↔ c.Awaits := by
  by_cases ha : c.Awaits
  · rw [read_preface ha] at h
    split_ifs at h
    cases h
    exact iff_of_true rfl ha
  · rw [read_frame ha] at h
    rcases hr : readFrame b h2MaxFrameSize with (_ | _ | _) | ⟨f, rest⟩ <;> rw [hr] at h <;> cases h
    exact iff_of_false (Option.some_ne_none f) ha

theorem read_item_append (d : Bytes) (h : read c b = .item x r) :
    read c (b ++ d) = .item x (r ++ d) := by
  by_cases ha : c.Awaits
  · rw [read_preface ha] at h ⊢
    split_ifs at h with h1 h2
    cases h
    rw [if_neg (by rw [List.length_append]; omega),
      List.take_append_of_le_length (Nat.le_of_not_lt h1), if_neg h2,
      List.drop_append_of_le_length (Nat.le_of_not_lt h1)]
  · rw [read_frame ha] at h ⊢
    rcases hr : readFrame b h2MaxFrameSize with (_ | _ | _) | ⟨f, rest⟩ <;> rw [hr] at h <;> cases h
    rw [readFrame_append d hr]

theorem read_fail_append (d : Bytes) (h : read c b = .fail e c') :
    read c (b ++ d) = .fail e c' := by
  by_cases ha : c.Awaits
  · rw [read_preface ha] at h ⊢
    split_ifs at h with h1 h2
    rw [if_neg (by rw [List.length_append]; omega),
      List.take_append_of_le_length (Nat.le_of_not_lt h1), if_pos h2]
    exact h
  · rw [read_frame ha] at h ⊢
    rcases hr : readFrame b h2MaxFrameSize with (_ | _ | _) | ⟨f, rest⟩ <;> rw [hr] at h
    · exact absurd hr (readFrame_ne_complete b _)
    · cases h
    · rw [readFrame_error_append d hr]
      exact h
    · cases h

end Read

/-- A connection as a machine on the bytes received. -/
def machine : Machine UInt8 H2Core (Option H2Frame) Error Nat where
  read := read
  handle := handle
  item_length := read_item_length
  item_append := read_item_append
  fail_append := read_fail_append

section Frames

variable {c c' : H2Core} {f : H2Frame} {id : Option Nat} {e : Error}

theorem read_frameBytes (ha : ¬ c.Awaits) (hf : f.Fits h2MaxFrameSize) (rest : Bytes) :
    machine.read c (frameBytes f ++ rest) = .item (some f) rest := by
  refine (read_frame ha _).trans ?_
  rw [readFrame_frameBytes hf (by decide)]

/-- A frame that is accepted. -/
theorem drain_frameBytes (ha : ¬ c.Awaits) (hf : f.Fits h2MaxFrameSize)
    (h : c.handleFrame f = (.ok (), c', id)) (rest : Bytes) :
    machine.drain c (frameBytes f ++ rest) = (machine.drain c' rest).prepend id.toList := by
  refine Machine.drain_item (read_frameBytes ha hf rest) ?_
  simp only [machine, handle, h]

/-- A frame that is refused. -/
theorem drain_frameBytes_error (ha : ¬ c.Awaits) (hf : f.Fits h2MaxFrameSize)
    (h : c.handleFrame f = (.error e, c', id)) (rest : Bytes) :
    machine.drain c (frameBytes f ++ rest) = ⟨some e, c', rest, id.toList⟩ := by
  refine Machine.drain_refused (read_frameBytes ha hf rest) ?_
  simp only [machine, handle, h]

theorem handleFrame_awaits (ha : ¬ c.Awaits) (f : H2Frame) : ¬ (c.handleFrame f).2.1.Awaits := by
  obtain ⟨h1, h2⟩ := c.handleFrame_role f
  unfold H2Core.Awaits
  rw [h1, h2]
  exact ha

theorem read_preface_append (ha : c.Awaits) (rest : Bytes) :
    machine.read c (h2Preface ++ rest) = .item none rest := by
  show read c (h2Preface ++ rest) = _
  rw [read_preface ha, if_neg (by rw [List.length_append]; omega), List.take_left,
    if_neg (fun h => h rfl), List.drop_left]

/-- The preface. -/
theorem drain_preface (ha : c.Awaits) (rest : Bytes) :
    machine.drain c (h2Preface ++ rest) = machine.drain c.greet.2 rest := by
  obtain ⟨sendBuf, hgreet⟩ := c.greet_ok
  have hhandle : machine.handle c none = (none, c.greet.2, []) := by
    simp only [machine, handle, hgreet]
  exact Machine.drain_item (read_preface_append ha rest) hhandle

end Frames

/-- What `process` returns, from what the machine does. -/
def result (o : Outcome UInt8 H2Core Error Nat) : Result (List Nat) × H2Conn :=
  match o.error with
  | none => (.ok o.out, ⟨o.state, o.rest⟩)
  | some e => (.error e, ⟨o.state, o.rest⟩)

theorem processLoop_eq_drain {fuel : Nat} {c : H2Core} {buf : Bytes} (hfuel : buf.length ≤ fuel)
    (ha : ¬ c.Awaits) (ready : List Nat) :
    processLoop fuel c buf ready = result ((machine.drain c buf).prepend ready) := by
  induction fuel generalizing c buf ready with
  | zero =>
    have hnil : buf = [] := List.length_eq_zero_iff.mp (Nat.le_zero.mp hfuel)
    have hmore : machine.read c buf = .more := by
      rw [hnil]
      exact read_frame ha []
    rw [Machine.drain_more hmore, processLoop]
    simp only [result, Outcome.prepend, List.append_nil]
  | succ fuel ih =>
    have hread : machine.read c buf = _ := read_frame ha buf
    rw [processLoop]
    rcases hr : readFrame buf h2MaxFrameSize with (_ | _ | _) | ⟨f, rest⟩ <;>
      rw [hr] at hread <;> simp only at hread
    · exact absurd hr (readFrame_ne_complete _ _)
    · rw [Machine.drain_more hread]
      simp only [result, Outcome.prepend, List.append_nil]
    · rw [Machine.drain_fail hread]
      rfl
    · have hlen := (readFrame_ok hr).2.1
      unfold frameHeaderSize at hlen
      have hrole := c.handleFrame_role f
      rcases hh : c.handleFrame f with ⟨e | ⟨⟩, c', id⟩
      · have hhandle : machine.handle c (some f) = (some e, c', id.toList) := by
          simp only [machine, handle, hh]
        rw [Machine.drain_refused hread hhandle]
        simp only [hh, result, Outcome.prepend]
      · have hhandle : machine.handle c (some f) = (none, c', id.toList) := by
          simp only [machine, handle, hh]
        rw [Machine.drain_item hread hhandle]
        rw [hh] at hrole
        simp only [hh]
        rw [ih (by omega) (fun h => ha ⟨hrole.1 ▸ h.1, hrole.2 ▸ h.2⟩)]
        simp only [Outcome.prepend, List.append_assoc]

/-- **`process` drains the receive buffer.** -/
theorem process_eq_drain (c : H2Conn) :
    c.process = result (machine.drain c.toH2Core c.recvBuf) := by
  unfold process
  by_cases ha : c.Awaits
  · have hread : machine.read c.toH2Core c.recvBuf = _ := read_preface ha c.recvBuf
    rw [if_pos ha]
    by_cases h1 : c.recvBuf.length < h2Preface.length
    · rw [if_pos h1] at hread ⊢
      rw [Machine.drain_more hread]
      rfl
    rw [if_neg h1] at hread ⊢
    by_cases h2 : c.recvBuf.take h2Preface.length ≠ h2Preface
    · rw [if_pos h2] at hread ⊢
      rw [Machine.drain_fail hread]
      rfl
    rw [if_neg h2] at hread ⊢
    obtain ⟨sendBuf, hgreet⟩ := c.greet_ok
    have hhandle : machine.handle c.toH2Core none =
        (none, { c.toH2Core with sawPreface := true, sendBuf }, []) := by
      simp only [machine, handle, hgreet]
    rw [Machine.drain_item hread hhandle]
    simp only [hgreet]
    exact processLoop_eq_drain (Nat.le_refl _) (fun h => h.2 rfl) []
  · rw [if_neg ha]
    exact processLoop_eq_drain (Nat.le_refl _) ha []

/-- A fresh connection that is fed some bytes. -/
theorem process_feed_new (isServer : Bool) (bytes : Bytes) :
    ((new isServer).feed bytes).process =
      result (machine.drain (new isServer).toH2Core bytes) :=
  process_eq_drain _

theorem feedProcess_eq_deliver (c : H2Conn) (chunks : List Bytes) :
    feedProcess c chunks = result (machine.deliver c.toH2Core c.recvBuf chunks) := by
  induction chunks generalizing c with
  | nil => rfl
  | cons d ds ih =>
    rw [feedProcess, process_eq_drain, Machine.deliver]
    rcases hd : machine.drain c.toH2Core (c.recvBuf ++ d) with ⟨_ | e, c', r, out⟩
    · have hfeed : machine.drain (c.feed d).toH2Core (c.feed d).recvBuf = ⟨none, c', r, out⟩ := hd
      rw [hfeed]
      simp only [result]
      rw [ih]
      rcases machine.deliver c' r ds with ⟨_ | e, c'', r', out'⟩
      · rfl
      · rfl
    · have hfeed : machine.drain (c.feed d).toH2Core (c.feed d).recvBuf = ⟨some e, c', r, out⟩ := hd
      rw [hfeed]
      rfl

/-- **HTTP/2 processing does not depend on segmentation**: whatever the chunks, feeding and
processing them one by one ends as feeding and processing all of them at once does, in the same
error or with the same ready list and the same connection. -/
theorem h2_segmentation (isServer : Bool) (chunks : List Bytes) :
    let split := feedProcess (new isServer) chunks
    let whole := ((new isServer).feed chunks.flatten).process
    split.1 = whole.1 ∧ ∀ ready, split.1 = .ok ready → split = whole := by
  intro split whole
  have hmore : machine.read (new isServer).toH2Core [] = .more := by cases isServer <;> rfl
  have hsplit : split = result (machine.deliver (new isServer).toH2Core [] chunks) :=
    feedProcess_eq_deliver _ _
  have hwhole : whole = result (machine.drain (new isServer).toH2Core ([] ++ chunks.flatten)) :=
    process_eq_drain _
  obtain ⟨herr, hsame⟩ := Machine.deliver_flatten hmore chunks
  rw [hsplit, hwhole]
  cases he : (machine.deliver (new isServer).toH2Core [] chunks).error with
  | none =>
    rw [hsame he]
    exact ⟨rfl, fun _ _ => rfl⟩
  | some e =>
    have h1 : (result (machine.deliver (new isServer).toH2Core [] chunks)).1 = .error e := by
      simp only [result, he]
    have h2 : (result (machine.drain (new isServer).toH2Core ([] ++ chunks.flatten))).1 =
        .error e := by
      simp only [result, ← herr, he]
    refine ⟨h1.trans h2.symm, fun ready h => ?_⟩
    rw [h1] at h
    cases h

end H2Conn

end Uproxy
