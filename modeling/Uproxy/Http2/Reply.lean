import Uproxy.Http2.Run

/-!
# What a connection replies on its own

`process` and `handle_frame` write frames without being asked to: the empty `SETTINGS` behind the
client's preface, and at most one frame for each frame received (`reply`). `replies` puts them
together from the frames of a run, each with the members it met, so a reply that depends on the
state of a stream depends on all frames before.

* `handleFrame_sendBuf`: an accepted frame appends its reply and nothing else;
* **`h2_replies`**: in a run of `feed` and `process` on a server, the send buffer holds the replies
  to the frames received, in order, and is read back as these frames.
-/

namespace Uproxy

/-- The `SETTINGS` behind the client's preface. -/
def greeting : H2Frame := ⟨0, .settings, 0, 0, []⟩

def settingsAck : H2Frame := ⟨0, .settings, H2Flags.ack, 0, []⟩

def pingAck (payload : Bytes) : H2Frame := ⟨8, .ping, H2Flags.ack, 0, payload⟩

def closedReset (streamId : Nat) : H2Frame :=
  ⟨4, .rstStream, 0, streamId, u32 H2Error.streamClosed.code⟩

/-- The reply to `HEADERS` and `DATA` on a stream. -/
def refusal (state : H2StreamState) (f : H2Frame) : List H2Frame :=
  if state = .halfClosedRemote ∨ state = .closed then [closedReset f.streamId] else []

/-- The reply to a frame that meets the members `c`. -/
def reply (c : H2Core) (f : H2Frame) : List H2Frame :=
  match f.type with
  | .settings => if f.has H2Flags.ack then [] else [settingsAck]
  | .ping => if f.has H2Flags.ack then [] else [pingAck f.payload]
  | .headers => refusal (c.stream f.streamId).state f
  | .data => refusal (c.stream f.streamId).state f
  | _ => []

/-- The replies to the preface and to some frames. -/
def replies (sawPreface : Bool) (log : List (H2Core × H2Frame)) : List H2Frame :=
  (if sawPreface then [greeting] else []) ++ log.flatMap fun p => reply p.1 p.2

theorem replies_concat (sawPreface : Bool) (log : List (H2Core × H2Frame)) (c : H2Core)
    (f : H2Frame) : replies sawPreface (log ++ [(c, f)]) = replies sawPreface log ++ reply c f := by
  rw [replies, List.flatMap_append, List.flatMap_singleton, ← List.append_assoc, ← replies]

/-! ## One frame -/

/-- The eight bytes `write_ping` writes are those `handle_frame` read. -/
theorem pingBytes_beNat {payload : Bytes} (h : payload.length = 8) :
    [byte (beNat payload) 56, byte (beNat payload) 48, byte (beNat payload) 40,
      byte (beNat payload) 32, byte (beNat payload) 24, byte (beNat payload) 16,
      byte (beNat payload) 8, byte (beNat payload) 0] = payload := by
  match payload, h with
  | [b0, b1, b2, b3, b4, b5, b6, b7], _ =>
    have hlt := fun b : UInt8 => b.toNat_lt
    have h0 := hlt b0
    have h1 := hlt b1
    have h2 := hlt b2
    have h3 := hlt b3
    have h4 := hlt b4
    have h5 := hlt b5
    have h6 := hlt b6
    have h7 := hlt b7
    simp only [beNat, byte, List.foldl_cons, List.foldl_nil, Nat.toUInt8, List.cons.injEq,
      ← UInt8.toNat_inj, UInt8.toNat_ofNat', Nat.shiftRight_eq_div_pow, and_true]
    omega

theorem writeSettingsAck_ok (buf : Bytes) :
    writeSettingsAck buf = (.ok (), buf ++ frameBytes settingsAck) := rfl

theorem writePing_ok {payload : Bytes} (h : payload.length = 8) (buf : Bytes) :
    writePing buf (beNat payload) true = (.ok (), buf ++ frameBytes (pingAck payload)) := by
  rw [writePing, writeFrame_ok (by decide) (by decide), pingBytes_beNat h]
  rfl

theorem writeRstStream_ok {streamId : Nat} (h0 : streamId ≠ 0) (hid : streamId < 2 ^ 31)
    (buf : Bytes) :
    writeRstStream buf streamId .streamClosed =
      (.ok (), buf ++ frameBytes (closedReset streamId)) := by
  rw [writeRstStream, if_neg h0, writeFrame_ok (by decide) hid]
  rfl

section StreamFrame

variable {dec : HpackDecoder} {s : H2Stream} {sendBuf : Bytes} {f : H2Frame}

theorem refusal_ended (h : s.state.Ended) : refusal s.state f = [closedReset f.streamId] := if_pos h

theorem refusal_open (h : ¬ s.state.Ended) : refusal s.state f = [] := if_neg h

theorem resetStream_sendBuf (h0 : f.streamId ≠ 0) (hid : f.streamId < 2 ^ 31)
    (hs : s.state.Ended) :
    (resetStream dec s sendBuf f).sendBuf =
      sendBuf ++ (refusal s.state f).flatMap frameBytes := by
  rw [refusal_ended hs, List.flatMap_singleton, resetStream, writeRstStream_ok h0 hid]

/-- `HEADERS` writes nothing, unless it is refused. -/
theorem headersFrame_sendBuf (h0 : f.streamId ≠ 0) (hid : f.streamId < 2 ^ 31) :
    (headersFrame dec s sendBuf f).sendBuf =
      sendBuf ++ (refusal s.state f).flatMap frameBytes := by
  by_cases hs : s.state.Ended
  · rw [headersFrame_ended hs, resetStream_sendBuf h0 hid hs]
  · rw [refusal_open hs, List.flatMap_nil, List.append_nil]
    by_cases heh : f.has H2Flags.endHeaders = true
    · rw [headersFrame_block hs heh]
      rcases decode dec f.payload s.requestHeaders with ⟨e | ⟨⟩, dec', headers⟩ <;> rfl
    · rw [headersFrame_continued hs heh]

/-- `DATA` writes nothing, unless it is refused. -/
theorem dataFrame_sendBuf (h0 : f.streamId ≠ 0) (hid : f.streamId < 2 ^ 31) :
    (dataFrame dec s sendBuf f).sendBuf = sendBuf ++ (refusal s.state f).flatMap frameBytes := by
  by_cases hs : s.state.Ended
  · rw [dataFrame_ended hs, resetStream_sendBuf h0 hid hs]
  · rw [refusal_open hs, List.flatMap_nil, List.append_nil]
    rcases H2StreamState.not_ended_iff.mp hs with hi | ho
    · rw [dataFrame_idle hi]
    · rw [dataFrame_adds ho]

theorem windowUpdateFrame_sendBuf : (windowUpdateFrame dec s sendBuf f).sendBuf = sendBuf := by
  unfold windowUpdateFrame
  split_ifs <;> rfl

end StreamFrame

section HandleFrame

variable {c c' : H2Core} {f : H2Frame} {id : Option Nat}

theorem handleFrame_stream_sendBuf (hc : ¬ f.OnConn) (h0 : f.streamId ≠ 0)
    (hid : f.streamId < 2 ^ 31) :
    (c.handleFrame f).2.1.sendBuf = c.sendBuf ++ (reply c f).flatMap frameBytes := by
  rw [H2Core.handleFrame_onStream hc, if_neg h0]
  show (streamFrame c.hpackDec (c.stream f.streamId) c.sendBuf f).sendBuf = _
  unfold reply
  cases ht : f.type with
  | headers => rw [streamFrame_headers ht, headersFrame_sendBuf h0 hid]
  | data => rw [streamFrame_data ht, dataFrame_sendBuf h0 hid]
  | windowUpdate =>
    rw [streamFrame_windowUpdate ht, windowUpdateFrame_sendBuf, List.flatMap_nil, List.append_nil]
  | settings => exact absurd (Or.inl ht) hc
  | ping => exact absurd (Or.inr (Or.inl ht)) hc
  | _ =>
    simp only [streamFrame, ht]
    exact (List.append_nil _).symm

/-- A frame that is acknowledged by `g` unless it is an acknowledgement itself. -/
theorem acknowledge_sendBuf {bad : Prop} [Decidable bad] {e : Error} {w : Result Unit × Bytes}
    {g : H2Frame} (hw : w = (.ok (), c.sendBuf ++ frameBytes g))
    (h : (if bad then (.error e, c, none)
      else if ¬ f.has H2Flags.ack then (w.1, { c with sendBuf := w.2 }, none)
      else (.ok (), c, none) : Result Unit × H2Core × Option Nat) = (.ok (), c', id)) :
    ¬ bad ∧ c'.sendBuf =
      c.sendBuf ++ (if f.has H2Flags.ack then [] else [g]).flatMap frameBytes := by
  by_cases hbad : bad
  · rw [if_pos hbad] at h
    cases h
  · rw [if_neg hbad] at h
    refine ⟨hbad, ?_⟩
    by_cases hack : f.has H2Flags.ack = true
    · rw [if_neg (not_not.mpr hack)] at h
      cases h
      rw [if_pos hack, List.flatMap_nil, List.append_nil]
    · rw [if_pos hack, hw] at h
      cases h
      rw [if_neg hack, List.flatMap_singleton]

theorem handleFrame_settings_sendBuf (ht : f.type = .settings)
    (h : c.handleFrame f = (.ok (), c', id)) :
    c'.sendBuf = c.sendBuf ++ (reply c f).flatMap frameBytes := by
  simp only [H2Core.handleFrame, ht] at h
  simp only [reply, ht]
  exact (acknowledge_sendBuf (writeSettingsAck_ok c.sendBuf) h).2

theorem handleFrame_ping_sendBuf (hfit : f.Fits h2MaxFrameSize) (ht : f.type = .ping)
    (h : c.handleFrame f = (.ok (), c', id)) :
    f.length = 8 ∧ c'.sendBuf = c.sendBuf ++ (reply c f).flatMap frameBytes := by
  simp only [H2Core.handleFrame, ht] at h
  simp only [reply, ht]
  by_cases hlen : f.length = 8
  · obtain ⟨-, hbuf⟩ := acknowledge_sendBuf
      (writePing_ok (hfit.length_eq.symm.trans hlen) c.sendBuf) h
    exact ⟨hlen, hbuf⟩
  · rw [if_pos (Or.inr hlen)] at h
    cases h

/-- **An accepted frame appends its reply.** -/
theorem handleFrame_sendBuf (hfit : f.Fits h2MaxFrameSize)
    (h : c.handleFrame f = (.ok (), c', id)) :
    c'.sendBuf = c.sendBuf ++ (reply c f).flatMap frameBytes := by
  rcases H2Core.handleFrame_ok h with ⟨ht | ht | ht, -⟩ | ⟨hc, h0, -⟩
  · exact handleFrame_settings_sendBuf ht h
  · exact (handleFrame_ping_sendBuf hfit ht h).2
  · simp only [H2Core.handleFrame, ht] at h
    cases h
    simp only [reply, ht, List.flatMap_nil, List.append_nil]
  · have hbuf := handleFrame_stream_sendBuf (c := c) hc h0 hfit.streamId_lt
    rwa [h] at hbuf

theorem refusal_fits (hid : f.streamId < 2 ^ 31) (state : H2StreamState) :
    ∀ g ∈ refusal state f, g.Fits h2MaxFrameSize := by
  intro g hg
  unfold refusal at hg
  split_ifs at hg
  · rw [List.mem_singleton.mp hg]
    exact ⟨rfl, (by decide : 4 ≤ h2MaxFrameSize), rfl, hid⟩
  · exact absurd hg List.not_mem_nil

/-- The replies fit into frames. -/
theorem reply_fits (hfit : f.Fits h2MaxFrameSize) (h : c.handleFrame f = (.ok (), c', id)) :
    ∀ g ∈ reply c f, g.Fits h2MaxFrameSize := by
  intro g hg
  unfold reply at hg
  split at hg
  · split_ifs at hg
    · exact absurd hg List.not_mem_nil
    · rw [List.mem_singleton.mp hg]
      exact ⟨rfl, by decide, rfl, by decide⟩
  · rename_i ht
    split_ifs at hg
    · exact absurd hg List.not_mem_nil
    · have hlen := (handleFrame_ping_sendBuf hfit ht h).1
      rw [List.mem_singleton.mp hg]
      exact ⟨hlen.symm.trans hfit.length_eq, (by decide : 8 ≤ h2MaxFrameSize), rfl,
        (by decide : 0 < 2 ^ 31)⟩
  · exact refusal_fits hfit.streamId_lt _ g hg
  · exact refusal_fits hfit.streamId_lt _ g hg
  · exact absurd hg List.not_mem_nil

end HandleFrame

/-! ## Runs -/

/-- What is known of the output of a server after some frames. -/
structure Replied (c : H2Core) (log : List (H2Core × H2Frame)) : Prop where
  isServer : c.isServer = true
  /-- No frame is handled before the preface. -/
  preface  : c.sawPreface = false → log = []
  sendBuf  : c.sendBuf = (replies c.sawPreface log).flatMap frameBytes
  fits     : ∀ g ∈ replies c.sawPreface log, g.Fits h2MaxFrameSize

theorem Replied.greet {c : H2Core} {log : List (H2Core × H2Frame)} (h : Replied c log)
    (ha : c.Awaits) : Replied c.greet.2 log := by
  have hsaw : c.sawPreface = false := by simpa using ha.2
  have hlog := h.preface hsaw
  have hbuf := h.sendBuf
  rw [hsaw, hlog] at hbuf
  refine ⟨h.isServer, nofun, ?_, ?_⟩
  · show (writeSettings c.sendBuf []).2 = _
    rw [hbuf, hlog, writeSettings, writeFrame_ok (by decide) (by decide)]
    rfl
  · rw [hlog]
    intro g hg
    rw [List.mem_singleton.mp hg]
    exact ⟨rfl, by decide, rfl, by decide⟩

theorem Replied.frame {c c' : H2Core} {log : List (H2Core × H2Frame)} {f : H2Frame}
    {id : Option Nat} (h : Replied c log) (ha : ¬ c.Awaits) (hfit : f.Fits h2MaxFrameSize)
    (hf : c.handleFrame f = (.ok (), c', id)) : Replied c' (log ++ [(c, f)]) := by
  have hsaw : c.sawPreface = true := by
    by_contra hs
    exact ha ⟨h.isServer, hs⟩
  obtain ⟨hserver, hsaw'⟩ := c.handleFrame_role f
  rw [hf] at hserver hsaw'
  have hbuf := h.sendBuf
  have hfits := h.fits
  rw [hsaw] at hsaw' hbuf hfits
  refine ⟨hserver.trans h.isServer, fun hs => ?_, ?_, ?_⟩
  · rw [hsaw'] at hs
    cases hs
  · rw [hsaw', replies_concat, List.flatMap_append, ← hbuf, handleFrame_sendBuf hfit hf]
  · rw [hsaw', replies_concat]
    intro g hg
    rcases List.mem_append.mp hg with hg | hg
    · exact hfits g hg
    · exact reply_fits hfit hf g hg

namespace H2Conn

/-- The calls that only receive. -/
def Receives (op : Op) : Prop := op = .process ∨ ∃ data, op = .feed data

/-- **The output of a server that only receives.** -/
theorem Reach.replied {calls : List (H2Conn × Op)} {c : H2Conn} (h : Reach true calls c)
    (hcalls : ∀ p ∈ calls, Receives p.2) : Replied c.toH2Core (frames calls) := by
  refine h.rule (P := Receives) (I := fun c log _ => Replied c log)
    ⟨rfl, fun _ => rfl, rfl, List.forall_mem_nil _⟩
    (fun c log ready hI ha => hI.greet ha)
    (fun c log ready f c' id hI ha hfit hf => hI.frame ha hfit hf) ?_ hcalls
  rintro c c' op log ready (rfl | ⟨data, rfl⟩) hop he hI
  · exact absurd rfl hop
  · cases he
    exact hI

/-- **Replies correspond to what was received.** In every run of `feed` and `process` on a server,
the send buffer reads back as the `SETTINGS` behind the preface and, for every frame received and in
their order, its reply: an acknowledgement of `SETTINGS` and of `PING`, with the payload of the
latter, and `RST_STREAM` for `HEADERS` and `DATA` on a stream that has ended. -/
theorem h2_replies {calls : List (H2Conn × Op)} {c : H2Conn} (h : Reach true calls c)
    (hcalls : ∀ p ∈ calls, p.2 = .process ∨ ∃ data, p.2 = .feed data) :
    c.sendBuf = (replies c.sawPreface (frames calls)).flatMap frameBytes ∧
      framesIn c.sendBuf = replies c.sawPreface (frames calls) := by
  have hI := h.replied hcalls
  refine ⟨hI.sendBuf, ?_⟩
  rw [hI.sendBuf]
  refine framesIn_flatMap fun g hg => ?_
  have hfit := hI.fits g hg
  exact { hfit with length_le := Nat.le_trans hfit.length_le (by decide) }

/-- A `PING` with eight different bytes. -/
def samplePing : H2Frame := ⟨8, .ping, 0, 0, [1, 2, 3, 4, 5, 6, 7, 8]⟩

/-- A request, a `PING`, and a second header block on the stream. -/
theorem h2_replies_once :
    let bytes := h2Preface ++ [sampleHeaders, samplePing, sampleHeaders].flatMap frameBytes
    let c := (new true).feed bytes
    let calls := [(new true, .feed bytes), (c, .process)]
    Reach true calls c.process.2 ∧
      framesIn c.process.2.sendBuf = [greeting, pingAck samplePing.payload, closedReset 1] := by
  intro bytes c calls
  have hrun : Reach true calls c.process.2 := reach_process (r := [1]) (by decide +kernel)
  refine ⟨hrun, (h2_replies hrun ?_).2.trans (by decide +kernel)⟩
  intro p hp
  rcases List.mem_cons.mp hp with rfl | hp
  · exact Or.inr ⟨bytes, rfl⟩
  · rw [List.mem_singleton.mp hp]
    exact Or.inl rfl

end H2Conn

end Uproxy
