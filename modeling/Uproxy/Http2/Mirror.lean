import Uproxy.Http2.Run

/-!
# Connections that receive the same

What a connection makes of the bytes it receives does not depend on what it sends, nor on the bodies
that have been taken off its streams. Two connections are `Alike` if they differ in nothing else;
the bodies of the streams in `taken`, which have ended, may differ.

* `Alike.frame`: a frame does the same to both;
* `handleFrame_settled`: a stream that has ended keeps its request, and a frame reports a stream
  that ends with it;
* **`drain_alike`**: both drain an input alike;
* `drain_settled`: the ids reported in a drain are distinct, and were not reported before.
-/

namespace Uproxy

open Lib.Stream

/-! ## One stream -/

/-- The streams hold the same, but for a body that is `taken`. -/
structure AlikeStream (taken : Prop) (s t : H2Stream) : Prop where
  state   : s.state = t.state
  headers : s.requestHeaders = t.requestHeaders
  body    : ¬ taken → s.recvBuf = t.recvBuf
  ended   : taken → s.state.Ended

section StreamFrame

variable {dec : HpackDecoder} {s t : H2Stream} {b b' : Bytes} {f : H2Frame}

theorem writeRstStream_result (b b' : Bytes) (id : Nat) (e : H2Error) :
    (writeRstStream b id e).1 = (writeRstStream b' id e).1 := by
  unfold writeRstStream writeFrame writeFrameHeader
  split_ifs <;> rfl

/-- What a frame does to a stream that has ended. -/
theorem streamFrame_ended (dec : HpackDecoder) (b : Bytes) (f : H2Frame) (hs : s.state.Ended) :
    (streamFrame dec s b f).stream.state = s.state ∧
      (streamFrame dec s b f).stream.requestHeaders = s.requestHeaders ∧
      (streamFrame dec s b f).stream.recvBuf = s.recvBuf ∧
      (streamFrame dec s b f).ready = none := by
  unfold streamFrame
  split
  · rw [headersFrame_ended hs]
    exact ⟨rfl, rfl, rfl, rfl⟩
  · rw [dataFrame_ended hs]
    exact ⟨rfl, rfl, rfl, rfl⟩
  · unfold windowUpdateFrame
    split_ifs <;> exact ⟨rfl, rfl, rfl, rfl⟩
  · exact ⟨rfl, rfl, rfl, rfl⟩

theorem afterHeaders_ended (state : H2StreamState) : (state.afterHeaders true).Ended := by
  cases state <;> decide

theorem afterData_ended {state : H2StreamState} (h : state = .opened ∨ state = .halfClosedLocal) :
    (state.afterData true).Ended := by
  rcases h with rfl | rfl <;> decide

/-- A stream that is reported has ended. -/
theorem streamFrame_ready {i : Nat} (h : (streamFrame dec s b f).ready = some i) :
    i = f.streamId ∧ (streamFrame dec s b f).stream.state.Ended := by
  have hs : ¬ s.state.Ended := fun hs => by
    rw [(streamFrame_ended dec b f hs).2.2.2] at h
    cases h
  unfold streamFrame at h ⊢
  split at h
  · by_cases heh : f.has H2Flags.endHeaders = true
    · rw [headersFrame_block hs heh] at h ⊢
      generalize decode dec f.payload s.requestHeaders = r at h ⊢
      obtain ⟨e | _, dec', requestHeaders⟩ := r
      · cases h
      · obtain ⟨hend, hi⟩ := Option.ite_none_right_eq_some.mp h
        simp only [hend]
        exact ⟨(Option.some.inj hi).symm, afterHeaders_ended _⟩
    · rw [headersFrame_continued hs heh] at h
      cases h
  · rcases H2StreamState.not_ended_iff.mp hs with hidle | hopen
    · rw [dataFrame_idle hidle] at h
      cases h
    · rw [dataFrame_adds hopen] at h ⊢
      obtain ⟨hend, hi⟩ := Option.ite_none_right_eq_some.mp h
      simp only [hend]
      exact ⟨(Option.some.inj hi).symm, afterData_ended hopen⟩
  · unfold windowUpdateFrame at h
    split_ifs at h
  · cases h

theorem AlikeStream.reset {taken : Prop} (h : AlikeStream taken s t) :
    (resetStream dec s b f).result = (resetStream dec t b' f).result ∧
      (resetStream dec s b f).dec = (resetStream dec t b' f).dec ∧
      (resetStream dec s b f).ready = (resetStream dec t b' f).ready ∧
      AlikeStream taken (resetStream dec s b f).stream (resetStream dec t b' f).stream :=
  ⟨writeRstStream_result b b' _ _, rfl, rfl, h⟩

/-- **A frame does the same to both streams.** -/
theorem AlikeStream.frame {taken : Prop} (h : AlikeStream taken s t) (dec : HpackDecoder)
    (b b' : Bytes) (f : H2Frame) :
    (streamFrame dec s b f).result = (streamFrame dec t b' f).result ∧
      (streamFrame dec s b f).dec = (streamFrame dec t b' f).dec ∧
      (streamFrame dec s b f).ready = (streamFrame dec t b' f).ready ∧
      AlikeStream taken (streamFrame dec s b f).stream (streamFrame dec t b' f).stream := by
  have hstate := h.state
  unfold streamFrame
  split
  · by_cases hs : s.state.Ended
    · rw [headersFrame_ended hs, headersFrame_ended (hstate ▸ hs)]
      exact h.reset
    by_cases heh : f.has H2Flags.endHeaders = true
    · rw [headersFrame_block hs heh, headersFrame_block (hstate ▸ hs) heh, ← h.headers, ← hstate]
      rcases decode dec f.payload s.requestHeaders with ⟨e | _, dec', requestHeaders⟩
      · exact ⟨rfl, rfl, rfl, rfl, rfl, h.body, h.ended⟩
      · exact ⟨rfl, rfl, rfl, rfl, rfl, h.body, fun ht => absurd (h.ended ht) hs⟩
    · rw [headersFrame_continued hs heh, headersFrame_continued (hstate ▸ hs) heh]
      exact ⟨rfl, rfl, rfl, h⟩
  · by_cases hs : s.state.Ended
    · rw [dataFrame_ended hs, dataFrame_ended (hstate ▸ hs)]
      exact h.reset
    rcases H2StreamState.not_ended_iff.mp hs with hidle | hopen
    · rw [dataFrame_idle hidle, dataFrame_idle (hstate ▸ hidle)]
      exact ⟨rfl, rfl, rfl, h⟩
    · rw [dataFrame_adds hopen, dataFrame_adds (hstate ▸ hopen), ← hstate]
      exact ⟨rfl, rfl, rfl, rfl, h.headers, fun ht => congrArg (· ++ f.payload) (h.body ht),
        fun ht => absurd (h.ended ht) hs⟩
  · unfold windowUpdateFrame
    split_ifs
    · exact ⟨rfl, rfl, rfl, h⟩
    · exact ⟨rfl, rfl, rfl, h⟩
    · exact ⟨rfl, rfl, rfl, h.state, h.headers, h.body, h.ended⟩
  · exact ⟨rfl, rfl, rfl, h⟩

end StreamFrame

/-! ## The connection -/

namespace H2Core

/-- The connections agree on what they have received, except that the bodies of the streams in
`taken` may be gone. -/
structure Alike (taken : List Nat) (c d : H2Core) : Prop where
  isServer   : c.isServer = d.isServer
  sawPreface : c.sawPreface = d.sawPreface
  done       : c.done = d.done
  hpackDec   : c.hpackDec = d.hpackDec
  streams    : ∀ id, AlikeStream (id ∈ taken) (c.stream id) (d.stream id)

/-- The request of a stream, and its body, as `handle_h2_client` finds them. -/
def request (c : H2Core) (id : Nat) : List HpackHeader × Bytes :=
  ((c.streamHeaders id).getD [], (c.streamBody id).getD [])

theorem request_eq (c : H2Core) (id : Nat) :
    c.request id = ((c.stream id).requestHeaders, (c.stream id).recvBuf) := by
  unfold request streamHeaders streamBody stream
  cases c.streams id <;> rfl

theorem stream_setStream (c : H2Core) (id i : Nat) (s : H2Stream) :
    (c.setStream id s).stream i = if i = id then { s with id := i } else c.stream i := by
  unfold stream setStream
  by_cases hi : i = id
  · simp [hi]
  · simp [hi]

variable {taken : List Nat} {c d : H2Core}

/-- **A frame does the same to both connections.** -/
theorem Alike.frame (h : Alike taken c d) (f : H2Frame) :
    (c.handleFrame f).1 = (d.handleFrame f).1 ∧ (c.handleFrame f).2.2 = (d.handleFrame f).2.2 ∧
      Alike taken (c.handleFrame f).2.1 (d.handleFrame f).2.1 := by
  obtain ⟨h1, h2, h3, h4, h5⟩ := h
  unfold handleFrame
  split
  · split_ifs
    · exact ⟨rfl, rfl, h1, h2, h3, h4, h5⟩
    · exact ⟨rfl, rfl, h1, h2, h3, h4, h5⟩
    · exact ⟨rfl, rfl, h1, h2, h3, h4, h5⟩
  · split_ifs
    · exact ⟨rfl, rfl, h1, h2, h3, h4, h5⟩
    · exact ⟨rfl, rfl, h1, h2, h3, h4, h5⟩
    · exact ⟨rfl, rfl, h1, h2, h3, h4, h5⟩
  · exact ⟨rfl, rfl, h1, h2, rfl, h4, h5⟩
  · split_ifs
    · exact ⟨rfl, rfl, h1, h2, h3, h4, h5⟩
    · unfold handleStreamFrame
      obtain ⟨hresult, hdec, hready, hstream⟩ :=
        (h5 f.streamId).frame c.hpackDec c.sendBuf d.sendBuf f
      rw [← h4]
      refine ⟨hresult, hready, h1, h2, h3, hdec, fun i => ?_⟩
      show AlikeStream _ ((c.setStream _ _).stream i) ((d.setStream _ _).stream i)
      rw [stream_setStream, stream_setStream]
      split_ifs with hi
      · subst hi
        exact ⟨hstream.state, hstream.headers, hstream.body, hstream.ended⟩
      · exact h5 i

/-- What was received on the streams that have ended in `c` stands in `d`. -/
def Settled (c d : H2Core) : Prop :=
  ∀ id, (c.stream id).state.Ended → (d.stream id).state.Ended ∧ d.request id = c.request id

theorem Settled.refl (c : H2Core) : Settled c c := fun _ h => ⟨h, rfl⟩

theorem Settled.trans {e : H2Core} (h : Settled c d) (h' : Settled d e) : Settled c e :=
  fun id hid => ⟨(h' id (h id hid).1).1, (h' id (h id hid).1).2.trans (h id hid).2⟩

theorem Settled.of_streams (h : d.streams = c.streams) : Settled c d := by
  intro id hid
  unfold request streamHeaders streamBody stream
  rw [h]
  exact ⟨hid, rfl⟩

/-- **A frame** leaves the requests of ended streams alone, and ends the stream it reports. -/
theorem handleFrame_settled (c : H2Core) (f : H2Frame) :
    Settled c (c.handleFrame f).2.1 ∧ ∀ id ∈ (c.handleFrame f).2.2,
      ¬ (c.stream id).state.Ended ∧ ((c.handleFrame f).2.1.stream id).state.Ended := by
  by_cases hc : f.OnConn
  · obtain ⟨r, sendBuf, done, heq⟩ := handleFrame_onConn (c := c) hc
    rw [heq]
    exact ⟨Settled.of_streams rfl, nofun⟩
  · rw [handleFrame_onStream hc]
    split_ifs
    · exact ⟨Settled.refl c, nofun⟩
    unfold handleStreamFrame
    set r := streamFrame c.hpackDec (c.stream f.streamId) c.sendBuf f with hr
    constructor
    · intro i hi
      rw [request_eq, request_eq]
      show ((c.setStream _ _).stream i).state.Ended ∧ (((c.setStream _ _).stream i).requestHeaders,
        ((c.setStream _ _).stream i).recvBuf) = _
      rw [stream_setStream]
      split_ifs with hid
      · subst hid
        obtain ⟨hs, hh, hb, -⟩ := streamFrame_ended c.hpackDec c.sendBuf f hi
        exact ⟨hs ▸ hi, Prod.ext hh hb⟩
      · exact ⟨hi, rfl⟩
    · intro i hi
      obtain ⟨rfl, hend⟩ := streamFrame_ready hi
      constructor
      · intro hs
        have hnone := (streamFrame_ended c.hpackDec c.sendBuf f hs).2.2.2
        rw [← hr, show r.ready = some f.streamId from hi] at hnone
        cases hnone
      · show ((c.setStream _ _).stream _).state.Ended
        rw [stream_setStream, if_pos rfl]
        exact hend

end H2Core

namespace H2Conn

variable {taken : List Nat} {c d : H2Core}

theorem awaits_alike (h : H2Core.Alike taken c d) : c.Awaits ↔ d.Awaits := by
  unfold H2Core.Awaits
  rw [h.isServer, h.sawPreface]

/-- Both find the same at the front of the input. -/
theorem read_alike (h : H2Core.Alike taken c d) (b : Bytes) :
    (machine.read c b = .more → machine.read d b = .more) ∧
    (∀ e c', machine.read c b = .fail e c' →
      ∃ d', machine.read d b = .fail e d' ∧ H2Core.Alike taken c' d') ∧
    ∀ x r, machine.read c b = .item x r → machine.read d b = .item x r := by
  have hdone : H2Core.Alike taken { c with done := true } { d with done := true } :=
    { h with done := rfl, streams := h.streams }
  show (read c b = .more → read d b = .more) ∧ (∀ e c', read c b = .fail e c' →
    ∃ d', read d b = .fail e d' ∧ _) ∧ ∀ x r, read c b = .item x r → read d b = .item x r
  unfold read
  by_cases ha : c.Awaits
  · rw [if_pos ha, if_pos ((awaits_alike h).mp ha)]
    split_ifs
    · exact ⟨fun _ => rfl, nofun, nofun⟩
    · refine ⟨nofun, fun e c' he => ?_, nofun⟩
      cases he
      exact ⟨_, rfl, hdone⟩
    · exact ⟨nofun, nofun, fun x r he => by cases he; rfl⟩
  · rw [if_neg ha, if_neg fun hd => ha ((awaits_alike h).mpr hd)]
    split
    · exact ⟨fun _ => rfl, nofun, nofun⟩
    · refine ⟨nofun, fun e c' he => ?_, nofun⟩
      cases he
      exact ⟨_, rfl, hdone⟩
    · exact ⟨nofun, nofun, fun x r he => by cases he; rfl⟩

theorem handle_some (c : H2Core) (f : H2Frame) :
    machine.handle c (some f) =
      (match (c.handleFrame f).1 with
        | .error e => some e
        | .ok () => none, (c.handleFrame f).2.1, (c.handleFrame f).2.2.toList) := by
  show handle c (some f) = _
  rw [handle]
  rcases c.handleFrame f with ⟨_ | _, c', id⟩ <;> rfl

/-- Both handle it alike. -/
theorem handle_alike (h : H2Core.Alike taken c d) {x : Option H2Frame} {e : Option Error}
    {c' : H2Core} {out : List Nat} (hh : machine.handle c x = (e, c', out)) :
    ∃ d', machine.handle d x = (e, d', out) ∧ H2Core.Alike taken c' d' := by
  cases x with
  | none =>
    cases hh
    exact ⟨_, rfl, { h with sawPreface := rfl, streams := h.streams }⟩
  | some f =>
    obtain ⟨hresult, hready, hcore⟩ := h.frame f
    rw [handle_some] at hh
    cases hh
    rw [handle_some, hresult, hready]
    exact ⟨_, rfl, hcore⟩

/-- **Both drain an input alike.** -/
theorem drain_alike (h : H2Core.Alike taken c d) (b : Bytes) :
    ∃ d', machine.drain d b =
        ⟨(machine.drain c b).error, d', (machine.drain c b).rest, (machine.drain c b).out⟩ ∧
      H2Core.Alike taken (machine.drain c b).state d' :=
  Machine.drain_sim (R := H2Core.Alike taken) (fun h => (read_alike h _).1)
    (fun h => (read_alike h _).2.1 _ _) (fun h => (read_alike h _).2.2 _ _)
    (fun h hh => handle_alike h hh) c b h

/-- What is reported when an item is handled. -/
theorem handle_settled {x : Option H2Frame} {e : Option Error} {c' : H2Core} {out : List Nat}
    (hh : machine.handle c x = (e, c', out)) :
    H2Core.Settled c c' ∧ out.Nodup ∧
      ∀ id ∈ out, ¬ (c.stream id).state.Ended ∧ (c'.stream id).state.Ended := by
  cases x with
  | none =>
    cases hh
    exact ⟨H2Core.Settled.of_streams rfl, List.nodup_nil, nofun⟩
  | some f =>
    obtain ⟨hset, hid⟩ := c.handleFrame_settled f
    rw [handle_some] at hh
    cases hh
    exact ⟨hset, by cases (c.handleFrame f).2.2 <;> simp,
      fun i hi => hid i (Option.mem_toList.mp hi)⟩

theorem read_fail_streams {b : Bytes} {e : Error} {c' : H2Core}
    (hr : machine.read c b = .fail e c') : c'.streams = c.streams := by
  change read c b = _ at hr
  unfold read at hr
  split_ifs at hr
  · cases hr
    rfl
  · split at hr
    · cases hr
    · cases hr
      rfl
    · cases hr

/-- **What is reported in a drain**: distinct streams, which end in it. -/
theorem drain_settled (c : H2Core) (b : Bytes) :
    H2Core.Settled c (machine.drain c b).state ∧ (machine.drain c b).out.Nodup ∧
      ∀ id ∈ (machine.drain c b).out,
        ¬ (c.stream id).state.Ended ∧ ((machine.drain c b).state.stream id).state.Ended := by
  induction c, b using machine.drain_induction with
  | more c b hr =>
    rw [Machine.drain_more hr]
    exact ⟨H2Core.Settled.refl c, List.nodup_nil, nofun⟩
  | fail c b e c' hr =>
    rw [Machine.drain_fail hr]
    exact ⟨H2Core.Settled.of_streams (read_fail_streams hr), List.nodup_nil, nofun⟩
  | refused c b x r e c' out hr hh =>
    rw [Machine.drain_refused hr hh]
    obtain ⟨hset, hnodup, hout⟩ := handle_settled hh
    exact ⟨hset, hnodup, hout⟩
  | item c b x r c' out hr hh ih =>
    rw [Machine.drain_item hr hh]
    obtain ⟨hset, hnodup, hout⟩ := handle_settled hh
    obtain ⟨hset', hnodup', hout'⟩ := ih
    refine ⟨hset.trans hset', ?_, fun id hid => ?_⟩
    · exact List.nodup_append.mpr ⟨hnodup, hnodup', fun i hi j hj hij =>
        (hout' j hj).1 (hij ▸ (hout i hi).2)⟩
    · rcases List.mem_append.mp hid with hid | hid
      · exact ⟨(hout id hid).1, (hset' id (hout id hid).2).1⟩
      · exact ⟨fun h => (hout' id hid).1 (hset id h).1, (hout' id hid).2⟩

end H2Conn

end Uproxy
