import Uproxy.Hpack.Sync
import Uproxy.Http2.Run

/-!
# A client reads the responses of a server

A server writes responses with `send_response`; a client connection of the same code is fed the
bytes. On the way are the header block, the frames of the body, the bytes of the frames, and the
streams of the client.

* `handleAll` handles frames one after the other. `process_handleAll` takes a client from bytes to
  frames: `process` on written frames handles these frames;
* `handleFrame_opens`, `handleFrame_adds`: the two kinds of frames a response is made of, on a new
  stream and on an open one;
* `handleAll_response`: the frames of one response end its stream with the headers and the body,
  and leave the other streams alone;
* **`h2_loopback`**: a sequence of responses with different ids.

What the encoder writes and the decoder refuses (empty strings) makes `process` fail.
-/

namespace Uproxy

open Lib.Run

/-- The arguments of `send_response`, with `end_stream`. -/
structure H2Response where
  id      : Nat
  headers : List HpackHeader
  body    : Bytes
  deriving DecidableEq, Repr

/-- `send_response`; `none` is an error. -/
def respond (c : H2Core) (r : H2Response) : Option H2Core :=
  match c.sendResponse r.id r.headers r.body true with
  | (.error _, _) => none
  | (.ok (), c') => some c'

def H2Response.frames (r : H2Response) : List H2Frame := responseFrames r.id r.headers r.body true

/-- What the responses add to the send buffer. -/
theorem respondAll_sendBuf : ∀ {rs : List H2Response} {c c' : H2Core},
    runM respond c rs = some c' →
      (∀ r ∈ rs, Sendable r.id r.headers) ∧
        c'.sendBuf = c.sendBuf ++ (rs.flatMap H2Response.frames).flatMap frameBytes
  | [], c, c', h => by
    cases h
    exact ⟨List.forall_mem_nil _, (List.append_nil _).symm⟩
  | r :: rs, c, c', h => by
    obtain ⟨c₁, hr, h⟩ := Option.bind_eq_some_iff.mp h
    unfold respond at hr
    by_cases hs : Sendable r.id r.headers
    · obtain ⟨hpackEnc, hsent⟩ := sendResponse_sent hs c r.body true
      rw [hsent] at hr
      cases hr
      obtain ⟨hall, hbuf⟩ := respondAll_sendBuf h
      refine ⟨List.forall_mem_cons.mpr ⟨hs, hall⟩, ?_⟩
      rw [hbuf, List.flatMap_cons, List.flatMap_append, List.append_assoc]
      rfl
    · obtain ⟨e, hpackEnc, hunsent⟩ := sendResponse_unsent hs c r.body true
      rw [hunsent] at hr
      cases hr

/-! ## Frames one after the other -/

/-- Handle frames up to the first error: the members behind them and the ids they report. -/
def handleAll : H2Core → List H2Frame → Option (H2Core × List Nat)
  | c, [] => some (c, [])
  | c, f :: fs =>
    match c.handleFrame f with
    | (.error _, _, _) => none
    | (.ok (), c', id) => (handleAll c' fs).map fun r => (r.1, id.toList ++ r.2)

theorem handleAll_cons {c c' : H2Core} {f : H2Frame} {fs : List H2Frame} {ids : List Nat}
    (h : handleAll c (f :: fs) = some (c', ids)) :
    ∃ c₁ id ids', c.handleFrame f = (.ok (), c₁, id) ∧ handleAll c₁ fs = some (c', ids') ∧
      ids = id.toList ++ ids' := by
  unfold handleAll at h
  rcases hf : c.handleFrame f with ⟨e | ⟨⟩, c₁, id⟩
  · rw [hf] at h
    cases h
  · rw [hf] at h
    obtain ⟨⟨c₂, ids'⟩, hrest, heq⟩ := Option.map_eq_some_iff.mp h
    cases heq
    exact ⟨c₁, id, ids', rfl, hrest, rfl⟩

theorem handleAll_append : ∀ {fs gs : List H2Frame} {c c' : H2Core} {ids : List Nat},
    handleAll c (fs ++ gs) = some (c', ids) →
      ∃ c₁ ids₁ ids₂, handleAll c fs = some (c₁, ids₁) ∧ handleAll c₁ gs = some (c', ids₂) ∧
        ids = ids₁ ++ ids₂
  | [], gs, c, c', ids, h => ⟨c, [], ids, rfl, h, rfl⟩
  | f :: fs, gs, c, c', ids, h => by
    obtain ⟨c₁, id, ids', hf, hrest, rfl⟩ := handleAll_cons h
    obtain ⟨c₂, ids₁, ids₂, h1, h2, rfl⟩ := handleAll_append hrest
    refine ⟨c₂, id.toList ++ ids₁, ids₂, ?_, h2, (List.append_assoc _ _ _).symm⟩
    rw [handleAll, hf]
    simp only [h1, Option.map_some]

namespace H2Conn

/-- A drain without an error handles the frames in the buffer. -/
theorem drain_handleAll : ∀ {fs : List H2Frame} {c : H2Core}, ¬ c.Awaits →
    (∀ f ∈ fs, f.Fits h2MaxFrameSize) →
    (machine.drain c (fs.flatMap frameBytes)).error = none →
      handleAll c fs = some ((machine.drain c (fs.flatMap frameBytes)).state,
        (machine.drain c (fs.flatMap frameBytes)).out)
  | [], c, ha, _, _ => by
    have hmore : machine.read c [] = .more := read_frame ha []
    rw [List.flatMap_nil, Lib.Stream.Machine.drain_more hmore]
    rfl
  | f :: fs, c, ha, hfit, herr => by
    have hf := hfit f List.mem_cons_self
    rw [List.flatMap_cons] at herr ⊢
    rcases hh : c.handleFrame f with ⟨e | ⟨⟩, c', id⟩
    · rw [drain_frameBytes_error ha hf hh] at herr
      cases herr
    · have ha' := handleFrame_awaits ha f
      rw [hh] at ha'
      rw [drain_frameBytes ha hf hh] at herr ⊢
      have ih := drain_handleAll ha' (fun g hg => hfit g (List.mem_cons_of_mem f hg)) herr
      rw [handleAll, hh]
      simp only [ih, Option.map_some]
      rfl

/-- **A client that is fed written frames handles them.** -/
theorem process_handleAll {fs : List H2Frame} (hfit : ∀ f ∈ fs, f.Fits h2MaxFrameSize)
    {ready : List Nat} {client : H2Conn}
    (h : ((new false).feed (fs.flatMap frameBytes)).process = (.ok ready, client)) :
    handleAll (new false).toH2Core fs = some (client.toH2Core, ready) := by
  rw [process_feed_new, result] at h
  cases herr : (machine.drain (new false).toH2Core (fs.flatMap frameBytes)).error with
  | some e =>
    rw [herr] at h
    cases h
  | none =>
    rw [herr] at h
    cases h
    exact drain_handleAll (by decide) hfit herr

/-! ## One response -/

/-- `HEADERS` on a new stream. -/
theorem handleFrame_opens {c c' : H2Core} {f : H2Frame} {id : Option Nat} (ht : f.type = .headers)
    (hnew : c.streams f.streamId = none) (h : c.handleFrame f = (.ok (), c', id)) :
    ∃ dec' headers, decode c.hpackDec f.payload [] = (.ok (), dec', headers) ∧ id = f.reports ∧
      c'.streams = (c.setStream f.streamId { id := f.streamId, requestHeaders := headers
                                             state := if f.has H2Flags.endStream
                                               then .halfClosedRemote else .opened }).streams := by
  have hstream : c.stream f.streamId = { id := f.streamId } := by
    unfold H2Core.stream
    rw [hnew]
    rfl
  rcases H2Core.handleFrame_ok h with ⟨hon, -⟩ | ⟨-, -, s', hstreams, hmove⟩
  · rcases hon with hon | hon | hon <;> rw [ht] at hon <;> cases hon
  · rw [hstream] at hmove
    generalize c'.hpackDec = dec' at hmove
    cases hmove with
    | headers _ _ hdec => exact ⟨_, _, hdec, rfl, hstreams⟩
    | data hd => rw [ht] at hd; cases hd
    | windowUpdate hw => rw [ht] at hw; cases hw
    | refused _ hs => rcases hs with hs | hs <;> cases hs
    | ignored hi => exact absurd ht hi.1

/-- `DATA` on an open stream. -/
theorem handleFrame_adds {c c' : H2Core} {f : H2Frame} {id : Option Nat} {s : H2Stream}
    (ht : f.type = .data) (hs : c.streams f.streamId = some s) (hopen : s.state = .opened)
    (h : c.handleFrame f = (.ok (), c', id)) :
    id = f.reports ∧
      c'.streams = (c.setStream f.streamId { s with
        id := f.streamId
        recvBuf := s.recvBuf ++ f.payload
        state := if f.has H2Flags.endStream then .halfClosedRemote else .opened }).streams := by
  rcases H2Core.handleFrame_ok h with ⟨hon, -⟩ | ⟨-, -, s', hstreams, hmove⟩
  · rcases hon with hon | hon | hon <;> rw [ht] at hon <;> cases hon
  · rw [stream_of_some hs] at hmove
    generalize c'.hpackDec = dec' at hmove
    cases hmove with
    | data hd _ =>
      refine ⟨rfl, ?_⟩
      rw [hstreams, hopen]
      rfl
    | headers hh => rw [ht] at hh; cases hh
    | windowUpdate hw => rw [ht] at hw; cases hw
    | refused _ hs' => rcases hs' with hs' | hs' <;> rw [hopen] at hs' <;> cases hs'
    | ignored hi => exact absurd ht hi.2.1

/-- The stream holds a message. -/
def Holds (c : H2Core) (id : Nat) (headers : List HpackHeader) (body : Bytes) : Prop :=
  ∃ s, c.streams id = some s ∧ s.requestHeaders = headers ∧ s.recvBuf = body

theorem dataFrames_nil (id : Nat) (endStream : Bool) (maxFrameSize fuel : Nat) :
    dataFrames id endStream maxFrameSize fuel [] = [] := by
  cases fuel <;> rfl

/-- The frames of `write_data` on an open stream. -/
theorem handleAll_data {id : Nat} {headers : List HpackHeader} :
    ∀ {fuel : Nat} {data : Bytes} {c c' : H2Core} {s : H2Stream} {ids : List Nat}, data ≠ [] →
      data.length ≤ fuel → c.streams id = some s → s.state = .opened → s.requestHeaders = headers →
      handleAll c (dataFrames id true h2MaxFrameSize fuel data) = some (c', ids) →
        ids = [id] ∧ Holds c' id headers (s.recvBuf ++ data) ∧
          ∀ i, i ≠ id → c'.streams i = c.streams i
  | 0, data, c, c', s, ids, h0, hlen, _, _, _, _ =>
    absurd (List.length_eq_zero_iff.mp (Nat.le_zero.mp hlen)) h0
  | fuel + 1, data, c, c', s, ids, h0, hlen, hs, hopen, hheaders, h => by
    rw [dataFrames, if_neg h0] at h
    obtain ⟨c₁, id₁, ids', hf, hrest, rfl⟩ := handleAll_cons h
    obtain ⟨rfl, hstreams⟩ := handleFrame_adds rfl hs hopen hf
    have hself := (congrFun hstreams id).trans (if_pos rfl)
    have hother : ∀ i, i ≠ id → c₁.streams i = c.streams i := fun i hi =>
      (congrFun hstreams i).trans (if_neg hi)
    by_cases hlast : data.length ≤ h2MaxFrameSize
    · -- the last frame, which ends the stream
      rw [List.drop_of_length_le hlast, dataFrames_nil] at hrest
      cases hrest
      refine ⟨?_, ⟨_, hself, hheaders, ?_⟩, hother⟩
      · simp [H2Frame.reports, H2Frame.has, hlast]
        decide
      · rw [List.take_of_length_le hlast]
    · have hmax : 0 < h2MaxFrameSize := by decide
      have hne : data.drop h2MaxFrameSize ≠ [] := by
        rw [← List.length_pos_iff, List.length_drop]
        omega
      have hnoend : (if true && decide (data.length ≤ h2MaxFrameSize) then H2Flags.endStream
          else 0) = 0 := by simp [hlast]
      simp only [H2Frame.has, hnoend] at hself
      obtain ⟨rfl, ⟨s', hs', hh', hb'⟩, hother'⟩ := handleAll_data hne
        (by rw [List.length_drop]; omega) hself rfl hheaders hrest
      refine ⟨?_, ⟨s', hs', hh', ?_⟩, fun i hi => (hother' i hi).trans (hother i hi)⟩
      · simp [H2Frame.reports, H2Frame.has, hlast]
      · rw [hb', List.append_assoc, List.take_append_drop]

/-- **The frames of a response on a new stream.** -/
theorem handleAll_response {c c' : H2Core} {r : H2Response} {ids : List Nat}
    (hnew : c.streams r.id = none) (h : handleAll c r.frames = some (c', ids)) :
    ids = [r.id] ∧ Holds c' r.id (r.headers.map sent) r.body ∧
      ∀ i, i ≠ r.id → c'.streams i = c.streams i := by
  obtain ⟨c₁, id₁, ids', hf, hrest, rfl⟩ := handleAll_cons h
  obtain ⟨dec', headers, hdec, rfl, hstreams⟩ := handleFrame_opens rfl hnew hf
  obtain ⟨-, rfl⟩ := decode_encoded hdec
  have hself := (congrFun hstreams r.id).trans (if_pos rfl)
  have hother : ∀ i, i ≠ r.id → c₁.streams i = c.streams i := fun i hi =>
    (congrFun hstreams i).trans (if_neg hi)
  rw [H2Frame.reports, blockFrame_endStream]
  rw [blockFrame_endStream] at hself
  by_cases hbody : r.body = []
  · rw [hbody] at hrest
    cases hrest
    rw [hbody]
    exact ⟨rfl, ⟨_, hself, rfl, rfl⟩, hother⟩
  · have hfin : (r.body.isEmpty && true) = false := by
      rw [List.isEmpty_eq_false_iff.mpr hbody]
      rfl
    rw [hfin] at hself ⊢
    obtain ⟨rfl, hholds, hother'⟩ := handleAll_data hbody (Nat.le_refl _) hself rfl rfl hrest
    exact ⟨rfl, hholds, fun i hi => (hother' i hi).trans (hother i hi)⟩

/-! ## All responses -/

/-- The frames of responses with different ids. -/
theorem handleAll_responses : ∀ {rs : List H2Response} {c c' : H2Core} {ids : List Nat},
    (rs.map H2Response.id).Nodup → (∀ r ∈ rs, c.streams r.id = none) →
    handleAll c (rs.flatMap H2Response.frames) = some (c', ids) →
      ids = rs.map H2Response.id ∧
        (∀ r ∈ rs, Holds c' r.id (r.headers.map sent) r.body) ∧
        ∀ i, i ∉ rs.map H2Response.id → c'.streams i = c.streams i
  | [], c, c', ids, _, _, h => by
    cases h
    exact ⟨rfl, List.forall_mem_nil _, fun _ _ => rfl⟩
  | r :: rs, c, c', ids, hnodup, hnew, h => by
    rw [List.flatMap_cons] at h
    obtain ⟨c₁, ids₁, ids₂, h1, h2, rfl⟩ := handleAll_append h
    rw [List.map_cons, List.nodup_cons] at hnodup
    obtain ⟨rfl, ⟨s, hs, hheaders, hbody⟩, hother⟩ :=
      handleAll_response (hnew r List.mem_cons_self) h1
    have hne : ∀ x ∈ rs, x.id ≠ r.id := fun x hx he =>
      hnodup.1 (he ▸ List.mem_map_of_mem hx)
    obtain ⟨rfl, hall, hrest⟩ := handleAll_responses hnodup.2
      (fun x hx => (hother x.id (hne x hx)).trans (hnew x (List.mem_cons_of_mem r hx))) h2
    refine ⟨rfl, List.forall_mem_cons.mpr ⟨?_, hall⟩, fun i hi => ?_⟩
    · -- the frames behind a response are on other streams
      exact ⟨s, (hrest r.id hnodup.1).trans hs, hheaders, hbody⟩
    · rw [List.map_cons, List.mem_cons, not_or] at hi
      exact (hrest i hi.2).trans (hother i hi.1)

/-- **Responses are read back.** If a server sends responses with different ids and a fresh client
processes the bytes its send buffer gained, the client reports these ids in order, and has the same
names, values and bodies on the streams. -/
theorem h2_loopback (server server' : H2Core) (rs : List H2Response)
    (hids : (rs.map H2Response.id).Nodup) (hsend : runM respond server rs = some server')
    (ready : List Nat) (client : H2Conn)
    (hprocess : ((new false).feed (server'.sendBuf.drop server.sendBuf.length)).process =
      (.ok ready, client)) :
    ready = rs.map H2Response.id ∧ ∀ r ∈ rs,
      (client.streamHeaders r.id).map (List.map fun h => (h.name, h.value)) =
          some (r.headers.map fun h => (h.name, h.value)) ∧
        client.streamBody r.id = some r.body := by
  obtain ⟨hsendable, hbuf⟩ := respondAll_sendBuf hsend
  have hfits : ∀ f ∈ rs.flatMap H2Response.frames, f.Fits h2MaxFrameSize := fun f hf => by
    obtain ⟨r, hr, hf⟩ := List.mem_flatMap.mp hf
    exact (responseFrames_fits (hsendable r hr) r.body true f hf).1
  rw [hbuf, List.drop_left] at hprocess
  obtain ⟨hready, hall, -⟩ := handleAll_responses hids (fun _ _ => rfl)
    (process_handleAll hfits hprocess)
  refine ⟨hready, fun r hr => ?_⟩
  obtain ⟨s, hs, hheaders, hbody⟩ := hall r hr
  unfold H2Core.streamHeaders H2Core.streamBody
  simp only [hs, Option.map_some, hheaders, hbody, List.map_map, and_true]
  rfl

/-- A response with a body and one without. -/
def sampleResponses : List H2Response :=
  [⟨1, [⟨ascii "a", ascii "b", false⟩], [10, 20]⟩, ⟨3, [⟨ascii "c", ascii "d", true⟩], []⟩]

/-- A server that has sent them. -/
def sampleServer : H2Core :=
  (runM respond (new true).toH2Core sampleResponses).getD (new true).toH2Core

/-- Both responses are read back. -/
theorem h2_loopback_two :
    ∃ client, ((new false).feed sampleServer.sendBuf).process = (.ok [1, 3], client) ∧
      (client.streamHeaders 1).map (List.map fun h => (h.name, h.value)) =
        some [(ascii "a", ascii "b")] ∧
      client.streamBody 1 = some [10, 20] ∧ client.streamBody 3 = some [] := by
  have hsend : runM respond (new true).toH2Core sampleResponses = some sampleServer := rfl
  have hready : ((new false).feed sampleServer.sendBuf).process.1 = .ok [1, 3] := by
    decide +kernel
  obtain ⟨-, hall⟩ := h2_loopback (new true).toH2Core sampleServer sampleResponses (by decide) hsend
    [1, 3] _ (Prod.ext hready rfl)
  have h1 := hall ⟨1, [⟨ascii "a", ascii "b", false⟩], [10, 20]⟩ (by decide)
  have h3 := hall ⟨3, [⟨ascii "c", ascii "d", true⟩], []⟩ (by decide)
  exact ⟨_, Prod.ext hready rfl, h1.1, h1.2, h3.2⟩

end H2Conn

end Uproxy
