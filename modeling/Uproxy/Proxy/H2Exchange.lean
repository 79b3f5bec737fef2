import Uproxy.Http2.Mirror
import Uproxy.Http2.Reply
import Uproxy.Proxy.Exchange

/-!
# The exchange with an HTTP/2 client

`handle_h2_client` reads whatever has arrived, hands on the requests that are complete with it, and
writes the answers into the connection it reads with. The requests handed on in a run are compared
with those of a connection that receives the same bytes at once and never answers (`drained`):

* `Received`: the connection of the client is like that one, apart from the output and the bodies
  taken off;
* `Received.handle`: one call of `handle_h2_client`;
* **`h2_requests_of_bytes`**: the requests handed on depend on the bytes received only, not on the
  pieces they come in, on the upstreams or on when output is written. Only on the last read of a
  connection may some be missing: if a frame is refused, the requests complete before it in the same
  read are dropped with the connection;
* **`h2_output_frames`**: what is sent is a sequence of whole frames, among which the answers stand
  one behind the other, in the order of the requests.

HTTP/2 is chosen in the TLS handshake only. `h2_run_tls` says the same of a connection of the TLS
listener, through its mirror (`Proxy/TlsClient.lean`).
-/

namespace Uproxy

open Lib.Run Lib.Stream

/-- The stream, the request and its body. -/
def H2Taken.request (t : H2Taken) : Nat × HttpRequest × Bytes := (t.id, t.req, t.body)

/-- What a connection that only receives makes of some bytes. -/
def drained (bytes : Bytes) : Outcome UInt8 H2Core Error Nat :=
  H2Conn.machine.drain (H2Conn.new true).toH2Core bytes

/-- The requests it reports. -/
def requestsOf (o : Outcome UInt8 H2Core Error Nat) : List (Nat × HttpRequest × Bytes) :=
  o.out.map fun id =>
    let (headers, body) := o.state.request id
    (id, h2Request headers body, body)

def h2Requests (bytes : Bytes) : List (Nat × HttpRequest × Bytes) := requestsOf (drained bytes)

/-- The bytes are accepted, and `GOAWAY` is not among the frames. -/
def H2Accepted (bytes : Bytes) : Prop :=
  ∃ ready c, ((H2Conn.new true).feed bytes).process = (.ok ready, c) ∧ c.isDone = false

theorem h2Accepted_iff (bytes : Bytes) :
    H2Accepted bytes ↔ (drained bytes).error = none ∧ (drained bytes).state.done = false := by
  unfold H2Accepted
  rw [H2Conn.process_feed_new]
  show (∃ ready c, H2Conn.result (drained bytes) = (.ok ready, c) ∧ _) ↔ _
  rcases drained bytes with ⟨_ | e, d, rest, out⟩
  · constructor
    · rintro ⟨ready, c, h, hdone⟩
      cases h
      exact ⟨rfl, hdone⟩
    · exact fun h => ⟨_, _, rfl, h.2⟩
  · constructor
    · rintro ⟨ready, c, h, -⟩
      cases h
    · exact fun h => by cases h.1

/-! ## More bytes -/

theorem drained_ended (bytes : Bytes) :
    ∀ id ∈ (drained bytes).out, ((drained bytes).state.stream id).state.Ended :=
  fun id hid => ((H2Conn.drain_settled _ bytes).2.2 id hid).2

theorem drained_append {bytes : Bytes} (h : (drained bytes).error = none) (new : Bytes) :
    drained (bytes ++ new) =
      (H2Conn.machine.drain (drained bytes).state ((drained bytes).rest ++ new)).prepend
        (drained bytes).out :=
  Machine.drain_append_ok h new

/-- More bytes add requests. -/
theorem h2Requests_append {bytes : Bytes} (h : (drained bytes).error = none) (new : Bytes) :
    h2Requests (bytes ++ new) = h2Requests bytes ++ requestsOf
      (H2Conn.machine.drain (drained bytes).state ((drained bytes).rest ++ new)) := by
  obtain ⟨hset, -⟩ := H2Conn.drain_settled (drained bytes).state ((drained bytes).rest ++ new)
  unfold h2Requests
  rw [drained_append h]
  refine List.map_append.trans ?_
  congr 1
  exact List.map_congr_left fun id hid => by
    rw [← (hset id (drained_ended bytes id hid)).2]
    rfl

theorem h2Requests_mono (bytes new : Bytes) : h2Requests bytes <+: h2Requests (bytes ++ new) := by
  cases h : (drained bytes).error with
  | none => exact ⟨_, (h2Requests_append h new).symm⟩
  | some e =>
    unfold h2Requests
    rw [show drained (bytes ++ new) = _ from Machine.drain_append_error h new]
    exact List.prefix_rfl

/-! ## One read -/

/-- The connection of a client that has been sent `bytes`. -/
structure Received (conn : ClientConn) (bytes : Bytes) : Prop where
  proto     : conn.proto = .http2
  rbuf      : conn.rbuf = []
  keepAlive : conn.keepAlive = true
  error     : (drained bytes).error = none
  done      : (drained bytes).state.done = false
  rest      : (conn.h2conn.getD (.new true)).recvBuf = (drained bytes).rest
  sendBuf   : (conn.h2conn.getD (.new true)).sendBuf = []
  alike     : H2Core.Alike (drained bytes).out (conn.h2conn.getD (.new true)).toH2Core
    (drained bytes).state

/-- A connection that is new. -/
theorem Received.new : Received { proto := .http2 } [] :=
  ⟨rfl, rfl, rfl, rfl, rfl, rfl, rfl, rfl, rfl, rfl, rfl, fun _ => ⟨rfl, rfl, fun _ => rfl, nofun⟩⟩

/-- The output and the body of a stream that has ended do not matter. -/
theorem H2Core.Alike.consume {taken : List Nat} {c d : H2Core} (h : Alike taken c d) {id : Nat}
    (hid : (c.stream id).state.Ended) (hpackEnc : HpackEncoder) (sendBuf : Bytes) (n : Nat) :
    Alike (taken ++ [id]) (consumeBody { c with hpackEnc, sendBuf } id n) d := by
  obtain ⟨streams, heq⟩ := consumeBody_eq { c with hpackEnc, sendBuf } id n
  have hstream : ∀ i, (consumeBody { c with hpackEnc, sendBuf } id n).stream i = { c.stream i with
      recvBuf := if i = id then (c.stream i).recvBuf.drop n else (c.stream i).recvBuf } :=
    fun i => stream_consumeBody _ id n i
  refine ⟨?_, ?_, ?_, ?_, fun i => ?_⟩
  · rw [heq]
    exact h.isServer
  · rw [heq]
    exact h.sawPreface
  · rw [heq]
    exact h.done
  · rw [heq]
    exact h.hpackDec
  · rw [hstream i]
    obtain ⟨h1, h2, h3, h4⟩ := h.streams i
    refine ⟨h1, h2, fun hi => ?_, fun hi => ?_⟩
    · rw [List.mem_append, List.mem_singleton, not_or] at hi
      simp only [if_neg hi.2]
      exact h3 hi.1
    · rcases List.mem_append.mp hi with hi | hi
      · exact h4 hi
      · rw [List.mem_singleton.mp hi]
        exact hid

section Serve

variable (sys : Nat → Attempt × Attempt)

theorem serveStream_core (r : Served) (id : Nat) : ∃ hpackEnc sendBuf n,
    (serveStream sys r id).core = H2Core.consumeBody { r.core with hpackEnc, sendBuf } id n := by
  unfold serveStream
  obtain ⟨hpackEnc, sendBuf, heq⟩ := H2Conn.sendResponse_members r.core id
    (h2Response (r.server.dispatch (h2Request ((r.core.streamHeaders id).getD [])
      ((r.core.streamBody id).getD [])) ((r.core.streamBody id).getD []) (sys id)).1).1
    (h2Response (r.server.dispatch (h2Request ((r.core.streamHeaders id).getD [])
      ((r.core.streamBody id).getD [])) ((r.core.streamBody id).getD []) (sys id)).1).2 true
  exact ⟨hpackEnc, sendBuf, _, congrArg (H2Core.consumeBody · id _) heq⟩

/-- **The loop over the requests**: it hands on those a connection that never answers holds. -/
theorem serve_taken {d : H2Core} : ∀ (ready : List Nat) {taken : List Nat} {r : Served},
    H2Core.Alike taken r.core d → ready.Nodup →
    (∀ id ∈ ready, id ∉ taken ∧ (d.stream id).state.Ended) →
    H2Core.Alike (taken ++ ready) (run (serveStream sys) r ready).core d ∧
      (smallSteps (serveStream sys) (turnTaken sys) r ready).map H2Taken.request =
        ready.map fun id => (id, h2Request (d.request id).1 (d.request id).2, (d.request id).2)
  | [], taken, r, h, _, _ => ⟨(List.append_nil taken).symm ▸ h, rfl⟩
  | id :: ready, taken, r, h, hnodup, hids => by
    obtain ⟨hnot, hnodup⟩ := List.nodup_cons.mp hnodup
    obtain ⟨hid, hended⟩ := hids id List.mem_cons_self
    have hrequest : r.core.request id = d.request id := by
      rw [H2Core.request_eq, H2Core.request_eq, (h.streams id).headers, (h.streams id).body hid]
    have hstep : H2Core.Alike (taken ++ [id]) (serveStream sys r id).core d := by
      obtain ⟨hpackEnc, sendBuf, n, heq⟩ := serveStream_core sys r id
      rw [heq]
      exact h.consume ((h.streams id).state ▸ hended) _ _ _
    obtain ⟨hcore, htaken⟩ := serve_taken ready hstep hnodup fun i hi => by
      refine ⟨fun hmem => ?_, (hids i (List.mem_cons_of_mem id hi)).2⟩
      rcases List.mem_append.mp hmem with hmem | hmem
      · exact (hids i (List.mem_cons_of_mem id hi)).1 hmem
      · exact hnot (List.mem_singleton.mp hmem ▸ hi)
    constructor
    · rw [List.append_cons]
      exact hcore
    · rw [smallSteps, List.map_append, htaken]
      show (id, h2Request (r.core.request id).1 (r.core.request id).2, (r.core.request id).2) :: _ =
        _
      rw [hrequest]
      rfl

theorem serve_answers : ∀ (ready : List Nat) (r : Served),
    (run (serveStream sys) r ready).answers = r.answers ++
      (smallSteps (serveStream sys) (turnTaken sys) r ready).map fun t => (t.id, t.answer)
  | [], r => (List.append_nil _).symm
  | id :: ready, r => by
    refine (serve_answers ready (serveStream sys r id)).trans ?_
    rw [smallSteps, List.map_append, ← List.append_assoc]
    rfl

/-- The loop writes the frames of the answers. -/
theorem serve_output (ready : List Nat) (r : Served) :
    (run (serveStream sys) r ready).core.sendBuf = r.core.sendBuf ++
      ((smallSteps (serveStream sys) (turnTaken sys) r ready).flatMap fun t =>
        answerFrames (t.id, t.answer)).flatMap frameBytes := by
  obtain ⟨new, hanswers, -, hbuf⟩ := serveStreams_frames sys ready r
  have hnew := List.append_cancel_left (hanswers.symm.trans (serve_answers sys ready r))
  rw [hnew, List.flatMap_map] at hbuf
  exact hbuf

end Serve

/-- The frame belongs to an answer. -/
def H2Frame.Answers (f : H2Frame) : Prop := f.type = .headers ∨ f.type = .data

instance H2Frame.instDecidableAnswers (f : H2Frame) : Decidable f.Answers :=
  inferInstanceAs (Decidable (_ ∨ _))

theorem reply_not_answers (c : H2Core) (f : H2Frame) : ∀ g ∈ reply c f, ¬ g.Answers := by
  have hrefusal : ∀ g ∈ refusal (c.stream f.streamId).state f, ¬ g.Answers := by
    intro g hg
    unfold refusal at hg
    split_ifs at hg
    · rw [List.mem_singleton.mp hg]
      exact nofun
    · cases hg
  intro g hg
  unfold reply at hg
  split at hg
  · split_ifs at hg
    · cases hg
    · rw [List.mem_singleton.mp hg]
      decide
  · split_ifs at hg
    · cases hg
    · rw [List.mem_singleton.mp hg]
      exact nofun
  · exact hrefusal g hg
  · exact hrefusal g hg
  · cases hg

/-- What a connection writes while it receives: whole frames, none of which belongs to an answer. -/
theorem drain_replies (c : H2Core) (b : Bytes) (h : (H2Conn.machine.drain c b).error = none) :
    ∃ fs : List H2Frame,
      (H2Conn.machine.drain c b).state.sendBuf = c.sendBuf ++ fs.flatMap frameBytes ∧
      ∀ f ∈ fs, f.Fits h2MaxFrameSize ∧ ¬ f.Answers := by
  refine @Machine.drain_inv _ _ _ _ _ H2Conn.machine (fun d _ _ => ∃ fs : List H2Frame,
      d.sendBuf = c.sendBuf ++ fs.flatMap frameBytes ∧
      ∀ f ∈ fs, f.Fits h2MaxFrameSize ∧ ¬ f.Answers) ?_ c b [] []
    ⟨[], by simp, nofun⟩ h
  intro d log out b x r d' o hd hr hh
  refine @H2Conn.item_inv (fun d _ _ => ∃ fs : List H2Frame,
      d.sendBuf = c.sendBuf ++ fs.flatMap frameBytes ∧
      ∀ f ∈ fs, f.Fits h2MaxFrameSize ∧ ¬ f.Answers) ?_ ?_ d d' [] [] b r x o hd hr hh
  · rintro d - - ⟨fs, hbuf, hfs⟩ -
    refine ⟨fs ++ [greeting], ?_, ?_⟩
    · show (writeSettings d.sendBuf []).2 = _
      rw [hbuf, writeSettings, writeFrame_ok (by decide) (by decide)]
      simp [greeting, frameBytes]
    · refine List.forall_mem_append.mpr ⟨hfs, fun f hf => ?_⟩
      rw [List.mem_singleton.mp hf]
      exact ⟨⟨rfl, by decide, rfl, by decide⟩, by decide⟩
  · rintro d - - f d' id ⟨fs, hbuf, hfs⟩ - hfit hf
    refine ⟨fs ++ reply d f, ?_, fun g hg => ?_⟩
    · rw [handleFrame_sendBuf hfit hf, hbuf, List.flatMap_append, List.append_assoc]
    · rcases List.mem_append.mp hg with hg | hg
      · exact hfs g hg
      · exact ⟨reply_fits hfit hf g hg, reply_not_answers d f g hg⟩

theorem answerFrames_answers (p : Nat × Answer) : ∀ f ∈ answerFrames p, f.Answers := by
  intro f hf
  unfold answerFrames at hf
  split_ifs at hf with hsend
  · obtain ⟨g, ds, heq, hg, -, hds⟩ := (completeResponse hsend).shape
    rw [heq] at hf
    rcases List.mem_cons.mp hf with rfl | hf
    · exact Or.inl hg
    · exact Or.inr (hds f hf)
  · cases hf

/-- The frames of the answers. -/
def answersOf (ts : List H2Taken) : List H2Frame :=
  ts.flatMap fun t => answerFrames (t.id, t.answer)

theorem answersOf_append (ts ts' : List H2Taken) :
    answersOf (ts ++ ts') = answersOf ts ++ answersOf ts' :=
  List.flatMap_append

theorem answersOf_spec (ts : List H2Taken) :
    ∀ f ∈ answersOf ts, f.Fits 0x00ffffff ∧ f.Answers := by
  intro f hf
  obtain ⟨t, -, hf⟩ := List.mem_flatMap.mp hf
  exact ⟨(answerFrames_fits _ f hf).1, answerFrames_answers _ f hf⟩

/-- What reading `new` bytes comes to, behind `bytes`: the connection, and what is handed on. -/
inductive ReadOutcome (conn : ClientConn) (bytes new : Bytes) :
    Option ClientConn → List H2Taken → Prop where
  | refused (hrefused : ¬ H2Accepted (bytes ++ new)) : ReadOutcome conn bytes new none []
  | done {taken} (hdone : ¬ H2Accepted (bytes ++ new))
      (htaken : h2Requests (bytes ++ new) = h2Requests bytes ++ taken.map H2Taken.request) :
      ReadOutcome conn bytes new none taken
  | served {conn' taken} (fs : List H2Frame) (h : Received conn' (bytes ++ new))
      (htaken : h2Requests (bytes ++ new) = h2Requests bytes ++ taken.map H2Taken.request)
      (hwbuf : conn'.wbuf = conn.wbuf ++ fs.flatMap frameBytes)
      (hfits : ∀ f ∈ fs, f.Fits 0x00ffffff)
      (hanswers : fs.filter (fun f => f.Answers) = answersOf taken) :
      ReadOutcome conn bytes new (some conn') taken

/-- **One call of `handle_h2_client`.** -/
theorem Received.handle {conn : ClientConn} {bytes : Bytes} (h : Received conn bytes)
    (new : Bytes) (s : ProxyServer) (sys : Nat → Attempt × Attempt) :
    ReadOutcome conn bytes new (handleH2Client s sys { conn with rbuf := new }).1
      (h2Taken s sys { conn with rbuf := new }) := by
  have hproc : ((conn.h2conn.getD (.new true)).feed new).process = H2Conn.result
      (H2Conn.machine.drain (conn.h2conn.getD (.new true)).toH2Core
        ((drained bytes).rest ++ new)) := by
    rw [H2Conn.process_eq_drain, ← h.rest]
    rfl
  obtain ⟨d, hdrain, halike⟩ := H2Conn.drain_alike h.alike ((drained bytes).rest ++ new)
  have hmore := drained_append h.error new
  have hrequests := h2Requests_append h.error new
  obtain ⟨-, hnodup, hout⟩ :=
    H2Conn.drain_settled (drained bytes).state ((drained bytes).rest ++ new)
  have hreplies := drain_replies (conn.h2conn.getD (.new true)).toH2Core
    ((drained bytes).rest ++ new)
  rw [hdrain] at hmore hrequests hnodup hout
  unfold handleH2Client h2Taken
  simp only
  rw [hproc]
  generalize H2Conn.machine.drain (conn.h2conn.getD (.new true)).toH2Core
    ((drained bytes).rest ++ new) = D at *
  obtain ⟨_ | e, c, rest, out⟩ := D
  · have hready : ∀ id ∈ out, id ∉ (drained bytes).out ∧ (d.stream id).state.Ended := fun id hid =>
      ⟨fun hmem => (hout id hid).1 (drained_ended bytes id hmem), (hout id hid).2⟩
    obtain ⟨hcore, htaken⟩ :=
      serve_taken sys out (r := { core := c, server := s }) halike hnodup hready
    obtain ⟨fs, hbuf, hfs⟩ := hreplies rfl
    have houtput := serve_output sys out { core := c, server := s }
    have hnew : h2Requests (bytes ++ new) = h2Requests bytes ++
        (smallSteps (serveStream sys) (turnTaken sys) { core := c, server := s } out).map
          H2Taken.request := by
      rw [hrequests, htaken]
      rfl
    change ReadOutcome conn bytes new
      (if (run (serveStream sys) { core := c, server := s } out).core.done = true then
        (none, _) else (some _, _) : Option ClientConn × ProxyServer).1
      (smallSteps (serveStream sys) (turnTaken sys) { core := c, server := s } out)
    generalize smallSteps (serveStream sys) (turnTaken sys) { core := c, server := s } out = taken
      at hnew houtput ⊢
    rw [hcore.done]
    split_ifs with hd
    · refine .done (fun hacc => ?_) hnew
      rw [h2Accepted_iff, hmore] at hacc
      exact absurd hd (Bool.eq_false_iff.mp hacc.2)
    · have hlen := fun f hf => (hfs f hf).1.length_le
      refine .served (fs ++ answersOf taken)
        ⟨h.proto, rfl, h.keepAlive, ?_, ?_, ?_, ?_, ?_⟩ hnew ?_ ?_ ?_
      · rw [hmore]
        rfl
      · rw [hmore]
        exact Bool.eq_false_iff.mpr hd
      · rw [hmore]
        rfl
      · exact List.drop_length
      · rw [hmore]
        exact { hcore with streams := hcore.streams }
      · refine congrArg (conn.wbuf ++ ·) (houtput.trans ?_)
        rw [List.flatMap_append, ← answersOf]
        exact congrArg (· ++ _) (hbuf.trans (by rw [h.sendBuf]; rfl))
      · refine List.forall_mem_append.mpr
          ⟨fun f hf => ?_, fun f hf => (answersOf_spec taken f hf).1⟩
        exact { (hfs f hf).1 with length_le := Nat.le_trans (hlen f hf) (by decide) }
      · rw [List.filter_append, List.filter_eq_nil_iff.mpr, List.filter_eq_self.mpr]
        · rfl
        · exact fun f hf => decide_eq_true (answersOf_spec taken f hf).2
        · exact fun f hf => by simpa using (hfs f hf).2
  · refine .refused fun hacc => ?_
    rw [h2Accepted_iff, hmore] at hacc
    cases hacc.1

/-! ## Runs -/

theorem Received.with_wbuf {conn : ClientConn} {bytes : Bytes} (h : Received conn bytes)
    (wbuf : Bytes) : Received { conn with wbuf } bytes :=
  ⟨h.proto, h.rbuf, h.keepAlive, h.error, h.done, h.rest, h.sendBuf, h.alike⟩

theorem Received.onRead {conn : ClientConn} {bytes : Bytes} (h : Received conn bytes)
    (s : ProxyServer) (ev : ClientEvent) :
    (∃ new, readClientInput ev.recvs [] = (.ok false, new) ∧
      onRead s conn ev =
        match handleH2Client s ev.sys { conn with rbuf := new } with
        | (none, s) => (.closed, s, [])
        | (some conn, s) => (.returned conn, s, [])) ∨
    ((∀ new, readClientInput ev.recvs [] ≠ (.ok false, new)) ∧
      onRead s conn ev = (.closed, s, [])) := by
  unfold Uproxy.onRead
  rw [h.rbuf]
  rcases readClientInput ev.recvs [] with ⟨e | _ | _, new⟩
  · exact Or.inr ⟨by simp, rfl⟩
  · refine Or.inl ⟨new, rfl, ?_⟩
    simp only [onInput, h.proto]
    rcases handleH2Client s ev.sys _ with ⟨_ | conn', s'⟩ <;> rfl
  · exact Or.inr ⟨by simp, rfl⟩

/-- An event that is read sends nothing. -/
theorem Received.sentAt_read {conn : ClientConn} {bytes : Bytes} (h : Received conn bytes)
    (s : ProxyServer) {ev : ClientEvent} (hend : ¬ (ev.hangUp = true ∨ ev.error = true))
    (hread : ev.read = true) : conn.sentAt s ev = [] := by
  unfold ClientConn.sentAt
  rw [if_neg hend, if_pos hread]
  rcases h.onRead s ev with ⟨new, -, heq⟩ | ⟨-, heq⟩
  · rw [heq]
    rcases handleH2Client s ev.sys { conn with rbuf := new } with ⟨_ | _, s'⟩ <;> rfl
  · rw [heq]

/-- **One event** of a client over HTTP/2. -/
theorem Received.event {conn : ClientConn} {bytes : Bytes} (h : Received conn bytes)
    (s : ProxyServer) (ev : ClientEvent) :
    h2Requests bytes ++ (conn.h2TakenAt s ev).map H2Taken.request <+:
      h2Requests (bytes ++ ev.input) ∧
    conn.sentAt s ev <+: conn.wbuf ∧
    ∀ conn', (onClientEvent s conn ev).1 = some conn' →
      Received conn' (bytes ++ ev.input) ∧
      h2Requests (bytes ++ ev.input) =
        h2Requests bytes ++ (conn.h2TakenAt s ev).map H2Taken.request ∧
      ∃ fs : List H2Frame, (∀ f ∈ fs, f.Fits 0x00ffffff) ∧
        fs.filter (fun f => f.Answers) = answersOf (conn.h2TakenAt s ev) ∧
        conn.wbuf ++ fs.flatMap frameBytes = conn.sentAt s ev ++ conn'.wbuf := by
  by_cases hend : ev.hangUp = true ∨ ev.error = true
  · have htaken : conn.h2TakenAt s ev = [] := if_pos fun hr => by simp [hr.1] at hend
    have hsent : conn.sentAt s ev = [] := if_pos hend
    rw [htaken, hsent, onClientEvent, if_pos hend]
    refine ⟨?_, List.nil_prefix, fun conn' hc => by cases hc⟩
    rw [List.map_nil, List.append_nil]
    exact h2Requests_mono bytes ev.input
  by_cases hread : ev.read = true
  · have hreads : ev.Reads := ⟨by simpa using hend, hread⟩
    have hsent := h.sentAt_read s hend hread
    have hinput : ev.input = (readClientInput ev.recvs []).2 := if_pos hread
    rw [hsent, onClientEvent_of_read hend hread, ClientConn.h2TakenAt, if_neg (not_not.mpr hreads),
      hinput, h.rbuf]
    rcases h.onRead s ev with ⟨new, hnew, heq⟩ | ⟨hclosed, heq⟩
    · rw [heq, hnew]
      have hout := h.handle new s ev.sys
      simp only
      rw [@h2Input_of_http2 { conn with rbuf := new } h.proto]
      generalize h2Taken s ev.sys { conn with rbuf := new } = taken at hout ⊢
      generalize handleH2Client s ev.sys { conn with rbuf := new } = r at hout ⊢
      obtain ⟨conn', s'⟩ := r
      cases hout with
      | refused hrefused =>
        refine ⟨?_, List.nil_prefix, fun conn' hc => by cases hc⟩
        rw [List.map_nil, List.append_nil]
        exact h2Requests_mono bytes new
      | done hdone htaken =>
        exact ⟨htaken ▸ List.prefix_rfl, List.nil_prefix, fun conn' hc => by cases hc⟩
      | served _ hrec htaken hwbuf hfits hanswers =>
        refine ⟨htaken ▸ List.prefix_rfl, List.nil_prefix, fun conn' hc => ?_⟩
        cases hc
        exact ⟨hrec, htaken, _, hfits, hanswers, hwbuf.symm⟩
    · rw [heq]
      refine ⟨?_, List.nil_prefix, fun conn' hc => by cases hc⟩
      rcases hr : readClientInput ev.recvs [] with ⟨e | _ | _, new⟩
      · simpa using h2Requests_mono bytes new
      · exact absurd hr (hclosed new)
      · simpa using h2Requests_mono bytes new
  · have htaken : conn.h2TakenAt s ev = [] := if_pos fun hr => hread hr.2
    have hsent : conn.sentAt s ev =
        if ev.write then (sendLoop ev.sends conn.wbuf).accepted else [] := by
      unfold ClientConn.sentAt
      rw [if_neg hend, if_neg hread]
    have hinput : ev.input = [] := if_neg hread
    rw [htaken, hsent, hinput, onClientEvent, if_neg hend, if_neg hread]
    obtain ⟨hfront, hwrite⟩ := write_front conn ev.write ev.sends
    refine ⟨by simp, hfront, fun conn' hc => ?_⟩
    obtain ⟨wbuf, rfl, heq⟩ := hwrite conn' hc
    exact ⟨by simpa using h.with_wbuf wbuf, by simp, [], by simp, rfl, by simpa using heq⟩

/-- **A run** of a client over HTTP/2. -/
theorem h2_run (ms : List Meeting) :
    let taken := h2TakenIn (some { proto := .http2 }) ms
    let sent := sentIn (some { proto := .http2 }) ms
    taken.map H2Taken.request <+: h2Requests (inputIn ms) ∧
    ∃ fs : List H2Frame, (∀ f ∈ fs, f.Fits 0x00ffffff) ∧
      fs.filter (fun f => f.Answers) <+: answersOf taken ∧ sent <+: fs.flatMap frameBytes ∧
      ∀ conn, run meet (some { proto := .http2 }) ms = some conn →
        Received conn (inputIn ms) ∧ taken.map H2Taken.request = h2Requests (inputIn ms) ∧
        fs.filter (fun f => f.Answers) = answersOf taken ∧
        sent ++ conn.wbuf = fs.flatMap frameBytes := by
  induction ms using List.reverseRecOn with
  | nil =>
    refine ⟨List.nil_prefix, [], by simp, List.nil_prefix, List.nil_prefix, fun conn h => ?_⟩
    cases h
    exact ⟨.new, rfl, rfl, rfl⟩
  | append_singleton ms m ih =>
    obtain ⟨htaken, fs, hfits, hanswers, hsent, hopen⟩ := ih
    simp only
    rw [h2TakenIn_concat, sentIn_concat, inputIn_concat, run_concat]
    cases hc : run meet (some { proto := .http2 }) ms with
    | none =>
      simp only [Option.map_none, Option.getD_none, List.append_nil]
      exact ⟨htaken.trans (h2Requests_mono _ _), fs, hfits, hanswers, hsent,
        fun conn h => by cases h⟩
    | some conn =>
      obtain ⟨hrec, htaken, hanswers, hsent⟩ := hopen conn hc
      obtain ⟨hnew, hsent', hevent⟩ := hrec.event m.server m.event
      simp only [Option.map_some, Option.getD_some, List.map_append, answersOf_append]
      rw [htaken]
      refine ⟨hnew, ?_⟩
      cases he : meet (some conn) m with
      | none =>
        refine ⟨fs, hfits, ?_, ?_, fun conn' h => by cases h⟩
        · rw [hanswers]
          exact List.prefix_append _ _
        · rw [← hsent]
          exact (List.prefix_append_right_inj _).mpr hsent'
      | some conn' =>
        obtain ⟨hrec', htaken', fs', hfits', hanswers', hwbuf⟩ := hevent conn' he
        have hall : sentIn (some { proto := .http2 }) ms ++ conn.sentAt m.server m.event ++
            conn'.wbuf = (fs ++ fs').flatMap frameBytes := by
          rw [List.append_assoc, ← hwbuf, ← List.append_assoc, hsent, List.flatMap_append]
        have hfilter : (fs ++ fs').filter (fun f => f.Answers) =
            answersOf (h2TakenIn (some { proto := .http2 }) ms) ++
              answersOf (conn.h2TakenAt m.server m.event) := by
          rw [List.filter_append, hanswers, hanswers']
        refine ⟨fs ++ fs', List.forall_mem_append.mpr ⟨hfits, hfits'⟩, hfilter ▸ List.prefix_rfl,
          hall ▸ List.prefix_append _ _, fun c hc => ?_⟩
        cases hc
        exact ⟨hrec', htaken'.symm, hfilter, hall⟩

/-- **The requests of an HTTP/2 client depend on the bytes it sends only.** In every run, whatever
the pieces the bytes come in, the upstreams and the socket do, the requests handed on are among the
first of those that a connection reports which is sent all the bytes at once and never answers; as
long as the connection is open they are exactly these. A read closes the connection exactly if the
bytes received up to then hold something that is refused, or a `GOAWAY`. -/
theorem h2_requests_of_bytes (ms : List Meeting) :
    (h2TakenIn (some { proto := .http2 }) ms).map H2Taken.request <+: h2Requests (inputIn ms) ∧
    ∀ conn, run meet (some { proto := .http2 }) ms = some conn →
      (h2TakenIn (some { proto := .http2 }) ms).map H2Taken.request = h2Requests (inputIn ms) ∧
      H2Accepted (inputIn ms) ∧
      ∀ (m : Meeting) (new : Bytes), m.event.Reads →
        readClientInput m.event.recvs [] = (.ok false, new) →
        ((meet (some conn) m).isSome ↔ H2Accepted (inputIn ms ++ new)) := by
  obtain ⟨htaken, fs, -, -, -, hopen⟩ := h2_run ms
  refine ⟨htaken, fun conn hc => ?_⟩
  obtain ⟨hrec, heq, -⟩ := hopen conn hc
  refine ⟨heq, (h2Accepted_iff _).mpr ⟨hrec.error, hrec.done⟩, fun m new hreads hnew => ?_⟩
  have hmeet : meet (some conn) m =
      (handleH2Client m.server m.event.sys { conn with rbuf := new }).1 := by
    show (onClientEvent m.server conn m.event).1 = _
    rw [onClientEvent, if_neg (by simp [hreads.1]), if_pos hreads.2]
    rcases hrec.onRead m.server m.event with ⟨new', hnew', heq⟩ | ⟨hclosed, -⟩
    · obtain rfl : new' = new := congrArg Prod.snd (hnew'.symm.trans hnew)
      rw [heq]
      rcases handleH2Client m.server m.event.sys { conn with rbuf := new' } with ⟨_ | _, s'⟩ <;> rfl
    · exact absurd hnew (hclosed new)
  rw [hmeet]
  have hout := hrec.handle new m.server m.event.sys
  generalize (handleH2Client m.server m.event.sys { conn with rbuf := new }).1 = c at hout ⊢
  generalize h2Taken m.server m.event.sys { conn with rbuf := new } = taken at hout
  cases hout with
  | refused hrefused => simpa using hrefused
  | done hdone _ => simpa using hdone
  | served _ h' => simpa using (h2Accepted_iff _).mpr ⟨h'.error, h'.done⟩

/-- **What an HTTP/2 client is sent.** In every run the bytes sent are the front of a sequence of
whole frames; as long as the connection is open, these are all that was sent and what waits in the
write buffer. The `HEADERS` and `DATA` frames among them are those of the answers to the requests
handed on, one answer behind the other in the order of the requests. -/
theorem h2_output_frames (ms : List Meeting) :
    ∃ fs : List H2Frame, (∀ f ∈ fs, f.Fits 0x00ffffff) ∧
      fs.filter (fun f => f.Answers) <+: answersOf (h2TakenIn (some { proto := .http2 }) ms) ∧
      sentIn (some { proto := .http2 }) ms <+: fs.flatMap frameBytes ∧
      ∀ conn, run meet (some { proto := .http2 }) ms = some conn →
        fs.filter (fun f => f.Answers) = answersOf (h2TakenIn (some { proto := .http2 }) ms) ∧
        sentIn (some { proto := .http2 }) ms ++ conn.wbuf = fs.flatMap frameBytes := by
  obtain ⟨-, fs, hfits, hanswers, hsent, hopen⟩ := h2_run ms
  exact ⟨fs, hfits, hanswers, hsent, fun conn hc => (hopen conn hc).2.2⟩

/-- **The same of a TLS connection** on which HTTP/2 was chosen, as only there it can be: the
requests handed on are those of the plaintext, and the plaintext the engine was handed, with what
waits in the write buffer, is the sequence of whole frames with the answers. -/
theorem h2_run_tls {ms : List ConnMeeting} {conn : Conn} {t : ClientTls}
    (hrun : run Conn.meet (some (Conn.accepted true)) ms = some conn) (ht : conn.tls = some t)
    (hproto : conn.proto = .http2) :
    let taken := Conn.h2TakenIn (some (Conn.accepted true)) ms
    taken.map H2Taken.request = h2Requests t.decrypted ∧
    ∃ fs : List H2Frame, (∀ f ∈ fs, f.Fits 0x00ffffff) ∧
      fs.filter (fun f => f.Answers) = answersOf taken ∧
      t.written ++ conn.wbuf = fs.flatMap frameBytes := by
  obtain ⟨proto, cms, hmirror, hopen⟩ := Conn.mirrored_run ms
  rcases hopen conn hrun with ⟨hhand, -⟩ | ⟨d, out, p, hsec, hrun', hd, hout⟩
  · rw [hhand.new] at hproto
    cases hproto
  · obtain ⟨t', ht', -, hdec, hplain, -⟩ := hsec.engine
    cases ht'.symm.trans ht
    cases proto with
    | http1 => exact absurd ((connAt_speaks1 cms _ hrun').symm.trans hproto) (by decide)
    | http2 =>
      obtain ⟨-, fs, hfits, -, -, hall⟩ := h2_run cms
      obtain ⟨-, htaken, hanswers, hbytes⟩ := hall _ hrun'
      simp only
      rw [← hmirror.h2Taken, hdec, ← hd, hplain, ← hout]
      exact ⟨htaken, fs, hfits, hanswers, hbytes⟩

end Uproxy
