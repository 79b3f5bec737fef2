import Uproxy.Http2.Run
import Uproxy.Proxy.Server
import Uproxy.Proxy.Translate

/-!
# HTTP/2 clients (`ProxyServer::handle_h2_client`)

The bytes a client has sent are fed to its `H2Conn`; every request that `process` reports is
forwarded, and the answer becomes a response on its stream. `send_response` may refuse the response,
and `handle_h2_client` drops the error.

* `handleH2Client_reach`: the connection of a client is always one behind a run of `H2Conn`, so the
  results on runs hold of it;
* **`h2_one_response`**: a request that is reported gets a complete response on its stream exactly
  if its answer can be converted (`Convertible`). An answer the proxy makes itself can; a response
  of the upstream can if no name of a field that is passed on is written with a capital letter and
  the fields fit into one frame. Names are compared in lower case but passed on as they came, and
  the encoder refuses capitals, so `Content-Type` is enough for the stream to get nothing
  (`h2_one_response_capital`).
-/

namespace Uproxy

open Lib.Search

/-! ## The code -/

/-- The names of the fields that are not passed on. -/
def hopByHop : List Bytes :=
  [ascii "connection", ascii "keep-alive", ascii "transfer-encoding", ascii "upgrade"]

/-- The fields of a response that are passed on. -/
def passedFields (resp : HttpResponse) : List HttpHeader :=
  resp.headers.filter fun h => lower h.name ∉ hopByHop

/-- The headers made of a response. -/
def h2ResponseHeaders (resp : HttpResponse) : List HpackHeader :=
  ⟨ascii ":status", decimalInt resp.status, false⟩ ::
    (passedFields resp).map fun h => ⟨h.name, h.value, false⟩

/-- The headers of an answer the proxy makes itself. -/
def h2ErrorHeaders (status : String) : List HpackHeader :=
  [⟨ascii ":status", ascii status, false⟩, ⟨ascii "content-length", ascii "0", false⟩]

/-- `Http1Parser::parse_response` on the bytes of a response. -/
def parseAnswer (bytes : Bytes) : ParseResult × HttpResponse :=
  parseResponse (Buffer.ofBytes bytes).toRingBuffer {}

/-- The headers and the body handed to `send_response`. -/
def h2Response : Answer → List HpackHeader × Bytes
  | .noUpstream => (h2ErrorHeaders "503", [])
  | .failed _ => (h2ErrorHeaders "502", [])
  | .response bytes =>
    match parseAnswer bytes with
    | (.complete, resp) => (h2ResponseHeaders resp, bytes.drop resp.headerBytes)
    | _ => (h2ErrorHeaders "502", [])

/-- What the loop over the requests changes, and the answers it got. -/
structure Served where
  answers : List (Nat × Answer) := []
  core    : H2Core
  server  : ProxyServer

/-- The body of the loop. `stream_headers` and `stream_body` throw on an id without a stream, which
`process` does not report (`h2_request_frozen`). -/
def serveStream (sys : Nat → Attempt × Attempt) (r : Served) (id : Nat) : Served :=
  let body := (r.core.streamBody id).getD []
  let req := h2Request ((r.core.streamHeaders id).getD []) body
  let (answer, server) := r.server.dispatch req body (sys id)
  let (headers, respBody) := h2Response answer
  { answers := r.answers ++ [(id, answer)]
    core := (r.core.sendResponse id headers respBody true).2.consumeBody id body.length
    server }

/-- The loop over the requests, with what the system answers for each. -/
def serveStreams (s : ProxyServer) (sys : Nat → Attempt × Attempt) (c : H2Core)
    (ready : List Nat) : Served :=
  ready.foldl (serveStream sys) { core := c, server := s }

/-- `handle_h2_client`; `none` is a closed connection. -/
def handleH2Client (s : ProxyServer) (sys : Nat → Attempt × Attempt) (conn : ClientConn) :
    Option ClientConn × ProxyServer :=
  let c := (conn.h2conn.getD (.new true)).feed conn.rbuf
  match c.process with
  | (.error _, _) => (none, s)
  | (.ok ready, c) =>
    let r := serveStreams s sys c.toH2Core ready
    let output := r.core.pendingOutput
    let core := r.core.consumeOutput output.length
    if core.isDone then (none, r.server)
    else (some { conn with
      rbuf := []
      wbuf := conn.wbuf ++ output
      h2conn := some { c with toH2Core := core } }, r.server)

/-! ## The status -/

theorem decimal_ne_nil (n : Nat) : decimal n ≠ [] :=
  (digitText_spec (show 1 < 10 by decide) (by decide) n).1.1

theorem fromCharsInt_range {s rest : Bytes} {n : Int} (h : fromCharsInt s = some (n, rest)) :
    -(2 ^ 31) ≤ n ∧ n < 2 ^ 31 := by
  simp only [fromCharsInt] at h
  split_ifs at h with h0 h1 h2 h3 <;> simp only [Option.some.injEq, Prod.mk.injEq] at h <;>
    rw [← h.1] <;> assumption

theorem statusLine_range {start reason : Bytes} {status : Int}
    (h : statusLine start = some (status, reason)) : -(2 ^ 31) ≤ status ∧ status < 2 ^ 31 := by
  unfold statusLine at h
  by_cases hbad : ¬ ascii "HTTP/" <+: start ∨ start.length < 12
  · rw [if_pos hbad] at h
    cases h
  rw [if_neg hbad] at h
  rcases hn : fromCharsInt ((start.drop 9).take 3) with _ | ⟨n, _ | ⟨c, rest⟩⟩ <;>
    simp only [hn] at h <;> cases h
  exact fromCharsInt_range hn

theorem parseResponseHeaders_range {bytes : Bytes} {resp resp' : HttpResponse}
    (h : parseResponseHeaders bytes resp = (.complete, resp'))
    (h0 : -(2 ^ 31) ≤ resp.status ∧ resp.status < 2 ^ 31) :
    -(2 ^ 31) ≤ resp'.status ∧ resp'.status < 2 ^ 31 := by
  unfold parseResponseHeaders at h
  rcases hsplit : splitHead bytes with r | ⟨start, rest, headerBytes⟩ <;> rw [hsplit] at h
  · cases h
    exact h0
  · simp only at h
    cases hs : statusLine start with
    | none =>
      rw [hs] at h
      cases h
    | some sr =>
      simp only [hs] at h
      split_ifs at h with h1 h2
      · exact absurd (congrArg Prod.fst h) h1
      · cases h
      · cases h
        exact statusLine_range hs

/-- A status is written with at most eleven bytes. -/
theorem decimalInt_length {n : Int} (h : -(2 ^ 31) ≤ n ∧ n < 2 ^ 31) :
    decimalInt n ≠ [] ∧ (decimalInt n).length ≤ 11 := by
  unfold decimalInt
  refine ⟨by simp [decimal_ne_nil], ?_⟩
  have hdec : (decimal n.natAbs).length ≤ 10 :=
    length_digitText_le (by decide) (by decide) (by omega)
  rw [List.length_append]
  split_ifs <;> simp only [List.length_cons, List.length_nil] <;> omega

/-! ## One stream -/

/-- A header block whose first field is the status, for every decoder. -/
def StartsWithStatus (block : Bytes) : Prop :=
  ∀ dec : HpackDecoder, ∃ dec' h rest, decodeStep dec block = .ok (dec', some h, rest) ∧
    h.name = ascii ":status"

/-- The frames of one complete response. -/
structure CompleteResponse (fs : List H2Frame) : Prop where
  /-- One `HEADERS` frame, then `DATA` frames. -/
  shape : ∃ f ds, fs = f :: ds ∧ f.type = .headers ∧ StartsWithStatus f.payload ∧
    ∀ d ∈ ds, d.type = .data
  /-- `END_STREAM` on the last frame, and only there. -/
  ending : ∃ pre f, fs = pre ++ [f] ∧ f.has H2Flags.endStream = true ∧
    ∀ g ∈ pre, g.has H2Flags.endStream = false

/-- The answer can be converted into a response: the proxy's own answers can, and a response of the
upstream if the names passed on are in lower case and the headers fit into one frame. -/
def Answer.Convertible : Answer → Prop
  | .response bytes =>
    match parseAnswer bytes with
    | (.complete, resp) =>
      (∀ h ∈ passedFields resp, hasUppercase h.name = false) ∧
        ((h2ResponseHeaders resp).flatMap encodeHeader).length ≤ h2MaxFrameSize
    | _ => True
  | _ => True

/-- The two kinds of answers. -/
theorem h2Response_cases (a : Answer) :
    (∃ status ∈ ["503", "502"], (h2Response a).1 = h2ErrorHeaders status ∧ a.Convertible) ∨
      ∃ bytes resp, parseAnswer bytes = (.complete, resp) ∧
        (h2Response a).1 = h2ResponseHeaders resp ∧
        (a.Convertible ↔ (∀ h ∈ passedFields resp, hasUppercase h.name = false) ∧
          ((h2ResponseHeaders resp).flatMap encodeHeader).length ≤ h2MaxFrameSize) := by
  cases a with
  | noUpstream => exact Or.inl ⟨"503", by simp, rfl, trivial⟩
  | failed e => exact Or.inl ⟨"502", by simp, rfl, trivial⟩
  | response bytes =>
    unfold h2Response Answer.Convertible
    rcases hp : parseAnswer bytes with ⟨_ | _ | _, resp⟩ <;> simp only [hp]
    · exact Or.inr ⟨bytes, resp, hp, rfl, Iff.rfl⟩
    · exact Or.inl ⟨"502", by simp, rfl, trivial⟩
    · exact Or.inl ⟨"502", by simp, rfl, trivial⟩

theorem sendable_iff_convertible {id : Nat} (hid : 0 < id ∧ id < 2 ^ 31) (a : Answer) :
    Sendable id (h2Response a).1 ↔ a.Convertible := by
  rcases h2Response_cases a with ⟨status, hs, heq, hc⟩ | ⟨bytes, resp, -, heq, hc⟩
  · have hall : ∀ status ∈ ["503", "502"],
        (∀ h ∈ h2ErrorHeaders status, hasUppercase h.name = false) ∧
          ((h2ErrorHeaders status).flatMap encodeHeader).length ≤ h2MaxFrameSize := by
      decide +kernel
    rw [heq]
    exact iff_of_true ⟨hid, hall status hs⟩ hc
  · have hstatus : hasUppercase (ascii ":status") = false := by decide
    have hnames : (∀ h ∈ h2ResponseHeaders resp, hasUppercase h.name = false) ↔
        ∀ h ∈ passedFields resp, hasUppercase h.name = false := by
      simp [h2ResponseHeaders, hstatus]
    rw [heq, hc, ← hnames]
    exact and_iff_right hid

/-- The headers of every answer start with a status. -/
theorem h2Response_status (a : Answer) :
    ∃ value hs, (h2Response a).1 = ⟨ascii ":status", value, false⟩ :: hs ∧ value ≠ [] ∧
      value.length ≤ 11 := by
  rcases h2Response_cases a with ⟨status, hs, heq, -⟩ | ⟨bytes, resp, hp, heq, -⟩
  · have hall : ∀ status ∈ ["503", "502"], ascii status ≠ [] ∧ (ascii status).length ≤ 11 := by
      decide
    exact ⟨ascii status, _, heq, hall status hs⟩
  · exact ⟨_, _, heq, decimalInt_length (parseResponseHeaders_range hp (by decide))⟩

/-- **A converted answer is a complete response.** -/
theorem completeResponse {id : Nat} {a : Answer} (h : Sendable id (h2Response a).1) :
    CompleteResponse (responseFrames id (h2Response a).1 (h2Response a).2 true) := by
  obtain ⟨value, hs, heq, hne, hlen⟩ := h2Response_status a
  refine ⟨⟨_, _, rfl, rfl, fun dec => ?_, fun d hd => ?_⟩, responseFrames_endStream _ _ _⟩
  · have hup : hasUppercase (ascii ":status") = false := by decide
    have hnil : ascii ":status" ≠ [] := by decide
    have hname : encodedLength (ascii ":status") ≤ 65535 := by decide +kernel
    have hvalue : encodedLength value ≤ 65535 :=
      Nat.le_trans (Nat.min_le_right _ _) (by omega)
    obtain ⟨dec', hstep⟩ := decodeStep_encodeHeader (h := ⟨ascii ":status", value, false⟩)
      hup hnil hne hname hvalue dec (hs.flatMap encodeHeader)
    refine ⟨dec', sent ⟨ascii ":status", value, false⟩, hs.flatMap encodeHeader, ?_, rfl⟩
    rw [blockFrame, heq, List.flatMap_cons]
    exact hstep
  · exact (dataFrames_fits h.1.2 _ _ d hd).2.1

/-! ## All streams -/

/-- The frames an answer adds to the send buffer. -/
def answerFrames (p : Nat × Answer) : List H2Frame :=
  if Sendable p.1 (h2Response p.2).1 then
    responseFrames p.1 (h2Response p.2).1 (h2Response p.2).2 true
  else []

theorem consumeBody_sendBuf (c : H2Core) (id n : Nat) :
    (c.consumeBody id n).sendBuf = c.sendBuf := by
  obtain ⟨streams, he⟩ := c.consumeBody_eq id n
  rw [he]

/-- One turn of the loop. -/
theorem serveStream_frames (sys : Nat → Attempt × Attempt) (r : Served) (id : Nat) :
    ∃ a, (serveStream sys r id).answers = r.answers ++ [(id, a)] ∧
      (serveStream sys r id).core.sendBuf =
        r.core.sendBuf ++ (answerFrames (id, a)).flatMap frameBytes := by
  let body := (r.core.streamBody id).getD []
  let d := r.server.dispatch (h2Request ((r.core.streamHeaders id).getD []) body) body (sys id)
  refine ⟨d.1, rfl, (consumeBody_sendBuf _ _ _).trans ?_⟩
  show (r.core.sendResponse id (h2Response d.1).1 (h2Response d.1).2 true).2.sendBuf = _
  unfold answerFrames
  by_cases hsend : Sendable id (h2Response d.1).1
  · obtain ⟨hpackEnc, hs⟩ := sendResponse_sent hsend r.core (h2Response d.1).2 true
    rw [hs, if_pos hsend]
  · obtain ⟨e, hpackEnc, hs⟩ := sendResponse_unsent hsend r.core (h2Response d.1).2 true
    rw [hs, if_neg hsend, List.flatMap_nil, List.append_nil]

/-- **The loop** answers the requests in order, each with its frames. -/
theorem serveStreams_frames (sys : Nat → Attempt × Attempt) (ready : List Nat) (r : Served) :
    ∃ new, (ready.foldl (serveStream sys) r).answers = r.answers ++ new ∧
      new.map Prod.fst = ready ∧
      (ready.foldl (serveStream sys) r).core.sendBuf =
        r.core.sendBuf ++ (new.flatMap answerFrames).flatMap frameBytes := by
  induction ready generalizing r with
  | nil => exact ⟨[], by simp⟩
  | cons id ready ih =>
    obtain ⟨a, hanswers, hbuf⟩ := serveStream_frames sys r id
    obtain ⟨new, h1, h2, h3⟩ := ih (serveStream sys r id)
    refine ⟨(id, a) :: new, ?_, ?_, ?_⟩
    · rw [List.foldl_cons, h1, hanswers, List.append_assoc]
      rfl
    · rw [List.map_cons, h2]
    · rw [List.foldl_cons, h3, hbuf, List.flatMap_cons, List.flatMap_append, List.append_assoc]

theorem answerFrames_fits (p : Nat × Answer) :
    ∀ f ∈ answerFrames p, f.Fits 0x00ffffff ∧ f.streamId = p.1 := by
  intro f hf
  unfold answerFrames at hf
  split_ifs at hf with hsend
  · obtain ⟨hfit, hid⟩ := responseFrames_fits hsend _ _ f hf
    exact ⟨{ hfit with length_le := Nat.le_trans hfit.length_le (by decide) }, hid⟩
  · exact absurd hf List.not_mem_nil

/-- The frames of one stream among those of all answers. -/
theorem filter_answerFrames {answers : List (Nat × Answer)} (h : (answers.map Prod.fst).Nodup)
    {p : Nat × Answer} (hp : p ∈ answers) :
    (answers.flatMap answerFrames).filter (fun f => f.streamId = p.1) = answerFrames p := by
  have hself : (answerFrames p).filter (fun f => f.streamId = p.1) = answerFrames p :=
    List.filter_eq_self.mpr fun f hf => by simpa using (answerFrames_fits p f hf).2
  have hother : ∀ qs : List (Nat × Answer), p.1 ∉ qs.map Prod.fst →
      (qs.flatMap answerFrames).filter (fun f => f.streamId = p.1) = [] := by
    intro qs hq
    refine List.filter_eq_nil_iff.mpr fun f hf => ?_
    obtain ⟨q, hqs, hfq⟩ := List.mem_flatMap.mp hf
    have hne : q.1 ≠ p.1 := fun heq => hq (heq ▸ List.mem_map_of_mem hqs)
    simpa [(answerFrames_fits q f hfq).2] using hne
  induction answers with
  | nil => exact absurd hp List.not_mem_nil
  | cons q qs ih =>
    obtain ⟨hq, hqs⟩ := List.nodup_cons.mp h
    rw [List.flatMap_cons, List.filter_append]
    rcases List.mem_cons.mp hp with rfl | hp
    · rw [hself, hother qs hq, List.append_nil]
    · have hne : q.1 ≠ p.1 := fun heq => hq (heq ▸ List.mem_map_of_mem hp)
      rw [ih hqs hp, List.filter_eq_nil_iff.mpr, List.nil_append]
      intro f hf
      simpa [(answerFrames_fits q f hf).2] using hne

/-- What the loop appends to the send buffer, stream by stream. -/
theorem serveStreams_out {calls : List (H2Conn × H2Conn.Op)} {c c₁ : H2Conn} {ready : List Nat}
    (h : H2Conn.Reach true calls c) (hp : c.process = (.ok ready, c₁)) (s : ProxyServer)
    (sys : Nat → Attempt × Attempt) :
    let r := serveStreams s sys c₁.toH2Core ready
    r.answers.map Prod.fst = ready ∧
      ∃ out, r.core.sendBuf = c₁.sendBuf ++ out ∧ ∀ p ∈ r.answers, (0 < p.1 ∧ p.1 < 2 ^ 31) ∧
        (framesIn out).filter (fun f => f.streamId = p.1) = answerFrames p := by
  intro r
  have hrun : H2Conn.Reach true (calls ++ [(c, .process)]) c₁ := by
    have := H2Conn.exec_process (congrArg Prod.fst hp)
    rw [hp] at this
    exact .call h this
  have hready : H2Conn.ready (calls ++ [(c, .process)]) = H2Conn.ready calls ++ ready := by
    rw [H2Conn.ready_concat, H2Conn.reported, hp]
  have hnodup : ready.Nodup := by
    have := hrun.frozen.nodup
    rw [hready] at this
    exact (List.nodup_append.mp this).2.1
  have hlt : ∀ id ∈ ready, 0 < id ∧ id < 2 ^ 31 := fun id hid =>
    hrun.ready_lt id (by rw [hready]; exact List.mem_append_right _ hid)
  obtain ⟨new, h1, h2, h3⟩ := serveStreams_frames sys ready { core := c₁.toH2Core, server := s }
  have hanswers : r.answers = new := h1
  rw [hanswers]
  refine ⟨h2, (new.flatMap answerFrames).flatMap frameBytes, h3, fun p hpn => ?_⟩
  have hframes : framesIn ((new.flatMap answerFrames).flatMap frameBytes) =
      new.flatMap answerFrames := by
    refine framesIn_flatMap fun f hf => ?_
    obtain ⟨q, -, hfq⟩ := List.mem_flatMap.mp hf
    exact (answerFrames_fits q f hfq).1
  refine ⟨hlt p.1 (h2 ▸ List.mem_map_of_mem hpn), ?_⟩
  rw [hframes]
  exact filter_answerFrames (h2.symm ▸ hnodup) hpn

/-- **Every request gets one complete response, or none at all**: for every connection, every list
of requests it reports and whatever upstreams do, each request is answered, and its frames among
those appended to the send buffer make up a complete response exactly if its answer can be
converted. -/
theorem h2_one_response {calls : List (H2Conn × H2Conn.Op)} {c c₁ : H2Conn} {ready : List Nat}
    (h : H2Conn.Reach true calls c) (hp : c.process = (.ok ready, c₁)) (s : ProxyServer)
    (sys : Nat → Attempt × Attempt) :
    let r := serveStreams s sys c₁.toH2Core ready
    r.answers.map Prod.fst = ready ∧
      ∃ out, r.core.sendBuf = c₁.sendBuf ++ out ∧ ∀ p ∈ r.answers,
        (CompleteResponse ((framesIn out).filter fun f => f.streamId = p.1) ↔
          p.2.Convertible) := by
  intro r
  obtain ⟨hids, out, hout, hstreams⟩ := serveStreams_out h hp s sys
  refine ⟨hids, out, hout, fun p hpn => ?_⟩
  obtain ⟨hid, hframes⟩ := hstreams p hpn
  rw [hframes, ← sendable_iff_convertible hid]
  unfold answerFrames
  by_cases hsend : Sendable p.1 (h2Response p.2).1
  · rw [if_pos hsend]
    exact iff_of_true (completeResponse hsend) hsend
  · rw [if_neg hsend]
    refine iff_of_false (fun hc => ?_) hsend
    obtain ⟨f, ds, hnil, -⟩ := hc.shape
    cases hnil

/-- `GET /` on stream 1. -/
def sampleGet : H2Frame := ⟨2, .headers, 0x5, 1, [0x82, 0x84]⟩

/-- A connection that has received it. -/
def sampleClient : H2Conn := (H2Conn.new true).feed (h2Preface ++ frameBytes sampleGet)

/-- A proxy with one upstream. -/
def sampleProxy : ProxyServer where
  lb := .new [{ addr := ascii "127.0.0.1", port := 80 }]
  pools := { cfg := {} }

/-- An upstream that gives a response. -/
def responds (response : Bytes) : Nat → Attempt × Attempt := fun _ =>
  let a : Attempt := ⟨{ socket := 5 }, .ok (), .ok response, 0⟩
  (a, a)

/-- The request is served. -/
def sampleServed (response : Bytes) : Served :=
  serveStreams sampleProxy (responds response) sampleClient.process.2.toH2Core [1]

theorem sampleClient_process : sampleClient.process = (.ok [1], sampleClient.process.2) :=
  Prod.ext (by decide +kernel) rfl

theorem sampleClient_reach :
    H2Conn.Reach true [(.new true, .feed (h2Preface ++ frameBytes sampleGet))] sampleClient :=
  .call .new rfl

theorem sampleServed_answers (response : Bytes) :
    (sampleServed response).answers = [(1, .response response)] := by
  rfl

/-- A response with its names in lower case. -/
def lowerResponse : Bytes := ascii "HTTP/1.1 200 OK\r\ncontent-length: 2\r\n\r\nhi"

/-- A response with names as servers write them. -/
def capitalResponse : Bytes := ascii "HTTP/1.1 200 OK\r\nContent-Length: 2\r\n\r\nhi"

/-- A response that can be converted. -/
theorem h2_one_response_lower :
    (sampleServed lowerResponse).answers = [(1, .response lowerResponse)] ∧
      ∃ out, (sampleServed lowerResponse).core.sendBuf = sampleClient.process.2.sendBuf ++ out ∧
        CompleteResponse ((framesIn out).filter fun f => f.streamId = 1) := by
  have hconv : (Answer.response lowerResponse).Convertible := by
    have hparse : parseAnswer lowerResponse = (.complete, ⟨200, ascii "OK",
        [⟨ascii "content-length", ascii "2"⟩], 2, false, 38⟩) := by
      unfold lowerResponse
      rw [ascii_ofList]
      decide +kernel
    simp only [Answer.Convertible]
    rw [hparse]
    decide +kernel
  have hmem : (1, .response lowerResponse) ∈ (sampleServed lowerResponse).answers := by
    rw [sampleServed_answers]
    exact List.mem_singleton_self _
  obtain ⟨-, out, hout, hall⟩ :=
    h2_one_response sampleClient_reach sampleClient_process sampleProxy (responds lowerResponse)
  exact ⟨sampleServed_answers _, out, hout, (hall _ hmem).mpr hconv⟩

/-- **A response with a capital letter in a name leaves its stream without any frame.** -/
theorem h2_one_response_capital :
    sampleClient.process.1 = .ok [1] ∧
      (sampleServed capitalResponse).answers = [(1, .response capitalResponse)] ∧
      (sampleServed capitalResponse).core.sendBuf = sampleClient.process.2.sendBuf ∧
      ¬ ∃ out, (sampleServed capitalResponse).core.sendBuf =
          sampleClient.process.2.sendBuf ++ out ∧
        CompleteResponse ((framesIn out).filter fun f => f.streamId = 1) := by
  have hbuf : (sampleServed capitalResponse).core.sendBuf = sampleClient.process.2.sendBuf := by
    unfold capitalResponse
    rw [ascii_ofList]
    decide +kernel
  refine ⟨congrArg Prod.fst sampleClient_process, sampleServed_answers _, hbuf, ?_⟩
  rintro ⟨out, hout, hc⟩
  have hnil : out = [] := List.append_right_eq_self.mp (hout.symm.trans hbuf)
  obtain ⟨f, ds, hfs, -⟩ := hc.shape
  rw [hnil] at hfs
  cases hfs

/-! ## The connection of a client -/

/-- The `H2Conn` of a client stands behind a run. -/
def ClientConn.H2Reachable (conn : ClientConn) : Prop :=
  ∃ calls, H2Conn.Reach true calls (conn.h2conn.getD (.new true))

theorem serveStreams_reach (sys : Nat → Attempt × Attempt) (buf : Bytes) (ready : List Nat)
    (r : Served) (h : ∃ calls, H2Conn.Reach true calls ⟨r.core, buf⟩) :
    ∃ calls, H2Conn.Reach true calls ⟨(ready.foldl (serveStream sys) r).core, buf⟩ := by
  induction ready generalizing r with
  | nil => exact h
  | cons id ready ih =>
    obtain ⟨calls, hcalls⟩ := h
    let body := (r.core.streamBody id).getD []
    let d := r.server.dispatch (h2Request ((r.core.streamHeaders id).getD []) body) body (sys id)
    have hsend := @H2Conn.Reach.call _ _ _
      (.sendResponse id (h2Response d.1).1 (h2Response d.1).2 true) _ hcalls rfl
    exact ih _ ⟨_, @H2Conn.Reach.call _ _ _ (.consumeBody id body.length) _ hsend rfl⟩

/-- **The connection of a client** stays behind a run of `H2Conn`. -/
theorem handleH2Client_reach {conn conn' : ClientConn} {s s' : ProxyServer}
    {sys : Nat → Attempt × Attempt} (h : conn.H2Reachable)
    (he : handleH2Client s sys conn = (some conn', s')) : conn'.H2Reachable := by
  obtain ⟨calls, hcalls⟩ := h
  have hfed := @H2Conn.Reach.call _ _ _ (.feed conn.rbuf) _ hcalls rfl
  unfold handleH2Client at he
  rcases hp : ((conn.h2conn.getD (.new true)).feed conn.rbuf).process with ⟨e | ready, c⟩
  · simp only [hp] at he
    cases he
  · have hproc := H2Conn.exec_process (congrArg Prod.fst hp)
    rw [hp] at hproc
    obtain ⟨calls', hserved⟩ := serveStreams_reach sys c.recvBuf ready
      { core := c.toH2Core, server := s } ⟨_, hfed.call hproc⟩
    have hout := @H2Conn.Reach.call _ _ _
      (.consumeOutput (serveStreams s sys c.toH2Core ready).core.pendingOutput.length) _ hserved rfl
    simp only [hp] at he
    split_ifs at he
    · cases he
    · cases he
      exact ⟨_, hout⟩

end Uproxy
