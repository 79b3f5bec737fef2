import Uproxy.EventLoop.Epoll
import Uproxy.Lib.Run
import Uproxy.Proxy.H2Client

/-!
# Events of a client connection (`ProxyServer::on_client_event`)

An event says what the connection is ready for. Reading takes all the socket has, then one request
is taken off the receive buffer and answered; writing sends what the write buffer has, and closes
the connection once it is empty and `keep_alive` is off. What the system answers is part of the
event (`Recv`, `Send`, `Attempt`); a closed connection is `none`.

Other connections use the same load balancer and pools between the events of this one, so a run
meets the server in any state (`Meeting`).

* `onRead_cases` says what a read can do, `onClientEvent_cases` what an event can do;
* **`closing_final`**: a connection whose `keep_alive` is off stays so and forwards nothing more
  exactly if no event reads a whole request from it (`Resumes`). `on_client_event` does not look at
  `keep_alive` before it reads, so the rest of a refused request is a request of its own
  (`closing_final_smuggle`).
-/

namespace Uproxy

open Lib.Run

/-! ## The code -/

/-- What `recv` answers: bytes (none at the end of the stream), or an error. -/
inductive Recv where
  | bytes (d : Bytes)
  | interrupted
  | wouldBlock
  | failed (errno : Int)
  deriving DecidableEq, Repr

/-- `read_client_input` on a cleartext connection: whether the stream has ended, and `rbuf`. -/
def readClientInput : List Recv → Bytes → Result Bool × Bytes
  | [], rbuf => (.ok false, rbuf)
  | .bytes d :: rs, rbuf => if d = [] then (.ok true, rbuf) else readClientInput rs (rbuf ++ d)
  | .interrupted :: rs, rbuf => readClientInput rs rbuf
  | .wouldBlock :: _, rbuf => (.ok false, rbuf)
  | .failed errno :: _, rbuf => (.error (.fromErrno errno "read client"), rbuf)

/-- What `send` answers: a number of bytes, or an error. -/
inductive Send where
  | sent (n : Nat) (pos : 0 < n)
  | interrupted
  | wouldBlock
  | failed (errno : Int)
  deriving DecidableEq, Repr

/-- `is_would_block`. -/
def isWouldBlock (e : Error) : Bool := e.code == .wouldBlock

/-- `write_client_output` on a cleartext connection: the result and `wbuf`. -/
def writeClientOutput : List Send → Bytes → Result Unit × Bytes
  | _, [] => (.ok (), [])
  | [], wbuf => (.error (.fromCode .wouldBlock "write client"), wbuf)
  | .sent n _ :: ss, wbuf => writeClientOutput ss (wbuf.drop n)
  | .interrupted :: ss, wbuf => writeClientOutput ss wbuf
  | .wouldBlock :: _, wbuf => (.error (.fromCode .wouldBlock "write client"), wbuf)
  | .failed errno :: _, wbuf => (.error (.fromErrno errno "write client"), wbuf)

/-- An event, with what the system answers while it is handled. -/
structure ClientEvent where
  read   : Bool := false
  write  : Bool := false
  hangUp : Bool := false
  error  : Bool := false
  recvs  : List Recv := []
  sends  : List Send := []
  /-- The answers of upstreams: for each stream, and at 0 for a request over HTTP/1. -/
  sys    : Nat → Attempt × Attempt

/-- A request taken off the receive buffer, and its answer. -/
structure Taken where
  req    : HttpRequest
  body   : Bytes
  answer : Answer
  deriving DecidableEq, Repr

def unsupported : Bytes :=
  ascii "HTTP/1.1 501 Not Implemented\r\nContent-Length: 0\r\nConnection: close\r\n\r\n"

def unavailable : Bytes :=
  ascii "HTTP/1.1 503 Service Unavailable\r\nContent-Length: 0\r\nConnection: close\r\n\r\n"

def badGateway : Bytes :=
  ascii "HTTP/1.1 502 Bad Gateway\r\nContent-Length: 0\r\nConnection: close\r\n\r\n"

/-- The connection behind the answer to a request. -/
def ClientConn.answered (conn : ClientConn) : Answer → ClientConn
  | .noUpstream => { conn with wbuf := conn.wbuf ++ unavailable, keepAlive := false }
  | .failed _ => { conn with wbuf := conn.wbuf ++ badGateway, keepAlive := false }
  | .response bytes => { conn with wbuf := conn.wbuf ++ bytes }

/-- A request whose body is there is taken off the buffer and answered. -/
def takeRequest (s : ProxyServer) (conn : ClientConn) (req : HttpRequest)
    (sys : Attempt × Attempt) : ClientConn × ProxyServer × Taken :=
  let rest := conn.rbuf.drop req.headerBytes
  let body := rest.take req.contentLength
  let (answer, s) := s.dispatch req body sys
  (ClientConn.answered
    { conn with rbuf := rest.drop req.contentLength, keepAlive := req.keepAlive } answer,
    s, ⟨req, body, answer⟩)

/-- How the branch for reading ends: the connection is closed, or the event is done with, or the
branch for writing follows. -/
inductive ReadResult where
  | closed
  | returned (conn : ClientConn)
  | proceed (conn : ClientConn)

/-- `Http1Parser::parse_request` on the receive buffer. -/
def parseInput (rbuf : Bytes) : ParseResult × HttpRequest :=
  parseRequest (Buffer.ofBytes rbuf).toRingBuffer {}

/-- The branch for reading behind `read_client_input`, with its calls of `modify`. The one before a
connection is closed is left out. -/
def onInput (s : ProxyServer) (conn : ClientConn) (sys : Nat → Attempt × Attempt) :
    ReadResult × ProxyServer × List Taken × List Event :=
  match conn.proto with
  | .http2 =>
    match handleH2Client s sys conn with
    | (none, s) => (.closed, s, [], [])
    | (some conn', s) =>
      -- there was output
      (.returned conn', s, [],
        if conn'.wbuf.length = conn.wbuf.length then [] else [.readWrite])
  | .http1 =>
    match parseInput conn.rbuf with
    | (.error, _) => (.closed, s, [], [])
    | (.incomplete, _) => (.proceed conn, s, [], [])
    | (.complete, req) =>
      if req.chunked then
        (.returned { conn with
          wbuf := conn.wbuf ++ unsupported
          keepAlive := false
          rbuf := conn.rbuf.drop req.headerBytes }, s, [], [.readWrite])
      else if req.contentLength > conn.rbuf.length - req.headerBytes then
        (.returned conn, s, [], [])
      else
        let (conn, s, t) := takeRequest s conn req (sys 0)
        (.proceed conn, s, [t], [.readWrite])

/-- The branch for reading. -/
def onRead (s : ProxyServer) (conn : ClientConn) (ev : ClientEvent) :
    ReadResult × ProxyServer × List Taken :=
  match readClientInput ev.recvs conn.rbuf with
  | (.error _, _) => (.closed, s, [])
  | (.ok true, _) => (.closed, s, [])
  | (.ok false, rbuf) =>
    let r := onInput s { conn with rbuf } ev.sys
    (r.1, r.2.1, r.2.2.1)

/-- The branch for writing. -/
def onWrite (conn : ClientConn) (sends : List Send) : Option ClientConn :=
  match writeClientOutput sends conn.wbuf with
  | (.error e, wbuf) => if isWouldBlock e then some { conn with wbuf } else none
  | (.ok (), wbuf) => if ¬ conn.keepAlive then none else some { conn with wbuf }

/-- `on_client_event` on a connection that is open: the connection, the server and the requests
taken. -/
def onClientEvent (s : ProxyServer) (conn : ClientConn) (ev : ClientEvent) :
    Option ClientConn × ProxyServer × List Taken :=
  if ev.hangUp ∨ ev.error then (none, s, [])
  else
    match if ev.read then onRead s conn ev else (.proceed conn, s, []) with
    | (.closed, s, ts) => (none, s, ts)
    | (.returned conn, s, ts) => (some conn, s, ts)
    | (.proceed conn, s, ts) => (if ev.write then onWrite conn ev.sends else some conn, s, ts)

/-- What becomes of a connection that was read from, where it may be written to as well. -/
def ReadResult.written (write : Bool) (sends : List Send) : ReadResult → Option ClientConn
  | .closed => none
  | .returned conn => some conn
  | .proceed conn => if write then onWrite conn sends else some conn

theorem onClientEvent_of_read {s : ProxyServer} {conn : ClientConn} {ev : ClientEvent}
    (hend : ¬ (ev.hangUp = true ∨ ev.error = true)) (hread : ev.read = true) :
    onClientEvent s conn ev =
      ((onRead s conn ev).1.written ev.write ev.sends, (onRead s conn ev).2) := by
  rw [onClientEvent, if_neg hend, if_pos hread]
  rcases onRead s conn ev with ⟨_ | _ | _, s', ts⟩ <;> rfl

/-! ## Runs -/

/-- The event reads from the connection. -/
def ClientEvent.Reads (ev : ClientEvent) : Prop :=
  (ev.hangUp = false ∧ ev.error = false) ∧ ev.read = true

instance ClientEvent.instDecidableReads (ev : ClientEvent) : Decidable ev.Reads :=
  inferInstanceAs (Decidable (_ ∧ _))

/-- The bytes an event brings. -/
def ClientEvent.input (ev : ClientEvent) : Bytes :=
  if ev.read then (readClientInput ev.recvs []).2 else []

/-- An event, and the server as the connections served before have left it. -/
structure Meeting where
  server : ProxyServer
  event  : ClientEvent

/-- The connection behind an event; a closed one stays closed. -/
def meet (c : Option ClientConn) (m : Meeting) : Option ClientConn :=
  c.bind fun conn => (onClientEvent m.server conn m.event).1

/-- The requests an event takes off a connection over HTTP/1. -/
def takenAt (c : Option ClientConn) (m : Meeting) : List Taken :=
  (c.map fun conn => (onClientEvent m.server conn m.event).2.2).getD []

/-- The requests among them that are forwarded. -/
def forwardedAt (c : Option ClientConn) (m : Meeting) : List Taken :=
  (takenAt c m).filter fun t => t.answer ≠ .noUpstream

/-- The requests taken in a run. -/
def takenIn : Option ClientConn → List Meeting → List Taken := smallSteps meet takenAt

/-- The server behind an event. -/
def serverAt (c : Option ClientConn) (m : Meeting) : ProxyServer :=
  (c.map fun conn => (onClientEvent m.server conn m.event).2.1).getD m.server

/-- The servers that the events of a run leave. -/
def serversIn : Option ClientConn → List Meeting → List ProxyServer :=
  smallSteps meet fun c m => [serverAt c m]

/-- The bytes received in a run. -/
def inputIn (ms : List Meeting) : Bytes := ms.flatMap fun m => m.event.input

theorem takenIn_cons (c : Option ClientConn) (m : Meeting) (ms : List Meeting) :
    takenIn c (m :: ms) = takenAt c m ++ takenIn (meet c m) ms := rfl

theorem takenIn_concat (c : Option ClientConn) (ms : List Meeting) (m : Meeting) :
    takenIn c (ms ++ [m]) = takenIn c ms ++ takenAt (run meet c ms) m :=
  smallSteps_concat m c ms

theorem serversIn_concat (c : Option ClientConn) (ms : List Meeting) (m : Meeting) :
    serversIn c (ms ++ [m]) = serversIn c ms ++ [serverAt (run meet c ms) m] :=
  smallSteps_concat m c ms

theorem inputIn_concat (ms : List Meeting) (m : Meeting) :
    inputIn (ms ++ [m]) = inputIn ms ++ m.event.input := by
  simp [inputIn]

/-- A request of a stream that is handed on, and its answer. -/
structure H2Taken extends Taken where
  id : Nat

/-- What a turn of the loop in `handle_h2_client` hands on. -/
def turnTaken (sys : Nat → Attempt × Attempt) (r : Served) (id : Nat) : List H2Taken :=
  let body := (r.core.streamBody id).getD []
  let req := h2Request ((r.core.streamHeaders id).getD []) body
  [{ id, req, body, answer := (r.server.dispatch req body (sys id)).1 }]

/-- What `handle_h2_client` hands on. -/
def h2Taken (s : ProxyServer) (sys : Nat → Attempt × Attempt) (conn : ClientConn) : List H2Taken :=
  match ((conn.h2conn.getD (.new true)).feed conn.rbuf).process with
  | (.error _, _) => []
  | (.ok ready, c) =>
    smallSteps (serveStream sys) (turnTaken sys) { core := c.toH2Core, server := s } ready

/-- What `on_client_event` hands on of what it has read. -/
def h2Input (s : ProxyServer) (sys : Nat → Attempt × Attempt) (conn : ClientConn) : List H2Taken :=
  match conn.proto with
  | .http1 => []
  | .http2 => h2Taken s sys conn

theorem h2Input_of_http2 {conn : ClientConn} (h : conn.proto = .http2) (s : ProxyServer)
    (sys : Nat → Attempt × Attempt) : h2Input s sys conn = h2Taken s sys conn := by
  unfold h2Input
  rw [h]

/-- The requests an event takes off a connection over HTTP/2. -/
def ClientConn.h2TakenAt (s : ProxyServer) (conn : ClientConn) (ev : ClientEvent) : List H2Taken :=
  if ¬ ev.Reads then []
  else
    match readClientInput ev.recvs conn.rbuf with
    | (.ok false, rbuf) => h2Input s ev.sys { conn with rbuf }
    | _ => []

def h2TakenIn : Option ClientConn → List Meeting → List H2Taken :=
  smallSteps meet fun c m => (c.map fun conn => conn.h2TakenAt m.server m.event).getD []

theorem h2TakenIn_concat (c : Option ClientConn) (ms : List Meeting) (m : Meeting) :
    h2TakenIn c (ms ++ [m]) = h2TakenIn c ms ++
      ((run meet c ms).map fun conn => conn.h2TakenAt m.server m.event).getD [] :=
  smallSteps_concat m c ms

/-! ## Reading -/

/-- The input an event reads, and the request at the front of the buffer behind it, if it is one
that is taken: complete, not chunked and with its body. -/
def requestAt (conn : ClientConn) (ev : ClientEvent) : Option (Bytes × HttpRequest) :=
  match readClientInput ev.recvs conn.rbuf with
  | (.ok false, rbuf) =>
    match parseInput rbuf with
    | (.complete, req) =>
      if req.chunked = true ∨ req.contentLength > rbuf.length - req.headerBytes then none
      else some (rbuf, req)
    | _ => none
  | _ => none

/-- **What reading does** to a connection over HTTP/1: it takes the request at the front, or it
leaves `keep_alive` on only if it was. -/
theorem onRead_cases (s : ProxyServer) {conn : ClientConn} (hproto : conn.proto = .http1)
    (ev : ClientEvent) :
    (∃ rbuf req, requestAt conn ev = some (rbuf, req) ∧
      onRead s conn ev =
        (.proceed (takeRequest s { conn with rbuf } req (ev.sys 0)).1,
          (takeRequest s { conn with rbuf } req (ev.sys 0)).2.1,
          [(takeRequest s { conn with rbuf } req (ev.sys 0)).2.2])) ∨
    (requestAt conn ev = none ∧
      (onRead s conn ev = (.closed, s, []) ∨
        ∃ conn', conn'.proto = .http1 ∧ (conn'.keepAlive = true → conn.keepAlive = true) ∧
          (onRead s conn ev = (.returned conn', s, []) ∨
            onRead s conn ev = (.proceed conn', s, [])))) := by
  obtain ⟨proto, buf, wbuf, keepAlive, h2conn⟩ := conn
  cases hproto
  unfold onRead onInput requestAt
  rcases hread : readClientInput ev.recvs buf with ⟨e | (_ | _), rbuf⟩ <;> simp only
  · exact Or.inr ⟨trivial, Or.inl trivial⟩
  · rcases hparse : parseInput rbuf with ⟨_ | _ | _, req⟩ <;> simp only
    · by_cases hch : req.chunked = true
      · rw [if_pos (Or.inl hch), if_pos hch]
        exact Or.inr ⟨rfl, Or.inr ⟨_, rfl, fun h => Bool.noConfusion h, Or.inl rfl⟩⟩
      · by_cases hlen : req.contentLength > rbuf.length - req.headerBytes
        · rw [if_pos (Or.inr hlen), if_neg hch, if_pos hlen]
          exact Or.inr ⟨rfl, Or.inr ⟨⟨.http1, rbuf, wbuf, keepAlive, h2conn⟩, rfl, id, Or.inl rfl⟩⟩
        · rw [if_neg (fun h => h.elim hch hlen), if_neg hch, if_neg hlen]
          exact Or.inl ⟨rbuf, req, rfl, rfl⟩
    · exact Or.inr ⟨trivial, Or.inr ⟨⟨.http1, rbuf, wbuf, keepAlive, h2conn⟩, rfl, id, Or.inr rfl⟩⟩
    · exact Or.inr ⟨trivial, Or.inl trivial⟩
  · exact Or.inr ⟨trivial, Or.inl trivial⟩

theorem onWrite_some {conn conn' : ClientConn} {sends : List Send}
    (h : onWrite conn sends = some conn') :
    conn'.proto = conn.proto ∧ conn'.keepAlive = conn.keepAlive ∧ conn'.rbuf = conn.rbuf := by
  unfold onWrite at h
  rcases hw : writeClientOutput sends conn.wbuf with ⟨e | ⟨⟩, wbuf⟩ <;> rw [hw] at h <;>
    simp only at h <;> split_ifs at h <;> cases h <;> exact ⟨rfl, rfl, rfl⟩

/-- The branch for writing changes the write buffer only. -/
theorem write_keeps {conn conn' : ClientConn} {ev : ClientEvent}
    (h : (if ev.write then onWrite conn ev.sends else some conn) = some conn') :
    conn'.proto = conn.proto ∧ conn'.keepAlive = conn.keepAlive ∧ conn'.rbuf = conn.rbuf := by
  split_ifs at h
  · exact onWrite_some h
  · cases h
    exact ⟨rfl, rfl, rfl⟩

theorem answered_proto (conn : ClientConn) (a : Answer) :
    (conn.answered a).proto = conn.proto ∧ (conn.answered a).rbuf = conn.rbuf := by
  cases a <;> exact ⟨rfl, rfl⟩

/-- **What an event does** to a connection over HTTP/1: it takes the request at the front, or it
takes none and leaves `keep_alive` on only if it was. -/
theorem onClientEvent_cases (s : ProxyServer) {conn : ClientConn} (hproto : conn.proto = .http1)
    (ev : ClientEvent) :
    (∃ rbuf req, ev.Reads ∧ requestAt conn ev = some (rbuf, req) ∧
      let t := takeRequest s { conn with rbuf } req (ev.sys 0)
      onClientEvent s conn ev =
        (if ev.write then onWrite t.1 ev.sends else some t.1, t.2.1, [t.2.2])) ∨
    ((ev.Reads → requestAt conn ev = none) ∧ (onClientEvent s conn ev).2.2 = [] ∧
      ∀ conn', (onClientEvent s conn ev).1 = some conn' →
        conn'.proto = .http1 ∧ (conn'.keepAlive = true → conn.keepAlive = true)) := by
  unfold onClientEvent
  by_cases hbad : ev.hangUp = true ∨ ev.error = true
  · rw [if_pos hbad]
    refine Or.inr ⟨fun h => ?_, rfl, fun conn' h => by cases h⟩
    rcases hbad with hb | hb
    · exact absurd hb (by simp [h.1.1])
    · exact absurd hb (by simp [h.1.2])
  · rw [if_neg hbad]
    cases hread : ev.read with
    | false =>
      refine Or.inr ⟨fun h => absurd h.2 (by simp [hread]), rfl, fun conn' h => ?_⟩
      obtain ⟨hproto', hkeep, -⟩ := write_keeps h
      rw [hproto', hkeep]
      exact ⟨hproto, id⟩
    | true =>
      have hreads : ev.Reads := ⟨by simpa using hbad, hread⟩
      simp only [if_true]
      rcases onRead_cases s hproto ev with ⟨rbuf, req, hreq, heq⟩ |
        ⟨hnone, heq | ⟨conn₁, hp, hk, heq | heq⟩⟩
      · rw [heq]
        exact Or.inl ⟨rbuf, req, hreads, hreq, rfl⟩
      · rw [heq]
        exact Or.inr ⟨fun _ => hnone, rfl, fun conn' h => by cases h⟩
      · rw [heq]
        refine Or.inr ⟨fun _ => hnone, rfl, fun conn' h => ?_⟩
        cases h
        exact ⟨hp, hk⟩
      · rw [heq]
        refine Or.inr ⟨fun _ => hnone, rfl, fun conn' h => ?_⟩
        obtain ⟨hproto', hkeep, -⟩ := write_keeps h
        rw [hproto', hkeep]
        exact ⟨hp, hk⟩

theorem takeRequest_answer (s : ProxyServer) (conn : ClientConn) (req : HttpRequest)
    (sys : Attempt × Attempt) :
    (takeRequest s conn req sys).2.2.answer = .noUpstream ↔ s.lb.next.1 = none :=
  ProxyServer.dispatch_noUpstream_iff s req _ sys

/-- Without an upstream the connection is to be closed. -/
theorem takeRequest_noUpstream {s : ProxyServer} (h : s.lb.next.1 = none) (conn : ClientConn)
    (req : HttpRequest) (sys : Attempt × Attempt) :
    (takeRequest s conn req sys).1.keepAlive = false := by
  have ha := (takeRequest_answer s conn req sys).mpr h
  unfold takeRequest at ha ⊢
  simp only at ha ⊢
  rw [ha]
  rfl

/-! ## Connections that are to be closed -/

/-- The connection is to be closed once its output is written. -/
def Closing (c : Option ClientConn) : Prop := ∃ conn, c = some conn ∧ conn.keepAlive = false

/-- The event reads a whole request from the connection, and there is an upstream for it. -/
def Resumes (c : Option ClientConn) (m : Meeting) : Prop :=
  ∃ conn, c = some conn ∧ m.event.Reads ∧ requestAt conn m.event ≠ none ∧
    m.server.lb.next.1 ≠ none

theorem takenAt_some (conn : ClientConn) (m : Meeting) :
    takenAt (some conn) m = (onClientEvent m.server conn m.event).2.2 := rfl

/-- A request that is taken is forwarded if there is an upstream. -/
theorem forwardedAt_taken {conn conn₀ : ClientConn} {m : Meeting} {req : HttpRequest}
    (h : takenAt (some conn) m = [(takeRequest m.server conn₀ req (m.event.sys 0)).2.2]) :
    forwardedAt (some conn) m = if m.server.lb.next.1 = none then [] else
      [(takeRequest m.server conn₀ req (m.event.sys 0)).2.2] := by
  have hanswer := takeRequest_answer m.server conn₀ req (m.event.sys 0)
  rw [forwardedAt, h]
  split_ifs with hup
  · rw [List.filter_cons_of_neg (by simpa using hanswer.mpr hup), List.filter_nil]
  · rw [List.filter_cons_of_pos (by simpa using fun ha => hup (hanswer.mp ha)), List.filter_nil]

/-- The connection speaks HTTP/1. -/
def Speaks1 (c : Option ClientConn) : Prop := ∀ conn, c = some conn → conn.proto = .http1

theorem Speaks1.meet {c : Option ClientConn} (h : Speaks1 c) (m : Meeting) :
    Speaks1 (meet c m) := by
  intro conn' h'
  obtain ⟨conn, rfl, he⟩ := Option.bind_eq_some_iff.mp h'
  rcases onClientEvent_cases m.server (h conn rfl) m.event with ⟨rbuf, req, -, -, heq⟩ |
    ⟨-, -, hall⟩
  · simp only [heq] at he
    have ht : (takeRequest m.server { conn with rbuf } req (m.event.sys 0)).1.proto = .http1 :=
      (answered_proto _ _).1.trans (h conn rfl)
    exact (write_keeps he).1.trans ht
  · exact (hall conn' he).1

/-- **One event of a closing connection**: if it resumes the connection a request is forwarded;
otherwise nothing is, and the connection is still closing. -/
theorem Closing.meet {c : Option ClientConn} (h1 : Speaks1 c) (h : Closing c) (m : Meeting) :
    (Resumes c m → forwardedAt c m ≠ []) ∧
      (¬ Resumes c m → forwardedAt c m = [] ∧
        ∀ conn', Uproxy.meet c m = some conn' → conn'.keepAlive = false) := by
  obtain ⟨conn, rfl, hka⟩ := h
  have hmeet : Uproxy.meet (some conn) m = (onClientEvent m.server conn m.event).1 := rfl
  rcases onClientEvent_cases m.server (h1 conn rfl) m.event with ⟨rbuf, req, hreads, hreq, heq⟩ |
    ⟨hnone, htaken, hall⟩
  · rw [forwardedAt_taken (by rw [takenAt_some, heq])]
    constructor
    · rintro ⟨-, -, -, -, hup⟩
      rw [if_neg hup]
      exact List.cons_ne_nil _ _
    · intro hnot
      have hup : m.server.lb.next.1 = none := by
        by_contra hup
        exact hnot ⟨conn, rfl, hreads, by simp [hreq], hup⟩
      refine ⟨if_pos hup, fun conn' h' => ?_⟩
      rw [hmeet, heq] at h'
      exact (write_keeps h').2.1.trans (takeRequest_noUpstream hup _ req _)
  · have hnil : forwardedAt (some conn) m = [] := by
      unfold forwardedAt
      rw [takenAt_some, htaken]
      rfl
    constructor
    · rintro ⟨conn₀, hc, hreads, hreq, -⟩
      cases hc
      exact absurd (hnone hreads) hreq
    · intro _
      refine ⟨hnil, fun conn' h' => ?_⟩
      have := (hall conn' h').2
      rw [hka] at this
      exact Bool.eq_false_iff.mpr fun ht => Bool.noConfusion (this ht)

/-- A connection behind the events of a run. -/
abbrev connAt (ms : List Meeting) : Option ClientConn := run meet (some {}) ms

theorem connAt_speaks1 (ms : List Meeting) : Speaks1 (connAt ms) :=
  run_inv (fun _ m h => h.meet m) ms (fun conn h => by cases h; rfl)

theorem connAt_concat (ms : List Meeting) (m : Meeting) :
    connAt (ms ++ [m]) = meet (connAt ms) m := by
  unfold connAt run
  rw [List.foldl_append]
  rfl

/-- While no event resumes it, a closing connection is closing or closed. -/
theorem closing_run {ms : List Meeting}
    (h : ∀ pre m, pre ++ [m] <+: ms → Closing (connAt pre) → ¬ Resumes (connAt pre) m)
    {pre mid : List Meeting} (hpre : pre ++ mid <+: ms) (hc : Closing (connAt pre)) :
    Closing (connAt (pre ++ mid)) ∨ connAt (pre ++ mid) = none := by
  induction mid using List.reverseRecOn with
  | nil =>
    rw [List.append_nil]
    exact Or.inl hc
  | append_singleton mid m ih =>
    rw [← List.append_assoc] at hpre ⊢
    rw [connAt_concat]
    rcases ih ((List.prefix_append _ _).trans hpre) with hcl | hnone
    · have hstep := (hcl.meet (connAt_speaks1 _) m).2 (h _ m hpre hcl)
      cases hm : meet (connAt (pre ++ mid)) m with
      | none => exact Or.inr rfl
      | some conn' => exact Or.inl ⟨conn', rfl, hstep.2 conn' hm⟩
    · rw [hnone]
      exact Or.inr rfl

/-- **Once a connection is to be closed nothing more is forwarded**: in every run, whatever the
server is like at each event, `keep_alive` stays off and no request is forwarded from then on,
exactly if no event that finds it off reads a whole request for which there is an upstream. -/
theorem closing_final (ms : List Meeting) :
    (∀ pre mid m, pre ++ mid ++ [m] <+: ms → Closing (connAt pre) →
      forwardedAt (connAt (pre ++ mid)) m = [] ∧
        ∀ conn, connAt (pre ++ mid ++ [m]) = some conn → conn.keepAlive = false) ↔
      ∀ pre m, pre ++ [m] <+: ms → Closing (connAt pre) → ¬ Resumes (connAt pre) m := by
  constructor
  · intro h pre m hpre hc hres
    have hnil := (h pre [] m (by simpa using hpre) hc).1
    rw [List.append_nil] at hnil
    exact (hc.meet (connAt_speaks1 pre) m).1 hres hnil
  · intro h pre mid m hpre hc
    rw [connAt_concat]
    rcases closing_run h ((List.prefix_append _ _).trans hpre) hc with hcl | hnone
    · exact (hcl.meet (connAt_speaks1 _) m).2 (h _ m hpre hcl)
    · rw [hnone]
      exact ⟨rfl, fun conn hcn => by cases hcn⟩

/-- An event that brings some bytes. -/
def sampleRead (input : String) : Meeting where
  server := sampleProxy
  event := { read := true, recvs := [.bytes (ascii input)], sys := responds lowerResponse }

/-- A chunked request. -/
def chunkedPost : Meeting :=
  sampleRead "POST / HTTP/1.1\r\nHost: a\r\nTransfer-Encoding: chunked\r\n\r\n"

/-- What follows it on the connection. -/
def smuggledGet : Meeting := sampleRead "GET /admin HTTP/1.1\r\nHost: a\r\n\r\n"

/-- **The bytes behind a refused request are forwarded as a request**, and the connection is
kept. -/
theorem closing_final_smuggle :
    (connAt [chunkedPost]).map (fun conn => (conn.wbuf, conn.keepAlive)) =
        some (unsupported, false) ∧
      (forwardedAt (connAt [chunkedPost]) smuggledGet).map (fun t => t.req.target) =
        [ascii "/admin"] ∧
      (connAt [chunkedPost, smuggledGet]).map ClientConn.keepAlive = some true ∧
      ¬ (∀ pre mid m, pre ++ mid ++ [m] <+: [chunkedPost, smuggledGet] → Closing (connAt pre) →
        forwardedAt (connAt (pre ++ mid)) m = [] ∧
          ∀ conn, connAt (pre ++ mid ++ [m]) = some conn → conn.keepAlive = false) := by
  have hrun : (connAt [chunkedPost]).map (fun conn => (conn.wbuf, conn.keepAlive)) =
        some (unsupported, false) ∧
      (forwardedAt (connAt [chunkedPost]) smuggledGet).map (fun t => t.req.target) =
        [ascii "/admin"] ∧
      (connAt [chunkedPost, smuggledGet]).map ClientConn.keepAlive = some true := by
    unfold chunkedPost smuggledGet sampleRead
    rw [ascii_ofList, ascii_ofList]
    decide +kernel
  obtain ⟨hclosing, hforward, hkept⟩ := hrun
  refine ⟨hclosing, hforward, hkept, fun hall => ?_⟩
  obtain ⟨conn, hconn, hpair⟩ := Option.map_eq_some_iff.mp hclosing
  have hnil := (hall [chunkedPost] [] smuggledGet (List.prefix_refl _)
    ⟨conn, hconn, congrArg Prod.snd hpair⟩).1
  rw [List.append_nil] at hnil
  rw [hnil] at hforward
  cases hforward

end Uproxy
