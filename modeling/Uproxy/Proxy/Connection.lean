import Uproxy.Proxy.Output

/-!
# Client connections with their TLS members (`ClientConn`, `on_client_event`)

`Proxy/Client.lean` has what `on_client_event` does with a cleartext connection. Here is the whole
function: the handshake, the input that goes through the TLS engine, the output of
`Proxy/Output.lean`, and the calls of `modify` that say what the connection waits for next.

The engine is a byte stream at either end, as in `Proxy/Output.lean`: what is fed to it and what it
gives are kept as its history, and how much it gives is an input. A memory BIO takes all it is
given, so `feed_encrypted` does not fail here.

* `onClientEvent_cleartext`: on a cleartext connection this is the function of `Proxy/Client.lean`;
* `write_wbuf`: what a write does to `wbuf`;
* `event_waits`: a connection that has output waits for room to write it.
-/

namespace Uproxy

open Lib.Run

/-! ## The code -/

/-- `ConnState`, as far as it is used. -/
inductive ConnState where
  | tlsHandshake | readRequest
  deriving DecidableEq, Repr

/-- `TLSConn`. `fed` and `decrypted` are its history: all ciphertext it was fed, and all plaintext
it gave. -/
structure ClientTls extends TlsConn where
  handshakeDone : Bool := false
  alpn          : Bytes := ascii "http/1.1"
  fed           : Bytes := []
  decrypted     : Bytes := []
  deriving DecidableEq, Repr

/-- What `SSL_do_handshake` does; the protocol selected is empty if there is none. -/
inductive Handshake where
  | done (alpn : Bytes) (cipher : Bytes)
  | pending (cipher : Bytes)
  | fails (cipher : Bytes)
  deriving DecidableEq, Repr

/-- What `SSL_read` does. -/
inductive TlsRead where
  | gives (d : Bytes) (cipher : Bytes)
  | wouldBlock (cipher : Bytes)
  | fails (cipher : Bytes)
  deriving DecidableEq, Repr

namespace ClientTls

/-- The engine makes some ciphertext. -/
def emit (t : ClientTls) (cipher : Bytes) : ClientTls :=
  { t with toTlsConn := t.toTlsConn.emit cipher }

/-- `TLSConn::do_handshake`: whether it is done. -/
def doHandshake (t : ClientTls) (h : Handshake) : Result Bool × ClientTls :=
  if t.handshakeDone then (.ok true, t)
  else
    match h with
    | .done alpn cipher =>
      (.ok true, { t.emit cipher with
        handshakeDone := true
        alpn := if alpn = [] then t.alpn else alpn })
    | .pending cipher => (.ok false, t.emit cipher)
    | .fails cipher => (.error (.fromCode .tlsHandshake "TLS handshake failed"), t.emit cipher)

/-- `TLSConn::read`, with the size of the buffer handed to it. -/
def read (t : ClientTls) (size : Nat) (r : TlsRead) : Result Bytes × ClientTls :=
  if ¬ t.handshakeDone then (.error (.fromCode .wouldBlock "handshake pending"), t)
  else
    match r with
    | .gives d cipher =>
      (.ok (d.take size), { t.emit cipher with decrypted := t.decrypted ++ d.take size })
    | .wouldBlock cipher => (.error (.fromCode .wouldBlock "SSL_read would block"), t.emit cipher)
    | .fails cipher => (.error (.fromCode .sysError "SSL_read failed"), t.emit cipher)

end ClientTls

/-- `ClientConn`, with the bytes its socket has accepted. -/
structure Conn extends ClientConn where
  state      : ConnState := .readRequest
  tls        : Option ClientTls := none
  tlsPending : Bytes := []
  sent       : Bytes := []

/-- What the system and the TLS engine answer while an event is handled: `flush` is the flush of the
handshake or behind the input, `turns` and `last` are those of `write_client_output`. -/
structure ConnIo where
  recvs     : List Recv := []
  handshake : Handshake := .pending []
  reads     : List TlsRead := []
  flush     : FlushIo := {}
  turns     : List WriteTurn := []
  last      : FlushIo := {}
  /-- The answers of upstreams, as in `ClientEvent`. -/
  sys       : Nat → Attempt × Attempt

/-- What an event comes to: the connection, which is `none` if it is closed, the server, the
requests taken over HTTP/1, the calls of `modify`, and whether `write_client_output` was called. -/
structure Handled where
  conn     : Option Conn
  server   : ProxyServer
  taken    : List Taken
  modifies : List Event
  wrote    : Bool

/-- The loop around `recv` in the handshake: what the engine has been fed, unless the connection is
closed. Unlike that of `read_client_input` it takes `EINTR` for an error. -/
def handshakeInput : List Recv → Bytes → Option Bytes
  | [], fed => some fed
  | .bytes d :: rs, fed => if d = [] then none else handshakeInput rs (fed ++ d)
  | .wouldBlock :: _, fed => some fed
  | .interrupted :: _, _ => none
  | .failed _ :: _, _ => none

/-- The loop around `TLSConn::read`: the engine and `rbuf`. -/
def decryptLoop : List TlsRead → ClientTls → Bytes → Result Unit × ClientTls × Bytes
  | [], t, rbuf => (.ok (), t, rbuf)
  | r :: rs, t, rbuf =>
    match t.read 8192 r with
    | (.ok d, t) => decryptLoop rs t (rbuf ++ d)
    | (.error e, t) => if isWouldBlock e then (.ok (), t, rbuf) else (.error e, t, rbuf)

namespace Conn

/-- The members the output passes through. -/
def output (conn : Conn) : ClientOutput :=
  ⟨conn.tls.map ClientTls.toTlsConn, conn.wbuf, conn.tlsPending, conn.sent⟩

def setOutput (conn : Conn) (o : ClientOutput) : Conn :=
  { conn with
    wbuf := o.wbuf
    tlsPending := o.tlsPending
    sent := o.sent
    tls := conn.tls.map fun t => { t with toTlsConn := o.tlsConn.getD t.toTlsConn } }

/-- `flush_tls_ciphertext`. -/
def flushTlsCiphertext (conn : Conn) (io : FlushIo) : Result Unit × Conn :=
  let r := conn.output.flushTlsCiphertext io
  (r.1, conn.setOutput r.2)

/-- `write_client_output`. -/
def writeClientOutput (conn : Conn) (turns : List WriteTurn) (last : FlushIo) :
    Result Unit × Conn :=
  let r := conn.output.writeClientOutput last turns
  (r.1, conn.setOutput r.2)

/-- `read_client_input`. The loop around `recv` feeds the engine where a cleartext connection
appends to `rbuf`. -/
def readClientInput (conn : Conn) (io : ConnIo) : Result Bool × Conn :=
  match conn.tls with
  | none =>
    let r := Uproxy.readClientInput io.recvs conn.rbuf
    (r.1, { conn with rbuf := r.2 })
  | some t =>
    match Uproxy.readClientInput io.recvs t.fed with
    | (.error e, fed) => (.error e, { conn with tls := some { t with fed } })
    | (.ok sawEof, fed) =>
      match decryptLoop io.reads { t with fed } conn.rbuf with
      | (.error e, t, rbuf) => (.error e, { conn with tls := some t, rbuf })
      | (.ok (), t, rbuf) =>
        match { conn with tls := some t, rbuf }.flushTlsCiphertext io.flush with
        | (.error e, conn) => if ¬ isWouldBlock e then (.error e, conn) else (.ok sawEof, conn)
        | (.ok (), conn) => (.ok sawEof, conn)

/-- The branch for writing, with its call of `modify`. -/
def onWrite (conn : Conn) (io : ConnIo) : Option Conn × List Event :=
  match conn.writeClientOutput io.turns io.last with
  | (.error e, conn) => if isWouldBlock e then (some conn, []) else (none, [])
  | (.ok (), conn) => if ¬ conn.keepAlive then (none, []) else (some conn, [{ read := true }])

/-- What is behind the branch for reading. -/
def finish (conn : Conn) (s : ProxyServer) (ev : Event) (io : ConnIo) (taken : List Taken)
    (modifies : List Event) : Handled :=
  if ev.write then
    let r := conn.onWrite io
    ⟨r.1, s, taken, modifies ++ r.2, true⟩
  else ⟨some conn, s, taken, modifies, false⟩

/-- `on_client_event` in the state `ReadRequest`. -/
def onRequest (conn : Conn) (s : ProxyServer) (ev : Event) (io : ConnIo) : Handled :=
  if ev.read then
    match conn.readClientInput io with
    | (.error _, _) => ⟨none, s, [], [], false⟩
    | (.ok true, _) => ⟨none, s, [], [], false⟩
    | (.ok false, conn) =>
      match onInput s conn.toClientConn io.sys with
      | (.closed, s, ts, ms) => ⟨none, s, ts, ms, false⟩
      | (.returned c, s, ts, ms) => ⟨some { conn with toClientConn := c }, s, ts, ms, false⟩
      | (.proceed c, s, ts, ms) => { conn with toClientConn := c }.finish s ev io ts ms
  else conn.finish s ev io [] []

/-- `on_client_event` in the state `TLSHandshake`; `t` is `*conn.tls_conn`. -/
def onHandshake (conn : Conn) (t : ClientTls) (s : ProxyServer) (ev : Event) (io : ConnIo) :
    Handled :=
  match if ev.read then handshakeInput io.recvs t.fed else some t.fed with
  | none => ⟨none, s, [], [], false⟩
  | some fed =>
    let (state, t) := { t with fed }.doHandshake io.handshake
    match { conn with tls := some t }.flushTlsCiphertext io.flush with
    | (flushed, conn) =>
      if ¬ goesOn flushed then ⟨none, s, [], [], false⟩
      else
        match state with
        | .error _ => ⟨none, s, [], [], false⟩
        | .ok false => ⟨some conn, s, [], [], false⟩
        | .ok true =>
          ⟨some { conn with
            state := .readRequest
            proto := if t.alpn = ascii "h2" then .http2 else .http1 }, s, [], [.readWrite], false⟩

/-- `on_client_event` on a connection that is open. -/
def onClientEvent (conn : Conn) (s : ProxyServer) (ev : Event) (io : ConnIo) : Handled :=
  if ev.hangUp ∨ ev.error then ⟨none, s, [], [], false⟩
  else
    match conn.state, conn.tls with
    | .tlsHandshake, some t => conn.onHandshake t s ev io
    | _, _ => conn.onRequest s ev io

/-- A connection that `on_accept` has made. -/
def accepted (tls : Bool) : Conn :=
  if tls then { state := .tlsHandshake, tls := some {} } else {}

end Conn

/-- An event of a connection, and the server as the connections served before have left it. -/
structure ConnMeeting where
  server : ProxyServer
  event  : Event
  io     : ConnIo

namespace Conn

/-- The connection behind an event; a closed one stays closed. -/
def meet (c : Option Conn) (m : ConnMeeting) : Option Conn :=
  c.bind fun conn => (conn.onClientEvent m.server m.event m.io).conn

/-- The requests an event takes off a connection over HTTP/1. -/
def takenAt (c : Option Conn) (m : ConnMeeting) : List Taken :=
  (c.map fun conn => (conn.onClientEvent m.server m.event m.io).taken).getD []

/-- The requests taken in a run. -/
def takenIn : Option Conn → List ConnMeeting → List Taken := smallSteps meet takenAt

/-- The requests a read takes over HTTP/2. -/
def h2TakenBy (conn : Conn) (s : ProxyServer) (io : ConnIo) : List H2Taken :=
  match conn.readClientInput io with
  | (.ok false, conn) => h2Input s io.sys conn.toClientConn
  | _ => []

/-- The requests an event takes off a connection over HTTP/2. -/
def h2TakenAt (conn : Conn) (s : ProxyServer) (ev : Event) (io : ConnIo) : List H2Taken :=
  if ev.hangUp ∨ ev.error then []
  else
    match conn.state, conn.tls with
    | .tlsHandshake, some _ => []
    | _, _ => if ev.read then conn.h2TakenBy s io else []

def h2TakenIn : Option Conn → List ConnMeeting → List H2Taken :=
  smallSteps meet fun c m => (c.map fun conn => conn.h2TakenAt m.server m.event m.io).getD []

/-- The server behind an event. -/
def serverAt (c : Option Conn) (m : ConnMeeting) : ProxyServer :=
  (c.map fun conn => (conn.onClientEvent m.server m.event m.io).server).getD m.server

/-- The servers that the events of a run leave. -/
def serversIn : Option Conn → List ConnMeeting → List ProxyServer :=
  smallSteps meet fun c m => [serverAt c m]

theorem meet_some (conn : Conn) (m : ConnMeeting) :
    meet (some conn) m = (conn.onClientEvent m.server m.event m.io).conn := rfl

/-- Every way through `on_client_event`. -/
theorem onClientEvent_cases (conn : Conn) (s : ProxyServer) (ev : Event) (io : ConnIo) :
    conn.onClientEvent s ev io = ⟨none, s, [], [], false⟩ ∨
    (∃ t, conn.state = .tlsHandshake ∧ conn.tls = some t ∧
      conn.onClientEvent s ev io = conn.onHandshake t s ev io) ∨
    conn.onClientEvent s ev io = conn.onRequest s ev io := by
  unfold onClientEvent
  split_ifs
  · exact Or.inl rfl
  · split
    · next t hstate htls => exact Or.inr (Or.inl ⟨t, hstate, htls, rfl⟩)
    · exact Or.inr (Or.inr rfl)

end Conn

/-! ## Cleartext connections -/

/-- The event as `Proxy/Client.lean` has it. -/
def ConnIo.clear (io : ConnIo) (ev : Event) : ClientEvent where
  read := ev.read
  write := ev.write
  hangUp := ev.hangUp
  error := ev.error
  recvs := io.recvs
  sends := io.turns.map WriteTurn.send
  sys := io.sys

namespace Conn

theorem onWrite_cleartext {conn : Conn} (h : conn.tls = none) (io : ConnIo) :
    Uproxy.onWrite conn.toClientConn (io.turns.map WriteTurn.send) =
        (conn.onWrite io).1.map Conn.toClientConn ∧
      ∀ conn', (conn.onWrite io).1 = some conn' →
        conn'.tls = none ∧ conn'.state = conn.state ∧ conn'.tlsPending = conn.tlsPending := by
  obtain ⟨hr, -, hpending⟩ :=
    ClientOutput.write_none io.last io.turns conn.wbuf conn.tlsPending conn.sent
  have hout : conn.output = ⟨none, conn.wbuf, conn.tlsPending, conn.sent⟩ := by
    simp [output, h]
  unfold Uproxy.onWrite onWrite writeClientOutput
  simp only [hout, ← hr]
  rcases hw : ClientOutput.writeClientOutput io.last io.turns
    ⟨none, conn.wbuf, conn.tlsPending, conn.sent⟩ with ⟨e | _, o⟩
  · rw [hw] at hpending
    simp only
    split_ifs
    · refine ⟨rfl, fun conn' hc => ?_⟩
      cases hc
      exact ⟨by simp [setOutput, h], rfl, hpending⟩
    · exact ⟨rfl, fun _ h => by cases h⟩
  · rw [hw] at hpending
    have hk : (conn.setOutput o).keepAlive = conn.keepAlive := rfl
    simp only [hk]
    split_ifs
    · refine ⟨rfl, fun conn' hc => ?_⟩
      cases hc
      exact ⟨by simp [setOutput, h], rfl, hpending⟩
    · exact ⟨rfl, fun _ h => by cases h⟩

theorem finish_keeps (conn : Conn) (s : ProxyServer) (ev : Event) (io : ConnIo) (ts : List Taken)
    (ms : List Event) :
    (conn.finish s ev io ts ms).server = s ∧ (conn.finish s ev io ts ms).taken = ts := by
  unfold finish
  split_ifs <;> exact ⟨rfl, rfl⟩

theorem finish_cleartext {conn : Conn} (h : conn.tls = none) (s : ProxyServer) (ev : Event)
    (io : ConnIo) (ts : List Taken) (ms : List Event) :
    (if ev.write then Uproxy.onWrite conn.toClientConn (io.turns.map WriteTurn.send)
      else some conn.toClientConn) = (conn.finish s ev io ts ms).conn.map Conn.toClientConn ∧
    ∀ conn', (conn.finish s ev io ts ms).conn = some conn' →
      conn'.tls = none ∧ conn'.state = conn.state := by
  unfold finish
  split_ifs
  · obtain ⟨hw, hkeep⟩ := onWrite_cleartext h io
    exact ⟨hw, fun conn' hc => ⟨(hkeep conn' hc).1, (hkeep conn' hc).2.1⟩⟩
  · refine ⟨rfl, fun conn' hc => ?_⟩
    cases hc
    exact ⟨h, rfl⟩

theorem readClientInput_cleartext {conn : Conn} (h : conn.tls = none) (io : ConnIo) :
    conn.readClientInput io = ((Uproxy.readClientInput io.recvs conn.rbuf).1,
      { conn with rbuf := (Uproxy.readClientInput io.recvs conn.rbuf).2 }) := by
  simp [readClientInput, h]

/-- **On a cleartext connection this is the function of `Proxy/Client.lean`**, and the connection
stays one. -/
theorem onClientEvent_cleartext {conn : Conn} (h : conn.tls = none) (s : ProxyServer) (ev : Event)
    (io : ConnIo) :
    let r := conn.onClientEvent s ev io
    Uproxy.onClientEvent s conn.toClientConn (io.clear ev) =
        (r.conn.map Conn.toClientConn, r.server, r.taken) ∧
      ∀ conn', r.conn = some conn' → conn'.tls = none ∧ conn'.state = conn.state := by
  have hreq : conn.onClientEvent s ev io =
      if ev.hangUp ∨ ev.error then ⟨none, s, [], [], false⟩ else conn.onRequest s ev io := by
    unfold onClientEvent
    rw [h]
    cases conn.state <;> rfl
  intro r
  have hr : r = _ := hreq
  clear_value r
  by_cases hend : ev.hangUp = true ∨ ev.error = true
  · rw [if_pos hend] at hr
    rw [Uproxy.onClientEvent,
      if_pos (show (io.clear ev).hangUp ∨ (io.clear ev).error from hend), hr]
    exact ⟨rfl, fun _ h => by cases h⟩
  rw [if_neg hend, onRequest] at hr
  rw [Uproxy.onClientEvent, if_neg (show ¬ ((io.clear ev).hangUp ∨ (io.clear ev).error) from hend)]
  by_cases hread : ev.read = true
  · rw [if_pos hread, readClientInput_cleartext h] at hr
    rw [if_pos (show (io.clear ev).read from hread), onRead,
      show (io.clear ev).recvs = io.recvs from rfl, show (io.clear ev).sys = io.sys from rfl]
    generalize Uproxy.readClientInput io.recvs conn.rbuf = input at hr ⊢
    obtain ⟨e | ⟨_ | _⟩, rbuf⟩ := input
    · rw [hr]
      exact ⟨rfl, fun _ h => by cases h⟩
    · simp only at hr ⊢
      generalize onInput s { conn.toClientConn with rbuf } io.sys = result at hr ⊢
      obtain ⟨_ | c | c, s', ts, ms⟩ := result
      · rw [hr]
        exact ⟨rfl, fun _ h => by cases h⟩
      · rw [hr]
        refine ⟨rfl, fun conn' hc => ?_⟩
        cases hc
        exact ⟨h, rfl⟩
      · have hfin := @finish_cleartext { conn with toClientConn := c } h s' ev io ts ms
        have hkeep := finish_keeps { conn with toClientConn := c } s' ev io ts ms
        simp only at hr
        rw [← hr] at hfin hkeep
        rw [hkeep.1, hkeep.2, ← hfin.1]
        exact ⟨rfl, hfin.2⟩
    · rw [hr]
      exact ⟨rfl, fun _ h => by cases h⟩
  · rw [if_neg hread] at hr
    rw [if_neg (show ¬ (io.clear ev).read from hread)]
    obtain ⟨h1, h2⟩ := finish_cleartext h s ev io [] []
    obtain ⟨h3, h4⟩ := conn.finish_keeps s ev io [] []
    rw [hr, h3, h4, ← h1]
    exact ⟨rfl, h2⟩

end Conn

/-! ## Output -/

namespace ClientOutput

theorem flushChunks_wbuf : ∀ (chunks : List (TlsTake × List Send)) (c : TlsConn)
    (o : ClientOutput), (flushChunks chunks c o).2.wbuf = o.wbuf
  | [], _, _ => rfl
  | (t, sends) :: rest, c, o => by
    simp only [flushChunks]
    rcases c.takeEncrypted chunkBytes t with ⟨e | chunk, c'⟩
    · rfl
    · simp only
      split_ifs
      · rfl
      · cases (sendLoop sends chunk).ending with
        | done => exact flushChunks_wbuf rest c' _
        | blocked => rfl
        | failed errno => rfl

theorem flush_wbuf (o : ClientOutput) (io : FlushIo) :
    (o.flushTlsCiphertext io).2.wbuf = o.wbuf := by
  unfold flushTlsCiphertext
  cases o.tlsConn with
  | none => rfl
  | some c =>
    simp only
    cases (sendLoop io.pending o.tlsPending).ending with
    | done => exact flushChunks_wbuf io.chunks c _
    | blocked => rfl
    | failed errno => rfl

theorem writeTurn_wbuf (o : ClientOutput) (t : WriteTurn) :
    ∃ d, o.wbuf = d ++ (o.writeTurn t).2.wbuf := by
  unfold writeTurn
  cases o.tlsConn with
  | none =>
    cases t.send with
    | sent n pos => exact ⟨o.wbuf.take n, (List.take_append_drop n o.wbuf).symm⟩
    | interrupted => exact ⟨[], rfl⟩
    | wouldBlock => exact ⟨[], rfl⟩
    | failed errno => exact ⟨[], rfl⟩
  | some c =>
    simp only
    rcases c.write o.wbuf t.write with ⟨e | n, c'⟩
    · have hflush := flush_wbuf { o with tlsConn := some c' } t.flush
      simp only
      split_ifs
      · rcases hf : flushTlsCiphertext { o with tlsConn := some c' } t.flush with ⟨e' | _, o'⟩
        · rw [hf] at hflush
          simp only
          split_ifs <;> exact ⟨[], hflush.symm⟩
        · rw [hf] at hflush
          exact ⟨[], hflush.symm⟩
      · exact ⟨[], rfl⟩
    · have hflush := flush_wbuf { o with tlsConn := some c', wbuf := o.wbuf.drop n } t.flush
      simp only
      rcases hf :
          flushTlsCiphertext { o with tlsConn := some c', wbuf := o.wbuf.drop n } t.flush with
        ⟨e' | _, o'⟩
      all_goals
        rw [hf] at hflush
        exact ⟨o.wbuf.take n, by
          rw [show o'.wbuf = _ from hflush, List.take_append_drop]⟩

/-- A turn does not end the loop with success. -/
theorem writeTurn_returns {o : ClientOutput} {t : WriteTurn} {r : Result Unit}
    (h : (o.writeTurn t).1 = some r) : r ≠ .ok () := by
  unfold writeTurn at h
  rintro rfl
  cases ho : o.tlsConn with
  | none =>
    simp only [ho] at h
    cases hs : t.send <;> simp [hs] at h
  | some c =>
    simp only [ho] at h
    generalize c.write o.wbuf t.write = written at h
    obtain ⟨e | n, c'⟩ := written
    · simp only at h
      split_ifs at h
      · generalize flushTlsCiphertext _ t.flush = flushed at h
        obtain ⟨e' | _, o'⟩ := flushed
        · simp only at h
          split_ifs at h <;> cases h
        · cases h
      · cases h
    · simp only at h
      generalize flushTlsCiphertext _ t.flush = flushed at h
      obtain ⟨e' | _, o'⟩ := flushed <;> cases h

/-- A write takes bytes from the front of `wbuf`, all of them if it succeeds. -/
theorem write_wbuf (last : FlushIo) : ∀ (turns : List WriteTurn) (o : ClientOutput),
    (∃ d, o.wbuf = d ++ (o.writeClientOutput last turns).2.wbuf) ∧
      ((o.writeClientOutput last turns).1 = .ok () →
        (o.writeClientOutput last turns).2.wbuf = [])
  | [], o => by
    unfold writeClientOutput
    split_ifs with hnil
    · rw [flush_wbuf]
      exact ⟨⟨[], rfl⟩, fun _ => hnil⟩
    · exact ⟨⟨[], rfl⟩, False.elim⟩
    · exact ⟨⟨[], rfl⟩, False.elim⟩
  | t :: turns, o => by
    unfold writeClientOutput
    split_ifs with hnil
    · rw [flush_wbuf]
      exact ⟨⟨[], rfl⟩, fun _ => hnil⟩
    · obtain ⟨d, hd⟩ := o.writeTurn_wbuf t
      rcases ht : o.writeTurn t with ⟨_ | r, o'⟩
      · rw [ht] at hd
        obtain ⟨⟨d', hd'⟩, hok⟩ := write_wbuf last turns o'
        exact ⟨⟨d ++ d', by rw [hd, List.append_assoc, ← hd']⟩, hok⟩
      · rw [ht] at hd
        exact ⟨⟨d, hd⟩, fun hok => absurd hok (writeTurn_returns (congrArg Prod.fst ht))⟩

end ClientOutput

namespace Conn

/-- What the engine knows of the connection: whether the handshake is done, and the plaintext it has
given. -/
def session (conn : Conn) : Option (Bool × Bytes) :=
  conn.tls.map fun t => (t.handshakeDone, t.decrypted)

theorem session_setOutput (conn : Conn) (o : ClientOutput) :
    (conn.setOutput o).session = conn.session := by
  unfold session setOutput
  cases conn.tls <;> rfl

theorem flush_keeps {conn conn' : Conn} {io : FlushIo} {r : Result Unit}
    (h : conn.flushTlsCiphertext io = (r, conn')) :
    conn'.toClientConn = conn.toClientConn ∧ conn'.session = conn.session ∧
      conn'.state = conn.state := by
  have hw := ClientOutput.flush_wbuf conn.output io
  cases h
  refine ⟨?_, session_setOutput _ _, rfl⟩
  rw [setOutput, hw]
  rfl

end Conn

/-! ## What a connection waits for -/

/-- `modify` is called, for both directions, exactly if a request was taken or output was made. -/
theorem onInput_modifies (s : ProxyServer) (conn : ClientConn) (sys : Nat → Attempt × Attempt) :
    ((onInput s conn sys).2.2.2 = [] ∨ (onInput s conn sys).2.2.2 = [.readWrite]) ∧
      ∀ c, (onInput s conn sys).1 = .returned c ∨ (onInput s conn sys).1 = .proceed c →
        (onInput s conn sys).2.2.2 = [] → c.wbuf = conn.wbuf := by
  obtain ⟨proto, rbuf, wbuf, keepAlive, h2conn⟩ := conn
  cases proto with
  | http2 =>
    simp only [onInput, handleH2Client]
    rcases ((h2conn.getD (.new true)).feed rbuf).process with ⟨e | ready, c⟩
    · exact ⟨Or.inl rfl, fun c' h => by rcases h with h | h <;> cases h⟩
    · simp only
      split_ifs
      · exact ⟨Or.inl rfl, fun c' h => by rcases h with h | h <;> cases h⟩
      · simp only
        split_ifs with hlen
        · refine ⟨Or.inl rfl, fun c' h _ => ?_⟩
          rcases h with h | h
          · cases h
            simpa using hlen
          · cases h
        · exact ⟨Or.inr rfl, fun c' h hnil => by cases hnil⟩
  | http1 =>
    simp only [onInput]
    rcases parseInput rbuf with ⟨_ | _ | _, req⟩
    · simp only
      split_ifs
      · exact ⟨Or.inr rfl, fun c' h hnil => by cases hnil⟩
      · refine ⟨Or.inl rfl, fun c' h _ => ?_⟩
        rcases h with h | h
        · cases h
          rfl
        · cases h
      · exact ⟨Or.inr rfl, fun c' h hnil => by cases hnil⟩
    · refine ⟨Or.inl rfl, fun c' h _ => ?_⟩
      rcases h with h | h
      · cases h
      · cases h
        rfl
    · exact ⟨Or.inl rfl, fun c' h => by rcases h with h | h <;> cases h⟩

namespace Conn

/-- The calls of `modify`, of which the last counts, and the output that is left: an event either
says nothing and leaves output only if there was some, or the last it says is to wait for room, or
it leaves none. -/
def Waits (before : Bytes) (modifies : List Event) (after : Bytes) : Prop :=
  (∀ e ∈ modifies, e.read = true) ∧
    (after ≠ [] → (modifies = [] ∧ before ≠ []) ∨ modifies.getLast?.map Event.write = some true)

theorem readClientInput_wbuf {conn conn' : Conn} {io : ConnIo} {r : Result Bool}
    (h : conn.readClientInput io = (r, conn')) : conn'.wbuf = conn.wbuf := by
  unfold readClientInput at h
  cases ht : conn.tls with
  | none =>
    simp only [ht] at h
    cases h
    rfl
  | some t =>
    simp only [ht] at h
    generalize Uproxy.readClientInput io.recvs t.fed = input at h
    obtain ⟨e | sawEof, fed⟩ := input
    · cases h
      rfl
    · simp only at h
      generalize decryptLoop io.reads { t with fed } conn.rbuf = decrypted at h
      obtain ⟨e | _, t', rbuf⟩ := decrypted
      · cases h
        rfl
      · simp only at h
        rcases hf : flushTlsCiphertext { conn with tls := some t', rbuf } io.flush with ⟨e | _, c⟩
        all_goals
          have hconn := (flush_keeps hf).1
          rw [hf] at h
        · simp only at h
          split_ifs at h <;> cases h <;> rw [hconn]
        · cases h
          rw [hconn]

/-- What the branch for reading says holds as long as no output is added. -/
theorem waits_of_modifies {ms : List Event} {before wbuf after : Bytes}
    (hms : ms = [] ∨ ms = [.readWrite]) (hbefore : ms = [] → wbuf = before)
    (hafter : after ≠ [] → wbuf ≠ []) : Waits before ms after := by
  rcases hms with rfl | rfl
  · exact ⟨by simp, fun hne => Or.inl ⟨rfl, hbefore rfl ▸ hafter hne⟩⟩
  · exact ⟨by simp [Event.readWrite], fun _ => Or.inr rfl⟩

theorem finish_waits (conn : Conn) (s : ProxyServer) (ev : Event) (io : ConnIo) (ts : List Taken)
    {ms : List Event} {before : Bytes} (hms : ms = [] ∨ ms = [.readWrite])
    (hbefore : ms = [] → conn.wbuf = before) {conn' : Conn}
    (h : (conn.finish s ev io ts ms).conn = some conn') :
    Waits before (conn.finish s ev io ts ms).modifies conn'.wbuf := by
  have hkeep : ∀ {after : Bytes}, (after ≠ [] → conn.wbuf ≠ []) → Waits before ms after :=
    fun hafter => waits_of_modifies hms hbefore hafter
  obtain ⟨⟨d, hd⟩, hok⟩ := ClientOutput.write_wbuf io.last io.turns conn.output
  unfold Conn.finish at h ⊢
  split_ifs at h ⊢
  · simp only [onWrite, writeClientOutput] at h ⊢
    generalize conn.output.writeClientOutput io.last io.turns = written at hd hok h ⊢
    obtain ⟨e | _, o⟩ := written
    · simp only at h ⊢
      split_ifs at h ⊢
      cases h
      rw [List.append_nil]
      refine hkeep fun hne hnil => hne ?_
      rw [show conn.output.wbuf = [] from hnil] at hd
      exact (List.append_eq_nil_iff.mp hd.symm).2
    · simp only at h ⊢
      split_ifs at h ⊢
      cases h
      refine ⟨fun e he => ?_, fun hne => absurd (hok rfl) hne⟩
      rcases List.mem_append.mp he with he | he
      · exact (hkeep (absurd rfl)).1 e he
      · rw [List.mem_singleton.mp he]
  · cases h
    exact hkeep id

theorem onHandshake_waits {conn conn' : Conn} {t : ClientTls} {s : ProxyServer} {ev : Event}
    {io : ConnIo} (h : (conn.onHandshake t s ev io).conn = some conn') :
    Waits conn.wbuf (conn.onHandshake t s ev io).modifies conn'.wbuf := by
  unfold onHandshake at h ⊢
  generalize (if ev.read then handshakeInput io.recvs t.fed else some t.fed) = fed? at h ⊢
  cases fed? with
  | none => cases h
  | some fed =>
    simp only at h ⊢
    generalize ClientTls.doHandshake { t with fed } io.handshake = result at h ⊢
    obtain ⟨state, t'⟩ := result
    rcases hf : flushTlsCiphertext { conn with tls := some t' } io.flush with ⟨flushed, conn₁⟩
    have hconn := (flush_keeps hf).1
    simp only [hf] at h ⊢
    by_cases hg : ¬ goesOn flushed = true
    · rw [if_pos hg] at h
      cases h
    · rw [if_neg hg] at h ⊢
      rcases state with e | ⟨_ | _⟩
      · cases h
      · cases h
        rw [hconn]
        exact ⟨by simp, fun hne => Or.inl ⟨rfl, hne⟩⟩
      · cases h
        exact ⟨by simp [Event.readWrite], fun _ => Or.inr rfl⟩

theorem onRequest_waits {conn conn' : Conn} {s : ProxyServer} {ev : Event} {io : ConnIo}
    (h : (conn.onRequest s ev io).conn = some conn') :
    Waits conn.wbuf (conn.onRequest s ev io).modifies conn'.wbuf := by
  unfold onRequest at h ⊢
  split_ifs at h ⊢
  · rcases hr : conn.readClientInput io with ⟨e | ⟨_ | _⟩, conn₁⟩
    · rw [hr] at h
      cases h
    · have hwbuf := readClientInput_wbuf hr
      obtain ⟨hms, hkeep⟩ := onInput_modifies s conn₁.toClientConn io.sys
      simp only [hr] at h ⊢
      generalize onInput s conn₁.toClientConn io.sys = result at hms hkeep h ⊢
      obtain ⟨_ | c | c, s', ts, ms⟩ := result
      · cases h
      · cases h
        exact waits_of_modifies hms (fun hnil => (hkeep c (Or.inl rfl) hnil).trans hwbuf) id
      · exact finish_waits _ s' ev io ts hms (fun hnil => (hkeep c (Or.inr rfl) hnil).trans hwbuf) h
    · rw [hr] at h
      cases h
  · exact finish_waits conn s ev io [] (Or.inl rfl) (fun _ => rfl) h

/-- **One event keeps a connection with output waiting for room to write it.** -/
theorem event_waits {conn conn' : Conn} {s : ProxyServer} {ev : Event} {io : ConnIo}
    (h : (conn.onClientEvent s ev io).conn = some conn') :
    Waits conn.wbuf (conn.onClientEvent s ev io).modifies conn'.wbuf := by
  rcases conn.onClientEvent_cases s ev io with he | ⟨t, -, -, he⟩ | he <;> rw [he] at h ⊢
  · cases h
  · exact onHandshake_waits h
  · exact onRequest_waits h

end Conn

end Uproxy
