import Uproxy.Proxy.Connection
import Uproxy.Proxy.Pipeline

/-!
# TLS connections as cleartext ones

A connection of the TLS listener starts with a handshake; from then on its input is what the engine
decrypts, and its output goes through the engine. The results on cleartext connections hold of it
all the same: `tls_as_cleartext` gives for every run of it a run of a cleartext connection with the
same requests, over HTTP/1 or HTTP/2, the same bytes and the same servers.

The cleartext connection is one with a slower socket (`ClientConn.delayed`): bytes the engine has
taken, but whose ciphertext is not all sent, count as unsent, since `on_client_event` treats the
connection as not yet done with them. While the handshake lasts it is ready for nothing.

* `Secured.event`: one event behind the handshake, `Handshaking.event`: one before it is done;
* `Mirrored.step`: the mirror of a connection goes along with every event;
* **`tls_as_cleartext`**: the two runs.
-/

namespace Uproxy

open Lib.Run

/-! ## TLS connections -/

/-- The same connection with more output in front. -/
def ClientConn.delayed (conn : ClientConn) (p : Bytes) : ClientConn :=
  { conn with wbuf := p ++ conn.wbuf }

def ReadResult.delayed (p : Bytes) : ReadResult → ReadResult
  | .closed => .closed
  | .returned conn => .returned (conn.delayed p)
  | .proceed conn => .proceed (conn.delayed p)

/-- What is sent where a connection that was read from may be written to as well. -/
def ReadResult.sent (write : Bool) (sends : List Send) : ReadResult → Bytes
  | .proceed conn => if write then (sendLoop sends conn.wbuf).accepted else []
  | _ => []

theorem takeRequest_delayed (s : ProxyServer) (conn : ClientConn) (p : Bytes) (req : HttpRequest)
    (sys : Attempt × Attempt) :
    takeRequest s (conn.delayed p) req sys =
      ((takeRequest s conn req sys).1.delayed p, (takeRequest s conn req sys).2) := by
  unfold takeRequest ClientConn.delayed
  simp only
  rcases s.dispatch req ((conn.rbuf.drop req.headerBytes).take req.contentLength) sys with
    ⟨_ | e | bytes, s'⟩ <;> simp [ClientConn.answered]

/-- **What the input comes to does not depend on the output that is waiting.** -/
theorem onInput_delayed (s : ProxyServer) (conn : ClientConn) (p : Bytes)
    (sys : Nat → Attempt × Attempt) :
    onInput s (conn.delayed p) sys =
      ((onInput s conn sys).1.delayed p, (onInput s conn sys).2) := by
  obtain ⟨proto, rbuf, wbuf, keepAlive, h2conn⟩ := conn
  cases proto with
  | http2 =>
    simp only [onInput, ClientConn.delayed, handleH2Client]
    rcases ((h2conn.getD (.new true)).feed rbuf).process with ⟨e | ready, c⟩
    · rfl
    · simp only
      split_ifs <;> simp_all [ReadResult.delayed, ClientConn.delayed]
  | http1 =>
    have htake := takeRequest_delayed s ⟨.http1, rbuf, wbuf, keepAlive, h2conn⟩ p
    simp only [ClientConn.delayed] at htake
    simp only [onInput, ClientConn.delayed]
    rcases parseInput rbuf with ⟨_ | _ | _, req⟩
    · simp only [htake]
      split_ifs
      · simp [ReadResult.delayed, ClientConn.delayed]
      · rfl
      · rfl
    · rfl
    · rfl

/-- Output is only ever appended. -/
theorem onInput_appends {s : ProxyServer} {conn c : ClientConn} {sys : Nat → Attempt × Attempt}
    (h : (onInput s conn sys).1 = .returned c ∨ (onInput s conn sys).1 = .proceed c) :
    ∃ new, c.wbuf = conn.wbuf ++ new := by
  -- the write buffer counts as output in front of an empty one
  have hconn : ({ conn with wbuf := [] } : ClientConn).delayed conn.wbuf = conn := by
    simp [ClientConn.delayed]
  rw [← hconn, onInput_delayed] at h
  generalize (onInput s { conn with wbuf := [] } sys).1 = r at h
  obtain _ | c' | c' := r
  · rcases h with h | h <;> cases h
  · rcases h with h | h <;> cases h
    exact ⟨c'.wbuf, rfl⟩
  · rcases h with h | h <;> cases h
    exact ⟨c'.wbuf, rfl⟩

theorem h2Input_delayed (s : ProxyServer) (conn : ClientConn) (p : Bytes)
    (sys : Nat → Attempt × Attempt) : h2Input s sys (conn.delayed p) = h2Input s sys conn := rfl

namespace Conn

/-! ## The output of the engine -/

theorem setOutput_intact {conn : Conn} {o : ClientOutput} {out out' : Bytes}
    (h : conn.output.Intact out true) (ho : o.Intact out' true) :
    (conn.setOutput o).output.Intact out' true := by
  cases ho with
  | tls hcipher hplain =>
    unfold output at h
    cases ht : conn.tls with
    | none =>
      rw [ht] at h
      cases h
    | some t =>
      simp only [output, setOutput, ht, Option.map_some, Option.getD_some]
      exact .tls hcipher hplain

theorem flush_output_intact {conn conn' : Conn} {io : FlushIo} {r : Result Unit} {out : Bytes}
    (h : conn.output.Intact out true) (hf : conn.flushTlsCiphertext io = (r, conn'))
    (hg : goesOn r = true) : conn'.output.Intact out true := by
  cases hf
  exact setOutput_intact h (ClientOutput.flush_intact h rfl hg)

/-- A connection before its handshake is done. -/
structure Handshaking (conn : Conn) : Prop where
  state   : conn.state = .tlsHandshake
  session : conn.session = some (false, [])
  new     : conn.toClientConn = {}
  intact  : conn.output.Intact [] true

/-- A connection behind its handshake, that has been given the plaintext `d` and has put out
`out`. -/
structure Secured (conn : Conn) (d out : Bytes) : Prop where
  state   : conn.state = .readRequest
  session : conn.session = some (true, d)
  intact  : conn.output.Intact out true

theorem Secured.engine {conn : Conn} {d out : Bytes} (h : Secured conn d out) :
    ∃ t, conn.tls = some t ∧ t.handshakeDone = true ∧ t.decrypted = d ∧
      t.written ++ conn.wbuf = out ∧ conn.sent ++ conn.tlsPending ++ t.output = t.produced := by
  obtain ⟨t, ht, hsession⟩ := Option.map_eq_some_iff.mp h.session
  obtain ⟨hdone, hdec⟩ := Prod.mk.inj hsession
  have hintact := h.intact
  unfold output at hintact
  rw [ht] at hintact
  cases hintact with
  | tls hcipher hplain => exact ⟨t, ht, hdone, hdec, hplain, hcipher⟩

theorem decryptLoop_spec : ∀ (rs : List TlsRead) (t : ClientTls) (rbuf : Bytes),
    t.handshakeDone = true →
    ∃ d cipher, (decryptLoop rs t rbuf).2.2 = rbuf ++ d ∧
      (decryptLoop rs t rbuf).2.1.handshakeDone = true ∧
      (decryptLoop rs t rbuf).2.1.decrypted = t.decrypted ++ d ∧
      (decryptLoop rs t rbuf).2.1.toTlsConn = t.toTlsConn.emit cipher
  | [], t, rbuf, h =>
    ⟨[], [], (List.append_nil _).symm, h, (List.append_nil _).symm, (TlsConn.emit_nil _).symm⟩
  | r :: rs, t, rbuf, h => by
    have hdone : ¬ ¬ t.handshakeDone = true := not_not.mpr h
    cases r with
    | gives d cipher =>
      obtain ⟨d', cipher', h1, h2, h3, h4⟩ := decryptLoop_spec rs
        { t.emit cipher with decrypted := t.decrypted ++ d.take 8192 } (rbuf ++ d.take 8192) h
      simp only [decryptLoop, ClientTls.read, if_neg hdone]
      exact ⟨d.take 8192 ++ d', cipher ++ cipher', by rw [h1, List.append_assoc], h2,
        by rw [h3, List.append_assoc], h4.trans (TlsConn.emit_emit _ _ _)⟩
    | wouldBlock cipher =>
      simp only [decryptLoop, ClientTls.read, if_neg hdone]
      exact ⟨[], cipher, (List.append_nil _).symm, h, (List.append_nil _).symm, rfl⟩
    | fails cipher =>
      simp only [decryptLoop, ClientTls.read, if_neg hdone]
      exact ⟨[], cipher, (List.append_nil _).symm, h, (List.append_nil _).symm, rfl⟩

/-- **Reading through the engine** appends to `rbuf` what the engine gives. -/
theorem Secured.read {conn conn' : Conn} {d out : Bytes} (h : Secured conn d out) {io : ConnIo}
    {eof : Bool} (hr : conn.readClientInput io = (.ok eof, conn')) :
    ∃ new, Secured conn' (d ++ new) out ∧
      conn'.toClientConn = { conn.toClientConn with rbuf := conn.rbuf ++ new } := by
  obtain ⟨t, ht, hsession⟩ := Option.map_eq_some_iff.mp h.session
  obtain ⟨hdone, rfl⟩ := Prod.mk.inj hsession
  have hintact := h.intact
  unfold readClientInput at hr
  unfold output at hintact
  simp only [ht] at hr hintact
  generalize Uproxy.readClientInput io.recvs t.fed = input at hr
  obtain ⟨e | sawEof, fed⟩ := input
  · cases hr
  · simp only at hr
    obtain ⟨new, cipher, hrbuf, hdone', hdec, hemit⟩ :=
      decryptLoop_spec io.reads { t with fed } conn.rbuf hdone
    rcases hl : decryptLoop io.reads { t with fed } conn.rbuf with ⟨e | _, t', rbuf⟩
    · rw [hl] at hr
      cases hr
    · rw [hl] at hr hrbuf hdone' hdec hemit
      simp only at hr hrbuf hdone' hdec hemit
      have hnew : ∀ r c, flushTlsCiphertext { conn with tls := some t', rbuf } io.flush = (r, c) →
          goesOn r = true → ∃ new, Secured c (t.decrypted ++ new) out ∧
            c.toClientConn = { conn.toClientConn with rbuf := conn.rbuf ++ new } := by
        intro r c hf hg
        obtain ⟨h1, h2, h3⟩ := flush_keeps hf
        refine ⟨new, ⟨h3.trans h.state, h2.trans ?_, flush_output_intact ?_ hf hg⟩,
          by rw [h1, hrbuf]⟩
        · show some (t'.handshakeDone, t'.decrypted) = _
          rw [hdone', hdec]
        · show ClientOutput.Intact out true ⟨some t'.toTlsConn, _, _, _⟩
          rw [hemit]
          exact ClientOutput.emit_intact hintact cipher
      rcases hf : flushTlsCiphertext { conn with tls := some t', rbuf } io.flush with ⟨e | _, c⟩
      · rw [hf] at hr
        simp only at hr
        split_ifs at hr with he
        · cases hr
          exact hnew _ _ hf he
        · cases hr
      · rw [hf] at hr
        cases hr
        exact hnew _ _ hf rfl

/-- The answers of a socket that takes everything at once. -/
def sendAll (bytes : Bytes) : List Send :=
  if h : bytes = [] then [] else [.sent bytes.length (List.length_pos_iff.mpr h)]

theorem onWrite_sendAll {conn : ClientConn} (h : conn.keepAlive = true) :
    Uproxy.onWrite conn (sendAll conn.wbuf) = some { conn with wbuf := [] } := by
  have hw : Uproxy.writeClientOutput (sendAll conn.wbuf) conn.wbuf = (.ok (), []) := by
    cases conn.wbuf with
    | nil => rfl
    | cons b bytes => simp [sendAll, Uproxy.writeClientOutput]
  rw [Uproxy.onWrite, hw]
  exact if_neg (not_not.mpr h)

/-- **Writing**: a cleartext connection with a slower socket does the same. -/
theorem Secured.write {conn : Conn} {d out : Bytes} (h : Secured conn d out) (io : ConnIo)
    (p : Bytes) :
    ∃ (w : Bool) (sends : List Send), ∀ conn', (conn.onWrite io).1 = some conn' →
      Secured conn' d out ∧
      ∃ p', (if w then Uproxy.onWrite (conn.toClientConn.delayed p) sends
        else some (conn.toClientConn.delayed p)) = some (conn'.toClientConn.delayed p') := by
  obtain ⟨⟨taken, htaken⟩, hok⟩ := ClientOutput.write_wbuf io.last io.turns conn.output
  have hintact := @ClientOutput.write_intact out true io.last io.turns conn.output h.intact
  have hkeeps : ∀ o : ClientOutput, o.Intact out true → Secured (conn.setOutput o) d out :=
    fun o ho => ⟨h.state, (session_setOutput _ _).trans h.session, setOutput_intact h.intact ho⟩
  unfold onWrite writeClientOutput
  generalize conn.output.writeClientOutput io.last io.turns = written at htaken hok hintact ⊢
  obtain ⟨e | _, o⟩ := written
  · -- the bytes the engine has taken count as unsent
    refine ⟨false, [], fun conn' hc => ?_⟩
    simp only at hc
    split_ifs at hc with he
    cases hc
    refine ⟨hkeeps o (hintact he), p ++ taken, ?_⟩
    simp only [Bool.false_eq_true, if_false, Option.some.injEq]
    rw [ClientConn.delayed, ClientConn.delayed, show conn.wbuf = taken ++ o.wbuf from htaken,
      ← List.append_assoc]
    rfl
  · -- everything is sent at once
    refine ⟨true, sendAll (conn.toClientConn.delayed p).wbuf, fun conn' hc => ?_⟩
    simp only at hc
    split_ifs at hc with hk
    cases hc
    refine ⟨hkeeps o (hintact rfl), [], ?_⟩
    rw [if_pos rfl, onWrite_sendAll (show (conn.toClientConn.delayed p).keepAlive = true from hk),
      ClientConn.delayed, ClientConn.delayed, show (conn.setOutput o).wbuf = [] from hok rfl]
    rfl

/-- What is behind the branch for reading. -/
theorem Secured.finish {conn : Conn} {d out : Bytes} (h : Secured conn d out) (s : ProxyServer)
    (ev : Event) (io : ConnIo) (ts : List Taken) (ms : List Event) (p : Bytes) :
    ∃ (w : Bool) (sends : List Send), ∀ conn', (conn.finish s ev io ts ms).conn = some conn' →
      Secured conn' d out ∧
      ∃ p', (if w then Uproxy.onWrite (conn.toClientConn.delayed p) sends
        else some (conn.toClientConn.delayed p)) = some (conn'.toClientConn.delayed p') := by
  unfold Conn.finish
  by_cases hw : ev.write = true
  · obtain ⟨w, sends, hsim⟩ := h.write io p
    refine ⟨w, sends, fun conn' hc => ?_⟩
    rw [if_pos hw] at hc
    exact hsim conn' hc
  · refine ⟨false, [], fun conn' hc => ?_⟩
    rw [if_neg hw] at hc
    cases hc
    exact ⟨h, p, rfl⟩

end Conn

/-! ## Events -/

/-- The answers of a socket that has some bytes. -/
def recvAll (bytes : Bytes) : List Recv := if bytes = [] then [] else [.bytes bytes]

theorem readClientInput_recvAll (bytes rbuf : Bytes) :
    readClientInput (recvAll bytes) rbuf = (.ok false, rbuf ++ bytes) := by
  unfold recvAll
  split_ifs with h <;> simp [readClientInput, h]

/-- An event that brings some bytes. -/
def ClientEvent.bringing (new : Bytes) (write : Bool) (sends : List Send)
    (sys : Nat → Attempt × Attempt) : ClientEvent :=
  { read := true, write, recvs := recvAll new, sends, sys }

section Bringing

variable (s : ProxyServer) (conn : ClientConn) (new : Bytes) (write : Bool) (sends : List Send)
  (sys : Nat → Attempt × Attempt)

theorem input_bringing : (ClientEvent.bringing new write sends sys).input = new := by
  unfold ClientEvent.input ClientEvent.bringing
  rw [if_pos rfl, readClientInput_recvAll, List.nil_append]

theorem onClientEvent_bringing :
    onClientEvent s conn (.bringing new write sends sys) =
      let r := onInput s { conn with rbuf := conn.rbuf ++ new } sys
      (r.1.written write sends, r.2.1, r.2.2.1) := by
  rw [onClientEvent_of_read (by simp [ClientEvent.bringing]) rfl]
  simp only [ClientEvent.bringing, onRead, readClientInput_recvAll]

theorem sentAt_bringing :
    conn.sentAt s (.bringing new write sends sys) =
      (onInput s { conn with rbuf := conn.rbuf ++ new } sys).1.sent write sends := by
  simp only [ClientEvent.bringing, ClientConn.sentAt, Bool.false_eq_true, or_self, if_false,
    if_true, onRead, readClientInput_recvAll]
  rcases (onInput s { conn with rbuf := conn.rbuf ++ new } sys).1 with _ | c | c <;> rfl

theorem h2TakenAt_bringing :
    conn.h2TakenAt s (.bringing new write sends sys) =
      h2Input s sys { conn with rbuf := conn.rbuf ++ new } := by
  rw [ClientConn.h2TakenAt, if_neg (not_not.mpr ⟨⟨rfl, rfl⟩, rfl⟩), ClientEvent.bringing,
    readClientInput_recvAll]

end Bringing

namespace Conn

/-- **The event of a cleartext connection that goes along** with one of a TLS connection: the same
requests are taken and the server becomes the same. As long as the TLS connection is open, the bytes
appended to the output of the two are the same. -/
structure Along (s : ProxyServer) (conn : Conn) (ev : Event) (io : ConnIo) (d out p : Bytes)
    (ce : ClientEvent) : Prop where
  handled : (Uproxy.onClientEvent s (conn.toClientConn.delayed p) ce).2 =
    ((conn.onClientEvent s ev io).server, (conn.onClientEvent s ev io).taken)
  h2Taken : (conn.toClientConn.delayed p).h2TakenAt s ce = conn.h2TakenAt s ev io
  next    : ∀ conn', (conn.onClientEvent s ev io).conn = some conn' → ∃ p' new,
    Secured conn' (d ++ ce.input) (out ++ new) ∧
    (Uproxy.onClientEvent s (conn.toClientConn.delayed p) ce).1 =
      some (conn'.toClientConn.delayed p') ∧
    (conn.toClientConn.delayed p).wbuf ++ new =
      (conn.toClientConn.delayed p).sentAt s ce ++ (conn'.toClientConn.delayed p').wbuf

theorem Secured.onClientEvent_eq {conn : Conn} {d out : Bytes} (h : Secured conn d out)
    (s : ProxyServer) (ev : Event) (io : ConnIo) :
    conn.onClientEvent s ev io =
      if ev.hangUp ∨ ev.error then ⟨none, s, [], [], false⟩ else conn.onRequest s ev io := by
  unfold Conn.onClientEvent
  rw [h.state]

theorem Secured.h2TakenAt_eq {conn : Conn} {d out : Bytes} (h : Secured conn d out)
    (s : ProxyServer) (ev : Event) (io : ConnIo) :
    conn.h2TakenAt s ev io =
      if ev.hangUp ∨ ev.error then [] else if ev.read then conn.h2TakenBy s io else [] := by
  unfold Conn.h2TakenAt
  rw [h.state]

/-- The connection is closed, and so is the cleartext one. -/
theorem along_closed {s : ProxyServer} {conn : Conn} {ev : Event} {io : ConnIo} {d out p : Bytes}
    (h : conn.onClientEvent s ev io = ⟨none, s, [], [], false⟩) (h2 : conn.h2TakenAt s ev io = []) :
    Along s conn ev io d out p { hangUp := true, sys := io.sys } := by
  refine ⟨?_, h2.symm, fun conn' hc => ?_⟩
  · rw [h]
    rfl
  · rw [h] at hc
    cases hc

/-- Output that is queued. -/
theorem Secured.put {conn : Conn} {d out app : Bytes} (h : Secured conn d out) {c : ClientConn}
    (hc : c.wbuf = conn.wbuf ++ app) :
    Secured { conn with toClientConn := c } d (out ++ app) := by
  refine ⟨h.state, h.session, ?_⟩
  show ClientOutput.Intact _ true ⟨conn.tls.map ClientTls.toTlsConn, c.wbuf, _, _⟩
  rw [hc]
  exact ClientOutput.append_intact h.intact app

/-- An event that brings plaintext. -/
theorem Secured.along_read {conn conn₁ : Conn} {d out : Bytes} (h : Secured conn d out)
    {s : ProxyServer} {ev : Event} {io : ConnIo} (p : Bytes)
    (hend : ¬ (ev.hangUp = true ∨ ev.error = true)) (hread : ev.read = true)
    (hr : conn.readClientInput io = (.ok false, conn₁)) :
    ∃ ce, Along s conn ev io d out p ce := by
  obtain ⟨new, hsec, hconn⟩ := h.read hr
  have hrbuf : ({ conn.toClientConn.delayed p with rbuf := conn.rbuf ++ new } : ClientConn) =
      conn₁.toClientConn.delayed p := by
    rw [hconn]
    rfl
  have hin := onInput_delayed s conn₁.toClientConn p io.sys
  have happ := fun c => @onInput_appends s conn₁.toClientConn c io.sys
  have hwbuf : conn.wbuf = conn₁.wbuf := by rw [hconn]
  have hevent := h.onClientEvent_eq s ev io
  rw [if_neg hend, onRequest, if_pos hread, hr] at hevent
  simp only at hevent
  have hce : ∀ w sends, _ = _ := fun w sends =>
    onClientEvent_bringing s (conn.toClientConn.delayed p) new w sends io.sys
  have hsent : ∀ w sends, _ = _ := fun w sends =>
    sentAt_bringing s (conn.toClientConn.delayed p) new w sends io.sys
  have h2 : ∀ w sends, (conn.toClientConn.delayed p).h2TakenAt s (.bringing new w sends io.sys) =
      conn.h2TakenAt s ev io := by
    intro w sends
    rw [h2TakenAt_bringing, h.h2TakenAt_eq, if_neg hend, if_pos hread, h2TakenBy, hr]
    exact (congrArg (h2Input s io.sys) hrbuf).trans (h2Input_delayed _ _ _ _)
  simp only [show (conn.toClientConn.delayed p).rbuf = conn.rbuf from rfl, hrbuf, hin] at hce hsent
  generalize onInput s conn₁.toClientConn io.sys = result at hce hsent hevent happ
  obtain ⟨_ | c | c, s', ts, ms⟩ := result
  · exact ⟨_, by rw [hce false [], hevent], h2 false [], fun _ hc => by rw [hevent] at hc; cases hc⟩
  · obtain ⟨app, hc⟩ := happ c (Or.inl rfl)
    refine ⟨_, by rw [hce false [], hevent], h2 false [], fun conn' hc' => ?_⟩
    rw [hevent] at hc'
    cases hc'
    rw [input_bringing, hce, hsent]
    refine ⟨p, app, hsec.put hc, rfl, ?_⟩
    simp [ClientConn.delayed, ReadResult.delayed, ReadResult.sent, hc, hwbuf]
  · obtain ⟨app, hc⟩ := happ c (Or.inr rfl)
    obtain ⟨w, sends, hsim⟩ := (hsec.put hc).finish s' ev io ts ms p
    obtain ⟨h1, h3⟩ := finish_keeps { conn₁ with toClientConn := c } s' ev io ts ms
    refine ⟨_, by rw [hce w sends, hevent, h1, h3], h2 w sends, fun conn' hc' => ?_⟩
    rw [hevent] at hc'
    obtain ⟨hsec', p', hwrite⟩ := hsim conn' hc'
    rw [input_bringing, hce, hsent]
    refine ⟨p', app, hsec', hwrite, ?_⟩
    obtain ⟨wbuf, hnext, hfront⟩ := (write_front (c.delayed p) w sends).2 _ hwrite
    rw [hnext]
    refine Eq.trans ?_ hfront
    simp [ClientConn.delayed, hc, hwbuf]

/-- **One event of a TLS connection** is an event of a cleartext one. -/
theorem Secured.event {conn : Conn} {d out : Bytes} (h : Secured conn d out) (s : ProxyServer)
    (ev : Event) (io : ConnIo) (p : Bytes) : ∃ ce, Along s conn ev io d out p ce := by
  have hevent := h.onClientEvent_eq s ev io
  have h2 := h.h2TakenAt_eq s ev io
  by_cases hend : ev.hangUp = true ∨ ev.error = true
  · rw [if_pos hend] at hevent h2
    exact ⟨_, along_closed hevent h2⟩
  by_cases hread : ev.read = true
  · rcases hr : conn.readClientInput io with ⟨e | ⟨_ | _⟩, conn₁⟩
    · rw [if_neg hend, onRequest, if_pos hread, hr] at hevent
      rw [if_neg hend, if_pos hread, h2TakenBy, hr] at h2
      exact ⟨_, along_closed hevent h2⟩
    · exact h.along_read p hend hread hr
    · rw [if_neg hend, onRequest, if_pos hread, hr] at hevent
      rw [if_neg hend, if_pos hread, h2TakenBy, hr] at h2
      exact ⟨_, along_closed hevent h2⟩
  · rw [if_neg hend, onRequest, if_neg hread] at hevent
    rw [if_neg hend, if_neg hread] at h2
    obtain ⟨w, sends, hsim⟩ := h.finish s ev io [] [] p
    obtain ⟨h1, h3⟩ := conn.finish_keeps s ev io [] []
    refine ⟨{ write := w, sends, sys := io.sys }, ?_, h2.symm, fun conn' hc => ?_⟩
    · rw [hevent, h1, h3]
      rfl
    · rw [hevent] at hc
      obtain ⟨hsec', p', hwrite⟩ := hsim conn' hc
      refine ⟨p', [], ?_, hwrite, ?_⟩
      · rw [ClientEvent.input, if_neg (by simp), List.append_nil, List.append_nil]
        exact hsec'
      · obtain ⟨wbuf, hnext, hfront⟩ :=
          (write_front (conn.toClientConn.delayed p) w sends).2 _ hwrite
        rw [hnext, List.append_nil]
        exact hfront

theorem doHandshake_spec {t : ClientTls} (h : t.handshakeDone = false) (hs : Handshake) :
    (t.doHandshake hs).2.decrypted = t.decrypted ∧
      ((t.doHandshake hs).2.handshakeDone = true ↔ (t.doHandshake hs).1 = .ok true) ∧
      ∃ cipher, (t.doHandshake hs).2.toTlsConn = t.toTlsConn.emit cipher := by
  unfold ClientTls.doHandshake
  rw [if_neg (by simp [h])]
  cases hs with
  | done alpn cipher => exact ⟨rfl, by simp, cipher, rfl⟩
  | pending cipher => exact ⟨rfl, by simp [ClientTls.emit, h], cipher, rfl⟩
  | fails cipher => exact ⟨rfl, by simp [ClientTls.emit, h], cipher, rfl⟩

/-- **One event before the handshake is done**: nothing is taken, and the connection is still in its
handshake, or behind it and otherwise new. -/
theorem Handshaking.event {conn : Conn} (h : Handshaking conn) (s : ProxyServer) (ev : Event)
    (io : ConnIo) :
    (conn.onClientEvent s ev io).server = s ∧ (conn.onClientEvent s ev io).taken = [] ∧
      conn.h2TakenAt s ev io = [] ∧
      ∀ conn', (conn.onClientEvent s ev io).conn = some conn' →
        Handshaking conn' ∨ (Secured conn' [] [] ∧ ∃ proto, conn'.toClientConn = { proto }) := by
  obtain ⟨t, ht, hsession⟩ := Option.map_eq_some_iff.mp h.session
  obtain ⟨hdone, hdec⟩ := Prod.mk.inj hsession
  have hintact := h.intact
  unfold output at hintact
  simp only [ht] at hintact
  have h2Taken : conn.h2TakenAt s ev io = [] := by
    unfold Conn.h2TakenAt
    rw [h.state, ht]
    exact ite_self _
  unfold Conn.onClientEvent
  split_ifs
  · exact ⟨rfl, rfl, h2Taken, fun _ h => by cases h⟩
  · rw [h.state, ht]
    simp only [onHandshake]
    generalize (if ev.read then handshakeInput io.recvs t.fed else some t.fed) = fed?
    cases fed? with
    | none => exact ⟨rfl, rfl, h2Taken, fun _ h => by cases h⟩
    | some fed =>
      obtain ⟨hdec', hdone', cipher, hemit⟩ := @doHandshake_spec { t with fed } hdone io.handshake
      simp only
      generalize ClientTls.doHandshake { t with fed } io.handshake = result at hdec' hdone' hemit ⊢
      obtain ⟨state, t'⟩ := result
      simp only at hdec' hdone' hemit ⊢
      rcases hf : flushTlsCiphertext { conn with tls := some t' } io.flush with ⟨flushed, conn₁⟩
      obtain ⟨h1, h2, h3⟩ := flush_keeps hf
      have hsession' : conn₁.session = some (t'.handshakeDone, []) := by
        rw [h2, ← hdec, ← hdec']
        rfl
      by_cases hg : ¬ goesOn flushed = true
      · simp only [if_pos hg]
        exact ⟨trivial, trivial, h2Taken, fun _ h => by cases h⟩
      · have hintact' : conn₁.output.Intact [] true := by
          refine flush_output_intact ?_ hf (not_not.mp hg)
          show ClientOutput.Intact [] true ⟨some t'.toTlsConn, _, _, _⟩
          rw [hemit]
          exact ClientOutput.emit_intact hintact cipher
        simp only [if_neg hg]
        rcases state with e | ⟨_ | _⟩
        · exact ⟨rfl, rfl, h2Taken, fun _ h => by cases h⟩
        · refine ⟨rfl, rfl, h2Taken, fun conn' hc => Or.inl ?_⟩
          cases hc
          have hnot : t'.handshakeDone = false := by simpa using hdone'
          exact ⟨h3.trans h.state, by rw [hsession', hnot], h1.trans h.new, hintact'⟩
        · refine ⟨rfl, rfl, h2Taken, fun conn' hc => Or.inr ?_⟩
          cases hc
          rw [hdone'.mpr rfl] at hsession'
          exact ⟨⟨rfl, hsession', hintact'⟩, _, by rw [show conn₁.toClientConn = _ from h1, h.new]⟩

end Conn

/-! ## Runs -/

/-- The connection is ready for nothing. -/
def ConnMeeting.idle (m : ConnMeeting) : Meeting := ⟨m.server, { sys := m.io.sys }⟩

theorem idle_step (c : Option ClientConn) (m : ConnMeeting) :
    meet c m.idle = c ∧ takenAt c m.idle = [] ∧
      (c.map fun conn => conn.h2TakenAt m.server m.idle.event).getD [] = [] ∧
      serverAt c m.idle = m.server ∧
      (c.map fun conn => conn.sentAt m.server m.idle.event).getD [] = [] := by
  cases c <;> exact ⟨rfl, rfl, rfl, rfl, rfl⟩

/-- **Nothing happens** to a connection that is ready for nothing. -/
theorem idle_run (c : Option ClientConn) (ms : List ConnMeeting) :
    run meet c (ms.map ConnMeeting.idle) = c ∧ takenIn c (ms.map ConnMeeting.idle) = [] ∧
      h2TakenIn c (ms.map ConnMeeting.idle) = [] ∧
      serversIn c (ms.map ConnMeeting.idle) = ms.map ConnMeeting.server ∧
      inputIn (ms.map ConnMeeting.idle) = [] ∧ sentIn c (ms.map ConnMeeting.idle) = [] := by
  induction ms using List.reverseRecOn with
  | nil => exact ⟨rfl, rfl, rfl, rfl, rfl, rfl⟩
  | append_singleton ms m ih =>
    obtain ⟨hrun, htaken, h2, hservers, hinput, hsent⟩ := ih
    obtain ⟨hmeet, htaken', h2', hserver, hsent'⟩ := idle_step c m
    rw [List.map_append, List.map_singleton, run_concat, takenIn_concat, h2TakenIn_concat,
      serversIn_concat, inputIn_concat, sentIn_concat, hrun, htaken, h2, hservers, hinput, hsent]
    refine ⟨hmeet, htaken', h2', ?_, rfl, hsent'⟩
    rw [hserver, List.map_append, List.map_singleton]

namespace Conn

/-- **A run of a cleartext connection in which the same happens**: it meets the same servers, takes
the same requests and leaves the same servers. -/
structure Mirror (ms : List ConnMeeting) (proto : Proto) (cms : List Meeting) : Prop where
  servers : cms.map Meeting.server = ms.map ConnMeeting.server
  taken   : Uproxy.takenIn (some { proto }) cms = takenIn (some (accepted true)) ms
  h2Taken : Uproxy.h2TakenIn (some { proto }) cms = h2TakenIn (some (accepted true)) ms
  leaves  : Uproxy.serversIn (some { proto }) cms = serversIn (some (accepted true)) ms

/-- One event more on either side. -/
theorem Mirror.concat {ms : List ConnMeeting} {proto : Proto} {cms : List Meeting}
    (h : Mirror ms proto cms) {m : ConnMeeting} {ce : ClientEvent}
    {c : Option ClientConn} {conn : Option Conn}
    (hc : run Uproxy.meet (some { proto }) cms = c)
    (hconn : run meet (some (accepted true)) ms = conn)
    (htaken : Uproxy.takenAt c ⟨m.server, ce⟩ = takenAt conn m)
    (h2 : (c.map fun c => c.h2TakenAt m.server ce).getD [] =
      (conn.map fun conn => conn.h2TakenAt m.server m.event m.io).getD [])
    (hserver : Uproxy.serverAt c ⟨m.server, ce⟩ = serverAt conn m) :
    Mirror (ms ++ [m]) proto (cms ++ [⟨m.server, ce⟩]) := by
  refine ⟨?_, ?_, ?_, ?_⟩
  · rw [List.map_append, List.map_append, h.servers]
    rfl
  · rw [takenIn_concat, takenIn, smallSteps_concat, h.taken, hc, hconn, htaken]
    rfl
  · rw [h2TakenIn_concat, h2TakenIn, smallSteps_concat, h.h2Taken, hc, hconn, h2]
    rfl
  · rw [serversIn_concat, serversIn, smallSteps_concat, h.leaves, hc, hconn, hserver]
    rfl

/-- While nothing happens the protocol does not matter. -/
theorem Mirror.idle {ms : List ConnMeeting} {proto : Proto}
    (h : Mirror ms proto (ms.map ConnMeeting.idle)) (proto' : Proto) :
    Mirror ms proto' (ms.map ConnMeeting.idle) := by
  obtain ⟨-, htaken, h2, hservers, -⟩ := idle_run (some { proto }) ms
  obtain ⟨-, htaken', h2', hservers', -⟩ := idle_run (some { proto := proto' }) ms
  exact ⟨h.servers, (htaken'.trans htaken.symm).trans h.taken, (h2'.trans h2.symm).trans h.h2Taken,
    (hservers'.trans hservers.symm).trans h.leaves⟩

/-- The TLS connection has a mirror. As long as it is open, it is in its handshake, and nothing has
happened to the mirror either; or the mirror is the same connection with `p` still to be sent. -/
def Mirrored (ms : List ConnMeeting) : Prop :=
  ∃ proto cms, Mirror ms proto cms ∧
    ∀ conn, run meet (some (accepted true)) ms = some conn →
      (Handshaking conn ∧ cms = ms.map ConnMeeting.idle) ∨
      ∃ d out p, Secured conn d out ∧
        run Uproxy.meet (some { proto }) cms = some (conn.toClientConn.delayed p) ∧
        inputIn cms = d ∧
        sentIn (some { proto }) cms ++ (conn.toClientConn.delayed p).wbuf = out

/-- **One event** of a TLS connection keeps it mirrored. -/
theorem Mirrored.step {ms : List ConnMeeting} (h : Mirrored ms) (m : ConnMeeting) :
    Mirrored (ms ++ [m]) := by
  obtain ⟨proto, cms, hmirror, hopen⟩ := h
  unfold Mirrored
  rw [run_concat]
  cases hc : run meet (some (accepted true)) ms with
  | none =>
    obtain ⟨-, htaken, h2, hserver, -⟩ := idle_step (run Uproxy.meet (some { proto }) cms) m
    exact ⟨proto, cms ++ [m.idle], hmirror.concat rfl hc htaken h2 hserver, fun _ h => by cases h⟩
  | some conn =>
    rcases hopen conn hc with ⟨hhand, rfl⟩ | ⟨d, out, p, hsec, hrun, hd, hout⟩
    · obtain ⟨hserver, htaken, h2, hnext⟩ := hhand.event m.server m.event m.io
      -- without an event behind it the mirror may still choose its protocol
      have hidle : ∀ proto', Mirror (ms ++ [m]) proto' ((ms ++ [m]).map ConnMeeting.idle) := by
        intro proto'
        rw [List.map_append]
        exact (hmirror.idle proto').concat (idle_run _ ms).1 hc htaken.symm h2.symm hserver.symm
      cases hc' : (conn.onClientEvent m.server m.event m.io).conn with
      | none => exact ⟨proto, _, hidle proto, fun conn' h => by rw [meet_some, hc'] at h; cases h⟩
      | some conn' =>
        rw [meet_some, hc']
        rcases hnext conn' hc' with hhand' | ⟨hsec, proto', hnew⟩
        · refine ⟨proto, _, hidle proto, fun conn'' h' => Or.inl ?_⟩
          cases h'
          exact ⟨hhand', rfl⟩
        · refine ⟨proto', _, hidle proto', fun conn'' h' => Or.inr ?_⟩
          cases h'
          obtain ⟨hrun, -, -, -, hinput, hsent⟩ := idle_run (some { proto := proto' }) (ms ++ [m])
          refine ⟨[], [], [], hsec, ?_, hinput, ?_⟩
          · rw [hrun, hnew]
            rfl
          · rw [hsent, hnew]
            rfl
    · obtain ⟨ce, halong⟩ := hsec.event m.server m.event m.io p
      have hhandled := halong.handled
      refine ⟨proto, cms ++ [⟨m.server, ce⟩], hmirror.concat hrun hc (congrArg Prod.snd hhandled)
        halong.h2Taken (congrArg Prod.fst hhandled), fun conn' hc' => Or.inr ?_⟩
      obtain ⟨p', new, hsec', hmeet, hwbuf⟩ := halong.next conn' hc'
      refine ⟨_, _, p', hsec', ?_, ?_, ?_⟩
      · rw [run_concat, hrun]
        exact hmeet
      · rw [inputIn_concat, hd]
      · rw [sentIn_concat, hrun, List.append_assoc]
        exact (congrArg (sentIn _ cms ++ ·) hwbuf.symm).trans (by rw [← List.append_assoc, hout])

theorem mirrored_run (ms : List ConnMeeting) : Mirrored ms := by
  induction ms using List.reverseRecOn with
  | nil =>
    refine ⟨.http1, [], ⟨rfl, rfl, rfl, rfl⟩, fun conn hc => Or.inl ⟨?_, rfl⟩⟩
    cases hc
    exact ⟨rfl, rfl, rfl, .tls rfl rfl⟩
  | append_singleton ms m ih => exact ih.step m

/-- **A TLS connection is a cleartext one behind its handshake.** For every run of a connection of
the TLS listener, whatever the engine, the socket and the upstreams do, there is a run of a
cleartext connection that meets the same servers event by event, takes the same requests, over
HTTP/1 or over the streams of HTTP/2, with the same answers, and leaves the same servers. As long as
the connection is open and its handshake done, it is that cleartext one, except that less of its
output may be waiting: all the cleartext one was sent is what the engine has decrypted, all it has
sent, and the output that is waiting on top, is what the engine was handed, and of the ciphertext
made of it nothing is lost. Before the handshake is done nothing has happened to it. -/
theorem tls_as_cleartext (ms : List ConnMeeting) :
    ∃ proto cms, cms.map Meeting.server = ms.map ConnMeeting.server ∧
      Uproxy.takenIn (some { proto }) cms = takenIn (some (accepted true)) ms ∧
      Uproxy.h2TakenIn (some { proto }) cms = h2TakenIn (some (accepted true)) ms ∧
      Uproxy.serversIn (some { proto }) cms = serversIn (some (accepted true)) ms ∧
      ∀ conn, run meet (some (accepted true)) ms = some conn →
        (conn.state = .tlsHandshake ∧ conn.toClientConn = {} ∧
          cms = ms.map ConnMeeting.idle) ∨
        ∃ t p, conn.state = .readRequest ∧ conn.tls = some t ∧ t.handshakeDone = true ∧
          run Uproxy.meet (some { proto }) cms =
            some { conn.toClientConn with wbuf := p ++ conn.wbuf } ∧
          inputIn cms = t.decrypted ∧ sentIn (some { proto }) cms ++ p = t.written ∧
          conn.sent ++ conn.tlsPending ++ t.output = t.produced := by
  obtain ⟨proto, cms, hmirror, hopen⟩ := mirrored_run ms
  refine ⟨proto, cms, hmirror.servers, hmirror.taken, hmirror.h2Taken, hmirror.leaves,
    fun conn hc => ?_⟩
  rcases hopen conn hc with ⟨hhand, hidle⟩ | ⟨d, out, p, hsec, hrun, hd, hout⟩
  · exact Or.inl ⟨hhand.state, hhand.new, hidle⟩
  · obtain ⟨t, ht, hdone, hdec, hplain, hcipher⟩ := hsec.engine
    refine Or.inr ⟨t, p, hsec.state, ht, hdone, hrun, hd.trans hdec.symm, ?_, hcipher⟩
    rw [ClientConn.delayed, ← List.append_assoc, ← hplain] at hout
    exact List.append_cancel_right hout

end Conn

end Uproxy
