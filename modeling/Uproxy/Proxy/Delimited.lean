import Uproxy.Http1.Chunked
import Uproxy.Proxy.Retry

/-!
# Responses on connections that are kept alive

`on_client_event` appends the bytes `forward_http1` returns to the output of the connection, and
keeps the connection if the request asked for it. A client that is to read another response behind
these bytes has to find their end in them: a status without a body, a length, or a chunked body.

`SelfDelimiting` says so, in terms of the head as `parse_response` reads it. How the response ended
is known in `read_response` only, from the turns of its loop (`EndsAt`):

* a response that is complete may have bytes behind its end, or a chunk that only looks like the
  last one;
* one that ended with the connection has no end of its own, unless it has no body or is a chunked
  body whose last chunk `response_complete` does not recognise;
* one that was given up never has one.

**`kept_alive_delimited`**: the responses queued on connections that are kept alive are
self-delimiting exactly if the turns that brought them end with the response. The body of a response
without a length is all there is up to the end of the upstream connection, but the client's
connection stays open (`kept_alive_delimited_eof`).
-/

namespace Uproxy

open Lib.Search

/-! ## The end of a response -/

namespace HttpResponse

/-- The status is that of a response without a body. -/
def Bodiless (resp : HttpResponse) : Prop := resp.status = 204 ∨ resp.status = 304

instance instDecidableBodiless (resp : HttpResponse) : Decidable resp.Bodiless :=
  inferInstanceAs (Decidable (_ ∨ _))

/-- The head says where this body ends, and it ends there. -/
def Delimits (resp : HttpResponse) (body : Bytes) : Prop :=
  if resp.Bodiless then body = []
  else if resp.chunked then ChunkedBody body
  else hasContentLength resp = true ∧ body.length = resp.contentLength

end HttpResponse

/-- The bytes are one response whose end can be found without the end of the connection. -/
def SelfDelimiting (bytes : Bytes) : Prop :=
  ∃ resp, parseAnswer bytes = (.complete, resp) ∧ resp.Delimits (bytes.drop resp.headerBytes)

/-! ## How it was read -/

/-- Nothing stands behind the body. -/
def EndsWithBody (bytes : Bytes) (resp : HttpResponse) : Prop :=
  if resp.Bodiless then bytes.length = resp.headerBytes
  else if resp.chunked then ChunkedBody (bytes.drop resp.headerBytes)
  else bytes.length = resp.headerBytes + resp.contentLength

/-- The first `k` turns have brought a response and nothing behind its body. `response_complete`
says so, or the connection is closed then and the head is that of a response without a body or with
a chunked one. -/
def EndsAt (turns : List ReadTurn) (k : Nat) : Prop :=
  let bytes := received (turns.take k)
  EndsWithBody bytes (parseAnswer bytes).2 ∧
    (isComplete bytes = true ∨
      ClosesAt turns k ∧ (parseAnswer bytes).1 = .complete ∧
        ((parseAnswer bytes).2.Bodiless ∨ (parseAnswer bytes).2.chunked = true))

/-- The head of a response is part of it. -/
theorem parseAnswer_headerBytes_le {bytes : Bytes} {resp : HttpResponse}
    (h : parseAnswer bytes = (.complete, resp)) : resp.headerBytes ≤ bytes.length := by
  unfold parseAnswer parseResponse parseResponseHeaders at h
  rw [peek_head, Buffer.contents_ofBytes] at h
  rcases hsplit : splitHead (bytes.take (maxHeaderBytes + 1)) with e | ⟨start, rest, n⟩
  · rw [hsplit] at h
    exact absurd (hsplit.trans (congrArg _ (congrArg Prod.fst h))) (splitHead_ne_complete _)
  · obtain ⟨ls, tail, hbytes, -, hn, -⟩ := lines_of_splitHead hsplit
    have hle : n ≤ bytes.length := by
      have := congrArg List.length hbytes
      rw [List.length_take, List.length_append, List.length_append] at this
      have hcrlf : crlf.length = 2 := rfl
      omega
    rw [hsplit] at h
    simp only at h
    cases hs : statusLine start with
    | none => rw [hs] at h; cases h
    | some line =>
      rw [hs] at h
      simp only at h
      split_ifs at h with h1 h2
      · exact absurd (congrArg Prod.fst h) h1
      · cases h
      · cases h
        exact hle

/-- A head says where the body ends exactly if nothing stands behind the body and it has a length,
is chunked or has no body. -/
theorem delimits_iff {bytes : Bytes} {resp : HttpResponse} (hle : resp.headerBytes ≤ bytes.length) :
    resp.Delimits (bytes.drop resp.headerBytes) ↔
      EndsWithBody bytes resp ∧
        (resp.Bodiless ∨ resp.chunked = true ∨ hasContentLength resp = true) := by
  unfold HttpResponse.Delimits EndsWithBody
  rw [List.drop_eq_nil_iff, List.length_drop]
  split_ifs with hb hc
  · have : bytes.length ≤ resp.headerBytes ↔ bytes.length = resp.headerBytes :=
      ⟨fun h => Nat.le_antisymm h hle, Nat.le_of_eq⟩
    simp [this, hb]
  · simp [hc]
  · have : bytes.length - resp.headerBytes = resp.contentLength ↔
      bytes.length = resp.headerBytes + resp.contentLength := by omega
    simp [this, hb, hc, and_comm]

theorem selfDelimiting_iff (bytes : Bytes) :
    SelfDelimiting bytes ↔ (parseAnswer bytes).1 = .complete ∧
      EndsWithBody bytes (parseAnswer bytes).2 ∧
        ((parseAnswer bytes).2.Bodiless ∨ (parseAnswer bytes).2.chunked = true ∨
          hasContentLength (parseAnswer bytes).2 = true) := by
  constructor
  · rintro ⟨resp, hp, hd⟩
    rw [hp]
    exact ⟨rfl, (delimits_iff (parseAnswer_headerBytes_le hp)).mp hd⟩
  · rintro ⟨hc, hd⟩
    have hp : parseAnswer bytes = (.complete, (parseAnswer bytes).2) := by rw [← hc]
    exact ⟨_, hp, (delimits_iff (parseAnswer_headerBytes_le hp)).mpr hd⟩

theorem isComplete_eq {bytes : Bytes} (h : (parseAnswer bytes).1 = .complete) :
    isComplete bytes = bodyReceived bytes (parseAnswer bytes).2 := by
  unfold isComplete
  rcases hp : parseAnswer bytes with ⟨v, resp⟩
  rw [hp] at h
  cases h
  rfl

/-- A response that has its length and its whole body is complete. -/
theorem bodyReceived_of_length {bytes : Bytes} {resp : HttpResponse}
    (hmax : bytes.length < maxProxyResponseBytes) (hchunked : resp.chunked = false)
    (hlen : hasContentLength resp = true)
    (hle : resp.headerBytes + resp.contentLength ≤ bytes.length) :
    bodyReceived bytes resp = true := by
  have hmod : (resp.headerBytes + resp.contentLength) % sizeMod =
      resp.headerBytes + resp.contentLength :=
    Nat.mod_eq_of_lt ((hle.trans_lt hmax).trans (by decide))
  simp [bodyReceived, hchunked, hlen, hmod, hle]

/-- So is one that has neither a length nor a body. -/
theorem bodyReceived_of_bodiless {bytes : Bytes} {resp : HttpResponse}
    (hchunked : resp.chunked = false) (hlen : hasContentLength resp = false) (h : resp.Bodiless) :
    bodyReceived bytes resp = true := by
  unfold HttpResponse.Bodiless at h
  simp [bodyReceived, hchunked, hlen, h]

/-- A response that is complete has an end of its own if it ends with its body. -/
theorem selfDelimiting_complete {bytes : Bytes} (h : isComplete bytes = true) :
    SelfDelimiting bytes ↔ EndsWithBody bytes (parseAnswer bytes).2 := by
  have hparses := parses_of_isComplete h
  rw [selfDelimiting_iff]
  rw [isComplete_eq hparses] at h
  refine ⟨fun hd => hd.2.1, fun hend => ⟨hparses, hend, ?_⟩⟩
  -- `bodyReceived` asks for one of the three
  unfold bodyReceived at h
  split_ifs at h with hc hl
  · exact Or.inr (Or.inl hc)
  · exact Or.inr (Or.inr hl)
  · exact Or.inl (of_decide_eq_true h)

/-- One that was given up has none. -/
theorem not_selfDelimiting_gaveUp {bytes : Bytes} (h : (ReadEnd.gaveUp bytes).Justified) :
    ¬ SelfDelimiting bytes := by
  obtain ⟨hinc, hmax, parsed, hzero, hchunked⟩ := h
  rw [selfDelimiting_iff]
  rintro ⟨hparses, -, hkind⟩
  -- the record is that of the head, since the head parses
  rw [(responseComplete_eq bytes parsed).2 hparses] at hzero hchunked
  rw [isComplete_eq hparses] at hinc
  cases hlen : hasContentLength (parseAnswer bytes).2 with
  | true =>
    have hle := parseAnswer_headerBytes_le (Prod.ext hparses rfl)
    rw [bodyReceived_of_length hmax hchunked hlen (by rw [hzero]; exact hle)] at hinc
    cases hinc
  | false =>
    rcases hkind with hb | hc | hl
    · rw [bodyReceived_of_bodiless hchunked hlen hb] at hinc
      cases hinc
    · rw [hchunked] at hc
      cases hc
    · rw [hlen] at hl
      cases hl

/-- One that ended with the connection has none that is given by a length. -/
theorem selfDelimiting_eof {bytes : Bytes} (hinc : isComplete bytes = false)
    (hmax : bytes.length < maxProxyResponseBytes) :
    SelfDelimiting bytes ↔ EndsWithBody bytes (parseAnswer bytes).2 ∧
      (parseAnswer bytes).1 = .complete ∧
      ((parseAnswer bytes).2.Bodiless ∨ (parseAnswer bytes).2.chunked = true) := by
  rw [selfDelimiting_iff]
  constructor
  · rintro ⟨hparses, hend, hkind⟩
    refine ⟨hend, hparses, ?_⟩
    by_contra hnot
    rw [not_or] at hnot
    have hlen := (hkind.resolve_left hnot.1).resolve_left hnot.2
    unfold EndsWithBody at hend
    rw [if_neg hnot.1, if_neg hnot.2] at hend
    rw [isComplete_eq hparses, bodyReceived_of_length hmax (Bool.eq_false_iff.mpr hnot.2) hlen
      (Nat.le_of_eq hend.symm)] at hinc
    cases hinc
  · rintro ⟨hend, hparses, hkind⟩
    exact ⟨hparses, hend, hkind.imp_right Or.inl⟩

/-- Where the reads end with a response, the loop stops. -/
theorem EndsAt.stopsAt {turns : List ReadTurn} {k : Nat} (h : EndsAt turns k) :
    StopsAt turns k := by
  rintro hu t ht ⟨-, hgoes, -⟩
  rcases h.2 with hc | ⟨⟨t', ht', -, hrecv⟩, -⟩
  · rw [hu.1] at hc
    cases hc
  · rw [ht] at ht'
    cases ht'
    exact hgoes hrecv

/-- **When a response that was read has an end of its own**: the turns that brought it end with
it. -/
theorem selfDelimiting_iff_endsAt {turns : List ReadTurn} {out : Bytes}
    (hout : (readResponse turns).result = .ok out) :
    SelfDelimiting out ↔ ∃ k, ReadsPast turns k ∧ EndsAt turns k := by
  obtain ⟨k, hpast, hstop, hexit⟩ := readResponse_stops turns
  have hk : (∃ j, ReadsPast turns j ∧ EndsAt turns j) ↔ EndsAt turns k := by
    refine ⟨?_, fun h => ⟨k, hpast, h⟩⟩
    rintro ⟨j, hj, hends⟩
    exact hj.unique hends.stopsAt hpast hstop ▸ hends
  rw [hk]
  rcases hexit with ⟨hc, heq⟩ | ⟨hu, hclose, heq⟩ | ⟨hu, hclose, heq⟩ | ⟨e, heq⟩
  · rw [heq] at hout
    cases hout
    rw [selfDelimiting_complete hc]
    exact ⟨fun h => ⟨h, Or.inl hc⟩, fun h => h.1⟩
  · rw [heq] at hout
    cases hout
    rw [selfDelimiting_eof hu.1 hu.2]
    refine ⟨fun h => ⟨h.1, Or.inr ⟨hclose, h.2⟩⟩, fun h => ⟨h.1, ?_⟩⟩
    exact (h.2.resolve_left (Bool.eq_false_iff.mp hu.1)).2
  · have hj := readResponse_justified turns
    rw [heq] at hout hj
    cases hout
    refine iff_of_false (not_selfDelimiting_gaveUp hj) fun h => ?_
    exact hclose (h.2.resolve_left (Bool.eq_false_iff.mp hu.1)).1
  · rw [heq] at hout
    cases hout

/-! ## What is queued -/

/-- The turns of the read whose bytes a call of `forward_http1` returns, if it returns any. -/
def lastTurns (request : Bytes) (first second : UpstreamIo) : List ReadTurn :=
  if (first.attempt request).Failed then second.turns else first.turns

/-- An event during which the upstream answers like this. -/
def ClientEvent.upstream (ev : ClientEvent) (request : Bytes) (first second : UpstreamIo) :
    ClientEvent :=
  { ev with sys := fun _ => (first.attempt request, second.attempt request) }

/-- The event queues these bytes as the response to a request over HTTP/1, and the connection is
kept alive. -/
structure Queues (s : ProxyServer) (conn : ClientConn) (ev : ClientEvent) (out : Bytes) : Prop where
  http1  : conn.proto = .http1
  queued : ∃ t ∈ (onClientEvent s conn ev).2.2, t.answer = .response out
  kept   : ∃ conn', (onClientEvent s conn ev).1 = some conn' ∧ conn'.keepAlive = true

/-- What the retry loop returns is the response of its first attempt, or comes from the rest of the
loop if that one fails. -/
theorem forwardLoop_returns {attempt : Nat} {a : Attempt} {rest : List Attempt} {x : Exchange}
    {out : Bytes} (h : (forwardLoop attempt (a :: rest) x).1 = .ok out) :
    (¬ a.Failed ∧ a.response = .ok out) ∨
      (a.Failed ∧ ∃ y, (forwardLoop (attempt + 1) rest y).1 = .ok out) := by
  rcases hacq : x.pool.acquire x.endpoints a.calls with ⟨e | conn, pool, endpoints⟩
  · simp only [forwardLoop, hacq] at h
    cases h
  · rcases forwardLoop_ok attempt rest hacq with ⟨hf, ⟨-, heq⟩ | ⟨-, e, heq⟩⟩ | ⟨hf, -⟩
    · rw [heq] at h
      exact Or.inr ⟨hf, _, h⟩
    · rw [heq] at h
      cases h
    · obtain ⟨bytes, hw, hr⟩ := Attempt.not_failed hf
      simp only [forwardLoop, hacq, hw, hr] at h
      exact Or.inl ⟨hf, hr.trans h⟩

theorem forwardLoop_lastTurns {request : Bytes} {first second : UpstreamIo} {x : Exchange}
    {out : Bytes}
    (h : (forwardLoop 0 [first.attempt request, second.attempt request] x).1 = .ok out) :
    (readResponse (lastTurns request first second)).result = .ok out := by
  unfold lastTurns
  rcases forwardLoop_returns h with ⟨hf, hr⟩ | ⟨hf, y, h⟩
  · rw [if_neg hf]
    exact hr
  · rw [if_pos hf]
    rcases forwardLoop_returns h with ⟨-, hr⟩ | ⟨-, z, h⟩
    · exact hr
    · cases h

theorem dispatch_lastTurns {s : ProxyServer} {req : HttpRequest} {body request : Bytes}
    {first second : UpstreamIo} {out : Bytes}
    (h : (s.dispatch req body (first.attempt request, second.attempt request)).1 = .response out) :
    (readResponse (lastTurns request first second)).result = .ok out := by
  unfold ProxyServer.dispatch Net.forwardHttp1 at h
  rcases hnext : s.lb.next with ⟨_ | up, lb⟩ <;> rw [hnext] at h <;> simp only at h
  · cases h
  · cases hreq : upstreamRequest req body
        (upstreamHost (ProxyServer.net { s with lb }|>.endpoint up)) with
    | error e => rw [hreq] at h; cases h
    | ok bytes =>
      rw [hreq] at h
      simp only at h
      split at h
      · cases h
      · rename_i heq
        cases h
        exact forwardLoop_lastTurns (congrArg Prod.fst heq)

variable (s : ProxyServer) (conn : ClientConn) (ev : ClientEvent) (request : Bytes)
  (first second : UpstreamIo)

/-- What is queued was read from an upstream. -/
theorem Queues.read {s : ProxyServer} {conn : ClientConn} {ev : ClientEvent} {request : Bytes}
    {first second : UpstreamIo} {out : Bytes}
    (h : Queues s conn (ev.upstream request first second) out) :
    (readResponse (lastTurns request first second)).result = .ok out := by
  obtain ⟨t, ht, hanswer⟩ := h.queued
  rcases onClientEvent_cases s h.http1 (ev.upstream request first second) with
    ⟨rbuf, req, -, -, heq⟩ | ⟨-, hnil, -⟩
  · rw [heq] at ht
    rw [List.mem_singleton.mp ht] at hanswer
    exact dispatch_lastTurns hanswer
  · rw [hnil] at ht
    cases ht

/-- **Responses on connections that are kept alive.** Whatever the server, the connection, the
event and the upstream's bytes: what is queued on a connection that stays open is one response whose
end can be found in it exactly if the turns that brought it end with such a response. -/
theorem kept_alive_delimited :
    (∀ out, Queues s conn (ev.upstream request first second) out → SelfDelimiting out) ↔
      ∀ out, Queues s conn (ev.upstream request first second) out →
        ∃ k, ReadsPast (lastTurns request first second) k ∧
          EndsAt (lastTurns request first second) k :=
  forall_congr' fun _ => imp_congr_right fun h => selfDelimiting_iff_endsAt h.read

/-- A response that ends with the connection. -/
def openEnded : Bytes := ascii "HTTP/1.1 200 OK\r\n\r\nhi"

/-- An upstream that sends it. -/
def sendsOpenEnded : UpstreamIo :=
  { calls := { socket := 6 }, sends := takesAll
    turns := [{ recv := .bytes openEnded }, { recv := .bytes [] }] }

/-- An event that brings a request. -/
def getEvent : ClientEvent where
  read := true
  recvs := [.bytes (ascii "GET / HTTP/1.1\r\nHost: a\r\n\r\n")]
  sys := responds []

/-- The request as it is sent on. -/
def forwardedGet : Bytes := ascii "GET / HTTP/1.1\r\nHost: 127.0.0.1:80\r\nVia: 1.1 uproxy\r\n\r\n"

/-- The event during which it is answered. -/
def getAnswered : ClientEvent := getEvent.upstream forwardedGet sendsOpenEnded sendsOpenEnded

/-- **A response without a length is queued on a connection that stays open.** -/
theorem kept_alive_delimited_eof :
    Queues sampleProxy {} getAnswered openEnded ∧ ¬ SelfDelimiting openEnded := by
  have hserved : (onClientEvent sampleProxy {} getAnswered).2.2.map Taken.answer =
        [.response openEnded] ∧
      (onClientEvent sampleProxy {} getAnswered).1.map ClientConn.keepAlive = some true := by
    unfold getAnswered getEvent forwardedGet
    rw [ascii_ofList, ascii_ofList]
    decide +kernel
  obtain ⟨hqueued, hkept⟩ := hserved
  refine ⟨⟨rfl, ?_, Option.map_eq_some_iff.mp hkept⟩, fun h => ?_⟩
  · exact List.mem_map.mp (hqueued ▸ List.mem_singleton_self _)
  · -- the status has a body, and there is neither a length nor a chunked body
    have hkind := ((selfDelimiting_iff openEnded).mp h).2.2
    revert hkind
    decide +kernel

end Uproxy
