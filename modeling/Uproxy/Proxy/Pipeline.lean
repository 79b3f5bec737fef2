import Uproxy.Http1.Segment
import Uproxy.Lib.Backlog
import Uproxy.Proxy.Client

/-!
# Pipelined requests

A client may send further requests before the first is answered. `on_client_event` takes one request
off the receive buffer for each event that reads, and events are edge-triggered: what is left in the
buffer waits for an event that brings new bytes. So the requests of a connection are a queue that is
served one at a time (`Lib.Backlog`).

* `Waiting.deliver`: one event, `waiting_run`: all of them;
* **`pipelining`**: every request is forwarded, once and in order, exactly if no more requests
  arrive from any event on than there are events that read. Two requests in one packet are enough to
  lose the second (`pipelining_two`).
-/

namespace Uproxy

open Lib.Run Lib.Backlog

/-! ## Deliveries -/

/-- A whole request, neither chunked nor the last of its connection. -/
structure Pipelined where
  bytes     : Bytes
  req       : HttpRequest
  parses    : parseInput bytes = (.complete, req)
  length_eq : bytes.length = req.headerBytes + req.contentLength
  plain     : req.chunked = false
  keeps     : req.keepAlive = true

def Pipelined.body (p : Pipelined) : Bytes := p.bytes.drop p.req.headerBytes

/-- An event without errors; one that reads brings a number of whole requests. -/
structure Delivery extends Meeting where
  requests : List Pipelined
  calm     : (event.hangUp = false ∧ event.error = false) ∧ ∀ errno, Send.failed errno ∉ event.sends
  carries  : event.read = true →
    readClientInput event.recvs [] = (.ok false, requests.flatMap Pipelined.bytes)
  idle     : event.read = false → requests = []

def Delivery.reads (d : Delivery) : Bool := d.event.read

/-! ## One request -/

namespace Pipelined

theorem parseInput_append (p : Pipelined) (rest : Bytes) :
    parseInput (p.bytes ++ rest) = (.complete, p.req) := by
  refine (request_delivery (Buffer.ofBytes p.bytes) {} p.req p.parses).1
    (Buffer.ofBytes (p.bytes ++ rest)) {} ?_
  rw [Buffer.contents_ofBytes, Buffer.contents_ofBytes]
  exact (List.take_prefix _ _).trans (List.prefix_append _ _)

theorem bytes_ne_nil (p : Pipelined) : p.bytes ≠ [] := by
  intro h
  have hnil : parseInput [] = (.incomplete, {}) := by decide +kernel
  have := p.parses
  rw [h, hnil] at this
  cases this

/-- What is behind a request, and its body. -/
theorem drop_append (p : Pipelined) (rest : Bytes) :
    ((p.bytes ++ rest).drop p.req.headerBytes).take p.req.contentLength = p.body ∧
      ((p.bytes ++ rest).drop p.req.headerBytes).drop p.req.contentLength = rest := by
  have hle : p.req.headerBytes ≤ p.bytes.length := by
    rw [p.length_eq]
    exact Nat.le_add_right _ _
  have hlen : p.body.length = p.req.contentLength := by
    rw [body, List.length_drop, p.length_eq]
    omega
  rw [List.drop_append_of_le_length hle]
  exact ⟨List.take_left' hlen, List.drop_left' hlen⟩

end Pipelined

/-! ## One event -/

theorem readClientInput_append (rs : List Recv) (rbuf : Bytes) :
    readClientInput rs rbuf = ((readClientInput rs []).1, rbuf ++ (readClientInput rs []).2) := by
  induction rs generalizing rbuf with
  | nil => simp [readClientInput]
  | cons r rs ih =>
    cases r with
    | bytes d =>
      rw [readClientInput, readClientInput]
      split_ifs
      · simp
      · rw [ih, ih ([] ++ d)]
        simp
    | interrupted =>
      rw [readClientInput, readClientInput]
      exact ih rbuf
    | wouldBlock => simp [readClientInput]
    | failed errno => simp [readClientInput]

theorem writeClientOutput_calm {sends : List Send} (h : ∀ errno, Send.failed errno ∉ sends)
    (wbuf : Bytes) :
    (writeClientOutput sends wbuf).1 = .ok () ∨
      ∃ e, (writeClientOutput sends wbuf).1 = .error e ∧ isWouldBlock e = true := by
  induction sends generalizing wbuf with
  | nil =>
    cases wbuf with
    | nil => exact Or.inl rfl
    | cons b wbuf => exact Or.inr ⟨_, rfl, rfl⟩
  | cons x sends ih =>
    have ih := ih fun errno hm => h errno (List.mem_cons_of_mem x hm)
    cases wbuf with
    | nil =>
      left
      cases x <;> rfl
    | cons b wbuf =>
      cases x with
      | sent n pos => exact ih _
      | interrupted => exact ih _
      | wouldBlock => exact Or.inr ⟨_, rfl, rfl⟩
      | failed errno => exact absurd List.mem_cons_self (h errno)

theorem onWrite_calm {conn : ClientConn} (hk : conn.keepAlive = true) {sends : List Send}
    (h : ∀ errno, Send.failed errno ∉ sends) : ∃ conn', onWrite conn sends = some conn' := by
  unfold onWrite
  have hw := writeClientOutput_calm h conn.wbuf
  generalize writeClientOutput sends conn.wbuf = w at hw
  rcases w with ⟨e | ⟨⟩, wbuf⟩
  · obtain ⟨e', he, hb⟩ := hw.resolve_left (by simp)
    cases he
    simp only [hb, if_true]
    exact ⟨_, rfl⟩
  · simp only [hk, not_true, if_false]
    exact ⟨_, rfl⟩

/-- An open connection whose receive buffer holds the requests `q`. -/
structure Waiting (conn : ClientConn) (q : List Pipelined) : Prop where
  proto     : conn.proto = .http1
  keepAlive : conn.keepAlive = true
  rbuf      : conn.rbuf = q.flatMap Pipelined.bytes

/-- The branch for writing leaves the requests alone. -/
theorem Waiting.write {conn : ClientConn} {q : List Pipelined} (h : Waiting conn q)
    {ev : ClientEvent} (hs : ∀ errno, Send.failed errno ∉ ev.sends) :
    ∃ conn', (if ev.write then onWrite conn ev.sends else some conn) = some conn' ∧
      Waiting conn' q := by
  split_ifs
  · obtain ⟨conn', hw⟩ := onWrite_calm h.keepAlive hs
    obtain ⟨h1, h2, h3⟩ := onWrite_some hw
    exact ⟨conn', hw, h1.trans h.proto, h2.trans h.keepAlive, h3.trans h.rbuf⟩
  · exact ⟨conn, rfl, h⟩

/-- What is taken, without the answer. -/
def Taken.request (t : Taken) : HttpRequest × Bytes := (t.req, t.body)

def Pipelined.request (p : Pipelined) : HttpRequest × Bytes := (p.req, p.body)

/-- What an event finds in the receive buffer once it has read. -/
theorem Waiting.read {conn : ClientConn} {q : List Pipelined} (h : Waiting conn q) {d : Delivery}
    (hread : d.event.read = true) :
    readClientInput d.event.recvs conn.rbuf =
      (.ok false, (q ++ d.requests).flatMap Pipelined.bytes) := by
  rw [readClientInput_append, d.carries hread, h.rbuf, List.flatMap_append]

/-- An event that reads when no request is there. -/
theorem Waiting.onRead_nil {conn : ClientConn} {q : List Pipelined} (h : Waiting conn q)
    {d : Delivery} (hread : d.event.read = true) (hq : q ++ d.requests = []) :
    onRead d.server conn d.event = (.proceed { conn with rbuf := [] }, d.server, []) := by
  have hnil : parseInput [] = (.incomplete, {}) := by decide +kernel
  simp only [onRead, onInput, h.read hread, hq, List.flatMap_nil, h.proto, hnil]

/-- An event that reads takes the first request. -/
theorem Waiting.onRead_cons {conn : ClientConn} {q rest : List Pipelined} {p : Pipelined}
    (h : Waiting conn q) {d : Delivery} (hread : d.event.read = true)
    (hq : q ++ d.requests = p :: rest) :
    ∃ answer s, onRead d.server conn d.event =
      (.proceed (ClientConn.answered { conn with rbuf := rest.flatMap Pipelined.bytes } answer), s,
        [⟨p.req, p.body, answer⟩]) := by
  obtain ⟨hbody, hrest⟩ := p.drop_append (rest.flatMap Pipelined.bytes)
  have hlen : ¬ p.req.contentLength >
      (p.bytes ++ rest.flatMap Pipelined.bytes).length - p.req.headerBytes := by
    rw [List.length_append, p.length_eq]
    omega
  have hkeep : p.req.keepAlive = conn.keepAlive := p.keeps.trans h.keepAlive.symm
  simp only [onRead, onInput, h.read hread, hq, List.flatMap_cons, h.proto, p.parseInput_append,
    p.plain, Bool.false_eq_true, if_false, if_neg hlen, takeRequest, hbody, hrest, hkeep]
  exact ⟨_, _, rfl⟩

/-- **One event** takes the first of the requests waiting, if it reads. -/
theorem Waiting.deliver {conn : ClientConn} {q : List Pipelined} (h : Waiting conn q) (d : Delivery)
    (hans : ∀ t ∈ takenAt (some conn) d.toMeeting, ∃ bytes, t.answer = .response bytes) :
    ∃ conn', meet (some conn) d.toMeeting = some conn' ∧
      Waiting conn' (if d.reads then (q ++ d.requests).tail else q ++ d.requests) ∧
      (takenAt (some conn) d.toMeeting).map Taken.request =
        (if d.reads then (q ++ d.requests).head?.toList else []).map Pipelined.request := by
  obtain ⟨⟨hhup, herr⟩, hsends⟩ := d.calm
  have hbad : ¬ (d.event.hangUp = true ∨ d.event.error = true) := by simp [hhup, herr]
  have hmeet : meet (some conn) d.toMeeting = (onClientEvent d.server conn d.event).1 := rfl
  rw [takenAt_some] at hans ⊢
  rw [hmeet]
  unfold onClientEvent at hans ⊢
  rw [if_neg hbad] at hans ⊢
  unfold Delivery.reads
  cases hread : d.event.read with
  | false =>
    obtain ⟨conn', hw, hwait⟩ := h.write hsends
    rw [d.idle hread, List.append_nil]
    exact ⟨conn', hw, hwait, rfl⟩
  | true =>
    rw [hread] at hans
    simp only [if_true] at hans ⊢
    cases hq : q ++ d.requests with
    | nil =>
      rw [h.onRead_nil hread hq]
      have hw : Waiting { conn with rbuf := [] } [] := ⟨h.proto, h.keepAlive, rfl⟩
      obtain ⟨conn', hwrite, hwait⟩ := hw.write hsends
      exact ⟨conn', hwrite, hwait, rfl⟩
    | cons p rest =>
      obtain ⟨answer, s, heq⟩ := h.onRead_cons hread hq
      rw [heq] at hans ⊢
      obtain ⟨bytes, ha⟩ := hans _ (List.mem_singleton_self _)
      simp only at ha
      rw [ha]
      have hw : Waiting (ClientConn.answered { conn with rbuf := rest.flatMap Pipelined.bytes }
          (.response bytes)) rest := ⟨h.proto, h.keepAlive, rfl⟩
      obtain ⟨conn', hwrite, hwait⟩ := hw.write hsends
      exact ⟨conn', hwrite, hwait, rfl⟩

/-! ## Runs -/

/-- **A run** serves the requests as a queue. -/
theorem waiting_run (ds : List Delivery) {conn : ClientConn} {q : List Pipelined}
    (h : Waiting conn q)
    (hans : ∀ t ∈ takenIn (some conn) (ds.map Delivery.toMeeting),
      ∃ bytes, t.answer = .response bytes) :
    ∃ conn', run meet (some conn) (ds.map Delivery.toMeeting) = some conn' ∧
      Waiting conn' (waiting Delivery.reads Delivery.requests q ds) ∧
      (takenIn (some conn) (ds.map Delivery.toMeeting)).map Taken.request =
        (served Delivery.reads Delivery.requests q ds).map Pipelined.request := by
  induction ds generalizing conn q with
  | nil => exact ⟨conn, rfl, h, rfl⟩
  | cons d ds ih =>
    rw [List.map_cons, takenIn_cons] at hans
    obtain ⟨conn₁, hmeet, hwait, htaken⟩ :=
      h.deliver d fun t ht => hans t (List.mem_append_left _ ht)
    rw [hmeet] at hans
    obtain ⟨conn', hrun, hfinal, hrest⟩ := ih hwait fun t ht => hans t (List.mem_append_right _ ht)
    refine ⟨conn', ?_, hfinal, ?_⟩
    · rw [List.map_cons, run, List.foldl_cons, hmeet]
      exact hrun
    · rw [List.map_cons, takenIn_cons, List.map_append, htaken, hmeet, hrest, served]
      cases d.reads
      · rfl
      · simp only [if_true, List.map_append]

theorem flatMap_bytes_eq_nil {q : List Pipelined} (h : q.flatMap Pipelined.bytes = []) :
    q = [] := by
  cases q with
  | nil => rfl
  | cons p q =>
    rw [List.flatMap_cons] at h
    exact absurd (List.append_eq_nil_iff.mp h).1 p.bytes_ne_nil

/-- **No pipelined request is lost**, when upstreams answer, exactly if no more requests arrive from
any event on than there are events that read. -/
theorem pipelining (ds : List Delivery)
    (hans : ∀ t ∈ takenIn (some {}) (ds.map Delivery.toMeeting),
      ∃ bytes, t.answer = .response bytes) :
    ((takenIn (some {}) (ds.map Delivery.toMeeting)).map Taken.request =
        (ds.flatMap Delivery.requests).map Pipelined.request ∧
      ∃ conn, connAt (ds.map Delivery.toMeeting) = some conn ∧ conn.rbuf = []) ↔
      ∀ tail, tail <:+ ds → (tail.flatMap Delivery.requests).length ≤
        (tail.filter Delivery.reads).length := by
  have hstart : Waiting {} [] := ⟨rfl, rfl, rfl⟩
  obtain ⟨conn', hrun, hwait, htaken⟩ := waiting_run ds hstart hans
  have hall : served Delivery.reads Delivery.requests [] ds ++ _ = _ := served_append_waiting [] ds
  refine Iff.trans ?_ (waiting_eq_nil_iff ds)
  constructor
  · rintro ⟨-, conn, hconn, hnil⟩
    obtain rfl : conn' = conn := Option.some.inj (hrun.symm.trans hconn)
    exact flatMap_bytes_eq_nil (hwait.rbuf.symm.trans hnil)
  · intro hnil
    rw [hnil, List.append_nil, List.nil_append] at hall
    rw [hnil] at hwait
    exact ⟨by rw [htaken, hall], conn', hrun, hwait.rbuf⟩

/-- `GET /`. -/
def getRequest : Bytes := ascii "GET / HTTP/1.1\r\nHost: a\r\n\r\n"

def pipelinedGet : Pipelined where
  bytes := getRequest
  req := (parseInput getRequest).2
  parses := by decide +kernel
  length_eq := by decide +kernel
  plain := by decide +kernel
  keeps := by decide +kernel

theorem readClientInput_gets (n : Nat) (rbuf : Bytes) :
    readClientInput (List.replicate n (.bytes getRequest)) rbuf =
      (.ok false, rbuf ++ (List.replicate n pipelinedGet).flatMap Pipelined.bytes) := by
  have hne : getRequest ≠ [] := by decide
  induction n generalizing rbuf with
  | zero => simp [readClientInput]
  | succ n ih =>
    rw [List.replicate_succ, readClientInput, if_neg hne, ih, List.replicate_succ,
      List.flatMap_cons, List.append_assoc]
    rfl

/-- An event that brings the request some times. -/
def deliverGets (n : Nat) : Delivery where
  server := sampleProxy
  event :=
    { read := true
      recvs := List.replicate n (.bytes getRequest)
      sys := responds lowerResponse }
  requests := List.replicate n pipelinedGet
  calm := ⟨⟨rfl, rfl⟩, by simp⟩
  carries := fun _ => readClientInput_gets n []
  idle := fun h => Bool.noConfusion h

/-- Two requests in one packet, a third in the next one, and a read that brings nothing. -/
theorem pipelining_three :
    let ds := [deliverGets 2, deliverGets 1, deliverGets 0]
    (takenIn (some {}) (ds.map Delivery.toMeeting)).map Taken.request =
        [pipelinedGet, pipelinedGet, pipelinedGet].map Pipelined.request ∧
      ∃ conn, connAt (ds.map Delivery.toMeeting) = some conn ∧ conn.rbuf = [] := by
  intro ds
  have hans : (takenIn (some {}) (ds.map Delivery.toMeeting)).map Taken.answer =
      List.replicate 3 (.response lowerResponse) := by decide +kernel
  refine (pipelining ds fun t ht => ⟨lowerResponse, ?_⟩).mpr fun tail ht => ?_
  · have hmem := List.mem_map_of_mem (f := Taken.answer) ht
    rw [hans] at hmem
    exact List.eq_of_mem_replicate hmem
  · rcases List.suffix_cons_iff.mp ht with rfl | ht
    · exact Nat.le_refl 3
    rcases List.suffix_cons_iff.mp ht with rfl | ht
    · exact Nat.le_succ 1
    rcases List.suffix_cons_iff.mp ht with rfl | ht
    · exact Nat.zero_le 1
    · rw [List.suffix_nil.mp ht]
      exact Nat.le_refl 0

/-- **The second of two requests in one packet is not forwarded** and stays in the buffer. -/
theorem pipelining_two :
    [deliverGets 2].flatMap Delivery.requests = [pipelinedGet, pipelinedGet] ∧
      (takenIn (some {}) ([deliverGets 2].map Delivery.toMeeting)).map Taken.answer =
        [.response lowerResponse] ∧
      (connAt ([deliverGets 2].map Delivery.toMeeting)).map ClientConn.rbuf = some getRequest ∧
      ¬ ((takenIn (some {}) ([deliverGets 2].map Delivery.toMeeting)).map Taken.request =
          ([deliverGets 2].flatMap Delivery.requests).map Pipelined.request ∧
        ∃ conn, connAt ([deliverGets 2].map Delivery.toMeeting) = some conn ∧ conn.rbuf = []) := by
  have hserved : (takenIn (some {}) ([deliverGets 2].map Delivery.toMeeting)).map Taken.answer =
        [.response lowerResponse] ∧
      (connAt ([deliverGets 2].map Delivery.toMeeting)).map ClientConn.rbuf =
        some getRequest := by
    decide +kernel
  have hrbuf := hserved.2
  refine ⟨rfl, hserved.1, hrbuf, ?_⟩
  rintro ⟨-, conn, hconn, hnil⟩
  rw [hconn, Option.map_some, hnil] at hrbuf
  exact absurd (Option.some.inj hrbuf) (by decide)

end Uproxy
