import Uproxy.Proxy.TlsClient

/-!
# The transactions of an HTTP/1 connection

What a client over HTTP/1 sends is a sequence of requests, and what it gets is a sequence of
answers. `on_client_event` takes the requests off the receive buffer one at a time, whatever pieces
they come in, and appends the answers to the write buffer, from which they go out in whatever pieces
the socket takes. A `Transaction` is one request with its answer: it was forwarded, or refused
because its body is chunked.

* `onInput_transaction`: the branch for reading makes at most one transaction;
* `event_transaction`: one event;
* **`transactions_in_order`**: in every run all bytes received are the requests of the transactions,
  one behind the other, and what is left in the receive buffer; and the bytes sent, with what is
  left in the write buffer, are their answers in the same order. No byte is lost, taken twice or
  answered twice.
-/

namespace Uproxy

open Lib.Run

/-- A request and what came of it. -/
inductive Transaction where
  | served (h : Head) (body : Bytes) (answer : Answer)
  | refused (h : Head)

/-- The bytes the client gets for an answer. -/
def Answer.bytes : Answer → Bytes
  | .noUpstream => unavailable
  | .failed _ => badGateway
  | .response bytes => bytes

namespace Transaction

/-- The bytes of the request: its head, and its body if it is served. -/
def request : Transaction → Bytes
  | .served h body _ => h.render ++ body
  | .refused h => h.render

def response : Transaction → Bytes
  | .served _ _ answer => answer.bytes
  | .refused _ => unsupported

/-- What was handed on. -/
def taken : Transaction → Option Taken
  | .served h body answer => some ⟨h.request, body, answer⟩
  | .refused _ => none

/-- The head is one of the grammar, and the body has the length it says; a request is refused
exactly if it says its body is chunked. -/
def WF : Transaction → Prop
  | .served h body _ => h.WF ∧ h.request.chunked = false ∧ body.length = h.request.contentLength
  | .refused h => h.WF ∧ h.request.chunked = true

end Transaction

theorem parseInput_complete_iff {rbuf : Bytes} {req : HttpRequest} :
    parseInput rbuf = (.complete, req) ↔
      ∃ h : Head, h.render <+: rbuf ∧ h.render.length ≤ maxHeaderBytes ∧ h.WF ∧
        req = h.request := by
  rw [parseInput, parseRequest_complete_iff, Buffer.contents_ofBytes]

theorem answered_wbuf (conn : ClientConn) (a : Answer) :
    (conn.answered a).wbuf = conn.wbuf ++ a.bytes := by
  cases a <;> rfl

/-- **The branch for reading makes at most one transaction.** -/
theorem onInput_transaction (s : ProxyServer) {conn : ClientConn} (hproto : conn.proto = .http1)
    (sys : Nat → Attempt × Attempt) :
    ∃ xs : List Transaction, (∀ x ∈ xs, x.WF) ∧
      (onInput s conn sys).2.2.1 = xs.filterMap Transaction.taken ∧
      ∀ c, (onInput s conn sys).1 = .returned c ∨ (onInput s conn sys).1 = .proceed c →
        c.proto = .http1 ∧ conn.rbuf = xs.flatMap Transaction.request ++ c.rbuf ∧
        c.wbuf = conn.wbuf ++ xs.flatMap Transaction.response := by
  obtain ⟨proto, rbuf, wbuf, keepAlive, h2conn⟩ := conn
  obtain rfl : proto = .http1 := hproto
  unfold onInput
  simp only
  rcases hp : parseInput rbuf with ⟨_ | _ | _, req⟩
  · obtain ⟨h, ⟨rest, rfl⟩, -, hwf, rfl⟩ := parseInput_complete_iff.mp hp
    have hdrop : (h.render ++ rest).drop h.request.headerBytes = rest := List.drop_left
    simp only
    split_ifs with hchunked hshort
    · refine ⟨[.refused h], by simpa using ⟨hwf, hchunked⟩, rfl, fun c hc => ?_⟩
      rcases hc with hc | hc <;> cases hc
      exact ⟨rfl, by simp [Transaction.request, hdrop], by simp [Transaction.response]⟩
    · refine ⟨[], by simp, rfl, fun c hc => ?_⟩
      rcases hc with hc | hc <;> cases hc
      exact ⟨rfl, rfl, (List.append_nil _).symm⟩
    · have hlen : h.request.contentLength ≤ rest.length := by
        rw [List.length_append, show h.request.headerBytes = h.render.length from rfl] at hshort
        omega
      obtain ⟨answer, s', ht⟩ : ∃ answer s', s.dispatch h.request
          (rest.take h.request.contentLength) (sys 0) = (answer, s') := ⟨_, _, rfl⟩
      refine ⟨[.served h (rest.take h.request.contentLength) answer], ?_, ?_, fun c hc => ?_⟩
      · simpa [Transaction.WF, hchunked, hlen] using hwf
      · simp [takeRequest, hdrop, ht, Transaction.taken]
      · rcases hc with hc | hc <;> cases hc
        simp only [takeRequest, hdrop, ht]
        rw [(answered_proto _ answer).1, (answered_proto _ answer).2, answered_wbuf]
        exact ⟨rfl, by simp [Transaction.request], by simp [Transaction.response]⟩
  · refine ⟨[], by simp, rfl, fun c hc => ?_⟩
    rcases hc with hc | hc <;> cases hc
    exact ⟨rfl, rfl, (List.append_nil _).symm⟩
  · refine ⟨[], by simp, rfl, fun c hc => ?_⟩
    rcases hc with hc | hc <;> cases hc

/-- **One event**: at most one transaction, whose request is at the front of what there is to read,
and whose answer goes behind what there is to write. -/
theorem event_transaction (s : ProxyServer) {conn : ClientConn} (hproto : conn.proto = .http1)
    (ev : ClientEvent) :
    ∃ xs : List Transaction, (∀ x ∈ xs, x.WF) ∧
      (onClientEvent s conn ev).2.2 = xs.filterMap Transaction.taken ∧
      conn.sentAt s ev <+: conn.wbuf ++ xs.flatMap Transaction.response ∧
      ∀ conn', (onClientEvent s conn ev).1 = some conn' → conn'.proto = .http1 ∧
        conn.rbuf ++ ev.input = xs.flatMap Transaction.request ++ conn'.rbuf ∧
        conn.wbuf ++ xs.flatMap Transaction.response = conn.sentAt s ev ++ conn'.wbuf := by
  unfold ClientConn.sentAt onClientEvent
  by_cases hend : ev.hangUp = true ∨ ev.error = true
  · rw [if_pos hend, if_pos hend]
    exact ⟨[], by simp, rfl, List.nil_prefix, fun conn' h => by cases h⟩
  rw [if_neg hend, if_neg hend]
  by_cases hread : ev.read = true
  · have hin : ev.input = (readClientInput ev.recvs []).2 := if_pos hread
    rw [if_pos hread, onRead, readClientInput_append, hin]
    rcases readClientInput ev.recvs [] with ⟨e | ⟨_ | _⟩, input⟩
    · exact ⟨[], by simp, rfl, List.nil_prefix, fun conn' h => by cases h⟩
    · have hnext : ({ conn with rbuf := conn.rbuf ++ input } : ClientConn).proto = .http1 := hproto
      obtain ⟨xs, hwf, htaken, hstep⟩ := onInput_transaction s hnext ev.sys
      refine ⟨xs, hwf, ?_⟩
      simp only
      generalize onInput s { conn with rbuf := conn.rbuf ++ input } ev.sys = r at htaken hstep ⊢
      obtain ⟨_ | c | c, s', ts, ms⟩ := r
      · exact ⟨htaken, List.nil_prefix, fun conn' h => by cases h⟩
      · obtain ⟨hp, hrbuf, hwbuf⟩ := hstep c (Or.inl rfl)
        refine ⟨htaken, List.nil_prefix, fun conn' h => ?_⟩
        cases h
        exact ⟨hp, hrbuf, hwbuf.symm⟩
      · obtain ⟨hp, hrbuf, hwbuf⟩ := hstep c (Or.inr rfl)
        obtain ⟨hsent, hwrite⟩ := write_front c ev.write ev.sends
        refine ⟨htaken, hwbuf ▸ hsent, fun conn' h => ?_⟩
        obtain ⟨wbuf, rfl, heq⟩ := hwrite conn' h
        exact ⟨hp, hrbuf, by rw [← heq, hwbuf]⟩
    · exact ⟨[], by simp, rfl, List.nil_prefix, fun conn' h => by cases h⟩
  · have hin : ev.input = [] := if_neg hread
    rw [if_neg hread, hin]
    obtain ⟨hsent, hwrite⟩ := write_front conn ev.write ev.sends
    refine ⟨[], by simp, rfl, by simpa using hsent, fun conn' h => ?_⟩
    obtain ⟨wbuf, rfl, heq⟩ := hwrite conn' h
    exact ⟨hproto, by simp, by simpa using heq⟩

/-- **Requests and answers in order.** In every run of a connection over HTTP/1, in whatever pieces
the bytes come and go and whatever upstreams do, there is a sequence of transactions such that: the
bytes received are their requests, one behind the other, and then what is left in the receive
buffer; the bytes the socket has accepted, and then what is left in the write buffer, are their
answers in the same order; and the requests handed on are those of the transactions that were not
refused. When the connection is closed what was sent is still the front of the answers. -/
theorem transactions_in_order (ms : List Meeting) :
    ∃ xs : List Transaction, (∀ x ∈ xs, x.WF) ∧
      takenIn (some {}) ms = xs.filterMap Transaction.taken ∧
      sentIn (some {}) ms <+: xs.flatMap Transaction.response ∧
      ∀ conn, connAt ms = some conn →
        inputIn ms = xs.flatMap Transaction.request ++ conn.rbuf ∧
        sentIn (some {}) ms ++ conn.wbuf = xs.flatMap Transaction.response := by
  induction ms using List.reverseRecOn with
  | nil =>
    refine ⟨[], by simp, rfl, List.nil_prefix, fun conn h => ?_⟩
    cases h
    exact ⟨rfl, rfl⟩
  | append_singleton ms m ih =>
    obtain ⟨xs, hwf, htaken, hsent, hopen⟩ := ih
    rw [takenIn_concat, sentIn_concat, inputIn_concat, connAt_concat]
    cases hc : connAt ms with
    | none =>
      rw [show run meet (some {}) ms = none from hc]
      refine ⟨xs, hwf, by simpa [takenAt] using htaken, by simpa using hsent, fun conn h => ?_⟩
      cases h
    | some conn =>
      obtain ⟨hin, hout⟩ := hopen conn hc
      obtain ⟨ys, hwf', htaken', hsent', hstep⟩ :=
        event_transaction m.server (connAt_speaks1 ms conn hc) m.event
      rw [show run meet (some {}) ms = some conn from hc]
      refine ⟨xs ++ ys, List.forall_mem_append.mpr ⟨hwf, hwf'⟩, ?_, ?_, fun conn' h => ?_⟩
      · rw [htaken, List.filterMap_append, takenAt_some, htaken']
      · rw [List.flatMap_append, ← hout, List.append_assoc]
        exact (List.prefix_append_right_inj _).mpr hsent'
      · obtain ⟨-, h1, h2⟩ := hstep conn' h
        constructor
        · rw [hin, List.flatMap_append, List.append_assoc, List.append_assoc, ← h1]
        · rw [List.flatMap_append, ← hout, List.append_assoc, List.append_assoc, h2]
          rfl

end Uproxy
