import Uproxy.Pool.Routing
import Uproxy.Proxy.Client

/-!
# Request statistics

`next` counts a request on the endpoint it returns (`total_requests`). A failure is counted in two
places: by the handlers, on that endpoint, when `forward_http1` returns an error; and by
`UpstreamPool::acquire`, on the endpoint of the pool, when no connection could be opened. The second
always leads to the first.

* `ProxyServer.step` is one request, over HTTP/1 or HTTP/2, or one tick of the pools. Both handlers
  move the server by requests only (`onClientEvent_requests`);
* `ProxyServer.Inv.dispatch`: what one request adds to the counters;
* `ProxyServer.counters_run`: along a run, `failed_requests` counts the requests that failed and
  those whose connection was refused;
* **`failure_statistics`**: so it is exact throughout a run, and never above `total_requests`,
  exactly when no connection is refused.
-/

namespace Uproxy

open Lib.Run

/-! ## Refused connections -/

/-- No connection is idle and none can be opened: `acquire` counts a failed request. -/
def UpstreamPool.ConnectFails (p : UpstreamPool) (c : ConnectCalls) : Prop :=
  p.idle = [] ∧ p.total < p.cfg.maxConnsPerUpstream ∧ (newConnection c).isOk = false

instance UpstreamPool.instDecidableConnectFails (p : UpstreamPool) (c : ConnectCalls) :
    Decidable (p.ConnectFails c) :=
  inferInstanceAs (Decidable (_ ∧ _ ∧ _))

/-- The pool behind an `acquire` that succeeds. -/
def UpstreamPool.handOut (p : UpstreamPool) : UpstreamPool :=
  match p.idle with
  | _ :: rest => { p with idle := rest }
  | [] => { p with total := p.total + 1 }

instance UpstreamPool.instDecidableServes (p : UpstreamPool) (c : ConnectCalls) :
    Decidable (p.Serves c) :=
  decidable_of_iff (p.idle ≠ [] ∨ p.total < p.cfg.maxConnsPerUpstream ∧ (newConnection c).isOk) (by
    unfold Serves
    cases newConnection c <;> simp [Except.isOk, Except.toBool])

/-- A connection is refused to the first attempt, or to the second once the first has failed on the
connection it was given. -/
def UpstreamPool.Refuses (p : UpstreamPool) (first second : Attempt) : Prop :=
  p.ConnectFails first.calls ∨
    p.Serves first.calls ∧ first.Failed ∧ p.handOut.ConnectFails second.calls

instance UpstreamPool.instDecidableRefuses (p : UpstreamPool) (first second : Attempt) :
    Decidable (p.Refuses first second) :=
  inferInstanceAs (Decidable (_ ∨ _ ∧ _ ∧ _))

namespace UpstreamPool

/-- `acquire` by what it counts: a refused connection, an exhausted pool, or a connection. -/
theorem acquire_counts (p : UpstreamPool) (eps : List UpstreamEndpoint) (c : ConnectCalls) :
    (p.ConnectFails c ∧ ∃ e, p.acquire eps c = (.error e, p, countFailed eps p.endpoint)) ∨
    (¬ p.Serves c ∧ ¬ p.ConnectFails c ∧ ∃ e, p.acquire eps c = (.error e, p, eps)) ∨
    (p.Serves c ∧ ¬ p.ConnectFails c ∧ ∃ conn, p.acquire eps c = (.ok conn, p.handOut, eps)) := by
  rcases p.acquire_cases eps c with ⟨conn, rest, hidle, heq⟩ | ⟨hidle, hmax, heq⟩ |
    ⟨e, hidle, hlt, hc, heq⟩ | ⟨conn, hidle, hlt, hc, heq⟩
  · have hne : p.idle ≠ [] := by simp [hidle]
    refine Or.inr (Or.inr ⟨Or.inl hne, fun h => hne h.1, { conn with inUse := true }, ?_⟩)
    rw [heq, handOut, hidle]
  · have hnlt := UInt32.not_lt.mpr hmax
    refine Or.inr (Or.inl ⟨?_, fun h => hnlt h.2.1, _, heq⟩)
    rintro (hne | ⟨hlt, -⟩)
    · exact hne hidle
    · exact hnlt hlt
  · exact Or.inl ⟨⟨hidle, hlt, by rw [hc]; rfl⟩, e, heq⟩
  · refine Or.inr (Or.inr ⟨Or.inr ⟨hlt, conn, hc⟩, fun h => ?_, conn, ?_⟩)
    · have := h.2.2
      rw [hc] at this
      cases this
    · rw [heq, handOut, hidle]

theorem handOut_endpoint (p : UpstreamPool) : p.handOut.endpoint = p.endpoint := by
  unfold handOut
  cases p.idle <;> rfl

end UpstreamPool

theorem release_endpoint (p : UpstreamPool) (now : Nat) (conn : Option PooledConn) :
    (p.release now conn).endpoint = p.endpoint := by
  cases conn with
  | none => rfl
  | some conn =>
    rcases p.release_cases now conn with ⟨-, h⟩ | ⟨-, -, h⟩ <;> rw [h]

/-- What an attempt counts when no other follows. -/
theorem forwardLoop_last (a : Attempt) (x : Exchange) :
    (forwardLoop 1 [a] x).2.endpoints =
        (if x.pool.ConnectFails a.calls then countFailed x.endpoints x.pool.endpoint
          else x.endpoints) ∧
      (forwardLoop 1 [a] x).2.pool.endpoint = x.pool.endpoint := by
  rcases x.pool.acquire_counts x.endpoints a.calls with ⟨hc, e, heq⟩ | ⟨-, hc, e, heq⟩ |
    ⟨-, hc, conn, heq⟩
  · simp only [forwardLoop, heq, if_pos hc, and_self]
  · simp only [forwardLoop, heq, if_neg hc, and_self]
  · rw [if_neg hc]
    rcases forwardLoop_ok 1 [] heq with ⟨-, ⟨h0, -⟩ | ⟨-, e, hloop⟩⟩ | ⟨-, bytes, hloop⟩
    · cases h0
    · rw [hloop]
      exact ⟨rfl, x.pool.handOut_endpoint⟩
    · rw [hloop]
      exact ⟨rfl, (release_endpoint _ _ _).trans x.pool.handOut_endpoint⟩

/-- **What the retry loop counts** is a refused connection. -/
theorem forwardLoop_counts (first second : Attempt) (x : Exchange) :
    (forwardLoop 0 [first, second] x).2.endpoints =
        (if x.pool.Refuses first second then countFailed x.endpoints x.pool.endpoint
          else x.endpoints) ∧
      (forwardLoop 0 [first, second] x).2.pool.endpoint = x.pool.endpoint := by
  unfold UpstreamPool.Refuses
  rcases x.pool.acquire_counts x.endpoints first.calls with ⟨hc, e, heq⟩ | ⟨hs, hc, e, heq⟩ |
    ⟨hs, hc, conn, heq⟩
  · simp only [forwardLoop, heq, hc, true_or, if_true, and_self]
  · simp only [forwardLoop, heq, hc, hs, false_and, or_self, if_false, and_self]
  · simp only [hc, hs, false_or, true_and]
    rcases forwardLoop_ok 0 [second] heq with ⟨hf, ⟨-, hloop⟩ | ⟨h0, -⟩⟩ | ⟨hf, bytes, hloop⟩
    · have hlast := forwardLoop_last second
        (Exchange.dropConn ⟨x.endpoints, x.pool.handOut, conn :: x.outstanding⟩ first.now)
      simp only [hf, true_and]
      rw [hloop, ← x.pool.handOut_endpoint]
      exact hlast
    · exact absurd rfl h0
    · rw [hloop, if_neg fun h => hf h.1]
      exact ⟨rfl, (release_endpoint _ _ _).trans x.pool.handOut_endpoint⟩

/-! ## The counters -/

/-- `failed_requests` of an endpoint. -/
def failedOf (eps : List UpstreamEndpoint) (i : Nat) : Nat := (eps.getD i {}).failedRequests

/-- `countFailed` is one more failed request, if there is such an endpoint. -/
theorem failedOf_countFailed (eps : List UpstreamEndpoint) {j : Nat} (hj : j < eps.length)
    (i : Nat) : failedOf (countFailed eps j) i = failedOf eps i + if j = i then 1 else 0 := by
  unfold failedOf countFailed
  rw [List.getD_eq_getElem?_getD, List.getD_eq_getElem?_getD, List.getElem?_modify]
  by_cases hij : j = i
  · subst hij
    simp [List.getElem?_eq_getElem hj]
  · simp [hij]

theorem length_countFailed (eps : List UpstreamEndpoint) (j : Nat) :
    (countFailed eps j).length = eps.length := List.length_modify _ _ _

namespace ProxyServer

/-- `failed_requests` of endpoint `i`. -/
def failedRequests (s : ProxyServer) (i : Nat) : Nat := failedOf s.net.endpoints i

/-- `total_requests` of endpoint `i`. -/
def totalRequests (s : ProxyServer) (i : Nat) : Nat := (s.lb.endpoints.getD i {}).totalRequests

end ProxyServer

/-- What happens to the server: a request is answered, or the pools are ticked. -/
inductive ServerOp where
  | request (req : HttpRequest) (body : Bytes) (sys : Attempt × Attempt)
  | tick (ts : Nat)
  deriving DecidableEq, Repr

/-- `forward_http1` returned an error. -/
def Answer.isFailed : Answer → Bool
  | .failed _ => true
  | _ => false

namespace ProxyServer

/-- One request or one tick. -/
def step (s : ProxyServer) : ServerOp → ProxyServer
  | .request req body sys => (s.dispatch req body sys).2
  | .tick ts => { s with pools := s.pools.tick ts }

/-- The server that `ProxyServer::ProxyServer` makes. -/
def start (cfg : ProxyConfig) : ProxyServer := ⟨.new cfg.upstreams, { cfg := cfg.pool }⟩

/-- 1 for a request that `next` assigns to endpoint `i`. -/
def assigned (i : Nat) (s : ProxyServer) : ServerOp → Nat
  | .request _ _ _ => if s.lb.next.1 = some i then 1 else 0
  | .tick _ => 0

/-- 1 for a request that `next` assigns to endpoint `i` and for which `forward_http1` returns an
error. -/
def failing (i : Nat) (s : ProxyServer) : ServerOp → Nat
  | .request req body sys =>
    if s.lb.next.1 = some i ∧ (s.dispatch req body sys).1.isFailed = true then 1 else 0
  | .tick _ => 0

/-- The pool `forward_http1` works on, if it comes to that: there is an upstream, and the request
can be written. -/
def routedTo (s : ProxyServer) (req : HttpRequest) (body : Bytes) : Option UpstreamPool :=
  s.lb.next.1.bind fun up =>
    if (upstreamRequest req body (upstreamHost (s.net.endpoint up))).isOk = true then
      some (s.net.pool up)
    else none

/-- No connection can be opened for the request. -/
def Refused (s : ProxyServer) : ServerOp → Prop
  | .request req body sys => ∃ p, s.routedTo req body = some p ∧ p.Refuses sys.1 sys.2
  | .tick _ => False

/-- 1 for a request whose connection is refused by a pool of endpoint `i`. -/
def refusing (i : Nat) (s : ProxyServer) : ServerOp → Nat
  | .request req body sys =>
    match s.routedTo req body with
    | none => 0
    | some p => if p.Refuses sys.1 sys.2 ∧ p.endpoint = i then 1 else 0
  | .tick _ => 0

/-! ### One request -/

theorem settle_endpoints {s : ProxyServer} {net : Net}
    (h : net.endpoints.length = s.lb.endpoints.length) :
    (s.settle net).net.endpoints = net.endpoints := by
  refine List.ext_getElem? fun i => ?_
  simp only [settle, ProxyServer.net, List.getElem?_map, List.getElem?_mapIdx]
  by_cases hi : i < s.lb.endpoints.length
  · rw [List.getElem?_eq_getElem hi, List.getElem?_eq_getElem (h ▸ hi)]
    simp only [Option.map_some, List.getD_eq_getElem?_getD, List.getElem?_eq_getElem (h ▸ hi),
      Option.getD_some]
  · rw [List.getElem?_eq_none (by omega), List.getElem?_eq_none (by omega)]
    rfl

theorem settle_totalRequests (s : ProxyServer) (net : Net) (i : Nat) :
    (s.settle net).totalRequests i = s.totalRequests i := by
  simp only [settle, totalRequests, List.getD_eq_getElem?_getD, List.getElem?_mapIdx]
  cases s.lb.endpoints[i]? <;> rfl

end ProxyServer

/-- Every pool belongs to an endpoint and stands under its name. -/
def Net.Keyed (net : Net) : Prop := net.pools.Keyed net.endpoints (· < net.endpoints.length)

theorem PoolManager.Keyed.congr {eps eps' : List UpstreamEndpoint} {S : Nat → Prop}
    {m : PoolManager} (h : m.Keyed eps S)
    (hname : ∀ i, (eps'.getD i {}).name = (eps.getD i {}).name) : m.Keyed eps' S :=
  fun key p hp => ⟨(h key p hp).1, (hname _).trans (h key p hp).2⟩

theorem Net.Keyed.countFailed {net : Net} (h : net.Keyed) (i : Nat) :
    Net.Keyed { net with endpoints := Uproxy.countFailed net.endpoints i } := by
  unfold Net.Keyed
  rw [length_countFailed]
  exact PoolManager.Keyed.congr h (name_countFailed net.endpoints i)

/-- **What `forward_http1` counts** is a refused connection, on the endpoint of the pool. -/
theorem Net.Keyed.forwardHttp1 {net : Net} (h : net.Keyed) {up : Nat}
    (hup : up < net.endpoints.length) (req : HttpRequest) (body : Bytes) (first second : Attempt) :
    let net' := (net.forwardHttp1 req body up first second).2
    net'.Keyed ∧ net'.endpoints =
      if (upstreamRequest req body (upstreamHost (net.endpoint up))).isOk = true ∧
        (net.pool up).Refuses first second then
        Uproxy.countFailed net.endpoints (net.pool up).endpoint
      else net.endpoints := by
  intro net'
  obtain ⟨hget, hmem, hname⟩ := PoolManager.Keyed.get h hup
  obtain ⟨heps, hend⟩ := forwardLoop_counts first second
    ⟨net.endpoints, net.pool up, net.outstanding⟩
  simp only [net', Net.forwardHttp1]
  cases upstreamRequest req body (upstreamHost (net.endpoint up)) with
  | error e => exact ⟨h, (if_neg fun hr => Bool.noConfusion hr.1).symm⟩
  | ok bytes =>
    simp only [Except.isOk, Except.toBool, true_and]
    refine ⟨?_, heps⟩
    unfold Net.Keyed Net.settle
    simp only [heps]
    have hput := hget.put (p := (forwardLoop 0 [first, second]
      ⟨net.endpoints, net.pool up, net.outstanding⟩).2.pool) (by rw [hend]; exact hmem)
    rw [hend, show (net.endpoints.getD (net.pool up).endpoint {}).name = (net.endpoint up).name
      from hname] at hput
    split_ifs
    · rw [length_countFailed]
      exact hput.congr (name_countFailed _ _)
    · exact hput

theorem Net.Keyed.forwardHttp1_failedOf {net : Net} (h : net.Keyed) {up : Nat}
    (hup : up < net.endpoints.length) (req : HttpRequest) (body : Bytes) (first second : Attempt) :
    let net' := (net.forwardHttp1 req body up first second).2
    net'.endpoints.length = net.endpoints.length ∧ ∀ i, failedOf net'.endpoints i =
      failedOf net.endpoints i +
        if ((upstreamRequest req body (upstreamHost (net.endpoint up))).isOk = true ∧
          (net.pool up).Refuses first second) ∧ (net.pool up).endpoint = i then 1 else 0 := by
  intro net'
  have hpool : (net.pool up).endpoint < net.endpoints.length :=
    (PoolManager.Keyed.get h hup).2.1
  obtain ⟨-, heps⟩ := h.forwardHttp1 hup req body first second
  simp only [net', heps]
  split_ifs with hr
  · refine ⟨length_countFailed _ _, fun i => ?_⟩
    simp only [failedOf_countFailed _ hpool, hr, true_and]
  · exact ⟨rfl, fun i => by rw [if_neg fun hi => hr hi.1]; rfl⟩

namespace ProxyServer

/-- The server between two requests: pools stand under the names of their endpoints. -/
structure Inv (n : Nat) (s : ProxyServer) : Prop where
  length_eq : s.net.endpoints.length = n
  keyed     : s.net.Keyed

variable {n : Nat} {s : ProxyServer}

theorem net_next (s : ProxyServer) : net { s with lb := s.lb.next.2 } = s.net := by
  simp only [ProxyServer.net, s.lb.next_endpoints]

theorem Inv.next (h : Inv n s) : Inv n { s with lb := s.lb.next.2 } :=
  ⟨s.net_next.symm ▸ h.length_eq, s.net_next.symm ▸ h.keyed⟩

theorem Inv.settle (h : Inv n s) {net : Net} (hlen : net.endpoints.length = n) (hk : net.Keyed) :
    Inv n (s.settle net) ∧ (s.settle net).net.endpoints = net.endpoints := by
  have heq : (s.settle net).net.endpoints = net.endpoints := by
    refine settle_endpoints (hlen.trans ?_)
    rw [← h.length_eq]
    exact List.length_map _
  refine ⟨⟨heq ▸ hlen, ?_⟩, heq⟩
  show PoolManager.Keyed (s.settle net).net.endpoints (· < (s.settle net).net.endpoints.length) _
  rw [heq]
  exact hk

/-- Every way through `dispatch`. -/
theorem dispatch_cases (s : ProxyServer) (req : HttpRequest) (body : Bytes)
    (sys : Attempt × Attempt) :
    let s' : ProxyServer := { s with lb := s.lb.next.2 }
    (s.lb.next.1 = none ∧ s.dispatch req body sys = (.noUpstream, s')) ∨
    ∃ up, s.lb.next.1 = some up ∧
      let net := (s.net.forwardHttp1 req body up sys.1 sys.2).2
      ((∃ bytes, s.dispatch req body sys = (.response bytes, s'.settle net)) ∨
        ∃ e, s.dispatch req body sys =
          (.failed e, s'.settle { net with endpoints := countFailed net.endpoints up })) := by
  intro s'
  rw [← s.net_next]
  unfold ProxyServer.dispatch
  rcases hnext : s.lb.next with ⟨_ | up, lb⟩
  · exact Or.inl ⟨rfl, by simp only [s', hnext]⟩
  · refine Or.inr ⟨up, rfl, ?_⟩
    simp only [s', hnext]
    rcases Net.forwardHttp1 _ req body up sys.1 sys.2 with ⟨e | bytes, net⟩
    · exact Or.inr ⟨e, rfl⟩
    · exact Or.inl ⟨bytes, rfl⟩

theorem next_totalRequests (s : ProxyServer) (i : Nat) :
    totalRequests { s with lb := s.lb.next.2 } i =
      s.totalRequests i + if s.lb.next.1 = some i then 1 else 0 := by
  unfold totalRequests
  rcases s.lb.next_counts with ⟨hnext, heq⟩ | ⟨j, hj, hnext, heq⟩
  · simp only [hnext, heq, reduceCtorEq, if_false, Nat.add_zero]
  · simp only [hnext, heq, List.getD_eq_getElem?_getD, List.getElem?_modify, Option.some.injEq]
    by_cases hij : j = i
    · subst hij
      simp [List.getElem?_eq_getElem hj]
    · simp [hij]

/-- `refusing`, once `next` has returned an upstream. -/
theorem refusing_eq {up : Nat} (hup : s.lb.next.1 = some up) (i : Nat) (req : HttpRequest)
    (body : Bytes) (sys : Attempt × Attempt) :
    refusing i s (.request req body sys) =
      if ((upstreamRequest req body (upstreamHost (s.net.endpoint up))).isOk = true ∧
        (s.net.pool up).Refuses sys.1 sys.2) ∧ (s.net.pool up).endpoint = i then 1 else 0 := by
  simp only [refusing, routedTo, hup, Option.bind_some]
  by_cases hok : (upstreamRequest req body (upstreamHost (s.net.endpoint up))).isOk = true
  · simp only [hok, if_true, true_and]
  · simp only [hok, Bool.false_eq_true, if_false, false_and]

/-- **One request** adds to `failed_requests` the error it ends with, on the endpoint `next` has
assigned it to, and a refused connection, on the endpoint of the pool. -/
theorem Inv.dispatch (h : Inv n s) (req : HttpRequest) (body : Bytes) (sys : Attempt × Attempt) :
    let s' := (s.dispatch req body sys).2
    Inv n s' ∧ ∀ i, s'.totalRequests i = s.totalRequests i + assigned i s (.request req body sys) ∧
      s'.failedRequests i = s.failedRequests i +
        (failing i s (.request req body sys) + refusing i s (.request req body sys)) := by
  rcases s.dispatch_cases req body sys with ⟨hnone, heq⟩ | ⟨up, hup, hcase⟩
  · rw [heq]
    refine ⟨h.next, fun i => ⟨s.next_totalRequests i, ?_⟩⟩
    have hzero :
        failing i s (.request req body sys) + refusing i s (.request req body sys) = 0 := by
      simp [failing, refusing, routedTo, hnone]
    rw [hzero]
    exact congrArg (fun net : Net => failedOf net.endpoints i) s.net_next
  · have hlt : up < s.net.endpoints.length := by
      show up < (s.lb.endpoints.map _).length
      rw [List.length_map]
      exact (WeightedRoundRobin.mem_healthyBelow.mp (WeightedRoundRobin.next_active hup)).1
    obtain ⟨hkeyed, -⟩ := h.keyed.forwardHttp1 hlt req body sys.1 sys.2
    obtain ⟨hlen, hcount⟩ := h.keyed.forwardHttp1_failedOf hlt req body sys.1 sys.2
    simp only [← refusing_eq hup] at hcount
    have hlen' := hlen.trans h.length_eq
    have htotal := fun net i => (settle_totalRequests { s with lb := s.lb.next.2 } net i).trans
      (s.next_totalRequests i)
    rcases hcase with ⟨bytes, heq⟩ | ⟨e, heq⟩
    · obtain ⟨hinv, heps⟩ := h.next.settle hlen' hkeyed
      have hfail : ∀ i, failing i s (.request req body sys) = 0 := fun i => by
        simp [failing, heq, Answer.isFailed]
      rw [heq]
      refine ⟨hinv, fun i => ⟨htotal _ i, ?_⟩⟩
      rw [hfail, Nat.zero_add, failedRequests, heps]
      exact hcount i
    · obtain ⟨hinv, heps⟩ := h.next.settle ((length_countFailed _ up).trans hlen')
        (hkeyed.countFailed up)
      have hfail : ∀ i, failing i s (.request req body sys) = if up = i then 1 else 0 := fun i => by
        simp [failing, heq, Answer.isFailed, hup]
      rw [heq]
      refine ⟨hinv, fun i => ⟨htotal _ i, ?_⟩⟩
      rw [hfail, failedRequests, heps]
      show failedOf (countFailed _ up) i = _
      rw [failedOf_countFailed _ (by omega), hcount]
      show failedOf s.net.endpoints i + _ + _ = failedOf s.net.endpoints i + _
      omega

/-! ## Runs -/

/-- **One step** of a run. -/
theorem Inv.step (h : Inv n s) (op : ServerOp) :
    Inv n (s.step op) ∧ ∀ i, (s.step op).totalRequests i = s.totalRequests i + assigned i s op ∧
      (s.step op).failedRequests i =
        s.failedRequests i + (failing i s op + refusing i s op) := by
  cases op with
  | tick ts => exact ⟨⟨h.length_eq, PoolManager.Keyed.tick h.keyed ts⟩, fun i => ⟨rfl, rfl⟩⟩
  | request req body sys => exact h.dispatch req body sys

theorem Inv.start (cfg : ProxyConfig) : Inv cfg.upstreams.length (start cfg) := by
  refine ⟨?_, .empty _⟩
  show ((cfg.upstreams.map _).map _).length = _
  rw [List.length_map, List.length_map]

theorem start_counters (cfg : ProxyConfig) (i : Nat) :
    (start cfg).failedRequests i = 0 ∧ (start cfg).totalRequests i = 0 := by
  simp only [failedRequests, failedOf, totalRequests, start, ProxyServer.net,
    WeightedRoundRobin.new, List.getD_eq_getElem?_getD, List.getElem?_map]
  cases cfg.upstreams[i]? <;> exact ⟨rfl, rfl⟩

theorem inv_run (cfg : ProxyConfig) (ops : List ServerOp) :
    Inv cfg.upstreams.length (run ProxyServer.step (.start cfg) ops) :=
  run_inv (fun _ op h => (h.step op).1) ops (.start cfg)

/-- **The counters behind a run.** -/
theorem counters_run (cfg : ProxyConfig) (i : Nat) (ops : List ServerOp) :
    let s := run ProxyServer.step (.start cfg) ops
    s.totalRequests i = cost ProxyServer.step (assigned i) (.start cfg) ops ∧
      s.failedRequests i = cost ProxyServer.step (failing i) (.start cfg) ops +
        cost ProxyServer.step (refusing i) (.start cfg) ops := by
  intro s
  have hstart := Inv.start cfg
  obtain ⟨hfailed, htotal⟩ := start_counters cfg i
  constructor
  · have := run_account (A := fun s k => Inv cfg.upstreams.length s ∧ s.totalRequests i = k)
      (g := assigned i) (fun s k op hs => ⟨(hs.1.step op).1, by rw [((hs.1.step op).2 i).1, hs.2]⟩)
      ops ⟨hstart, htotal⟩
    rw [Nat.zero_add] at this
    exact this.2
  · have := run_account (A := fun s k => Inv cfg.upstreams.length s ∧ s.failedRequests i = k)
      (g := fun s op => failing i s op + refusing i s op)
      (fun s k op hs => ⟨(hs.1.step op).1, by rw [((hs.1.step op).2 i).2, hs.2]⟩)
      ops ⟨hstart, hfailed⟩
    rw [Nat.zero_add, cost_add] at this
    exact this.2

theorem failing_le_assigned (i : Nat) (s : ProxyServer) (op : ServerOp) :
    failing i s op ≤ assigned i s op := by
  cases op with
  | tick ts => exact Nat.le_refl 0
  | request req body sys =>
    simp only [failing, assigned]
    by_cases hup : s.lb.next.1 = some i
    · simp only [hup, true_and, if_true]
      split_ifs <;> omega
    · simp only [hup, false_and, if_false, Nat.le_refl]

/-- A refused connection is counted on one of the endpoints. -/
theorem Inv.refusing_eq_zero_iff (h : Inv n s) (op : ServerOp) :
    (∀ i < n, refusing i s op = 0) ↔ ¬ s.Refused op := by
  cases op with
  | tick ts => exact ⟨fun _ hr => hr, fun _ _ _ => rfl⟩
  | request req body sys =>
    simp only [refusing, Refused]
    cases hroute : s.routedTo req body with
    | none => simp
    | some p =>
      have hend : p.endpoint < n := by
        obtain ⟨up, hup, hp⟩ := Option.bind_eq_some_iff.mp hroute
        split_ifs at hp
        obtain rfl := Option.some.inj hp
        rw [← h.length_eq]
        refine (PoolManager.Keyed.get h.keyed ?_).2.1
        show up < (s.lb.endpoints.map _).length
        rw [List.length_map]
        exact (WeightedRoundRobin.mem_healthyBelow.mp (WeightedRoundRobin.next_active hup)).1
      constructor
      · rintro hzero ⟨q, hq, href⟩
        obtain rfl := Option.some.inj hq
        have := hzero p.endpoint hend
        simp only [href, and_self, if_true] at this
        cases this
      · intro hno i _
        exact if_neg fun hr => hno ⟨p, rfl, hr.1⟩

end ProxyServer

/-- **Failure statistics.** Throughout a run `failed_requests` of every endpoint is the number of
requests assigned to it for which `forward_http1` returned an error, and so at most
`total_requests`, exactly when no connection is refused. -/
theorem failure_statistics (cfg : ProxyConfig) (ops : List ServerOp) :
    (∀ pre, pre <+: ops → ∀ i < cfg.upstreams.length,
      let s := run ProxyServer.step (.start cfg) pre
      s.failedRequests i = cost ProxyServer.step (ProxyServer.failing i) (.start cfg) pre ∧
        s.failedRequests i ≤ s.totalRequests i) ↔
      ∀ pre op, pre ++ [op] <+: ops → ¬ (run ProxyServer.step (.start cfg) pre).Refused op := by
  have hcost : ∀ pre i, (let s := run ProxyServer.step (.start cfg) pre
      s.failedRequests i = cost ProxyServer.step (ProxyServer.failing i) (.start cfg) pre ∧
        s.failedRequests i ≤ s.totalRequests i) ↔
      cost ProxyServer.step (ProxyServer.refusing i) (.start cfg) pre = 0 := by
    intro pre i
    obtain ⟨htotal, hfailed⟩ := ProxyServer.counters_run cfg i pre
    have hle : cost ProxyServer.step (ProxyServer.failing i) (.start cfg) pre ≤
        cost ProxyServer.step (ProxyServer.assigned i) (.start cfg) pre :=
      cost_le (ProxyServer.failing_le_assigned i) _ pre
    simp only [htotal, hfailed]
    omega
  simp only [hcost, ← (ProxyServer.inv_run cfg _).refusing_eq_zero_iff]
  constructor
  · intro h pre op hpre i hi
    exact cost_eq_zero_iff.mp (fun q hq => h q hq i hi) pre op hpre
  · intro h pre hpre i hi
    exact cost_eq_zero_iff.mpr (fun q op hq => h q op hq i hi) pre hpre

/-- A backend that refuses connections. -/
def refusingBackend : Attempt :=
  ⟨{ socket := 5, connect := .failed 111 }, .ok (), .error (.fromCode .eof ""), 0⟩

/-- One request, and two failed ones counted. -/
theorem failure_statistics_refused :
    let cfg : ProxyConfig := { upstreams := [{ addr := ascii "10.0.0.1", port := 80 }] }
    let s := run ProxyServer.step (.start cfg) [.request {} [] (refusingBackend, refusingBackend)]
    s.totalRequests 0 = 1 ∧ s.failedRequests 0 = 2 := by
  decide +kernel

/-! ## The handlers -/

/-- The server behind some requests. -/
def ProxyServer.Serves (s s' : ProxyServer) : Prop :=
  ∃ reqs : List (HttpRequest × Bytes × (Attempt × Attempt)),
    s' = run ProxyServer.step s (reqs.map fun r => .request r.1 r.2.1 r.2.2)

theorem ProxyServer.Serves.refl (s : ProxyServer) : s.Serves s := ⟨[], rfl⟩

theorem ProxyServer.Serves.dispatch (s : ProxyServer) (req : HttpRequest) (body : Bytes)
    (sys : Attempt × Attempt) : s.Serves (s.dispatch req body sys).2 := ⟨[(req, body, sys)], rfl⟩

/-- The requests of an HTTP/2 connection, one after the other. -/
theorem serveStreams_requests (sys : Nat → Attempt × Attempt) : ∀ (ready : List Nat) (r : Served),
    r.server.Serves (ready.foldl (serveStream sys) r).server
  | [], r => .refl _
  | id :: ready, r => by
    obtain ⟨reqs, hreqs⟩ := serveStreams_requests sys ready (serveStream sys r id)
    let body := (r.core.streamBody id).getD []
    exact ⟨(h2Request ((r.core.streamHeaders id).getD []) body, body, sys id) :: reqs, hreqs⟩

theorem handleH2Client_requests (s : ProxyServer) (sys : Nat → Attempt × Attempt)
    (conn : ClientConn) : s.Serves (handleH2Client s sys conn).2 := by
  simp only [handleH2Client]
  rcases ((conn.h2conn.getD (.new true)).feed conn.rbuf).process with ⟨e | ready, c⟩
  · exact .refl s
  · simp only
    split_ifs <;> exact serveStreams_requests sys ready { core := c.toH2Core, server := s }

theorem onRead_requests (s : ProxyServer) (conn : ClientConn) (ev : ClientEvent) :
    s.Serves (onRead s conn ev).2.1 := by
  obtain ⟨proto, buf, wbuf, keepAlive, h2conn⟩ := conn
  unfold onRead onInput
  rcases readClientInput ev.recvs buf with ⟨e | (_ | _), rbuf⟩
  · exact .refl s
  · cases proto with
    | http2 =>
      have h := handleH2Client_requests s ev.sys ⟨.http2, rbuf, wbuf, keepAlive, h2conn⟩
      simp only
      revert h
      rcases handleH2Client s ev.sys ⟨.http2, rbuf, wbuf, keepAlive, h2conn⟩ with ⟨_ | conn', s'⟩
      · exact id
      · exact id
    | http1 =>
      simp only
      rcases parseInput rbuf with ⟨_ | _ | _, req⟩
      · simp only
        split_ifs
        · exact .refl s
        · exact .refl s
        · exact .dispatch s req _ _
      · exact .refl s
      · exact .refl s
  · exact .refl s

/-- **An event on a connection** moves the server by requests, over HTTP/1 and over HTTP/2. -/
theorem onClientEvent_requests (s : ProxyServer) (conn : ClientConn) (ev : ClientEvent) :
    s.Serves (onClientEvent s conn ev).2.1 := by
  have h : s.Serves (if ev.read then onRead s conn ev else (.proceed conn, s, [])).2.1 := by
    split_ifs
    · exact onRead_requests s conn ev
    · exact .refl s
  unfold onClientEvent
  by_cases hend : ev.hangUp = true ∨ ev.error = true
  · rw [if_pos hend]
    exact .refl s
  · rw [if_neg hend]
    revert h
    rcases (if ev.read then onRead s conn ev else (.proceed conn, s, [])) with
      ⟨_ | conn' | conn', s', ts⟩ <;> exact id

end Uproxy
