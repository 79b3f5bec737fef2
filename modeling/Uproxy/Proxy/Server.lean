import Uproxy.Http2.Conn
import Uproxy.Pool.Balancer
import Uproxy.Proxy.Forward

/-!
# The proxy server (`ProxyServer`)

The members of `ProxyServer` that requests go through, and what `on_client_event` and
`handle_h2_client` do alike with a request: ask the load balancer for an upstream and forward the
request to it (`dispatch`). The load balancer and the pools share their endpoints, so the endpoints
`forward_http1` works on are those of the load balancer, and what it counts on them goes back there
(`settle`).

Of `ClientConn` the members nothing reads are left out (`state`, `current_req`, `req_count`,
`upstream`, `upstream_conn`, `up_rbuf`, `up_wbuf`, `connected_at_ms`, `request_at_ms`,
`remote_addr`), and the TLS members, since the connections here are cleartext ones or stand behind
the TLS layer.
-/

namespace Uproxy

/-- `ProxyServer`. -/
structure ProxyServer where
  lb    : WeightedRoundRobin
  pools : PoolManager

/-- `ClientConn::Proto`. -/
inductive Proto where
  | http1 | http2
  deriving DecidableEq, Repr

/-- `ClientConn`. -/
structure ClientConn where
  proto     : Proto := .http1
  rbuf      : Bytes := []
  wbuf      : Bytes := []
  keepAlive : Bool := true
  h2conn    : Option H2Conn := none

/-- What comes of a request: no healthy upstream, an error of `forward_http1`, or a response. -/
inductive Answer where
  | noUpstream
  | failed (e : Error)
  | response (bytes : Bytes)
  deriving DecidableEq, Repr

namespace ProxyServer

/-- What `forward_http1` works on. -/
def net (s : ProxyServer) : Net := ⟨s.lb.endpoints.map LbEndpoint.toUpstreamEndpoint, s.pools, []⟩

/-- The server behind a call of `forward_http1`. -/
def settle (s : ProxyServer) (net : Net) : ProxyServer where
  pools := net.pools
  lb :=
    { endpoints := s.lb.endpoints.mapIdx fun i ep =>
        { ep with toUpstreamEndpoint := net.endpoints.getD i ep.toUpstreamEndpoint }
      currentWeights := s.lb.currentWeights
      length_eq := by rw [List.length_mapIdx, s.lb.length_eq]
      weight_pos := by
        intro ep hep
        obtain ⟨i, hi, rfl⟩ := List.mem_mapIdx.mp hep
        exact s.lb.weight_pos s.lb.endpoints[i] (List.getElem_mem hi) }

/-- `lb_.next()` and `forward_http1`, with the answers of its two attempts. -/
def dispatch (s : ProxyServer) (req : HttpRequest) (body : Bytes) (sys : Attempt × Attempt) :
    Answer × ProxyServer :=
  match s.lb.next with
  | (none, lb) => (.noUpstream, { s with lb })
  | (some up, lb) =>
    let s : ProxyServer := { s with lb }
    match s.net.forwardHttp1 req body up sys.1 sys.2 with
    | (.error e, net) =>
      (.failed e, s.settle { net with endpoints := countFailed net.endpoints up })
    | (.ok bytes, net) => (.response bytes, s.settle net)

/-- A request is forwarded exactly if the load balancer has an upstream for it. -/
theorem dispatch_noUpstream_iff (s : ProxyServer) (req : HttpRequest) (body : Bytes)
    (sys : Attempt × Attempt) :
    (s.dispatch req body sys).1 = .noUpstream ↔ s.lb.next.1 = none := by
  unfold dispatch
  rcases s.lb.next with ⟨_ | up, lb⟩
  · exact iff_of_true rfl rfl
  · simp only
    rcases Net.forwardHttp1 _ req body up sys.1 sys.2 with ⟨e | bytes, net⟩ <;> simp

end ProxyServer

end Uproxy
