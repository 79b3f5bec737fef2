import Uproxy.Config
import Mathlib.Data.List.Basic
import Mathlib.Logic.Function.Basic

/-!
# Upstream connection pools (`upstream_pool.cpp`)

An `UpstreamPool` keeps idle connections in a deque and counts the connections it has opened in
`total_`, a `uint32_t`. Endpoints are shared between the load balancer and the pools: they are the
entries of one list, and a pool holds the position of its own. What the system answers while a
connection is opened is an input (`ConnectCalls`).

Pools are used from one thread, that of the event loop: while `acquire` waits for an idle
connection nothing can bring one, so the wait ends with the timeout.

* `Accounts p out lost` is the ledger of a pool: `total_` counts the idle connections, those handed
  out, and the slots lost, and stays within `max_conns_per_upstream`;
* `acquire_cases` is all `acquire` can do, `release_cases` all `release` can do;
* `evictLoop_idle`: eviction leaves the connections that are not stale, in their order;
* `Accounts.acquire`, `Accounts.release`, `Accounts.evictIdle`: how the ledger moves. Giving back a
  null pointer moves nothing (`release_none`), which loses the slot of the connection it was for.
-/

namespace Uproxy

/-! ## The code -/

/-- `UpstreamEndpoint`, as far as pools and forwarding use it. -/
structure UpstreamEndpoint where
  addr           : Bytes := []
  port           : UInt16 := 0
  name           : Bytes := []
  failedRequests : Nat := 0
  deriving DecidableEq, Repr

/-- `PooledConn`. -/
structure PooledConn where
  fd           : Int
  inUse        : Bool := false
  requestCount : Nat := 0
  createdAtMs  : Nat := 0
  lastUsedAtMs : Nat := 0
  deriving DecidableEq, Repr

/-- `Uniquefd::valid`. -/
def PooledConn.valid (c : PooledConn) : Bool := 0 ≤ c.fd

/-- What `connect` returns on a non-blocking socket. -/
inductive ConnectRc where
  | done
  | inProgress
  | failed (errno : Int)
  deriving DecidableEq, Repr

/-- What the system answers while a connection is opened. -/
structure ConnectCalls where
  /-- The descriptor, negative on failure, and the errno then. -/
  socket      : Int
  socketErrno : Int := 0
  /-- `Uniquefd::set_nonblocking`. -/
  nonblocking : Result Unit := .ok ()
  /-- `inet_pton` reads the address. -/
  addrParses  : Bool := true
  connect     : ConnectRc := .done
  /-- `poll` answers before the timeout. -/
  writable    : Bool := true
  /-- `getsockopt` fails or reports an error. -/
  soError     : Bool := false
  /-- The clock. -/
  now         : Nat := 0
  deriving DecidableEq, Repr

/-- `UpstreamPool::new_connection`. -/
def newConnection (c : ConnectCalls) : Result PooledConn :=
  let conn : PooledConn :=
    { fd := c.socket, inUse := true, createdAtMs := c.now, lastUsedAtMs := c.now }
  if c.socket < 0 then .error (.fromErrno c.socketErrno "socket upstream")
  else
    match c.nonblocking with
    | .error e => .error e
    | .ok () =>
      if ¬ c.addrParses then .error (.fromCode .configInvalid "upstream address must be IPv4")
      else
        match c.connect with
        | .failed errno => .error (.fromErrno errno "connect upstream")
        | .done => .ok conn
        | .inProgress =>
          if ¬ c.writable then .error (.fromCode .timeout "connect upstream timeout")
          else if c.soError then .error (.fromCode .sysError "connect upstream failed")
          else .ok conn

/-- `UpstreamPool`; `endpoint` is the position of the shared endpoint. -/
structure UpstreamPool where
  endpoint : Nat
  cfg      : PoolConfig
  idle     : List PooledConn := []
  total    : UInt32 := 0
  deriving DecidableEq, Repr

/-- `failed_requests.fetch_add(1)` on a shared endpoint. -/
def countFailed (eps : List UpstreamEndpoint) (i : Nat) : List UpstreamEndpoint :=
  eps.modify i fun ep => { ep with failedRequests := ep.failedRequests + 1 }

namespace UpstreamPool

/-- `UpstreamPool::acquire`. -/
def acquire (p : UpstreamPool) (eps : List UpstreamEndpoint) (c : ConnectCalls) :
    Result PooledConn × UpstreamPool × List UpstreamEndpoint :=
  match p.idle with
  | conn :: rest => (.ok { conn with inUse := true }, { p with idle := rest }, eps)
  | [] =>
    if p.cfg.maxConnsPerUpstream ≤ p.total then
      (.error (.fromCode .timeout "upstream pool exhausted"), p, eps)
    else
      let p := { p with total := p.total + 1 }
      match newConnection c with
      | .error e => (.error e, { p with total := p.total - 1 }, countFailed eps p.endpoint)
      | .ok conn => (.ok conn, p, eps)

/-- `UpstreamPool::release`; `none` is a null pointer. -/
def release (p : UpstreamPool) (now : Nat) : Option PooledConn → UpstreamPool
  | none => p
  | some conn =>
    let conn := { conn with inUse := false, lastUsedAtMs := now }
    if ¬ conn.valid ∨ p.cfg.maxKeepalive.toNat ≤ conn.requestCount then
      { p with total := p.total - 1 }
    else { p with idle := p.idle ++ [conn] }

/-- The test of `evict_idle`. -/
def isStale (cfg : PoolConfig) (ts : Nat) (c : PooledConn) : Bool :=
  c.lastUsedAtMs ≤ ts && cfg.idleTimeoutMs.toNat < ts - c.lastUsedAtMs

/-- The loop of `evict_idle`, over the rest of the deque and the counter. -/
def evictLoop (cfg : PoolConfig) (ts : Nat) : List PooledConn → UInt32 → List PooledConn × UInt32
  | [], n => ([], n)
  | c :: cs, n =>
    if isStale cfg ts c then evictLoop cfg ts cs (n - 1)
    else
      let (kept, n) := evictLoop cfg ts cs n
      (c :: kept, n)

/-- `UpstreamPool::evict_idle`. -/
def evictIdle (p : UpstreamPool) (ts : Nat) : UpstreamPool :=
  let (idle, total) := evictLoop p.cfg ts p.idle p.total
  { p with idle, total }

/-- `UpstreamPool::drain`. -/
def drain (p : UpstreamPool) : UpstreamPool := { p with idle := [], total := 0 }

end UpstreamPool

/-- `PoolManager`: the pools by the name of their endpoint. -/
structure PoolManager where
  cfg   : PoolConfig
  pools : Bytes → Option UpstreamPool := fun _ => none

namespace PoolManager

/-- `PoolManager::get`, with the manager after it. -/
def get (m : PoolManager) (eps : List UpstreamEndpoint) (up : Nat) : UpstreamPool × PoolManager :=
  let key := (eps.getD up {}).name
  match m.pools key with
  | some p => (p, m)
  | none =>
    let p : UpstreamPool := { endpoint := up, cfg := m.cfg }
    (p, { m with pools := Function.update m.pools key (some p) })

/-- A pool changed through the reference `get` returned. -/
def put (m : PoolManager) (key : Bytes) (p : UpstreamPool) : PoolManager :=
  { m with pools := Function.update m.pools key (some p) }

/-- `PoolManager::tick`. -/
def tick (m : PoolManager) (ts : Nat) : PoolManager :=
  { m with pools := fun key => (m.pools key).map fun p => p.evictIdle ts }

end PoolManager

/-! ## What `acquire` can do -/

namespace UpstreamPool

/-- `acquire` finds a connection: an idle one, or a new one within the limit. -/
def Serves (p : UpstreamPool) (c : ConnectCalls) : Prop :=
  p.idle ≠ [] ∨ p.total < p.cfg.maxConnsPerUpstream ∧ ∃ conn, newConnection c = .ok conn

/-- Every way through `acquire`. -/
theorem acquire_cases (p : UpstreamPool) (eps : List UpstreamEndpoint) (c : ConnectCalls) :
    (∃ conn rest, p.idle = conn :: rest ∧
      p.acquire eps c = (.ok { conn with inUse := true }, { p with idle := rest }, eps)) ∨
    (p.idle = [] ∧ p.cfg.maxConnsPerUpstream ≤ p.total ∧
      p.acquire eps c = (.error (.fromCode .timeout "upstream pool exhausted"), p, eps)) ∨
    (∃ e, p.idle = [] ∧ p.total < p.cfg.maxConnsPerUpstream ∧ newConnection c = .error e ∧
      p.acquire eps c = (.error e, p, countFailed eps p.endpoint)) ∨
    (∃ conn, p.idle = [] ∧ p.total < p.cfg.maxConnsPerUpstream ∧ newConnection c = .ok conn ∧
      p.acquire eps c = (.ok conn, { p with total := p.total + 1 }, eps)) := by
  unfold acquire
  cases hidle : p.idle with
  | cons conn rest => exact Or.inl ⟨conn, rest, rfl, rfl⟩
  | nil =>
    by_cases hmax : p.cfg.maxConnsPerUpstream ≤ p.total
    · exact Or.inr (Or.inl ⟨rfl, hmax, if_pos hmax⟩)
    · have hlt := UInt32.not_le.mp hmax
      simp only [if_neg hmax]
      cases hc : newConnection c with
      | error e =>
        refine Or.inr (Or.inr (Or.inl ⟨e, trivial, hlt, rfl, ?_⟩))
        -- the slot taken for the connection is given back
        rw [UInt32.add_sub_cancel, ← hidle]
      | ok conn => exact Or.inr (Or.inr (Or.inr ⟨conn, trivial, hlt, rfl, by rw [← hidle]⟩))

/-- Every way through `release`, for a connection. -/
theorem release_cases (p : UpstreamPool) (now : Nat) (conn : PooledConn) :
    ((conn.valid = false ∨ p.cfg.maxKeepalive.toNat ≤ conn.requestCount) ∧
      p.release now (some conn) = { p with total := p.total - 1 }) ∨
    (conn.valid = true ∧ conn.requestCount < p.cfg.maxKeepalive.toNat ∧
      p.release now (some conn) =
        { p with idle := p.idle ++ [{ conn with inUse := false, lastUsedAtMs := now }] }) := by
  by_cases h : ¬ conn.valid ∨ p.cfg.maxKeepalive.toNat ≤ conn.requestCount
  · exact Or.inl ⟨h.imp_left Bool.eq_false_iff.mpr, if_pos h⟩
  · rw [not_or, not_not, Nat.not_le] at h
    refine Or.inr ⟨h.1, h.2, if_neg ?_⟩
    rw [not_or, not_not, Nat.not_le]
    exact h

/-! ## The ledger -/

/-- **The ledger of a pool**: `total_` counts the idle connections, `out` handed out ones and
`lost` slots that belong to no connection. -/
structure Accounts (p : UpstreamPool) (out lost : Nat) : Prop where
  total_eq : p.total.toNat = p.idle.length + out + lost
  le_max   : p.total ≤ p.cfg.maxConnsPerUpstream

variable {p : UpstreamPool} {out lost : Nat}

theorem Accounts.new (endpoint : Nat) (cfg : PoolConfig) : Accounts { endpoint, cfg } 0 0 :=
  ⟨rfl, UInt32.le_iff_toNat_le.mpr (Nat.zero_le _)⟩

/-- Below a limit a counter does not wrap. -/
theorem toNat_succ {n m : UInt32} (h : n < m) : (n + 1).toNat = n.toNat + 1 := by
  rw [UInt32.toNat_add]
  exact Nat.mod_eq_of_lt (Nat.lt_of_le_of_lt (UInt32.lt_iff_toNat_lt.mp h) m.toNat_lt)

/-- One more connection is handed out, or the ledger is as it was. -/
theorem Accounts.acquire (h : p.Accounts out lost) (eps : List UpstreamEndpoint)
    (c : ConnectCalls) :
    (∃ conn p', p.Serves c ∧ p.acquire eps c = (.ok conn, p', eps) ∧ p'.Accounts (out + 1) lost) ∨
    (∃ e eps', ¬ p.Serves c ∧ p.acquire eps c = (.error e, p, eps') ∧
      (eps' = eps ∨ eps' = countFailed eps p.endpoint)) := by
  rcases p.acquire_cases eps c with ⟨conn, rest, hidle, heq⟩ | ⟨hidle, hmax, heq⟩ |
    ⟨e, hidle, hlt, hc, heq⟩ | ⟨conn, hidle, hlt, hc, heq⟩
  · refine Or.inl ⟨_, _, Or.inl (by simp [hidle]), heq, ?_, h.le_max⟩
    have := h.total_eq
    rw [hidle, List.length_cons] at this
    show p.total.toNat = rest.length + (out + 1) + lost
    omega
  · refine Or.inr ⟨_, _, ?_, heq, Or.inl rfl⟩
    rintro (hne | ⟨hlt, -⟩)
    · exact hne hidle
    · exact UInt32.not_lt.mpr hmax hlt
  · refine Or.inr ⟨_, _, ?_, heq, Or.inr rfl⟩
    rintro (hne | ⟨-, conn, hok⟩)
    · exact hne hidle
    · rw [hc] at hok
      cases hok
  · have hsucc := toNat_succ hlt
    refine Or.inl ⟨_, _, Or.inr ⟨hlt, conn, hc⟩, heq, ?_, UInt32.le_iff_toNat_le.mpr ?_⟩
    · have := h.total_eq
      show (p.total + 1).toNat = p.idle.length + (out + 1) + lost
      omega
    · rw [hsucc]
      exact UInt32.lt_iff_toNat_lt.mp hlt

theorem toNat_pred {n : UInt32} (h : 0 < n.toNat) : (n - 1).toNat = n.toNat - 1 :=
  UInt32.toNat_sub_of_le n 1 (UInt32.le_iff_toNat_le.mpr h)

/-- A connection given back is idle again, or its slot is free. -/
theorem Accounts.release (h : p.Accounts (out + 1) lost) (now : Nat) (conn : PooledConn) :
    (p.release now (some conn)).Accounts out lost := by
  have heq := h.total_eq
  rcases p.release_cases now conn with ⟨-, hr⟩ | ⟨-, -, hr⟩ <;> rw [hr]
  · have hpred := toNat_pred (n := p.total) (by omega)
    refine ⟨?_, UInt32.le_trans (UInt32.le_iff_toNat_le.mpr ?_) h.le_max⟩
    · show (p.total - 1).toNat = p.idle.length + out + lost
      omega
    · show (p.total - 1).toNat ≤ p.total.toNat
      omega
  · refine ⟨?_, h.le_max⟩
    show p.total.toNat = (p.idle ++ [_]).length + out + lost
    rw [List.length_append, List.length_singleton]
    omega

/-- A null pointer gives nothing back: the slot of the dropped connection is lost. -/
theorem Accounts.release_none (h : p.Accounts (out + 1) lost) (now : Nat) :
    (p.release now none).Accounts out (lost + 1) :=
  ⟨by have := h.total_eq; show p.total.toNat = p.idle.length + out + (lost + 1); omega, h.le_max⟩

theorem evictLoop_total (cfg : PoolConfig) (ts k : Nat) : ∀ (cs : List PooledConn) (n : UInt32),
    n.toNat = cs.length + k →
      (evictLoop cfg ts cs n).2.toNat = (evictLoop cfg ts cs n).1.length + k ∧
        (evictLoop cfg ts cs n).2.toNat ≤ n.toNat
  | [], n, h => ⟨h, Nat.le_refl _⟩
  | c :: cs, n, h => by
    rw [List.length_cons] at h
    unfold evictLoop
    split_ifs
    · have hpred := toNat_pred (n := n) (by omega)
      obtain ⟨h1, h2⟩ := evictLoop_total cfg ts k cs (n - 1) (by omega)
      exact ⟨h1, by omega⟩
    · obtain ⟨h1, h2⟩ := evictLoop_total cfg ts (k + 1) cs n (by omega)
      refine ⟨?_, h2⟩
      show (evictLoop cfg ts cs n).2.toNat = (c :: (evictLoop cfg ts cs n).1).length + k
      rw [List.length_cons]
      omega

/-- The connections that eviction leaves, in their order. -/
theorem evictLoop_idle (cfg : PoolConfig) (ts : Nat) : ∀ (cs : List PooledConn) (n : UInt32),
    (evictLoop cfg ts cs n).1 = cs.filter fun c => !isStale cfg ts c
  | [], _ => rfl
  | c :: cs, n => by
    unfold evictLoop
    cases hs : isStale cfg ts c with
    | true =>
      rw [if_pos rfl, evictLoop_idle cfg ts cs, List.filter_cons_of_neg (by simp [hs])]
    | false =>
      rw [if_neg (by decide), List.filter_cons_of_pos (by simp [hs]), ← evictLoop_idle cfg ts cs n]

/-- Eviction closes connections and frees their slots. -/
theorem Accounts.evictIdle (h : p.Accounts out lost) (ts : Nat) :
    (p.evictIdle ts).Accounts out lost := by
  have heq := h.total_eq
  obtain ⟨h1, h2⟩ := evictLoop_total p.cfg ts (out + lost) p.idle p.total (by omega)
  refine ⟨?_, UInt32.le_trans (UInt32.le_iff_toNat_le.mpr h2) h.le_max⟩
  show (evictLoop p.cfg ts p.idle p.total).2.toNat = _ + out + lost
  rw [h1, Nat.add_assoc]
  rfl

end UpstreamPool

end Uproxy
