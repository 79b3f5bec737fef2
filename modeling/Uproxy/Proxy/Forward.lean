import Uproxy.Http1.Serializer
import Uproxy.Lib.Run
import Uproxy.Pool.Upstream

/-!
# Forwarding over pooled connections (`forward_http1`)

A request is written to a connection of its upstream's pool and the response is read from it; when
writing or reading fails, it is tried once more on another connection. What the system answers in
the two attempts is an input (`Attempt`). `Net.outstanding` holds the connections that the `conn`
variables of running calls own: `acquire` moves one there, and it leaves by being moved into
`release` or with the scope of its variable.

* `forwardLoop_accounts`: what a call does to the ledger of the pool. An attempt that fails on a
  connection drops it and calls `release(nullptr)`, which gives no slot back;
* `Net.Accounts.step`, `Net.Accounts.run`: the ledger along a run of calls and ticks;
* **`pool_slots_conserved`**: `total_` counts the idle connections throughout a run exactly when no
  call fails on a connection it was handed;
* `exhausted_run`: once no slot is left, none ever is.
-/

namespace Uproxy

open Lib.Run

/-! ## The code -/

/-- What the system answers in one attempt. -/
structure Attempt where
  calls : ConnectCalls
  /-- The result of `write_all`. -/
  wrote : Result Unit
  /-- The result of `read_response`. -/
  response : Result Bytes
  /-- The clock at `release`. -/
  now : Nat := 0
  deriving DecidableEq, Repr

/-- Endpoints, pools and the connections owned by running calls. -/
structure Net where
  endpoints   : List UpstreamEndpoint
  pools       : PoolManager
  outstanding : List PooledConn := []

/-- What the retry loop changes. -/
structure Exchange where
  endpoints   : List UpstreamEndpoint
  pool        : UpstreamPool
  outstanding : List PooledConn
  deriving DecidableEq, Repr

/-- `release(nullptr)`, and the end of the scope that owns the connection. -/
def Exchange.dropConn (x : Exchange) (now : Nat) : Exchange :=
  { x with pool := x.pool.release now none, outstanding := x.outstanding.tail }

/-- `release(std::move(conn))`. -/
def Exchange.giveBack (x : Exchange) (now : Nat) (conn : PooledConn) : Exchange :=
  { x with pool := x.pool.release now (some conn), outstanding := x.outstanding.tail }

/-- The retry loop of `forward_http1`, from attempt number `attempt` on. -/
def forwardLoop (attempt : Nat) : List Attempt → Exchange → Result Bytes × Exchange
  | [], x => (.error (.fromCode .noUpstream "upstream request failed after retry"), x)
  | a :: rest, x =>
    match x.pool.acquire x.endpoints a.calls with
    | (.error e, pool, endpoints) => (.error e, { x with pool, endpoints })
    | (.ok conn, pool, endpoints) =>
      let x : Exchange := { endpoints, pool, outstanding := conn :: x.outstanding }
      match a.wrote with
      | .error e =>
        if attempt = 0 then forwardLoop (attempt + 1) rest (x.dropConn a.now)
        else (.error e, x.dropConn a.now)
      | .ok () =>
        match a.response with
        | .error e =>
          if attempt = 0 then forwardLoop (attempt + 1) rest (x.dropConn a.now)
          else (.error e, x.dropConn a.now)
        | .ok bytes =>
          (.ok bytes, x.giveBack a.now { conn with requestCount := conn.requestCount + 1 })

/-- `upstream_host`. -/
def upstreamHost (ep : UpstreamEndpoint) : Bytes := ep.addr ++ colon :: decimal ep.port.toNat

namespace Net

/-- The endpoint a request goes to. -/
def endpoint (net : Net) (up : Nat) : UpstreamEndpoint := net.endpoints.getD up {}

/-- The pool of an upstream, as `get` returns it. -/
def pool (net : Net) (up : Nat) : UpstreamPool := (net.pools.get net.endpoints up).1

/-- What a call leaves behind: the pool has changed through the reference `get` returned. -/
def settle (net : Net) (up : Nat) (x : Exchange) : Net :=
  ⟨x.endpoints, (net.pools.get net.endpoints up).2.put (net.endpoint up).name x.pool, x.outstanding⟩

/-- `forward_http1`, with the answers of its two attempts. -/
def forwardHttp1 (net : Net) (req : HttpRequest) (body : Bytes) (up : Nat)
    (first second : Attempt) : Result Bytes × Net :=
  match upstreamRequest req body (upstreamHost (net.endpoint up)) with
  | .error e => (.error e, net)
  | .ok _ =>
    let (response, x) := forwardLoop 0 [first, second] ⟨net.endpoints, net.pool up, net.outstanding⟩
    (response, net.settle up x)

end Net

/-- What happens to the pool of an upstream. -/
inductive NetOp where
  | forward (req : HttpRequest) (body : Bytes) (first second : Attempt)
  | tick (ts : Nat)
  deriving DecidableEq, Repr

/-- One call of `forward_http1` on `up`, or one tick. -/
def Net.step (up : Nat) (net : Net) : NetOp → Net
  | .forward req body first second => (net.forwardHttp1 req body up first second).2
  | .tick ts => { net with pools := net.pools.tick ts }

/-! ## One call -/

/-- The attempt ends with the loss of its connection. -/
def Attempt.Failed (a : Attempt) : Prop := (∃ e, a.wrote = .error e) ∨ ∃ e, a.response = .error e

instance Attempt.instDecidableFailed (a : Attempt) : Decidable a.Failed :=
  decidable_of_iff ((a.wrote.isOk && a.response.isOk) = false) (by
    unfold Attempt.Failed
    cases a.wrote <;> cases a.response <;> simp [Except.isOk, Except.toBool])

/-- The attempts that are handed a connection and fail on it. -/
def lostSlots (attempt : Nat) : List Attempt → Exchange → Nat
  | [], _ => 0
  | a :: rest, x =>
    match x.pool.acquire x.endpoints a.calls with
    | (.error _, _, _) => 0
    | (.ok conn, pool, endpoints) =>
      if a.Failed then
        let x : Exchange := { endpoints, pool, outstanding := conn :: x.outstanding }
        1 + if attempt = 0 then lostSlots (attempt + 1) rest (x.dropConn a.now) else 0
      else 0

/-- One turn of the loop with a connection in hand. -/
theorem forwardLoop_ok {a : Attempt} {x : Exchange} {conn : PooledConn} {pool : UpstreamPool}
    {endpoints : List UpstreamEndpoint} (attempt : Nat) (rest : List Attempt)
    (h : x.pool.acquire x.endpoints a.calls = (.ok conn, pool, endpoints)) :
    let y : Exchange := { endpoints, pool, outstanding := conn :: x.outstanding }
    (a.Failed ∧ ((attempt = 0 ∧ forwardLoop attempt (a :: rest) x =
        forwardLoop (attempt + 1) rest (y.dropConn a.now)) ∨
      attempt ≠ 0 ∧ ∃ e, forwardLoop attempt (a :: rest) x = (.error e, y.dropConn a.now))) ∨
    ¬ a.Failed ∧ ∃ bytes, forwardLoop attempt (a :: rest) x =
      (.ok bytes, y.giveBack a.now { conn with requestCount := conn.requestCount + 1 }) := by
  intro y
  simp only [forwardLoop, h, Attempt.Failed]
  by_cases h0 : attempt = 0 <;> cases a.wrote <;> cases a.response <;> simp [h0, y]

theorem name_countFailed (eps : List UpstreamEndpoint) (i up : Nat) :
    ((countFailed eps i).getD up {}).name = (eps.getD up {}).name := by
  unfold countFailed
  rw [List.getD_eq_getElem?_getD, List.getD_eq_getElem?_getD, List.getElem?_modify]
  cases eps[up]? with
  | none => rfl
  | some ep =>
    rw [Option.map_eq_map, Option.map_some, Option.getD_some, Option.getD_some]
    split_ifs <;> rfl

/-- **One call** loses the slots of the attempts that fail on a connection, and nothing else; it
owns no connection when it returns. -/
theorem forwardLoop_accounts (attempt : Nat) : ∀ (as : List Attempt) (x : Exchange) {lost : Nat},
    x.pool.Accounts 0 lost →
      (forwardLoop attempt as x).2.pool.Accounts 0 (lost + lostSlots attempt as x) ∧
      (forwardLoop attempt as x).2.outstanding = x.outstanding ∧
      ∀ up, ((forwardLoop attempt as x).2.endpoints.getD up {}).name =
        (x.endpoints.getD up {}).name
  | [], x, lost, h => ⟨h, rfl, fun _ => rfl⟩
  | a :: rest, x, lost, h => by
    rcases h.acquire x.endpoints a.calls with ⟨conn, pool, -, heq, hp⟩ | ⟨e, eps, -, heq, heps⟩
    · let y : Exchange := ⟨x.endpoints, pool, conn :: x.outstanding⟩
      have hlost : lostSlots attempt (a :: rest) x = if a.Failed then
          1 + (if attempt = 0 then lostSlots (attempt + 1) rest (y.dropConn a.now) else 0)
          else 0 := by
        simp only [lostSlots, heq, y]
      rcases forwardLoop_ok attempt rest heq with
        ⟨hf, ⟨h0, hloop⟩ | ⟨h0, e, hloop⟩⟩ | ⟨hf, bytes, hloop⟩
      · obtain ⟨ih1, ih2, ih3⟩ := forwardLoop_accounts (attempt + 1) rest (y.dropConn a.now)
          (hp.release_none a.now)
        rw [hloop, hlost, if_pos hf, if_pos h0, ← Nat.add_assoc]
        exact ⟨ih1, ih2, ih3⟩
      · rw [hloop, hlost, if_pos hf, if_neg h0]
        exact ⟨hp.release_none a.now, rfl, fun _ => rfl⟩
      · rw [hloop, hlost, if_neg hf]
        exact ⟨hp.release a.now _, rfl, fun _ => rfl⟩
    · -- no connection, and at most a failed request counted
      have hloop : forwardLoop attempt (a :: rest) x = (.error e, { x with endpoints := eps }) := by
        simp only [forwardLoop, heq]
      have hlost : lostSlots attempt (a :: rest) x = 0 := by simp only [lostSlots, heq]
      rw [hloop, hlost]
      refine ⟨h, rfl, fun up => ?_⟩
      rcases heps with rfl | rfl
      · rfl
      · exact name_countFailed _ _ up

/-- A call loses a slot exactly when its first attempt is handed a connection and fails on it. -/
theorem lostSlots_eq_zero_iff {a : Attempt} {rest : List Attempt} {x : Exchange} {lost : Nat}
    (h : x.pool.Accounts 0 lost) :
    lostSlots 0 (a :: rest) x = 0 ↔ ¬ (x.pool.Serves a.calls ∧ a.Failed) := by
  rcases h.acquire x.endpoints a.calls with ⟨conn, pool, hs, heq, -⟩ | ⟨e, eps, hs, heq, -⟩
  · by_cases hf : a.Failed
    · simp [lostSlots, heq, hf, hs]
    · simp [lostSlots, heq, hf]
  · simp [lostSlots, heq, hs]

/-! ## Runs -/

namespace Net

/-- The ledger of an upstream's pool when no call is running. -/
structure Accounts (up : Nat) (net : Net) (lost : Nat) : Prop where
  returned : net.outstanding = []
  ledger   : (net.pool up).Accounts 0 lost

/-- The operation loses a slot: a request whose values can be written is handed a connection in its
first attempt and fails on it. -/
def Loses (up : Nat) (net : Net) : NetOp → Prop
  | .forward req _ first _ =>
    (∀ h ∈ keptFields requestSkips req.headers, validHeaderValue h.value = true) ∧
      (net.pool up).Serves first.calls ∧ first.Failed
  | .tick _ => False

/-- The slots an operation loses. -/
def lost (up : Nat) (net : Net) : NetOp → Nat
  | .forward req body first second =>
    match upstreamRequest req body (upstreamHost (net.endpoint up)) with
    | .error _ => 0
    | .ok _ => lostSlots 0 [first, second] ⟨net.endpoints, net.pool up, net.outstanding⟩
  | .tick _ => 0

/-- The pool a call leaves is the one the next call gets. -/
theorem pool_settle {net : Net} {up : Nat} {x : Exchange}
    (h : (x.endpoints.getD up {}).name = (net.endpoint up).name) :
    (net.settle up x).pool up = x.pool := by
  simp only [settle, pool, PoolManager.get, PoolManager.put, h, Function.update_self]

theorem pool_tick (net : Net) (up ts : Nat) :
    pool { net with pools := net.pools.tick ts } up =
      (net.pool up).evictIdle ts := by
  simp only [pool, PoolManager.get, PoolManager.tick]
  cases net.pools.pools (net.endpoints.getD up {}).name <;> rfl

/-- **One step** of a run moves the ledger by the slots it loses. -/
theorem Accounts.step {up : Nat} {net : Net} {n : Nat} (h : Accounts up net n) (op : NetOp) :
    Accounts up (Net.step up net op) (n + lost up net op) := by
  cases op with
  | tick ts =>
    have := h.ledger.evictIdle ts
    rw [← pool_tick] at this
    exact ⟨h.returned, this⟩
  | forward req body first second =>
    simp only [Net.step, forwardHttp1, lost]
    cases upstreamRequest req body (upstreamHost (net.endpoint up)) with
    | error e => exact h
    | ok bytes =>
      obtain ⟨h1, h2, h3⟩ := forwardLoop_accounts 0 [first, second]
        ⟨net.endpoints, net.pool up, net.outstanding⟩ h.ledger
      refine ⟨h2.trans h.returned, ?_⟩
      rw [pool_settle (h3 up)]
      exact h1

theorem Accounts.lost_eq_zero_iff {up : Nat} {net : Net} {n : Nat} (h : Accounts up net n)
    (op : NetOp) : lost up net op = 0 ↔ ¬ Loses up net op := by
  cases op with
  | tick ts => exact ⟨fun _ hl => hl, fun _ => rfl⟩
  | forward req body first second =>
    have hvalid := upstreamRequest_isOk_iff req body (upstreamHost (net.endpoint up))
    simp only [lost, Loses]
    cases hreq : upstreamRequest req body (upstreamHost (net.endpoint up)) with
    | error e =>
      rw [hreq] at hvalid
      exact iff_of_true rfl fun hl => Bool.noConfusion (hvalid.mpr hl.1)
    | ok bytes =>
      rw [hreq] at hvalid
      rw [lostSlots_eq_zero_iff h.ledger, and_iff_right (hvalid.mp rfl)]

/-- **The ledger of a run** that starts with no pools. -/
theorem accounts_run (cfg : PoolConfig) (eps : List UpstreamEndpoint) (up : Nat)
    (ops : List NetOp) :
    Accounts up (run (Net.step up) ⟨eps, { cfg }, []⟩ ops)
      (cost (Net.step up) (lost up) ⟨eps, { cfg }, []⟩ ops) := by
  have h0 : Accounts up ⟨eps, { cfg }, []⟩ 0 := ⟨rfl, .new up cfg⟩
  have := run_account (A := Accounts up) (fun _ _ op h => h.step op) ops h0
  rwa [Nat.zero_add] at this

end Net

/-- **Slot conservation.** Throughout a run of calls and ticks no connection is owned by a call that
has returned; `total_` counts the idle connections exactly when no call of the run fails on a
connection it was handed. -/
theorem pool_slots_conserved (cfg : PoolConfig) (eps : List UpstreamEndpoint) (up : Nat)
    (ops : List NetOp) :
    (∀ pre, pre <+: ops →
      let net := run (Net.step up) ⟨eps, { cfg }, []⟩ pre
      net.outstanding = [] ∧
        (net.pool up).total.toNat = (net.pool up).idle.length) ↔
      ∀ pre op, pre ++ [op] <+: ops →
        ¬ Net.Loses up (run (Net.step up) ⟨eps, { cfg }, []⟩ pre) op := by
  have hacc := Net.accounts_run cfg eps up
  have hcost : ∀ pre, (let net := run (Net.step up) ⟨eps, { cfg }, []⟩ pre
      net.outstanding = [] ∧
        (net.pool up).total.toNat = (net.pool up).idle.length) ↔
      cost (Net.step up) (Net.lost up) ⟨eps, { cfg }, []⟩ pre = 0 := by
    intro pre
    have heq := (hacc pre).ledger.total_eq
    constructor
    · rintro ⟨-, hidle⟩
      omega
    · intro h0
      exact ⟨(hacc pre).returned, by omega⟩
  simp only [hcost, ← (hacc _).lost_eq_zero_iff]
  exact cost_eq_zero_iff

/-- An upstream that accepts connections and answers nothing costs two slots a request. -/
theorem pool_slots_conserved_silent :
    let silent : Attempt :=
      ⟨{ socket := 5 }, .ok (), .error (.fromCode .timeout "read upstream"), 0⟩
    let net := run (Net.step 0) ⟨[{}], { cfg := {} }, []⟩ [.forward {} [] silent silent]
    net.outstanding = [] ∧ (net.pool 0).total = 2 ∧ (net.pool 0).idle = [] := by
  decide +kernel

/-! ## Exhaustion -/

/-- A pool with nothing left to hand out. -/
def UpstreamPool.Exhausted (p : UpstreamPool) : Prop :=
  p.idle = [] ∧ p.cfg.maxConnsPerUpstream ≤ p.total

theorem forwardLoop_exhausted {x : Exchange} (h : x.pool.Exhausted) (attempt : Nat) (a : Attempt)
    (rest : List Attempt) :
    forwardLoop attempt (a :: rest) x =
      (.error (.fromCode .timeout "upstream pool exhausted"), x) := by
  have heq : x.pool.acquire x.endpoints a.calls =
      (.error (.fromCode .timeout "upstream pool exhausted"), x.pool, x.endpoints) := by
    unfold UpstreamPool.acquire
    rw [h.1]
    exact if_pos h.2
  simp only [forwardLoop, heq]

theorem Net.exhausted_step {up : Nat} {net : Net} (h : (net.pool up).Exhausted) (op : NetOp) :
    ((Net.step up net op).pool up).Exhausted := by
  cases op with
  | tick ts =>
    show (pool { net with pools := net.pools.tick ts } up).Exhausted
    rw [pool_tick]
    unfold UpstreamPool.evictIdle
    rw [h.1]
    exact ⟨rfl, h.2⟩
  | forward req body first second =>
    simp only [Net.step, forwardHttp1]
    cases upstreamRequest req body (upstreamHost (net.endpoint up)) with
    | error e => exact h
    | ok bytes =>
      simp only [forwardLoop_exhausted (x := ⟨net.endpoints, net.pool up, net.outstanding⟩) h]
      rw [pool_settle rfl]
      exact h

/-- **Lost slots do not come back**: once a pool is exhausted between two calls, it is for good, and
every later request ends with a timeout. -/
theorem Net.exhausted_run {up : Nat} {net : Net} (h : (net.pool up).Exhausted) (ops : List NetOp)
    (req : HttpRequest) (body : Bytes) (first second : Attempt) {bytes : Bytes} :
    let net' := run (Net.step up) net ops
    upstreamRequest req body (upstreamHost (net'.endpoint up)) = .ok bytes →
      (net'.forwardHttp1 req body up first second).1 =
        .error (.fromCode .timeout "upstream pool exhausted") := by
  intro net' hreq
  have hnet : (net'.pool up).Exhausted :=
    run_inv (P := fun net : Net => (net.pool up).Exhausted)
      (fun _ op hn => exhausted_step hn op) ops h
  unfold forwardHttp1
  rw [hreq]
  simp only [forwardLoop_exhausted (x := ⟨net'.endpoints, net'.pool up, net'.outstanding⟩) hnet]

end Uproxy
