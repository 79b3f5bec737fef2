import Uproxy.Lib.Run
import Uproxy.Pool.Upstream

/-!
# Pools in use

A `Session` is a pool together with the connections its callers hold. Callers acquire connections,
give them back after any number of requests, open or closed, in any order, and the pool is evicted
and drained in between (`PoolOp`). Two members are bookkeeping and not part of the code: whether a
held connection was written off by a `drain`, which resets `total_` while it is out, and how many
requests a descriptor has served since it was opened.

* **`pool_counts_consistent`**: `total_` counts the idle connections and the held ones that are not
  written off, throughout a run, exactly when no connection that was written off is given back.
  `drain` and `release` do not know of each other: such a connection takes a slot off the counter or
  becomes idle without one;
* **`pool_hygiene`**: idle connections are open, unused and below `max_keepalive`, no descriptor is
  in the pool twice or both idle and handed out, none serves more than `max_keepalive` requests, and
  eviction removes the stale ones. `Session.Reach` are the runs it is about, in which the system
  never returns a descriptor that is open.
-/

namespace Uproxy

open Lib.Run

/-- A connection that is handed out. -/
structure Lease where
  conn       : PooledConn
  writtenOff : Bool := false
  deriving DecidableEq, Repr

/-- A pool and the connections handed out, the last one at the end. -/
structure Session where
  pool      : UpstreamPool
  endpoints : List UpstreamEndpoint := []
  held      : List Lease := []
  /-- The requests completed on a descriptor since it was opened. -/
  served    : Int → Nat := fun _ => 0

/-- What is done to a pool. -/
inductive PoolOp where
  | acquire (calls : ConnectCalls)
  /-- A held connection is given back at some time, after some requests, perhaps closed. -/
  | release (i requests : Nat) (closed : Bool) (now : Nat)
  | evictIdle (ts : Nat)
  | drain
  deriving DecidableEq, Repr

/-- A connection as its holder gives it back. -/
def PooledConn.returned (c : PooledConn) (requests : Nat) (closed : Bool) : PooledConn :=
  { c with requestCount := c.requestCount + requests, fd := if closed then -1 else c.fd }

namespace Session

/-- One operation. Only connections that are held can be given back. -/
def step (s : Session) : PoolOp → Session
  | .acquire calls =>
    match s.pool.acquire s.endpoints calls with
    | (.error _, pool, endpoints) => { s with pool, endpoints }
    | (.ok conn, pool, endpoints) =>
      { pool, endpoints
        held := s.held ++ [{ conn }]
        served := if s.pool.idle = [] then Function.update s.served conn.fd 0 else s.served }
  | .release i requests closed now =>
    match s.held[i]? with
    | none => s
    | some l =>
      { s with
        pool := s.pool.release now (some (l.conn.returned requests closed))
        held := s.held.eraseIdx i
        served := Function.update s.served l.conn.fd (s.served l.conn.fd + requests) }
  | .evictIdle ts => { s with pool := s.pool.evictIdle ts }
  | .drain =>
    { s with pool := s.pool.drain, held := s.held.map fun l => { l with writtenOff := true } }

section Step

variable {s : Session} {i requests now : Nat} {closed : Bool} {l : Lease}

theorem step_release_none (h : s.held[i]? = none) :
    s.step (.release i requests closed now) = s := by
  simp only [step, h]

theorem step_release (h : s.held[i]? = some l) :
    s.step (.release i requests closed now) =
      { s with
        pool := s.pool.release now (some (l.conn.returned requests closed))
        held := s.held.eraseIdx i
        served := Function.update s.served l.conn.fd (s.served l.conn.fd + requests) } := by
  simp only [step, h]

end Step

/-- Every way through `acquire`. -/
theorem step_acquire (s : Session) (calls : ConnectCalls) :
    (∃ conn rest, s.pool.idle = conn :: rest ∧ s.step (.acquire calls) =
      { s with pool := { s.pool with idle := rest }
               held := s.held ++ [{ conn := { conn with inUse := true } }] }) ∨
    (∃ endpoints, s.step (.acquire calls) = { s with endpoints }) ∨
    (∃ conn, s.pool.idle = [] ∧ newConnection calls = .ok conn ∧ s.step (.acquire calls) =
      { s with pool := { s.pool with total := s.pool.total + 1 }
               held := s.held ++ [{ conn }]
               served := Function.update s.served conn.fd 0 }) := by
  rcases s.pool.acquire_cases s.endpoints calls with ⟨conn, rest, hidle, heq⟩ | ⟨-, -, heq⟩ |
    ⟨e, -, -, -, heq⟩ | ⟨conn, hidle, -, hc, heq⟩
  · refine Or.inl ⟨conn, rest, hidle, ?_⟩
    simp only [step, heq, hidle, if_neg (List.cons_ne_nil conn rest)]
  · refine Or.inr (Or.inl ⟨s.endpoints, ?_⟩)
    simp only [step, heq]
  · refine Or.inr (Or.inl ⟨countFailed s.endpoints s.pool.endpoint, ?_⟩)
    simp only [step, heq]
  · refine Or.inr (Or.inr ⟨conn, hidle, hc, ?_⟩)
    simp only [step, heq, hidle, if_true]

/-! ## Counting -/

/-- The number of held connections that are not written off. -/
def live (s : Session) : Nat := s.held.countP fun l => !l.writtenOff

/-- The counters are consistent. -/
structure Counts (s : Session) : Prop where
  total_eq : s.pool.total.toNat = s.pool.idle.length + s.live
  idle_le  : s.pool.idle.length ≤ s.pool.total.toNat
  le_max   : s.pool.total ≤ s.pool.cfg.maxConnsPerUpstream

/-- The operation gives back a connection that was written off. -/
def GivesBackWrittenOff (s : Session) : PoolOp → Prop
  | .release i _ _ _ => ∃ l, s.held[i]? = some l ∧ l.writtenOff = true
  | _ => False

theorem counts_iff {s : Session} : s.Counts ↔ s.pool.Accounts s.live 0 :=
  ⟨fun h => ⟨h.total_eq, h.le_max⟩,
    fun h => ⟨h.total_eq, by have := h.total_eq; omega, h.le_max⟩⟩

/-- Giving back one of the held connections. -/
theorem live_eraseIdx {held : List Lease} {i : Nat} {l : Lease} (h : held[i]? = some l) :
    held.countP (fun l => !l.writtenOff) =
      (held.eraseIdx i).countP (fun l => !l.writtenOff) + if l.writtenOff then 0 else 1 := by
  obtain ⟨hi, rfl⟩ := List.getElem?_eq_some_iff.mp h
  rw [← (List.getElem_cons_eraseIdx_perm hi).countP_eq, List.countP_cons]
  cases held[i].writtenOff <;> rfl

/-- A connection that nothing counts breaks the count when it is given back. -/
theorem release_uncounted (p : UpstreamPool) (now : Nat) (conn : PooledConn) :
    (p.release now (some conn)).total.toNat + p.idle.length ≠
      p.total.toNat + (p.release now (some conn)).idle.length := by
  rcases p.release_cases now conn with ⟨-, hr⟩ | ⟨-, -, hr⟩ <;> rw [hr]
  · -- the counter is lowered, and wraps at 0
    show (p.total - 1).toNat + p.idle.length ≠ p.total.toNat + p.idle.length
    have h1 : (1 : UInt32).toNat = 1 := rfl
    have := p.total.toNat_lt
    rw [UInt32.toNat_sub, h1]
    omega
  · show p.total.toNat + p.idle.length ≠ p.total.toNat + (p.idle ++ [_]).length
    rw [List.length_append, List.length_singleton]
    omega

theorem counts_acquire {s : Session} (h : s.pool.Accounts s.live 0) (calls : ConnectCalls) :
    (s.step (.acquire calls)).pool.Accounts (s.step (.acquire calls)).live 0 := by
  rcases h.acquire s.endpoints calls with ⟨conn, p', -, heq, hp⟩ | ⟨e, eps', -, heq, -⟩
  · simp only [step, heq, live, List.countP_append, List.countP_singleton]
    exact hp
  · simp only [step, heq]
    exact h

/-- **One operation** keeps the counters consistent, unless it gives back a connection that was
written off. -/
theorem counts_step (s : Session) (op : PoolOp) (hs : s.Counts) :
    (s.step op).Counts ↔ ¬ s.GivesBackWrittenOff op := by
  have h := counts_iff.mp hs
  cases op with
  | acquire calls => exact iff_of_true (counts_iff.mpr (counts_acquire h calls)) id
  | release i requests closed now =>
    cases hl : s.held[i]? with
    | none =>
      rw [step_release_none hl]
      exact iff_of_true hs (by simp [GivesBackWrittenOff, hl])
    | some l =>
      have hlive := live_eraseIdx hl
      rw [step_release hl]
      cases hw : l.writtenOff with
      | true =>
        refine iff_of_false (fun hc => ?_) (fun hn => hn ⟨l, hl, hw⟩)
        have hnew := hc.total_eq
        have hold := h.total_eq
        have hbreak := release_uncounted s.pool now (l.conn.returned requests closed)
        rw [hw, if_pos rfl] at hlive
        unfold live at hnew hold
        simp only at hnew
        omega
      | false =>
        refine iff_of_true (counts_iff.mpr ?_) (by simp [GivesBackWrittenOff, hl, hw])
        rw [hw, if_neg (by decide)] at hlive
        rw [live, hlive] at h
        exact h.release now _
  | evictIdle ts => exact iff_of_true (counts_iff.mpr (h.evictIdle ts)) id
  | drain =>
    have hlive : (s.step .drain).live = 0 := by
      unfold live step
      rw [List.countP_eq_zero]
      simp
    refine iff_of_true ⟨?_, Nat.le_refl 0, UInt32.le_iff_toNat_le.mpr (Nat.zero_le _)⟩ id
    rw [hlive]
    rfl

/-- Only `acquire` raises the counter, so that it does not wrap. -/
theorem total_step_le {s : Session} {op : PoolOp} (hs : s.Counts)
    (hback : ¬ s.GivesBackWrittenOff op) (hop : ∀ calls, op ≠ .acquire calls) :
    (s.step op).pool.total ≤ s.pool.total := by
  rw [UInt32.le_iff_toNat_le]
  cases op with
  | acquire calls => exact absurd rfl (hop calls)
  | release i requests closed now =>
    cases hl : s.held[i]? with
    | none => rw [step_release_none hl]
    | some l =>
      have hpos : 0 < s.live := by
        have hw : l.writtenOff = false := by
          by_contra hw
          exact hback ⟨l, hl, by simpa using hw⟩
        rw [live, live_eraseIdx hl, hw]
        exact Nat.succ_pos _
      have htotal := hs.total_eq
      rw [step_release hl]
      rcases s.pool.release_cases now (l.conn.returned requests closed) with
        ⟨-, hr⟩ | ⟨-, -, hr⟩ <;> simp only [hr, Nat.le_refl]
      rw [UpstreamPool.toNat_pred (by omega)]
      exact Nat.sub_le _ _
  | evictIdle ts =>
    exact (UpstreamPool.evictLoop_total s.pool.cfg ts s.live s.pool.idle s.pool.total
      hs.total_eq).2
  | drain => exact Nat.zero_le _

/-- **The counters of a pool.** Throughout a run of acquisitions, releases, evictions and drains on
a new pool, `total_` counts the idle connections and the held ones that no `drain` has written off,
is within its limits, and is raised by `acquire` only, exactly when no connection that was written
off is given back. -/
theorem pool_counts_consistent (endpoint : Nat) (cfg : PoolConfig) (eps : List UpstreamEndpoint)
    (ops : List PoolOp) :
    let start : Session := { pool := { endpoint, cfg }, endpoints := eps }
    ((∀ pre, pre <+: ops →
        let s := run step start pre
        s.pool.total.toNat = s.pool.idle.length + s.held.countP (fun l => !l.writtenOff) ∧
          s.pool.idle.length ≤ s.pool.total.toNat ∧
          s.pool.total ≤ s.pool.cfg.maxConnsPerUpstream) ∧
      ∀ pre op, pre ++ [op] <+: ops → (∀ calls, op ≠ .acquire calls) →
        (run step start (pre ++ [op])).pool.total ≤ (run step start pre).pool.total) ↔
      ∀ pre op, pre ++ [op] <+: ops → ¬ (run step start pre).GivesBackWrittenOff op := by
  intro start
  have h0 : start.Counts := counts_iff.mpr (.new endpoint cfg)
  have hiff : (∀ pre, pre <+: ops → (run step start pre).Counts) ↔
      ∀ pre op, pre ++ [op] <+: ops → ¬ (run step start pre).GivesBackWrittenOff op :=
    run_always_iff counts_step h0
  constructor
  · rintro ⟨hcounts, -⟩
    refine hiff.mp fun pre hpre => ?_
    obtain ⟨h1, h2, h3⟩ := hcounts pre hpre
    exact ⟨h1, h2, h3⟩
  · intro hback
    have hcounts := hiff.mpr hback
    refine ⟨fun pre hpre => ?_, fun pre op hpre hop => ?_⟩
    · obtain ⟨h1, h2, h3⟩ := hcounts pre hpre
      exact ⟨h1, h2, h3⟩
    · rw [run_concat]
      exact total_step_le (hcounts pre ((List.prefix_append pre [op]).trans hpre))
        (hback pre op hpre) hop

/-- **A `drain` with a connection out.** Given back open, it is idle with a counter of 0; given back
closed, the counter wraps, and the pool of 64 hands out nothing any more. -/
theorem pool_counts_consistent_drained :
    let start : Session := { pool := { endpoint := 0, cfg := {} }, endpoints := [{}] }
    let drained : List PoolOp := [.acquire { socket := 5 }, .drain]
    let opened := run step start (drained ++ [.release 0 1 false 0])
    let closed := run step start (drained ++ [.release 0 0 true 0])
    opened.pool.total = 0 ∧ opened.pool.idle.length = 1 ∧
      closed.pool.total.toNat = 2 ^ 32 - 1 ∧ closed.held = [] ∧ closed.pool.idle = [] ∧
      (closed.step (.acquire { socket := 6 })).held = [] := by
  decide +kernel

/-! ## Hygiene -/

/-- The connections that are idle or handed out. -/
def conns (s : Session) : List PooledConn := s.pool.idle ++ s.held.map Lease.conn

/-- What can happen next: the system opens a descriptor that is not open, and a caller gives back a
connection it holds, after one request at most. -/
def Allows (s : Session) : PoolOp → Prop
  | .acquire calls => calls.socket ∉ s.conns.map PooledConn.fd
  | .release i requests _ _ => i < s.held.length ∧ requests ≤ 1
  | _ => True

instance instDecidableAllows (s : Session) : ∀ op, Decidable (s.Allows op)
  | .acquire _ => inferInstanceAs (Decidable (_ ∉ _))
  | .release _ _ _ _ => inferInstanceAs (Decidable (_ ∧ _))
  | .evictIdle _ => isTrue trivial
  | .drain => isTrue trivial

/-- The runs of a pool. -/
inductive Reach (start : Session) : Session → Prop where
  | start : Reach start start
  | step {s op} (h : Reach start s) (hop : s.Allows op) : Reach start (s.step op)

/-- Every descriptor occurs once, and with the number of requests it has served. -/
structure Tally (served : Int → Nat) (ts : List (Int × Nat)) : Prop where
  nodup  : (ts.map Prod.fst).Nodup
  counts : ∀ t ∈ ts, served t.1 = t.2

section Tally

variable {served : Int → Nat} {ts ts' : List (Int × Nat)} {fd : Int} {m n : Nat}

theorem Tally.perm (h : Tally served ts) (hp : ts.Perm ts') : Tally served ts' :=
  ⟨(hp.map Prod.fst).nodup h.nodup, fun t ht => h.counts t (hp.mem_iff.mpr ht)⟩

theorem Tally.sublist (h : Tally served ts) (hs : ts'.Sublist ts) : Tally served ts' :=
  ⟨(hs.map Prod.fst).nodup h.nodup, fun t ht => h.counts t (hs.mem ht)⟩

/-- A descriptor that does not occur may be counted anew. -/
theorem Tally.update (h : Tally served ts) (hfd : fd ∉ ts.map Prod.fst) :
    Tally (Function.update served fd n) ts := by
  refine ⟨h.nodup, fun t ht => ?_⟩
  have hne : t.1 ≠ fd := fun he => hfd (he ▸ List.mem_map_of_mem ht)
  rw [Function.update_of_ne hne, h.counts t ht]

theorem Tally.cons (h : Tally served ts) (hfd : fd ∉ ts.map Prod.fst) :
    Tally (Function.update served fd n) ((fd, n) :: ts) := by
  refine ⟨List.nodup_cons.mpr ⟨hfd, h.nodup⟩, List.forall_mem_cons.mpr ⟨?_, (h.update hfd).counts⟩⟩
  exact Function.update_self fd n served

theorem Tally.tail (h : Tally served ((fd, m) :: ts)) :
    Tally served ts ∧ fd ∉ ts.map Prod.fst :=
  ⟨h.sublist (List.sublist_cons_self _ _), (List.nodup_cons.mp h.nodup).1⟩

end Tally

/-- The descriptor of a connection and its requests. -/
def tally (c : PooledConn) : Int × Nat := (c.fd, c.requestCount)

/-- What holds throughout a run. -/
structure Clean (s : Session) : Prop where
  idle  : ∀ c ∈ s.pool.idle, c.valid = true ∧ c.inUse = false ∧
    c.requestCount < s.pool.cfg.maxKeepalive.toNat
  held  : ∀ l ∈ s.held, l.conn.requestCount < s.pool.cfg.maxKeepalive.toNat
  tally : Tally s.served (s.conns.map tally)
  limit : ∀ fd, s.served fd ≤ s.pool.cfg.maxKeepalive.toNat

theorem newConnection_ok {calls : ConnectCalls} {conn : PooledConn}
    (h : newConnection calls = .ok conn) : conn.fd = calls.socket ∧ conn.requestCount = 0 := by
  unfold newConnection at h
  rcases hn : calls.nonblocking with e | ⟨⟩ <;> rcases hc : calls.connect with _ | _ | errno <;>
    simp only [hn, hc] at h <;> split_ifs at h <;> cases h <;> exact ⟨rfl, rfl⟩

theorem limit_update {served : Int → Nat} {n max : Nat} (h : ∀ fd, served fd ≤ max) (hn : n ≤ max)
    (fd i : Int) : Function.update served fd n i ≤ max := by
  by_cases hi : i = fd
  · rw [hi, Function.update_self]
    exact hn
  · rw [Function.update_of_ne hi]
    exact h i

/-- A connection is taken from the front of the pool. -/
theorem Clean.take {s : Session} {conn : PooledConn} {rest : List PooledConn} (h : s.Clean)
    (hidle : s.pool.idle = conn :: rest) :
    Clean { s with pool := { s.pool with idle := rest }
                   held := s.held ++ [{ conn := { conn with inUse := true } }] } := by
  have hin := h.idle
  have htally := h.tally
  rw [hidle, List.forall_mem_cons] at hin
  rw [conns, hidle] at htally
  refine ⟨hin.2, fun l hl => ?_, ?_, h.limit⟩
  · rcases List.mem_append.mp hl with hl | hl
    · exact h.held l hl
    · rw [List.mem_singleton.mp hl]
      exact hin.1.2.2
  · refine htally.perm ?_
    simp only [conns, List.map_append, List.map_cons, List.map_nil, List.cons_append,
      ← List.append_assoc]
    exact (List.perm_append_singleton _ _).symm

/-- A connection is opened. -/
theorem Clean.opened {s : Session} {conn : PooledConn} (h : s.Clean)
    (hmax : 0 < s.pool.cfg.maxKeepalive.toNat)
    (hfd : conn.fd ∉ s.conns.map PooledConn.fd) (hnew : conn.requestCount = 0) (total : UInt32) :
    Clean { s with pool := { s.pool with total }
                   held := s.held ++ [{ conn }]
                   served := Function.update s.served conn.fd 0 } := by
  refine ⟨h.idle, fun l hl => ?_, ?_, limit_update h.limit (Nat.zero_le _) conn.fd⟩
  · rcases List.mem_append.mp hl with hl | hl
    · exact h.held l hl
    · rw [List.mem_singleton.mp hl, hnew]
      exact hmax
  · have hnot : conn.fd ∉ (s.conns.map Session.tally).map Prod.fst := by
      rw [List.map_map]
      exact hfd
    refine (h.tally.cons (n := 0) hnot).perm ?_
    simp only [conns, List.map_append, List.map_cons, List.map_nil, ← List.append_assoc]
    rw [Session.tally, hnew]
    exact (List.perm_append_singleton _ _).symm

/-- The connections, one of those handed out first. -/
theorem conns_perm {s : Session} {i : Nat} {l : Lease} (h : s.held[i]? = some l) :
    (s.conns.map tally).Perm
      (tally l.conn ::
        (s.pool.idle.map tally ++ (s.held.eraseIdx i).map (tally ∘ Lease.conn))) := by
  obtain ⟨hi, rfl⟩ := List.getElem?_eq_some_iff.mp h
  have hp := ((List.getElem_cons_eraseIdx_perm hi).map (tally ∘ Lease.conn)).symm
  rw [conns, List.map_append, List.map_map]
  exact (hp.append_left _).trans List.perm_middle

/-- A connection is given back. -/
theorem Clean.release {s : Session} {i requests now : Nat} {closed : Bool} {l : Lease} (h : s.Clean)
    (hl : s.held[i]? = some l) (hreq : requests ≤ 1) :
    Clean (s.step (.release i requests closed now)) := by
  have hmem := List.mem_of_getElem? hl
  have hlt := h.held l hmem
  have htally := h.tally.perm (conns_perm hl)
  obtain ⟨htail, hfd⟩ := htally.tail
  have hserved : s.served l.conn.fd = l.conn.requestCount :=
    htally.counts _ List.mem_cons_self
  have hheld : ∀ x ∈ s.held.eraseIdx i, x.conn.requestCount < s.pool.cfg.maxKeepalive.toNat :=
    fun x hx => h.held x (List.mem_of_mem_eraseIdx hx)
  have hlimit := limit_update h.limit (n := s.served l.conn.fd + requests) (by omega) l.conn.fd
  rw [step_release hl]
  rcases s.pool.release_cases now (l.conn.returned requests closed) with
    ⟨-, hr⟩ | ⟨hvalid, hcount, hr⟩ <;> rw [hr]
  · refine ⟨h.idle, hheld, ?_, hlimit⟩
    have := htail.update (n := s.served l.conn.fd + requests) hfd
    rwa [← List.map_map, ← List.map_append] at this
  · -- a closed connection is not kept
    have hopen : closed = false := by
      cases closed with
      | false => rfl
      | true => cases hvalid
    subst hopen
    refine ⟨fun c hc => ?_, hheld, ?_, hlimit⟩
    · rcases List.mem_append.mp hc with hc | hc
      · exact h.idle c hc
      · rw [List.mem_singleton.mp hc]
        exact ⟨hvalid, rfl, hcount⟩
    · refine (htail.cons (n := s.served l.conn.fd + requests) hfd).perm ?_
      rw [hserved]
      simp only [conns, List.map_append, List.map_cons, List.map_nil, List.map_map,
        List.append_assoc]
      exact List.perm_middle.symm

/-- **One operation** keeps a pool clean. -/
theorem Clean.step {s : Session} {op : PoolOp} (h : s.Clean)
    (hmax : 0 < s.pool.cfg.maxKeepalive.toNat) (hop : s.Allows op) : (s.step op).Clean := by
  cases op with
  | acquire calls =>
    rcases s.step_acquire calls with ⟨conn, rest, hidle, heq⟩ | ⟨eps, heq⟩ | ⟨conn, -, hc, heq⟩
    · rw [heq]
      exact h.take hidle
    · rw [heq]
      exact ⟨h.idle, h.held, h.tally, h.limit⟩
    · obtain ⟨hfd, hnew⟩ := newConnection_ok hc
      rw [heq]
      exact h.opened hmax (hfd ▸ hop) hnew _
  | release i requests closed now =>
    exact h.release (List.getElem?_eq_getElem hop.1) hop.2
  | evictIdle ts =>
    have hsub : (s.pool.evictIdle ts).idle.Sublist s.pool.idle := by
      show (UpstreamPool.evictLoop s.pool.cfg ts s.pool.idle s.pool.total).1.Sublist _
      rw [UpstreamPool.evictLoop_idle]
      exact List.filter_sublist
    exact ⟨fun c hc => h.idle c (hsub.mem hc), h.held,
      h.tally.sublist ((hsub.append_right _).map _), h.limit⟩
  | drain =>
    refine ⟨List.forall_mem_nil _, fun l hl => ?_, ?_, h.limit⟩
    · obtain ⟨x, hx, rfl⟩ := List.mem_map.mp hl
      exact h.held x hx
    · have hconns : (s.step .drain).conns = s.held.map Lease.conn := by
        simp [conns, Session.step, UpstreamPool.drain, Function.comp_def]
      rw [hconns]
      exact h.tally.sublist ((List.sublist_append_right _ _).map _)

theorem step_cfg (s : Session) (op : PoolOp) : (s.step op).pool.cfg = s.pool.cfg := by
  cases op with
  | acquire calls =>
    rcases s.step_acquire calls with ⟨conn, rest, -, heq⟩ | ⟨eps, heq⟩ | ⟨conn, -, -, heq⟩ <;>
      rw [heq]
  | release i requests closed now =>
    cases hl : s.held[i]? with
    | none => rw [step_release_none hl]
    | some l =>
      rw [step_release hl]
      rcases s.pool.release_cases now (l.conn.returned requests closed) with
        ⟨-, hr⟩ | ⟨-, -, hr⟩ <;> simp only [hr]
  | evictIdle ts => rfl
  | drain => rfl

/-- **Every run** keeps a pool clean. -/
theorem Reach.clean {start s : Session} (h : Reach start s) (h0 : start.Clean)
    (hmax : 0 < start.pool.cfg.maxKeepalive.toNat) :
    s.Clean ∧ s.pool.cfg = start.pool.cfg := by
  induction h with
  | start => exact ⟨h0, rfl⟩
  | @step s op _ hop ih =>
    obtain ⟨hclean, hcfg⟩ := ih
    exact ⟨hclean.step (hcfg ▸ hmax) hop, (s.step_cfg op).trans hcfg⟩

/-- **The hygiene of a pool.** In every run on a new pool with `max_keepalive` at least 1, in which
callers complete at most one request for each connection they are handed: idle connections have a
valid descriptor, are not in use and below `max_keepalive`; no descriptor is idle twice, or both
idle and handed out; none has served more than `max_keepalive` requests; and `evict_idle` removes
exactly the connections that have been idle for too long, and keeps the order of the others. -/
theorem pool_hygiene (endpoint : Nat) (cfg : PoolConfig) (eps : List UpstreamEndpoint)
    (hmax : 1 ≤ cfg.maxKeepalive) (s : Session)
    (h : Reach { pool := { endpoint, cfg }, endpoints := eps } s) :
    (∀ c ∈ s.pool.idle,
      c.valid = true ∧ c.inUse = false ∧ c.requestCount < cfg.maxKeepalive.toNat) ∧
    ((s.pool.idle ++ s.held.map Lease.conn).map PooledConn.fd).Nodup ∧
    (∀ fd, s.served fd ≤ cfg.maxKeepalive.toNat) ∧
    ∀ ts, (s.pool.evictIdle ts).idle = s.pool.idle.filter fun c =>
      ¬ (c.lastUsedAtMs ≤ ts ∧ cfg.idleTimeoutMs.toNat < ts - c.lastUsedAtMs) := by
  have h0 : Clean { pool := { endpoint, cfg }, endpoints := eps } :=
    ⟨List.forall_mem_nil _, List.forall_mem_nil _,
      ⟨List.nodup_nil, List.forall_mem_nil _⟩, fun _ => Nat.zero_le _⟩
  obtain ⟨hclean, hcfg⟩ := h.clean h0 (UInt32.le_iff_toNat_le.mp hmax)
  have hidle := hclean.idle
  have hlimit := hclean.limit
  have hnodup := hclean.tally.nodup
  rw [hcfg] at hidle hlimit
  rw [List.map_map] at hnodup
  refine ⟨hidle, hnodup, hlimit, fun ts => ?_⟩
  show (UpstreamPool.evictLoop s.pool.cfg ts s.pool.idle s.pool.total).1 = _
  rw [UpstreamPool.evictLoop_idle, hcfg]
  refine List.filter_congr fun c _ => ?_
  rw [UpstreamPool.isStale, ← Bool.decide_and, ← decide_not]

/-- Two connections are opened, and the first is given back after a request. -/
def sampleSession : Session :=
  run step { pool := { endpoint := 0, cfg := { maxKeepalive := 2 } } }
    [.acquire { socket := 5 }, .acquire { socket := 6 }, .release 0 1 false 10]

/-- One connection is idle and one is handed out. -/
theorem pool_hygiene_shared :
    Reach { pool := { endpoint := 0, cfg := { maxKeepalive := 2 } } } sampleSession ∧
      sampleSession.pool.idle.map PooledConn.fd = [5] ∧
      sampleSession.held.map (fun l => l.conn.fd) = [6] ∧ sampleSession.served 5 = 1 ∧
      sampleSession.served 5 ≤ 2 ∧ (sampleSession.pool.evictIdle 70000).idle = [] := by
  let start : Session := { pool := { endpoint := 0, cfg := { maxKeepalive := 2 } } }
  have h₁ : Reach start (start.step (.acquire { socket := 5 })) := .step .start (by decide)
  have h₂ : Reach start ((start.step (.acquire { socket := 5 })).step (.acquire { socket := 6 })) :=
    .step h₁ (by decide)
  have h : Reach start sampleSession := @Reach.step _ _ (.release 0 1 false 10) h₂ (by decide)
  obtain ⟨-, -, hlimit, hevict⟩ := pool_hygiene 0 { maxKeepalive := 2 } [] (by decide) _ h
  exact ⟨h, by decide, by decide, by decide, hlimit 5, (hevict 70000).trans (by decide)⟩

end Session

end Uproxy
