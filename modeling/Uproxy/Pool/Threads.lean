import Uproxy.Lib.Shares
import Uproxy.Pool.Session

/-!
# A pool shared by threads

`UpstreamPool` guards its members with a mutex and waits on a condition variable, so that threads
may share it. Here any number of them do. A step of a thread is one critical section, or what it
does between two of them (`Act`): `acquire` is one or two critical sections with the opening of a
connection, or a wait, in between. Threads take steps in any order. `drain` is left out; what it
does to a pool in use is said in `Pool.Session`.

`notify_one` wakes one of the threads that wait, which one is up to the system; a thread may also
wake up by itself. A thread that wakes up looks for an idle connection again.

* `Change` is what a step can do to the pool and to the thread that takes it (`act_change`);
* `acquire_alone`: the steps of one `acquire` that nothing interrupts make up the function
  `UpstreamPool.acquire`;
* **`pool_shared`**: in every interleaving `total_` counts the idle connections, those the threads
  hold and those being opened, and stays within the limit; and no open descriptor belongs to two;
* **`no_lost_wakeup`**: while a thread waits that nothing has woken, at least as many threads have
  been woken as there are idle connections;
* **`freed_slot_wakes_nobody`**: a slot that becomes free is of no use to a thread that waits, since
  it only looks for idle connections.
-/

namespace Uproxy

open Lib.Run Lib.Shares

/-! ## The code -/

/-- Where a thread stands in `acquire`. -/
inductive Stage where
  | outside
  /-- It waits for an idle connection; `notified` once it has been woken. -/
  | waiting (notified : Bool)
  /-- It has raised `total_` and opens a connection. -/
  | connecting
  /-- The connection could not be opened, and `total_` still counts it. -/
  | failing (e : Error)
  deriving DecidableEq, Repr

/-- A thread: where it stands, the connections it holds and what `acquire` returned last. -/
structure Worker where
  stage    : Stage := .outside
  held     : List PooledConn := []
  returned : Option (Result PooledConn) := none

/-- A pool and the threads that use it. -/
structure Crew where
  pool      : UpstreamPool
  endpoints : List UpstreamEndpoint := []
  workers   : List Worker

/-- The steps of a thread. -/
inductive Act where
  /-- The first critical section of `acquire`. -/
  | enter
  /-- The wait ends because the thread was woken, or by itself. -/
  | wake
  /-- The wait ends with the timeout. -/
  | timeout
  /-- `new_connection`. -/
  | connect (calls : ConnectCalls)
  /-- The second critical section of `acquire`, if no connection could be opened. -/
  | uncount
  /-- A connection that is held serves some requests, and may be closed. -/
  | use (j requests : Nat) (closed : Bool)
  /-- `release` of a connection that is held; `notify` is the thread that is woken. -/
  | release (j now : Nat) (notify : Option Nat)
  | evictIdle (ts : Nat)
  deriving DecidableEq, Repr

/-- The thread is handed a connection. -/
def Worker.given (w : Worker) (conn : PooledConn) : Worker :=
  { stage := .outside, held := w.held ++ [conn], returned := some (.ok conn) }

def Worker.refused (w : Worker) (e : Error) : Worker :=
  { w with stage := .outside, returned := some (.error e) }

/-- The thread waits, and nothing has woken it. -/
def Worker.Sleeps (w : Worker) : Prop := w.stage = .waiting false

instance Worker.instDecidableSleeps (w : Worker) : Decidable w.Sleeps :=
  inferInstanceAs (Decidable (_ = _))

namespace Crew

/-- The thread that takes the step, and the pool, behind it. -/
def put (c : Crew) (i : Nat) (pool : UpstreamPool) (w : Worker) : Crew :=
  { c with pool, workers := c.workers.set i w }

/-- The first idle connection is taken, if there is one. -/
def takeOr (c : Crew) (i : Nat) (w : Worker) (otherwise : Crew) : Crew :=
  match c.pool.idle with
  | conn :: rest => c.put i { c.pool with idle := rest } (w.given { conn with inUse := true })
  | [] => otherwise

/-- `notify_one`: it wakes one of the threads that wait, if any does. -/
def notifyOne (c : Crew) : Option Nat → Option Crew
  | none => if ∃ w ∈ c.workers, w.Sleeps then none else some c
  | some k =>
    match c.workers[k]? with
    | none => none
    | some w =>
      if w.Sleeps then
        some { c with workers := c.workers.set k { w with stage := .waiting true } }
      else none

/-- A step of the thread `i`; `none` if it is not at that point. -/
def act (c : Crew) (i : Nat) (a : Act) : Option Crew :=
  match c.workers[i]? with
  | none => none
  | some w =>
    match a, w.stage with
    | .enter, .outside =>
      some (c.takeOr i w
        (if c.pool.cfg.maxConnsPerUpstream ≤ c.pool.total then
          c.put i c.pool { w with stage := .waiting false }
        else
          c.put i { c.pool with total := c.pool.total + 1 } { w with stage := .connecting }))
    | .wake, .waiting _ =>
      some (c.takeOr i w (c.put i c.pool { w with stage := .waiting false }))
    | .timeout, .waiting _ =>
      some (c.takeOr i w
        (c.put i c.pool (w.refused (.fromCode .timeout "upstream pool exhausted"))))
    | .connect calls, .connecting =>
      match newConnection calls with
      | .error e => some (c.put i c.pool { w with stage := .failing e })
      | .ok conn => some (c.put i c.pool (w.given conn))
    | .uncount, .failing e =>
      some { c.put i { c.pool with total := c.pool.total - 1 } (w.refused e) with
        endpoints := countFailed c.endpoints c.pool.endpoint }
    | .use j requests closed, .outside =>
      match w.held[j]? with
      | none => none
      | some conn =>
        some (c.put i c.pool { w with held := w.held.set j (conn.returned requests closed) })
    | .release j now notify, .outside =>
      match w.held[j]? with
      | none => none
      | some conn =>
        (c.put i (c.pool.release now (some conn)) { w with held := w.held.eraseIdx j }).notifyOne
          notify
    | .evictIdle ts, .outside => some (c.put i (c.pool.evictIdle ts) w)
    | _, _ => none

end Crew

/-! ## What a step can do -/

/-- The slots that `total_` counts for a thread besides the connections it holds. -/
def Worker.reserved (w : Worker) : Nat :=
  match w.stage with
  | .connecting => 1
  | .failing _ => 1
  | _ => 0

/-- 1 if the thread has been woken and has not looked yet. -/
def Worker.woken (w : Worker) : Nat := if w.stage = .waiting true then 1 else 0

/-- **What a step does** to the pool and to the thread that takes it. -/
inductive Change (a : Act) (p : UpstreamPool) (w : Worker) : UpstreamPool → Worker → Prop where
  | take {conn rest} (hidle : p.idle = conn :: rest) (hw : w.reserved = 0) :
      Change a p w { p with idle := rest } (w.given { conn with inUse := true })
  | wait (hidle : p.idle = []) (hw : w.reserved = 0) :
      Change a p w p { w with stage := .waiting false }
  | timeout (hidle : p.idle = []) (hw : w.reserved = 0) (e : Error) : Change a p w p (w.refused e)
  | reserve (hs : w.stage = .outside) (hlt : p.total < p.cfg.maxConnsPerUpstream) :
      Change a p w { p with total := p.total + 1 } { w with stage := .connecting }
  | opened {calls conn} (ha : a = .connect calls) (hs : w.stage = .connecting)
      (hnew : newConnection calls = .ok conn) :
      Change a p w p (w.given conn)
  | failed (hs : w.stage = .connecting) (e : Error) : Change a p w p { w with stage := .failing e }
  | uncounted {e} (hs : w.stage = .failing e) :
      Change a p w { p with total := p.total - 1 } (w.refused e)
  | used {j conn} (hs : w.stage = .outside) (hj : w.held[j]? = some conn) (requests : Nat)
      (closed : Bool) :
      Change a p w p { w with held := w.held.set j (conn.returned requests closed) }
  | released {j now notify conn} (ha : a = .release j now notify) (hs : w.stage = .outside)
      (hj : w.held[j]? = some conn) :
      Change a p w (p.release now (some conn)) { w with held := w.held.eraseIdx j }
  | evicted (hs : w.stage = .outside) (ts : Nat) : Change a p w (p.evictIdle ts) w

namespace Crew

variable {c c' : Crew} {i : Nat} {a : Act}

/-- Taking an idle connection, or what is done if there is none. -/
theorem takeOr_change {w w' : Worker} {p' : UpstreamPool} (hw : w.reserved = 0)
    (hnone : c.pool.idle = [] → Change a c.pool w p' w') :
    ∃ p'' w'', Change a c.pool w p'' w'' ∧ (c.takeOr i w (c.put i p' w')).pool = p'' ∧
      (c.takeOr i w (c.put i p' w')).workers = c.workers.set i w'' := by
  unfold takeOr
  cases hidle : c.pool.idle with
  | nil => exact ⟨p', w', hnone hidle, rfl, rfl⟩
  | cons conn rest => exact ⟨_, _, .take hidle hw, rfl, rfl⟩

/-- **Every step is a change**, and `release` wakes a thread besides. -/
theorem act_change (h : c.act i a = some c') :
    ∃ w p' w', c.workers[i]? = some w ∧ Change a c.pool w p' w' ∧
      ((∃ j now notify, a = .release j now notify ∧ (c.put i p' w').notifyOne notify = some c') ∨
        ((∀ j now notify, a ≠ .release j now notify) ∧
          c'.pool = p' ∧ c'.workers = c.workers.set i w')) := by
  unfold act at h
  cases hw : c.workers[i]? with
  | none =>
    rw [hw] at h
    cases h
  | some w =>
    rw [hw] at h
    simp only at h
    split at h
    · rename_i hs
      have hres : w.reserved = 0 := by simp [Worker.reserved, hs]
      cases h
      split_ifs with hmax
      · obtain ⟨p', w', hch, h1, h2⟩ := takeOr_change (i := i) hres fun hidle => .wait hidle hres
        exact ⟨w, p', w', rfl, hch, Or.inr ⟨nofun, h1, h2⟩⟩
      · obtain ⟨p', w', hch, h1, h2⟩ := takeOr_change (i := i) hres fun _ =>
          .reserve hs (UInt32.not_le.mp hmax)
        exact ⟨w, p', w', rfl, hch, Or.inr ⟨nofun, h1, h2⟩⟩
    · rename_i hs
      have hres : w.reserved = 0 := by simp [Worker.reserved, hs]
      cases h
      obtain ⟨p', w', hch, h1, h2⟩ := takeOr_change (i := i) hres fun hidle => .wait hidle hres
      exact ⟨w, p', w', rfl, hch, Or.inr ⟨nofun, h1, h2⟩⟩
    · rename_i hs
      have hres : w.reserved = 0 := by simp [Worker.reserved, hs]
      cases h
      obtain ⟨p', w', hch, h1, h2⟩ := takeOr_change (i := i) hres fun hidle =>
        .timeout hidle hres (.fromCode .timeout "upstream pool exhausted")
      exact ⟨w, p', w', rfl, hch, Or.inr ⟨nofun, h1, h2⟩⟩
    · rename_i calls hs
      cases hnew : newConnection calls with
      | error e =>
        rw [hnew] at h
        cases h
        exact ⟨w, _, _, rfl, .failed hs e, Or.inr ⟨nofun, rfl, rfl⟩⟩
      | ok conn =>
        rw [hnew] at h
        cases h
        exact ⟨w, _, _, rfl, .opened rfl hs hnew, Or.inr ⟨nofun, rfl, rfl⟩⟩
    · rename_i e hs
      cases h
      exact ⟨w, _, _, rfl, .uncounted hs, Or.inr ⟨nofun, rfl, rfl⟩⟩
    · rename_i j requests closed hs
      split at h
      · cases h
      · rename_i conn hj
        cases h
        exact ⟨w, _, _, rfl, .used hs hj requests closed, Or.inr ⟨nofun, rfl, rfl⟩⟩
    · rename_i j now notify hs
      split at h
      · cases h
      · rename_i conn hj
        exact ⟨w, _, _, rfl, .released rfl hs hj, Or.inl ⟨j, now, notify, rfl, h⟩⟩
    · rename_i ts hs
      cases h
      exact ⟨w, _, _, rfl, .evicted hs ts, Or.inr ⟨nofun, rfl, rfl⟩⟩
    · cases h

/-- What `notify_one` does. -/
theorem notifyOne_cases {notify : Option Nat} (h : c.notifyOne notify = some c') :
    (c' = c ∧ ¬ ∃ w ∈ c.workers, w.Sleeps) ∨
    ∃ k w, c.workers[k]? = some w ∧ w.Sleeps ∧
      c' = { c with workers := c.workers.set k { w with stage := .waiting true } } := by
  unfold notifyOne at h
  cases notify with
  | none =>
    simp only at h
    split_ifs at h with hs
    cases h
    exact Or.inl ⟨rfl, hs⟩
  | some k =>
    simp only at h
    split at h
    · cases h
    · rename_i w hk
      split_ifs at h with hs
      cases h
      exact Or.inr ⟨k, w, hk, hs, rfl⟩

end Crew

/-! ## One thread -/

section Change

variable {a : Act} {p p' : UpstreamPool} {w w' : Worker}

/-- **The ledger**: a change moves `total_` as it moves the slots of the thread. -/
theorem Change.accounts (h : Change a p w p' w') {out lost : Nat}
    (ha : p.Accounts (out + w.held.length) (lost + w.reserved)) :
    p'.Accounts (out + w'.held.length) (lost + w'.reserved) := by
  have heq := ha.total_eq
  have hgiven : ∀ conn, (w.given conn).held.length = w.held.length + 1 := fun conn => by
    simp [Worker.given]
  cases h with
  | take hidle hw =>
    rw [hidle, List.length_cons, hw] at heq
    refine ⟨?_, ha.le_max⟩
    show p.total.toNat = _ + _ + (lost + 0)
    rw [hgiven]
    simp only
    omega
  | wait hidle hw => exact ⟨by rw [hw] at heq; exact heq, ha.le_max⟩
  | timeout hidle hw e => exact ⟨by rw [hw] at heq; exact heq, ha.le_max⟩
  | reserve hs hlt =>
    have hres : w.reserved = 0 := by simp [Worker.reserved, hs]
    have hsucc := UpstreamPool.toNat_succ hlt
    refine ⟨?_, UInt32.le_iff_toNat_le.mpr ?_⟩
    · show (p.total + 1).toNat = p.idle.length + (out + w.held.length) + (lost + 1)
      omega
    · rw [hsucc]
      exact UInt32.lt_iff_toNat_lt.mp hlt
  | opened _ hs hnew =>
    have hres : w.reserved = 1 := by simp [Worker.reserved, hs]
    refine ⟨?_, ha.le_max⟩
    show p.total.toNat = p.idle.length + _ + (lost + 0)
    rw [hgiven]
    omega
  | failed hs e =>
    have hres : w.reserved = 1 := by simp [Worker.reserved, hs]
    rw [hres] at ha
    exact ha
  | uncounted hs =>
    have hres : w.reserved = 1 := by simp [Worker.reserved, hs]
    have hpred := UpstreamPool.toNat_pred (n := p.total) (by omega)
    refine ⟨?_, UInt32.le_trans (UInt32.le_iff_toNat_le.mpr ?_) ha.le_max⟩
    · show (p.total - 1).toNat = p.idle.length + (out + w.held.length) + (lost + 0)
      omega
    · show (p.total - 1).toNat ≤ p.total.toNat
      omega
  | used hs hj requests closed =>
    simp only [List.length_set]
    exact ha
  | released _ hs hj =>
    have hlen := (perm_eraseIdx hj).length_eq
    rw [List.length_cons] at hlen
    rw [hlen, ← Nat.add_assoc] at ha
    exact ha.release _ _
  | evicted hs ts => exact ha.evictIdle ts

/-- The connections with a descriptor. -/
def fdCount (fd : Int) (cs : List PooledConn) : Nat := cs.countP fun c => c.fd = fd

theorem fdCount_append (fd : Int) (cs ds : List PooledConn) :
    fdCount fd (cs ++ ds) = fdCount fd cs + fdCount fd ds :=
  List.countP_append

theorem fdCount_eraseIdx {fd : Int} {cs : List PooledConn} {j : Nat} {conn : PooledConn}
    (h : cs[j]? = some conn) :
    fdCount fd cs = fdCount fd (cs.eraseIdx j) + if conn.fd = fd then 1 else 0 := by
  unfold fdCount
  rw [(perm_eraseIdx h).countP_eq, List.countP_cons]
  simp

theorem fdCount_set {fd : Int} {cs : List PooledConn} {j : Nat} {conn : PooledConn}
    (h : cs[j]? = some conn) (conn' : PooledConn) :
    fdCount fd (cs.set j conn') =
      fdCount fd (cs.eraseIdx j) + if conn'.fd = fd then 1 else 0 := by
  unfold fdCount
  rw [(set_perm_eraseIdx h conn').countP_eq, List.countP_cons]
  simp

/-- The descriptor a step may open. -/
def Act.opens : Act → Option Int
  | .connect calls => some calls.socket
  | _ => none

/-- **Ownership**: a change hands connections on, and brings in none but the one it opens. -/
theorem Change.fdCount_le (h : Change a p w p' w') {fd : Int} (hfd : 0 ≤ fd) :
    fdCount fd p'.idle + fdCount fd w'.held ≤
      fdCount fd p.idle + fdCount fd w.held + if a.opens = some fd then 1 else 0 := by
  -- all but opening one
  by_cases hnew : ∃ calls conn, a = .connect calls ∧ newConnection calls = .ok conn ∧
      p' = p ∧ w' = w.given conn
  · obtain ⟨calls, conn, rfl, hnew, rfl, rfl⟩ := hnew
    have hconn : fdCount fd [conn] = if Act.opens (.connect calls) = some fd then 1 else 0 := by
      simp [fdCount, (Session.newConnection_ok hnew).1, Act.opens, List.countP_cons]
    show _ + fdCount fd (w.held ++ [conn]) ≤ _
    rw [fdCount_append, hconn, Nat.add_assoc]
  refine Nat.le_trans ?_ (Nat.le_add_right _ _)
  cases h with
  | @take conn rest hidle hw =>
    have hcons : fdCount fd (conn :: rest) = fdCount fd rest + fdCount fd [conn] := by
      simp [fdCount, List.countP_cons]
    show fdCount fd rest + fdCount fd (w.held ++ [{ conn with inUse := true }]) ≤ _
    rw [hidle, hcons, fdCount_append]
    show _ + (_ + fdCount fd [conn]) ≤ _
    omega
  | wait => exact Nat.le_refl _
  | timeout => exact Nat.le_refl _
  | reserve => exact Nat.le_refl _
  | opened ha hs hconn => exact absurd ⟨_, _, ha, hconn, rfl, rfl⟩ hnew
  | failed => exact Nat.le_refl _
  | uncounted => exact Nat.le_refl _
  | @used j conn hs hj requests closed =>
    have hle : (if (conn.returned requests closed).fd = fd then 1 else 0) ≤
        if conn.fd = fd then 1 else 0 := by
      cases closed with
      | false => exact Nat.le_refl _
      | true =>
        rw [if_neg]
        · exact Nat.zero_le _
        · show ¬ (-1 : Int) = fd
          omega
    have hheld : fdCount fd w.held = _ := fdCount_eraseIdx hj
    rw [fdCount_set hj, hheld]
    omega
  | @released j now notify conn ha hs hj =>
    have hheld : fdCount fd w.held = _ := fdCount_eraseIdx hj
    rw [hheld]
    rcases p.release_cases now conn with ⟨-, hr⟩ | ⟨-, -, hr⟩ <;> rw [hr]
    · exact Nat.add_le_add_left (Nat.le_add_right _ _) _
    · rw [fdCount_append]
      have : fdCount fd [{ conn with inUse := false, lastUsedAtMs := now }] =
          if conn.fd = fd then 1 else 0 := by
        simp [fdCount, List.countP_cons]
      simp only
      omega
  | evicted hs ts =>
    refine Nat.add_le_add_right ?_ _
    show fdCount fd (UpstreamPool.evictLoop p.cfg ts p.idle p.total).1 ≤ _
    rw [UpstreamPool.evictLoop_idle]
    exact List.filter_sublist.countP_le

/-- **Wake-ups**: but for `release`, a change leaves no idle connection behind, or takes at least as
many as it takes away of the threads that were woken. -/
theorem Change.woken_le (h : Change a p w p' w') :
    (∃ j now notify, a = .release j now notify ∧ w'.stage = w.stage ∧
      p'.idle.length ≤ p.idle.length + 1) ∨
    p'.idle = [] ∨
    (p'.idle.length + w.woken ≤ p.idle.length + w'.woken ∧ (w'.Sleeps → w.Sleeps)) := by
  have hwoken : w.woken ≤ 1 := by
    unfold Worker.woken
    split_ifs <;> omega
  cases h with
  | take hidle hw =>
    refine Or.inr (Or.inr ⟨?_, fun h => by cases h⟩)
    rw [hidle, List.length_cons]
    simp only
    omega
  | wait hidle hw => exact Or.inr (Or.inl hidle)
  | timeout hidle hw e => exact Or.inr (Or.inl hidle)
  | reserve hs hlt =>
    exact Or.inr (Or.inr ⟨by simp [Worker.woken, hs], fun h => by cases h⟩)
  | opened _ hs hnew =>
    exact Or.inr (Or.inr ⟨by simp [Worker.woken, hs], fun h => by cases h⟩)
  | failed hs e => exact Or.inr (Or.inr ⟨by simp [Worker.woken, hs], fun h => by cases h⟩)
  | uncounted hs => exact Or.inr (Or.inr ⟨by simp [Worker.woken, hs], fun h => by cases h⟩)
  | used hs hj requests closed => exact Or.inr (Or.inr ⟨Nat.le_refl _, id⟩)
  | @released j now notify conn ha hs hj =>
    refine Or.inl ⟨j, now, notify, ha, rfl, ?_⟩
    rcases p.release_cases now conn with ⟨-, hr⟩ | ⟨-, -, hr⟩ <;> rw [hr]
    · exact Nat.le_add_right _ _
    · simp
  | evicted hs ts =>
    refine Or.inr (Or.inr ⟨Nat.add_le_add_right ?_ _, id⟩)
    show (UpstreamPool.evictLoop p.cfg ts p.idle p.total).1.length ≤ _
    rw [UpstreamPool.evictLoop_idle]
    exact List.length_filter_le _ _

end Change

/-! ## All threads -/

namespace Crew

variable {c c' : Crew} {i : Nat} {a : Act}

/-- How often a descriptor occurs among the connections that are idle and those that are held. -/
def owners (c : Crew) (fd : Int) : Nat :=
  fdCount fd c.pool.idle + weigh (fun w => fdCount fd w.held) c.workers

/-- `total_` counts the idle connections, those held and those being opened. -/
def Ledger (c : Crew) : Prop :=
  c.pool.Accounts (weigh (fun w => w.held.length) c.workers) (weigh Worker.reserved c.workers)

/-- While a thread waits that nothing has woken, enough threads have been woken. -/
def Awake (c : Crew) : Prop :=
  (∃ w ∈ c.workers, w.Sleeps) → c.pool.idle.length ≤ weigh Worker.woken c.workers

/-- The system opens descriptors that are not open. -/
def Allows (c : Crew) (a : Act) : Prop :=
  ∀ fd, a.opens = some fd → c.owners fd = 0

/-- What the threads have taken, behind a step. -/
structure Shared (c : Crew) : Prop where
  ledger : c.Ledger
  once   : ∀ fd, 0 ≤ fd → c.owners fd ≤ 1
  awake  : c.Awake

theorem Ledger.put {w w' : Worker} {p' : UpstreamPool} (h : c.Ledger)
    (hw : c.workers[i]? = some w) (hch : Change a c.pool w p' w') : (c.put i p' w').Ledger := by
  unfold Ledger at h ⊢
  rw [weigh_eq _ hw, weigh_eq Worker.reserved hw] at h
  show p'.Accounts (weigh _ (c.workers.set i w')) (weigh _ (c.workers.set i w'))
  rw [weigh_set _ hw, weigh_set _ hw]
  exact hch.accounts h

theorem owners_put {w w' : Worker} {p' : UpstreamPool} (ha : c.Allows a)
    (h : ∀ fd, 0 ≤ fd → c.owners fd ≤ 1) (hw : c.workers[i]? = some w)
    (hch : Change a c.pool w p' w') : ∀ fd, 0 ≤ fd → (c.put i p' w').owners fd ≤ 1 := by
  intro fd hfd
  have hle := hch.fdCount_le hfd
  have hbefore := h fd hfd
  have hfresh := ha fd
  unfold owners at hbefore hfresh ⊢
  rw [weigh_eq _ hw] at hbefore hfresh
  show fdCount fd p'.idle + weigh _ (c.workers.set i w') ≤ 1
  rw [weigh_set _ hw]
  split_ifs at hle with hopens
  · have := hfresh hopens
    omega
  · omega

theorem Awake.put {w w' : Worker} {p' : UpstreamPool} (h : c.Awake)
    (hw : c.workers[i]? = some w) (hch : Change a c.pool w p' w') :
    (∃ j now notify, a = .release j now notify ∧
      ((∃ w ∈ (c.put i p' w').workers, w.Sleeps) →
        p'.idle.length ≤ weigh Worker.woken (c.put i p' w').workers + 1)) ∨
    (c.put i p' w').Awake := by
  have hsleeps : (w'.Sleeps → w.Sleeps) → (∃ w ∈ (c.put i p' w').workers, w.Sleeps) →
      ∃ w ∈ c.workers, w.Sleeps := by
    rintro hww' ⟨v, hv, hs⟩
    rcases List.mem_or_eq_of_mem_set hv with hv | rfl
    · exact ⟨v, hv, hs⟩
    · exact ⟨w, List.mem_of_getElem? hw, hww' hs⟩
  unfold Awake at h ⊢
  rw [weigh_eq _ hw] at h
  rw [show weigh Worker.woken (c.put i p' w').workers = _ from weigh_set _ hw w']
  rcases hch.woken_le with ⟨j, now, notify, ha, hstage, hlen⟩ | hidle | ⟨hlen, hs⟩
  · refine Or.inl ⟨j, now, notify, ha, fun hs => ?_⟩
    have hle := h (hsleeps (fun hw' => hstage.symm.trans hw') hs)
    have hwoken : w'.woken = w.woken := by rw [Worker.woken, hstage, ← Worker.woken]
    omega
  · right
    intro _
    show p'.idle.length ≤ _
    rw [hidle]
    exact Nat.zero_le _
  · right
    intro hs'
    have hle := h (hsleeps hs hs')
    show p'.idle.length ≤ _
    omega

/-- A thread that is woken. -/
theorem notify_keeps {k : Nat} {w : Worker} (hk : c.workers[k]? = some w) (hs : w.Sleeps) :
    let d : Crew := { c with workers := c.workers.set k { w with stage := .waiting true } }
    (c.Ledger → d.Ledger) ∧ (∀ fd, d.owners fd = c.owners fd) ∧
      weigh Worker.woken d.workers = weigh Worker.woken c.workers + 1 ∧
      ((∃ w ∈ d.workers, w.Sleeps) → ∃ w ∈ c.workers, w.Sleeps) := by
  have hstage : w.stage = .waiting false := hs
  have hres : Worker.reserved { w with stage := .waiting true } = w.reserved := by
    simp [Worker.reserved, hstage]
  have hheld : ∀ g : List PooledConn → Nat, weigh (fun w => g w.held)
      (c.workers.set k { w with stage := .waiting true }) = weigh (fun w => g w.held) c.workers :=
    fun g => weigh_set_eq hk rfl
  refine ⟨fun h => ?_, fun fd => ?_, ?_, fun _ => ⟨w, List.mem_of_getElem? hk, hs⟩⟩
  · unfold Ledger at h ⊢
    rw [hheld, weigh_set_eq hk hres]
    exact h
  · unfold owners
    rw [hheld]
  · rw [weigh_set _ hk, weigh_eq _ hk]
    simp [Worker.woken, hstage]

/-- **One step** of a thread. -/
theorem Shared.act (h : c.Shared) (ha : c.Allows a) (he : c.act i a = some c') : c'.Shared := by
  obtain ⟨w, p', w', hw, hch, hcase⟩ := act_change he
  have hledger := h.ledger.put hw hch
  have howners := owners_put ha h.once hw hch
  rcases hcase with ⟨j, now, notify, rfl, hnotify⟩ | ⟨hne, hpool, hworkers⟩
  · have hawake : (∃ w ∈ (c.put i p' w').workers, w.Sleeps) →
        p'.idle.length ≤ weigh Worker.woken (c.put i p' w').workers + 1 := by
      rcases h.awake.put hw hch with ⟨-, -, -, -, hawake⟩ | hawake
      · exact hawake
      · exact fun hs => Nat.le_succ_of_le (hawake hs)
    rcases notifyOne_cases hnotify with ⟨rfl, hnone⟩ | ⟨k, v, hk, hs, rfl⟩
    · exact ⟨hledger, howners, fun hs => absurd hs hnone⟩
    · obtain ⟨h1, h2, h3, h4⟩ := notify_keeps hk hs
      refine ⟨h1 hledger, fun fd hfd => h2 fd ▸ howners fd hfd, fun hs => ?_⟩
      rw [h3]
      exact hawake (h4 hs)
  · have hawake : (c.put i p' w').Awake := by
      rcases h.awake.put hw hch with ⟨j, now, notify, heq, -⟩ | hawake
      · exact absurd heq (hne j now notify)
      · exact hawake
    obtain ⟨pool, endpoints, workers⟩ := c'
    subst hpool hworkers
    exact ⟨hledger, howners, hawake⟩

/-- Some threads with a new pool. -/
def start (endpoint : Nat) (cfg : PoolConfig) (eps : List UpstreamEndpoint) (n : Nat) : Crew :=
  { pool := { endpoint, cfg }, endpoints := eps, workers := List.replicate n {} }

/-- The runs: any thread takes the next step. -/
inductive Reach (init : Crew) : Crew → Prop where
  | init : Reach init init
  | act {c c' : Crew} {i : Nat} {a : Act} (h : Reach init c) (ha : c.Allows a)
      (he : c.act i a = some c') : Reach init c'

instance instDecidableAllows (c : Crew) (a : Act) : Decidable (c.Allows a) :=
  match h : a.opens with
  | none => isTrue fun fd hfd => by
      rw [h] at hfd
      cases hfd
  | some fd =>
    decidable_of_iff (c.owners fd = 0)
      ⟨fun h0 fd' hfd => by rw [h] at hfd; cases hfd; exact h0, fun ha => ha fd h⟩

/-- A step of one of the threads, if it is allowed. -/
def actOf (c : Crew) (p : Nat × Act) : Option Crew :=
  if c.Allows p.2 then c.act p.1 p.2 else none

theorem Reach.run {init : Crew} : ∀ (steps : List (Nat × Act)) {c c' : Crew}, Reach init c →
    runM actOf c steps = some c' → Reach init c'
  | [], c, c', h, hr => by
    cases hr
    exact h
  | p :: steps, c, c', h, hr => by
    obtain ⟨d, hd, hr⟩ := Option.bind_eq_some_iff.mp hr
    unfold actOf at hd
    split_ifs at hd with ha
    exact Reach.run steps (h.act ha hd) hr

theorem weigh_replicate {g : Worker → Nat} (h : g {} = 0) (n : Nat) :
    weigh g (List.replicate n {}) = 0 := by
  simp [weigh, h]

theorem Shared.start (endpoint : Nat) (cfg : PoolConfig) (eps : List UpstreamEndpoint) (n : Nat) :
    (start endpoint cfg eps n).Shared := by
  refine ⟨?_, fun fd _ => ?_, fun h => Nat.zero_le _⟩
  · unfold Ledger
    rw [show (Crew.start endpoint cfg eps n).workers = List.replicate n {} from rfl,
      weigh_replicate rfl, weigh_replicate rfl]
    exact .new endpoint cfg
  · unfold owners
    rw [show (Crew.start endpoint cfg eps n).workers = List.replicate n {} from rfl,
      weigh_replicate rfl]
    exact Nat.zero_le _

theorem Reach.shared {init : Crew} (h : Reach init c) (h0 : init.Shared) : c.Shared := by
  induction h with
  | init => exact h0
  | act _ ha he ih => exact ih.act ha he

/-- A pool of one connection, shared by three threads. -/
def sampleStart : Crew := start 0 { maxConnsPerUpstream := 1 } [{}] 3

/-- The first thread holds the connection, and the others wait. -/
def sampleSteps : List (Nat × Act) :=
  [(0, .enter), (0, .connect { socket := 5 }), (1, .enter), (2, .enter)]

/-- The crew behind some steps. -/
def after (steps : List (Nat × Act)) : Crew := (runM actOf sampleStart steps).getD sampleStart

/-- **No wake-up is lost.** In every run, while a thread waits that nothing has woken, there are no
more idle connections than threads that have been woken and have not looked yet. -/
theorem no_lost_wakeup (endpoint : Nat) (cfg : PoolConfig) (eps : List UpstreamEndpoint) (n : Nat)
    (h : Reach (start endpoint cfg eps n) c) (hw : ∃ w ∈ c.workers, w.stage = .waiting false) :
    c.pool.idle.length ≤ c.workers.countP fun w => w.stage = .waiting true := by
  have hle := (h.shared (.start endpoint cfg eps n)).awake hw
  have hcount : ∀ ws : List Worker,
      weigh Worker.woken ws = ws.countP fun w => w.stage = .waiting true := by
    intro ws
    induction ws with
    | nil => rfl
    | cons w ws ih =>
      rw [List.countP_cons, ← ih]
      simp [weigh, Worker.woken, Nat.add_comm]
  rwa [hcount] at hle

/-- The connection is given back, and one of the threads that wait has been woken. -/
theorem no_lost_wakeup_one :
    let c := after (sampleSteps ++ [(0, .release 0 10 (some 1))])
    (∃ w ∈ c.workers, w.stage = .waiting false) ∧ c.pool.idle.length = 1 ∧
      c.pool.idle.length ≤ c.workers.countP fun w => w.stage = .waiting true :=
  have h : Reach sampleStart (after (sampleSteps ++ [(0, .release 0 10 (some 1))])) :=
    Reach.run (sampleSteps ++ [(0, .release 0 10 (some 1))]) .init rfl
  have hw : ∃ w ∈ (after (sampleSteps ++ [(0, .release 0 10 (some 1))])).workers,
      w.stage = .waiting false := by decide
  ⟨hw, rfl, no_lost_wakeup 0 { maxConnsPerUpstream := 1 } [{}] 3 h hw⟩

/-! ## One thread alone -/

theorem put_worker {w : Worker} (hw : c.workers[i]? = some w) (p : UpstreamPool) (w' : Worker) :
    (c.put i p w').workers[i]? = some w' := by
  obtain ⟨hi, -⟩ := List.getElem?_eq_some_iff.mp hw
  exact List.getElem?_set_self hi

section Alone

variable {w : Worker} (hw : c.workers[i]? = some w)

include hw

theorem act_enter (hs : w.stage = .outside) :
    c.act i .enter = some (c.takeOr i w
      (if c.pool.cfg.maxConnsPerUpstream ≤ c.pool.total then
        c.put i c.pool { w with stage := .waiting false }
      else
        c.put i { c.pool with total := c.pool.total + 1 } { w with stage := .connecting })) := by
  simp only [act, hw, hs]

theorem act_timeout {b : Bool} (hs : w.stage = .waiting b) :
    c.act i .timeout = some (c.takeOr i w
      (c.put i c.pool (w.refused (.fromCode .timeout "upstream pool exhausted")))) := by
  simp only [act, hw, hs]

theorem act_wake {b : Bool} (hs : w.stage = .waiting b) :
    c.act i .wake = some (c.takeOr i w (c.put i c.pool { w with stage := .waiting false })) := by
  simp only [act, hw, hs]

theorem act_connect (hs : w.stage = .connecting) (calls : ConnectCalls) :
    c.act i (.connect calls) =
      match newConnection calls with
      | .error e => some (c.put i c.pool { w with stage := .failing e })
      | .ok conn => some (c.put i c.pool (w.given conn)) := by
  simp only [act, hw, hs]

theorem act_uncount {e : Error} (hs : w.stage = .failing e) :
    c.act i .uncount =
      some { c.put i { c.pool with total := c.pool.total - 1 } (w.refused e) with
        endpoints := countFailed c.endpoints c.pool.endpoint } := by
  simp only [act, hw, hs]

end Alone

theorem takeOr_none (h : c.pool.idle = []) (w : Worker) (d : Crew) : c.takeOr i w d = d := by
  unfold takeOr
  rw [h]

/-- **One `acquire` that nothing interrupts** is `UpstreamPool.acquire`. -/
theorem acquire_alone {w : Worker} (hw : c.workers[i]? = some w) (hs : w.stage = .outside)
    (calls : ConnectCalls) :
    ∃ acts c' w', runM (fun c a => c.act i a) c acts = some c' ∧
      (c'.pool, c'.endpoints) = (c.pool.acquire c.endpoints calls).2 ∧
      c'.workers[i]? = some w' ∧ w'.stage = .outside ∧
      w'.returned = some (c.pool.acquire c.endpoints calls).1 := by
  have henter := act_enter hw hs
  rcases c.pool.acquire_cases c.endpoints calls with ⟨conn, rest, hidle, heq⟩ |
    ⟨hidle, hmax, heq⟩ | ⟨e, hidle, hlt, hc, heq⟩ | ⟨conn, hidle, hlt, hc, heq⟩
  · -- an idle connection is taken in the first critical section
    rw [takeOr, hidle] at henter
    refine ⟨[.enter], _, _, runM_cons henter _, ?_, put_worker hw _ _, rfl, ?_⟩
    · rw [heq]
      rfl
    · rw [heq]
      rfl
  · -- the wait ends with the timeout
    rw [takeOr_none hidle, if_pos hmax] at henter
    have htimeout := act_timeout (put_worker hw c.pool { w with stage := .waiting false })
      (b := false) rfl
    rw [takeOr_none (by exact hidle)] at htimeout
    refine ⟨[.enter, .timeout], _, _, (runM_cons henter _).trans (runM_cons htimeout _), ?_,
      put_worker (put_worker hw _ _) _ _, rfl, ?_⟩
    · rw [heq]
      rfl
    · rw [heq]
      rfl
  · -- no connection can be opened
    rw [takeOr_none hidle, if_neg (UInt32.not_le.mpr hlt)] at henter
    obtain ⟨c₁, hc₁⟩ : ∃ c₁, c₁ = c.put i { c.pool with total := c.pool.total + 1 }
      { w with stage := .connecting } := ⟨_, rfl⟩
    have hw₁ : c₁.workers[i]? = some { w with stage := .connecting } :=
      hc₁ ▸ put_worker hw _ _
    obtain ⟨c₂, hc₂⟩ : ∃ c₂, c₂ = c₁.put i c₁.pool { w with stage := .failing e } := ⟨_, rfl⟩
    have hw₂ : c₂.workers[i]? = some { w with stage := .failing e } := hc₂ ▸ put_worker hw₁ _ _
    have hconnect : c₁.act i (.connect calls) = some c₂ := by
      rw [act_connect hw₁ rfl, hc, hc₂]
    rw [← hc₁] at henter
    obtain ⟨c₃, hc₃⟩ : ∃ c₃, c₃ = { c₂.put i { c₂.pool with total := c₂.pool.total - 1 }
      (w.refused e) with endpoints := countFailed c₂.endpoints c₂.pool.endpoint } := ⟨_, rfl⟩
    have hw₃ : c₃.workers[i]? = some (w.refused e) :=
      (congrArg (fun c => c.workers[i]?) hc₃).trans (put_worker hw₂ c₂.pool _)
    have huncount : c₂.act i .uncount = some c₃ := by
      rw [act_uncount hw₂ rfl, hc₃]
      rfl
    refine ⟨[.enter, .connect calls, .uncount], c₃, w.refused e,
      (runM_cons henter _).trans ((runM_cons hconnect _).trans (runM_cons huncount _)),
      ?_, hw₃, rfl, ?_⟩
    · have htotal : c.pool.total + 1 - 1 = c.pool.total := UInt32.add_sub_cancel _ _
      rw [heq, hc₃, hc₂, hc₁]
      simp only [put, htotal]
    · rw [heq]
      rfl
  · -- a connection is opened
    rw [takeOr_none hidle, if_neg (UInt32.not_le.mpr hlt)] at henter
    have hconnect := act_connect (put_worker hw { c.pool with total := c.pool.total + 1 }
      { w with stage := .connecting }) rfl calls
    rw [hc] at hconnect
    refine ⟨[.enter, .connect calls], _, _,
      (runM_cons henter _).trans (runM_cons hconnect _), ?_,
      put_worker (put_worker hw _ _) _ _, rfl, ?_⟩
    · rw [heq]
      rfl
    · rw [heq]
      rfl

/-! ## Slots that become free -/

/-- What a step of another thread does to one that waits: it may wake it. -/
theorem act_other {k : Nat} {w : Worker} (hki : k ≠ i) (hw : c.workers[i]? = some w)
    (hs : ∃ b, w.stage = .waiting b) (he : c.act k a = some c') :
    ∃ b, c'.workers[i]? = some { w with stage := .waiting b } := by
  obtain ⟨b, hb⟩ := hs
  have hself : { w with stage := .waiting b } = w := by rw [← hb]
  obtain ⟨v, p', v', hv, -, hcase⟩ := act_change he
  have hput : (c.put k p' v').workers[i]? = some w := by
    rw [show (c.put k p' v').workers = c.workers.set k v' from rfl, List.getElem?_set_ne hki, hw]
  rcases hcase with ⟨j, now, notify, -, hnotify⟩ | ⟨-, -, hworkers⟩
  · rcases notifyOne_cases hnotify with ⟨rfl, -⟩ | ⟨m, u, hm, -, rfl⟩
    · exact ⟨b, by rw [hput, hself]⟩
    · by_cases hmi : m = i
      · subst hmi
        rw [hput] at hm
        cases hm
        exact ⟨true, List.getElem?_set_self (List.getElem?_eq_some_iff.mp hput).1⟩
      · refine ⟨b, ?_⟩
        rw [hself, ← hput]
        exact List.getElem?_set_ne hmi
  · exact ⟨b, by rw [hworkers, List.getElem?_set_ne hki, hw, hself]⟩

/-- **A free slot is of no use to a thread that waits.** As long as no connection is idle, a thread
that waits goes on waiting until its timeout, however often it is woken, and even if `total_` has
fallen below the limit so that it could open a connection. -/
theorem freed_slot_wakes_nobody {w : Worker} : ∀ {steps : List (Nat × Act)} {c c' : Crew},
    c.workers[i]? = some w → (∃ b, w.stage = .waiting b) →
    (∀ p ∈ steps, p.1 = i → p.2 = .wake) →
    (∀ pre d, pre <+: steps → runM actOf c pre = some d → d.pool.idle = []) →
    runM actOf c steps = some c' →
    ∃ b, c'.workers[i]? = some { w with stage := .waiting b }
  | [], c, c', hw, ⟨b, hb⟩, _, _, hr => by
    cases hr
    exact ⟨b, by rw [hw, ← hb]⟩
  | (k, a) :: steps, c, c', hw, hs, hown, hidle, hr => by
    obtain ⟨d, hd, hr⟩ := Option.bind_eq_some_iff.mp hr
    have hact : c.act k a = some d := by
      unfold actOf at hd
      split_ifs at hd
      exact hd
    -- the thread itself only looks for an idle connection, and there is none
    have hwait : ∃ b, d.workers[i]? = some { w with stage := .waiting b } := by
      by_cases hki : k = i
      · subst hki
        obtain rfl : a = .wake := hown _ List.mem_cons_self rfl
        obtain ⟨b, hb⟩ := hs
        rw [act_wake hw hb, takeOr_none (hidle [] c List.nil_prefix rfl)] at hact
        cases hact
        exact ⟨false, put_worker hw _ _⟩
      · exact act_other hki hw hs hact
    obtain ⟨b, hb⟩ := hwait
    obtain ⟨b', hb'⟩ := freed_slot_wakes_nobody hb ⟨b, rfl⟩
      (fun p hp => hown p (List.mem_cons_of_mem _ hp))
      (fun pre e hpre he => hidle ((k, a) :: pre) e (List.cons_prefix_cons.mpr ⟨rfl, hpre⟩)
        ((runM_cons hd pre).trans he)) hr
    exact ⟨b', hb'⟩

/-- The only connection is given back closed. The thread that is woken goes on waiting, although
`total_` is 0 and the limit is 1. -/
theorem freed_slot_wakes_nobody_closed :
    let c' := after (sampleSteps ++ [(0, .use 0 1 true), (0, .release 0 10 (some 1)), (1, .wake)])
    c'.pool.total = 0 ∧ c'.pool.cfg.maxConnsPerUpstream = 1 ∧
      ∃ b, c'.workers[1]? = some { stage := .waiting b } := by
  refine ⟨rfl, rfl, freed_slot_wakes_nobody (w := { stage := .waiting false })
    (c := after (sampleSteps ++ [(0, .use 0 1 true)]))
    (i := 1) rfl ⟨false, rfl⟩ ?_ ?_ (show runM actOf _ [(0, .release 0 10 (some 1)), (1, .wake)] = _
      from rfl)⟩
  · decide
  · intro pre d hpre hd
    rcases List.prefix_cons_iff.mp hpre with rfl | ⟨t, rfl, ht⟩
    · cases hd
      rfl
    rcases List.prefix_cons_iff.mp ht with rfl | ⟨u, rfl, hu⟩
    · cases hd
      rfl
    obtain rfl := List.prefix_nil.mp hu
    cases hd
    rfl

end Crew

end Uproxy
