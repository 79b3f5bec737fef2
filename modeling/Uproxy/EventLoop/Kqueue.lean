import Uproxy.EventLoop.Epoll
import Uproxy.Lib.Run

/-!
# The event loop over kqueue (`event_loop_kqueue.cpp`)

kqueue has a filter for each direction of a descriptor. `filters` is what the kernel has; the loop's
own `registered_` is a copy from which `apply` takes what there is to delete, and it is a copy that
can be wrong: `remove` and the close of a descriptor leave it as it is, and a call that fails in the
middle does not write it. `remove` deletes both filters with one `kevent`, which stops at the first
change that fails.

* **`kqueue_exact`**: the copy does no harm as long as every call asks for reads, as all calls of
  the proxy do: one that succeeds leaves in the kernel exactly the filters it asks for, and `remove`
  leaves none, whatever failed before;
* `remove_keeps_write`: without that condition `remove` leaves a filter behind;
* **`event_loops_agree`**: as long as the system refuses nothing, the two loops do the same: they
  watch the same descriptors for the same directions, hand out the same timer numbers, and run the
  same callbacks.
-/

namespace Uproxy

open Lib.Run Lib.OneShot

/-! ## The code -/

/-- The directions a descriptor is watched for: bits 1 and 2 of an entry of `registered_`. -/
structure Watch where
  read  : Bool := false
  write : Bool := false
  deriving DecidableEq, Repr

/-- `KqueueLoop`, with the filters of `kqfd_`. -/
structure KqueueLoop (κ : Type) where
  filters     : Nat → Watch := fun _ => {}
  registered  : Nat → Watch := fun _ => {}
  timers      : Nat → Option κ := fun _ => none
  nextTimerId : Nat := 1

/-- The errnos `apply`'s calls of `kevent` fail with when they add a filter. -/
structure ApplyCalls where
  read  : Option Int := none
  write : Option Int := none
  deriving DecidableEq, Repr

namespace KqueueLoop

variable {κ : Type}

def setFilter (k : KqueueLoop κ) (fd : Nat) (w : Watch) : KqueueLoop κ :=
  { k with filters := Function.update k.filters fd w }

/-- `apply` on `EVFILT_READ`: the loop and `cur`. A filter to delete that is not there is none. -/
def applyRead (k : KqueueLoop κ) (fd : Nat) (events : Event) (failed : Option Int) :
    Except Int (KqueueLoop κ × Watch) :=
  let cur := k.registered fd
  if events.read then
    match failed with
    | some errno => .error errno
    | none => .ok (k.setFilter fd { k.filters fd with read := true }, { cur with read := true })
  else if cur.read then
    .ok (k.setFilter fd { k.filters fd with read := false }, { cur with read := false })
  else .ok (k, cur)

/-- `apply` on `EVFILT_WRITE`. -/
def applyWrite (k : KqueueLoop κ) (cur : Watch) (fd : Nat) (events : Event) (failed : Option Int) :
    Except Int (KqueueLoop κ × Watch) :=
  if events.write then
    match failed with
    | some errno => .error errno
    | none => .ok (k.setFilter fd { k.filters fd with write := true }, { cur with write := true })
  else if cur.write then
    .ok (k.setFilter fd { k.filters fd with write := false }, { cur with write := false })
  else .ok (k, cur)

/-- `apply`, which is `add` and `modify`. -/
def apply (k : KqueueLoop κ) (fd : Nat) (events : Event) (c : ApplyCalls) :
    Result Unit × KqueueLoop κ :=
  match k.applyRead fd events c.read with
  | .error errno => (.error (.fromErrno errno "kevent add read"), k)
  | .ok (k, cur) =>
    match k.applyWrite cur fd events c.write with
    | .error errno => (.error (.fromErrno errno "kevent add write"), k)
    | .ok (k, cur) => (.ok (), { k with registered := Function.update k.registered fd cur })

/-- `remove`: with no filter for reads the call stops at `ENOENT`, which is taken for success. -/
def remove (k : KqueueLoop κ) (fd : Nat) : Result Unit × KqueueLoop κ :=
  if (k.filters fd).read then (.ok (), k.setFilter fd {}) else (.ok (), k)

/-- A descriptor is closed. -/
def close (k : KqueueLoop κ) (fd : Nat) : KqueueLoop κ := k.setFilter fd {}

/-- `add_timer`. -/
def addTimer (k : KqueueLoop κ) (cb : κ) (failed : Option Int) : Result Nat × KqueueLoop κ :=
  let id := k.nextTimerId
  let k := { k with nextTimerId := id + 1 }
  match failed with
  | some errno => (.error (.fromErrno errno "kevent timer add"), k)
  | none =>
    -- `emplace` does not replace
    if (k.timers id).isSome then (.ok id, k)
    else (.ok id, { k with timers := Function.update k.timers id (some cb) })

/-- `cancel_timer`; `failed` is an errno other than `ENOENT`. -/
def cancelTimer (k : KqueueLoop κ) (id : Nat) (failed : Option Int) : Result Unit × KqueueLoop κ :=
  match failed with
  | some errno => (.error (.fromErrno errno "kevent timer delete"), k)
  | none => (.ok (), { k with timers := Function.update k.timers id none })

/-- `poll` on one event of `EVFILT_TIMER`, up to the callback it then runs. -/
def fire (k : KqueueLoop κ) (id : Nat) : Option κ × KqueueLoop κ :=
  match k.timers id with
  | none => (none, k)
  | some cb => (some cb, { k with timers := Function.update k.timers id none })

end KqueueLoop

/-! ## What `registered_` is good for -/

/-- What is done to a kqueue loop that concerns its filters. -/
inductive KqueueOp where
  | apply (fd : Nat) (events : Event) (calls : ApplyCalls)
  | remove (fd : Nat)
  | close (fd : Nat)

/-- A call that sets filters asks for reads. -/
def KqueueOp.Reads : KqueueOp → Prop
  | .apply _ events _ => events.read = true
  | _ => True

namespace KqueueLoop

variable {κ : Type}

def exec (k : KqueueLoop κ) : KqueueOp → KqueueLoop κ
  | .apply fd events calls => (k.apply fd events calls).2
  | .remove fd => (k.remove fd).2
  | .close fd => k.close fd

/-- A filter for writes is in `registered_`, and there is one for reads beside it. -/
def Tracked (k : KqueueLoop κ) : Prop :=
  ∀ fd, (k.filters fd).write = true → (k.registered fd).write = true ∧ (k.filters fd).read = true

theorem tracked_new : Tracked ({} : KqueueLoop κ) := fun _ h => by cases h

theorem Tracked.of_update {k k' : KqueueLoop κ} (h : k.Tracked) (fd : Nat) (w : Watch)
    (hf : k'.filters = Function.update k.filters fd w)
    (hr : ∀ fd', fd' ≠ fd → k'.registered fd' = k.registered fd')
    (hw : w.write = true → (k'.registered fd).write = true ∧ w.read = true) : k'.Tracked := by
  intro fd'
  rw [hf]
  by_cases hne : fd' = fd
  · subst hne
    simpa using hw
  · rw [Function.update_of_ne hne, hr fd' hne]
    exact h fd'

section Apply

variable {k : KqueueLoop κ} {events : Event}

/-- **Every way through `apply`** for a call that asks for reads. -/
theorem Tracked.apply_cases (h : k.Tracked) (fd : Nat) (hread : events.read = true)
    (c : ApplyCalls) :
    (c.read ≠ none ∧ ∃ e, k.apply fd events c = (.error e, k)) ∨
    (c.write ≠ none ∧
      ∃ e, k.apply fd events c = (.error e, k.setFilter fd { k.filters fd with read := true })) ∨
    k.apply fd events c = (.ok (),
      { k with
        filters := Function.update k.filters fd ⟨true, events.write⟩
        registered := Function.update k.registered fd ⟨true, events.write⟩ }) := by
  unfold apply applyRead
  rw [if_pos hread]
  cases c.read with
  | some errno => exact Or.inl ⟨nofun, _, rfl⟩
  | none =>
    simp only [applyWrite]
    cases hw : events.write with
    | true =>
      rw [if_pos rfl]
      cases c.write with
      | some errno => exact Or.inr (Or.inl ⟨nofun, _, rfl⟩)
      | none => exact Or.inr (Or.inr (by simp [setFilter]))
    | false =>
      rw [if_neg (by simp)]
      cases hreg : (k.registered fd).write with
      | true => exact Or.inr (Or.inr (by simp [setFilter]))
      | false =>
        -- nothing to delete, by the copy: and there is nothing in the kernel
        have hnot : (k.filters fd).write = false := by
          by_contra hne
          have := (h fd (by simpa using hne)).1
          rw [hreg] at this
          cases this
        exact Or.inr (Or.inr (by simp [setFilter, hnot]))

theorem Tracked.remove_filters (h : k.Tracked) (fd : Nat) :
    (k.remove fd).2.filters = Function.update k.filters fd {} := by
  unfold remove
  split_ifs with hread
  · rfl
  · have hwrite : (k.filters fd).write = false := by
      by_contra hne
      exact hread (h fd (by simpa using hne)).2
    have : k.filters fd = {} := by
      cases hf : k.filters fd with
      | mk r w =>
        rw [hf] at hread hwrite
        simp only [Bool.not_eq_true] at hread hwrite
        rw [hread, hwrite]
    rw [← this, Function.update_eq_self]

theorem remove_registered (k : KqueueLoop κ) (fd : Nat) :
    (k.remove fd).2.registered = k.registered ∧ (k.remove fd).2.timers = k.timers ∧
      (k.remove fd).2.nextTimerId = k.nextTimerId := by
  unfold remove
  split_ifs <;> exact ⟨rfl, rfl, rfl⟩

end Apply

/-- **Every call keeps the filters tracked.** -/
theorem Tracked.exec {k : KqueueLoop κ} (h : k.Tracked) (op : KqueueOp) (hop : op.Reads) :
    (k.exec op).Tracked := by
  cases op with
  | apply fd events calls =>
    rcases h.apply_cases fd hop calls with ⟨-, e, he⟩ | ⟨-, e, he⟩ | he
    · simp only [KqueueLoop.exec, he]
      exact h
    · simp only [KqueueLoop.exec, he]
      exact h.of_update fd _ rfl (fun _ _ => rfl) fun hw => ⟨(h fd hw).1, rfl⟩
    · simp only [KqueueLoop.exec, he]
      refine h.of_update fd _ rfl (fun fd' hne => Function.update_of_ne hne _ _) fun hw => ?_
      exact ⟨by simpa using hw, rfl⟩
  | remove fd =>
    exact h.of_update fd {} (h.remove_filters fd)
      (fun fd' _ => congrFun (k.remove_registered fd).1 fd') fun hw => by cases hw
  | close fd => exact h.of_update fd {} rfl (fun _ _ => rfl) fun hw => by cases hw

theorem Tracked.run : ∀ (ops : List KqueueOp) {k : KqueueLoop κ}, (∀ op ∈ ops, op.Reads) →
    k.Tracked → (run KqueueLoop.exec k ops).Tracked
  | [], _, _, h => h
  | op :: ops, _, hops, h =>
    Tracked.run ops (fun op hop => hops op (List.mem_cons_of_mem _ hop))
      (h.exec op (hops op List.mem_cons_self))

/-- **The kernel has what was asked for.** After any calls that ask for reads, with whatever the
system answered them, the next such call either succeeds, and then exactly the filters it asks for
are set, or fails, and then the filters are as before except that the one for reads may be set.
`remove` leaves none. No other descriptor is touched. -/
theorem kqueue_exact (ops : List KqueueOp) (hops : ∀ op ∈ ops, op.Reads) :
    let k := run exec ({} : KqueueLoop κ) ops
    (∀ fd events c, events.read = true →
      ((k.apply fd events c).1 = .ok () →
        (k.apply fd events c).2.filters = Function.update k.filters fd ⟨true, events.write⟩) ∧
      ((k.apply fd events c).1 ≠ .ok () →
        (k.apply fd events c).2.filters = k.filters ∨
        (k.apply fd events c).2.filters =
          Function.update k.filters fd { k.filters fd with read := true })) ∧
    ∀ fd, (k.remove fd).2.filters = Function.update k.filters fd {} := by
  have htracked : (run exec ({} : KqueueLoop κ) ops).Tracked := Tracked.run ops hops tracked_new
  refine ⟨fun fd events c hread => ?_, fun fd => htracked.remove_filters fd⟩
  rcases htracked.apply_cases fd hread c with ⟨-, e, he⟩ | ⟨-, e, he⟩ | he
  · rw [he]
    exact ⟨nofun, fun _ => Or.inl rfl⟩
  · rw [he]
    exact ⟨nofun, fun _ => Or.inr rfl⟩
  · rw [he]
    exact ⟨fun _ => rfl, fun h => absurd rfl h⟩

/-- A call refused in the middle, one that succeeds behind it, and the end of the connection. -/
theorem kqueue_exact_refused :
    let ops : List KqueueOp :=
      [.apply 7 { read := true } {}, .apply 7 Event.readWrite { write := some 12 },
        .apply 7 Event.readWrite {}]
    ∀ fd, ((run exec ({} : KqueueLoop Unit) ops).remove fd).2.filters =
      Function.update (run exec ({} : KqueueLoop Unit) ops).filters fd {} :=
  (kqueue_exact _ (by simp [KqueueOp.Reads, Event.readWrite])).2

/-- **The condition is needed**: a filter for writes alone survives `remove`. -/
theorem remove_keeps_write (fd : Nat) :
    let k := (({} : KqueueLoop κ).apply fd { write := true } {}).2
    ((k.remove fd).2.filters fd).write = true := by
  simp [apply, applyRead, applyWrite, setFilter, remove]

end KqueueLoop

/-! ## The two loops -/

/-- The calls of `EventLoop`, and the expiry of a timer. -/
inductive LoopCall (κ : Type) where
  | add (fd : Nat) (events : Event)
  | modify (fd : Nat) (events : Event)
  | remove (fd : Nat)
  | close (fd : Nat)
  | addTimer (cb : κ)
  | cancelTimer (id : Nat)
  | expire (id : Nat)

/-- What comes of a call: its result, or the callback that runs. -/
inductive CallResult (κ : Type) where
  | done (r : Result Unit)
  | timer (r : Result Nat)
  | ran (cb : Option κ)

section Agree

variable {κ : Type}

/-- What epoll watches a descriptor for. -/
def EpollLoop.watch (l : EpollLoop κ) (fd : Nat) : Watch :=
  match l.interest fd with
  | none => {}
  | some m => ⟨m.input, m.output⟩

/-- A call where the system refuses nothing and gives a new timer the descriptor `tfd`. A timer
expires by an event on its descriptor. -/
def EpollLoop.call (l : EpollLoop κ) (tfd : Nat) : LoopCall κ → CallResult κ × EpollLoop κ
  | .add fd events => let (r, l) := l.add fd events none; (.done r, l)
  | .modify fd events => let (r, l) := l.modify fd events; (.done r, l)
  | .remove fd => let (r, l) := l.remove fd; (.done r, l)
  | .close fd => (.done (.ok ()), l.close fd)
  | .addTimer cb => let (r, l) := l.addTimer cb { create := .ok tfd }; (.timer r, l)
  | .cancelTimer id => (.done (.ok ()), l.cancelTimer id)
  | .expire id =>
    match l.timers id with
    | none => (.ran none, l)
    | some t =>
      match l.fire t.tfd with
      | (.timer cb, l) => (.ran cb, l)
      | (.other, l) => (.ran none, l)

/-- A call where the system refuses nothing. -/
def KqueueLoop.call (k : KqueueLoop κ) : LoopCall κ → CallResult κ × KqueueLoop κ
  | .add fd events => let (r, k) := k.apply fd events {}; (.done r, k)
  | .modify fd events => let (r, k) := k.apply fd events {}; (.done r, k)
  | .remove fd => let (r, k) := k.remove fd; (.done r, k)
  | .close fd => (.done (.ok ()), k.close fd)
  | .addTimer cb => let (r, k) := k.addTimer cb none; (.timer r, k)
  | .cancelTimer id => let (r, k) := k.cancelTimer id none; (.done r, k)
  | .expire id => let (cb, k) := k.fire id; (.ran cb, k)

/-- How a loop is used: a descriptor is added once and modified while it is there, always for reads;
the loop's timers have descriptors of their own. -/
def EpollLoop.Permits (l : EpollLoop κ) (tfd : Nat) : LoopCall κ → Prop
  | .add fd events => events.read = true ∧ l.interest fd = none ∧ l.timerFdToId fd = none
  | .modify fd events =>
    events.read = true ∧ (l.interest fd).isSome = true ∧ l.timerFdToId fd = none
  | .remove fd | .close fd => l.timerFdToId fd = none
  | .addTimer _ => l.interest tfd = none ∧ l.timerFdToId tfd = none
  | .cancelTimer _ | .expire _ => True

/-- The timers that are armed. -/
def KqueueLoop.table (k : KqueueLoop κ) : Table κ := ⟨k.nextTimerId, k.timers⟩

/-- Runs of the two loops with the same calls. -/
inductive BothReach : EpollLoop κ → KqueueLoop κ → Prop where
  | new : BothReach {} {}
  | call {l k} (h : BothReach l k) (tfd : Nat) (c : LoopCall κ) (hc : l.Permits tfd c) :
      BothReach (l.call tfd c).2 (k.call c).2

/-- **Loops in step.** -/
structure Lockstep (l : EpollLoop κ) (k : KqueueLoop κ) : Prop where
  timersWF : l.TimersWF
  tracked  : k.Tracked
  table    : l.table = k.table
  watch    : ∀ fd, l.timerFdToId fd = none → l.watch fd = k.filters fd
  timerFd  : ∀ fd, (l.timerFdToId fd).isSome = true → k.filters fd = {}

namespace Lockstep

variable {l : EpollLoop κ} {k : KqueueLoop κ}

/-- A call that sets the directions of one descriptor, in both loops. -/
theorem set (h : Lockstep l k) {fd : Nat} {w : Watch} {l' : EpollLoop κ} {k' : KqueueLoop κ}
    (hfd : l.timerFdToId fd = none) (htracked : k'.Tracked)
    (hl : l'.timerFdToId = l.timerFdToId ∧ l'.timers = l.timers ∧ l'.nextTimerId = l.nextTimerId)
    (hk : k'.timers = k.timers ∧ k'.nextTimerId = k.nextTimerId)
    (hwatch : l'.watch = Function.update l.watch fd w)
    (hfilters : k'.filters = Function.update k.filters fd w) : Lockstep l' k' := by
  obtain ⟨hl1, hl2, hl3⟩ := hl
  refine ⟨h.timersWF.of_eq hl1 hl2 (Nat.le_of_eq hl3.symm), htracked, ?_, fun fd' hfd' => ?_,
    fun fd' hfd' => ?_⟩
  · rw [EpollLoop.table_of_eq hl2 hl3, h.table, KqueueLoop.table, KqueueLoop.table, hk.1, hk.2]
  · rw [hl1] at hfd'
    rw [hwatch, hfilters]
    by_cases hne : fd' = fd
    · subst hne
      simp
    · rw [Function.update_of_ne hne, Function.update_of_ne hne, h.watch fd' hfd']
  · rw [hl1] at hfd'
    have hne : fd' ≠ fd := by
      rintro rfl
      rw [hfd] at hfd'
      cases hfd'
    rw [hfilters, Function.update_of_ne hne, h.timerFd fd' hfd']

theorem watch_update (l : EpollLoop κ) (fd : Nat) (m : Option EpollMask) :
    EpollLoop.watch { l with interest := Function.update l.interest fd m } =
      Function.update l.watch fd (match m with
        | none => {}
        | some m => ⟨m.input, m.output⟩) := by
  funext fd'
  by_cases hne : fd' = fd
  · subst hne
    simp only [EpollLoop.watch, Function.update_self]
  · simp only [EpollLoop.watch, Function.update_of_ne hne]

/-- `add` and `modify` come to the same in kqueue. -/
theorem apply_eq (h : Lockstep l k) (fd : Nat) {events : Event} (hread : events.read = true) :
    k.apply fd events {} = (.ok (),
      { k with
        filters := Function.update k.filters fd ⟨true, events.write⟩
        registered := Function.update k.registered fd ⟨true, events.write⟩ }) := by
  rcases h.tracked.apply_cases fd hread {} with ⟨hc, -⟩ | ⟨hc, -⟩ | he
  · exact absurd rfl hc
  · exact absurd rfl hc
  · exact he

theorem addTimer_eq (h : Lockstep l k) {tfd : Nat} (hi : l.interest tfd = none) (cb : κ) :
    l.addTimer cb { create := .ok tfd } = (.ok l.nextTimerId, l.armed tfd cb) ∧
    k.addTimer cb none = (.ok l.nextTimerId,
      { k with
        timers := Function.update k.timers k.nextTimerId (some cb)
        nextTimerId := k.nextTimerId + 1 }) := by
  have hnext : l.nextTimerId = k.nextTimerId := congrArg Table.next h.table
  have hlive : k.timers k.nextTimerId = none := by
    have := congrFun (congrArg Table.live h.table) k.nextTimerId
    simp only [EpollLoop.table, KqueueLoop.table, ← hnext, h.timersWF.next_free] at this
    rw [← hnext, ← this]
    rfl
  constructor
  · simp [EpollLoop.addTimer, EpollLoop.ctlAdd, hi, h.timersWF.next_free, EpollLoop.armed]
  · simp [KqueueLoop.addTimer, hnext, hlive]

theorem arm (h : Lockstep l k) {tfd : Nat} (hi : l.interest tfd = none)
    (hfd : l.timerFdToId tfd = none) (cb : κ) :
    Lockstep (l.armed tfd cb)
      { k with
        timers := Function.update k.timers k.nextTimerId (some cb)
        nextTimerId := k.nextTimerId + 1 } := by
  have hfilters : k.filters tfd = {} := by
    rw [← h.watch tfd hfd]
    simp [EpollLoop.watch, hi]
  refine ⟨h.timersWF.armed hfd cb, h.tracked, ?_, fun fd hnone => ?_, fun fd hsome => ?_⟩
  · rw [EpollLoop.table_armed, h.table]
    rfl
  · have hne : fd ≠ tfd := by
      rintro rfl
      simp [EpollLoop.armed] at hnone
    simp only [EpollLoop.armed, Function.update_of_ne hne] at hnone
    rw [← h.watch fd hnone]
    simp only [EpollLoop.watch, EpollLoop.armed, Function.update_of_ne hne]
  · by_cases hne : fd = tfd
    · subst hne
      exact hfilters
    · simp only [EpollLoop.armed, Function.update_of_ne hne] at hsome
      exact h.timerFd fd hsome

theorem erase (h : Lockstep l k) {id : Nat} {t : Timer κ} (ht : l.timers id = some t) :
    Lockstep (l.erase t.tfd t) { k with timers := Function.update k.timers id none } := by
  obtain ⟨hid, hfd⟩ := h.timersWF.of_id id t ht
  refine ⟨h.timersWF.erase hfd ht, h.tracked, ?_, fun fd hnone => ?_, fun fd hsome => ?_⟩
  · rw [EpollLoop.table_erase hid, h.table]
    rfl
  · by_cases hne : fd = t.tfd
    · subst hne
      rw [show k.filters t.tfd = {} from h.timerFd t.tfd (by rw [hfd]; rfl)]
      simp [EpollLoop.watch, EpollLoop.erase]
    · simp only [EpollLoop.erase, Function.update_of_ne hne] at hnone
      rw [← h.watch fd hnone]
      simp only [EpollLoop.watch, EpollLoop.erase, Function.update_of_ne hne]
  · have hne : fd ≠ t.tfd := by
      rintro rfl
      simp [EpollLoop.erase] at hsome
    simp only [EpollLoop.erase, Function.update_of_ne hne] at hsome
    exact h.timerFd fd hsome

/-- The timers of the two loops. -/
theorem timers_eq (h : Lockstep l k) (id : Nat) : k.timers id = (l.timers id).map Timer.cb :=
  (congrFun (congrArg Table.live h.table) id).symm

/-- **A call gives the same in both loops, and keeps them in step.** -/
theorem call (h : Lockstep l k) {tfd : Nat} {c : LoopCall κ} (hc : l.Permits tfd c) :
    (l.call tfd c).1 = (k.call c).1 ∧ Lockstep (l.call tfd c).2 (k.call c).2 := by
  cases c with
  | add fd events =>
    obtain ⟨hread, hi, hfd⟩ := hc
    have hl : l.add fd events none =
        (.ok (), { l with interest := Function.update l.interest fd (some (toEpoll events)) }) := by
      simp [EpollLoop.add, EpollLoop.ctlAdd, hi]
    simp only [EpollLoop.call, KqueueLoop.call, hl, h.apply_eq fd hread, true_and]
    refine h.set hfd ?_ ⟨rfl, rfl, rfl⟩ ⟨rfl, rfl⟩ (watch_update l fd _) (by simp [toEpoll, hread])
    have := h.tracked.exec (.apply fd events {}) hread
    rwa [KqueueLoop.exec, h.apply_eq fd hread] at this
  | modify fd events =>
    obtain ⟨hread, hi, hfd⟩ := hc
    have hl : l.modify fd events =
        (.ok (), { l with interest := Function.update l.interest fd (some (toEpoll events)) }) := by
      rw [EpollLoop.modify, if_neg (by simpa [← Option.isSome_iff_ne_none] using hi)]
    simp only [EpollLoop.call, KqueueLoop.call, hl, h.apply_eq fd hread, true_and]
    refine h.set hfd ?_ ⟨rfl, rfl, rfl⟩ ⟨rfl, rfl⟩ (watch_update l fd _) (by simp [toEpoll, hread])
    have := h.tracked.exec (.apply fd events {}) hread
    rwa [KqueueLoop.exec, h.apply_eq fd hread] at this
  | remove fd =>
    have hr : (k.remove fd).1 = .ok () := by
      unfold KqueueLoop.remove
      split_ifs <;> rfl
    simp only [EpollLoop.call, KqueueLoop.call, EpollLoop.remove, hr, true_and]
    exact h.set hc (h.tracked.exec (.remove fd) trivial) ⟨rfl, rfl, rfl⟩ (k.remove_registered fd).2
      (watch_update l fd none) (h.tracked.remove_filters fd)
  | close fd =>
    simp only [EpollLoop.call, KqueueLoop.call, true_and]
    exact h.set hc (h.tracked.exec (.close fd) trivial) ⟨rfl, rfl, rfl⟩ ⟨rfl, rfl⟩
      (watch_update l fd none) rfl
  | addTimer cb =>
    obtain ⟨hi, hfd⟩ := hc
    obtain ⟨hl, hk⟩ := h.addTimer_eq hi cb
    simp only [EpollLoop.call, KqueueLoop.call, hl, hk, true_and]
    exact h.arm hi hfd cb
  | cancelTimer id =>
    simp only [EpollLoop.call, KqueueLoop.call, KqueueLoop.cancelTimer, true_and]
    rcases h.timersWF.cancelTimer_eq id with ⟨hnone, he⟩ | ⟨t, hfd, ht, hid, he⟩
    · rw [he]
      have : k.timers id = none := by rw [h.timers_eq, hnone]; rfl
      rw [← this, Function.update_eq_self]
      exact h
    · rw [he]
      exact h.erase ht
  | expire id =>
    simp only [EpollLoop.call, KqueueLoop.call, KqueueLoop.fire, h.timers_eq id]
    cases ht : l.timers id with
    | none => exact ⟨rfl, h⟩
    | some t =>
      obtain ⟨hid, hfd⟩ := h.timersWF.of_id id t ht
      simp only [EpollLoop.fire, hfd, ht, Option.map_some, true_and]
      exact h.erase ht

end Lockstep

/-- **The two loops agree.** In every run with the same calls, all of them permitted, and as long as
the system refuses nothing, they have the same timers armed under the same numbers, watch every
descriptor that is not a timer of epoll's for the same directions, and the next call comes to the
same in both. -/
theorem event_loops_agree {l : EpollLoop κ} {k : KqueueLoop κ} (h : BothReach l k) :
    l.nextTimerId = k.nextTimerId ∧ (∀ id, (l.timers id).map Timer.cb = k.timers id) ∧
    (∀ fd, l.timerFdToId fd = none → l.watch fd = k.filters fd) ∧
    ∀ tfd c, l.Permits tfd c → (l.call tfd c).1 = (k.call c).1 := by
  have hstep : Lockstep l k := by
    induction h with
    | new =>
      exact ⟨EpollLoop.timersWF_new, KqueueLoop.tracked_new, rfl, fun _ _ => rfl, fun _ _ => rfl⟩
    | call _ tfd c hc ih => exact (ih.call hc).2
  exact ⟨congrArg Table.next hstep.table, fun id => (hstep.timers_eq id).symm, hstep.watch,
    fun tfd c hc => (hstep.call hc).1⟩

/-- A connection that is added and modified, and a timer that expires. -/
theorem event_loops_agree_tick :
    let l := (((({} : EpollLoop Unit).call 9 (.add 7 { read := true })).2.call 9
      (.modify 7 Event.readWrite)).2.call 9 (.addTimer ())).2
    let k := (((({} : KqueueLoop Unit).call (.add 7 { read := true })).2.call
      (.modify 7 Event.readWrite)).2.call (.addTimer ())).2
    (l.call 9 (.expire 1)).1 = .ran (some ()) ∧ (k.call (.expire 1)).1 = .ran (some ()) := by
  have hnew : BothReach ({} : EpollLoop Unit) {} := .new
  have hadd := hnew.call 9 (.add 7 { read := true }) ⟨rfl, rfl, rfl⟩
  have hmodify := hadd.call 9 (.modify 7 Event.readWrite) ⟨rfl, rfl, rfl⟩
  have htimer := hmodify.call 9 (.addTimer ()) ⟨rfl, rfl⟩
  exact ⟨rfl, ((event_loops_agree htimer).2.2.2 9 (.expire 1) trivial).symm⟩

end Agree

end Uproxy
