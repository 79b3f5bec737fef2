import Uproxy.Basic
import Uproxy.Lib.OneShot

/-!
# The event loop over epoll (`event_loop.h`, `event_loop_epoll.cpp`)

An `Event` is a set of flags, and so is the mask epoll works with; both are records of the flags.
Of the kernel the model has the interest list of `epfd_`: `EPOLL_CTL_ADD` fails on a descriptor that
is in it, `EPOLL_CTL_MOD` on one that is not, and closing a descriptor takes it out (`close`). What
else a call answers is an input.

A timer is a descriptor of its own: `timer_fd_to_id_` leads from it to its number and `timers_` from
the number to the timer, which owns the descriptor. `poll` looks at both for every event it gets;
`fire` is that look, and the callbacks are any type. `next_timer_id_` is taken as a number without
bound: it would take 2^64 timers to wrap.

* `TimersWF`: the two maps are inverse to each other; `TimersWF.exec`: every call keeps them so;
* `table_exec`: the loop does to its timers what a table of `Lib.OneShot` does;
* **`timers_fire_once`**: in every run a timer fires at most once and not behind its cancellation,
  and an event is taken for a timer exactly if it is on the descriptor of one that is armed.
-/

namespace Uproxy

open Lib.OneShot

/-! ## The code -/

/-- `Event`: a set of flags. -/
structure Event where
  read   : Bool := false
  write  : Bool := false
  hangUp : Bool := false
  error  : Bool := false
  deriving DecidableEq, Repr

/-- `Event::Read | Event::Write`. -/
def Event.readWrite : Event := { read := true, write := true }

/-- The flags of an `epoll_event` the program uses. -/
structure EpollMask where
  input  : Bool := false
  output : Bool := false
  rdhup  : Bool := false
  hup    : Bool := false
  err    : Bool := false
  edge   : Bool := false
  deriving DecidableEq, Repr

/-- `to_epoll`. -/
def toEpoll (e : Event) : EpollMask :=
  { edge := true, input := e.read, rdhup := e.read, output := e.write }

/-- `from_epoll`. -/
def fromEpoll (m : EpollMask) : Event :=
  { read := m.input, write := m.output, hangUp := m.hup || m.rdhup, error := m.err }

/-- `EpollLoop::Timer`. -/
structure Timer (κ : Type) where
  id  : Nat
  tfd : Nat
  cb  : κ
  deriving DecidableEq, Repr

/-- `EpollLoop`, with the interest list of `epfd_`. -/
structure EpollLoop (κ : Type) where
  interest    : Nat → Option EpollMask := fun _ => none
  timerFdToId : Nat → Option Nat := fun _ => none
  timers      : Nat → Option (Timer κ) := fun _ => none
  nextTimerId : Nat := 1

/-- What the system answers while a timer is added: a descriptor, or the errno of the call that
fails. -/
structure TimerCalls where
  create  : Except Int Nat
  settime : Option Int := none
  refused : Option Int := none
  deriving DecidableEq, Repr

/-- What `poll` takes an event for: a timer, with the callback if there is one, or an event for its
own callback. -/
inductive Fired (κ : Type) where
  | timer (cb : Option κ)
  | other
  deriving DecidableEq, Repr

namespace EpollLoop

variable {κ : Type}

/-- `EPOLL_CTL_ADD`; `refused` is an errno other than `EEXIST`. -/
def ctlAdd (l : EpollLoop κ) (fd : Nat) (mask : EpollMask) (refused : Option Int) :
    Except Int (EpollLoop κ) :=
  match refused with
  | some errno => .error errno
  | none =>
    if (l.interest fd).isSome then .error 17
    else .ok { l with interest := Function.update l.interest fd (some mask) }

/-- `add`. -/
def add (l : EpollLoop κ) (fd : Nat) (events : Event) (refused : Option Int) :
    Result Unit × EpollLoop κ :=
  match l.ctlAdd fd (toEpoll events) refused with
  | .error errno => (.error (.fromErrno errno "epoll add"), l)
  | .ok l => (.ok (), l)

/-- `modify`. -/
def modify (l : EpollLoop κ) (fd : Nat) (events : Event) : Result Unit × EpollLoop κ :=
  if (l.interest fd).isNone then (.error (.fromErrno 2 "epoll mod"), l)
  else (.ok (), { l with interest := Function.update l.interest fd (some (toEpoll events)) })

/-- `remove`, which takes `ENOENT` for success. -/
def remove (l : EpollLoop κ) (fd : Nat) : Result Unit × EpollLoop κ :=
  (.ok (), { l with interest := Function.update l.interest fd none })

/-- A descriptor is closed. -/
def close (l : EpollLoop κ) (fd : Nat) : EpollLoop κ :=
  { l with interest := Function.update l.interest fd none }

/-- `add_timer`. The number is used up before the descriptor is added to the interest list. -/
def addTimer (l : EpollLoop κ) (cb : κ) (c : TimerCalls) : Result Nat × EpollLoop κ :=
  match c.create with
  | .error errno => (.error (.fromErrno errno "timerfd_create"), l)
  | .ok fd =>
    match c.settime with
    | some errno => (.error (.fromErrno errno "timerfd_settime"), l)
    | none =>
      let id := l.nextTimerId
      let l := { l with nextTimerId := id + 1 }
      match l.ctlAdd fd { input := true, edge := true } c.refused with
      | .error errno => (.error (.fromErrno errno "epoll add timer"), l)
      | .ok l =>
        let l := { l with timerFdToId := Function.update l.timerFdToId fd (some id) }
        -- `emplace` does not replace: the new timer would go, and its descriptor with it
        if (l.timers id).isSome then (.ok id, l.close fd)
        else (.ok id, { l with timers := Function.update l.timers id (some ⟨id, fd, cb⟩) })

/-- A timer is erased, which closes its descriptor. -/
def erase (l : EpollLoop κ) (fd : Nat) (t : Timer κ) : EpollLoop κ :=
  { l with
    timerFdToId := Function.update l.timerFdToId fd none
    timers := Function.update l.timers t.id none
    interest := Function.update l.interest t.tfd none }

/-- `cancel_timer`. -/
def cancelTimer (l : EpollLoop κ) (id : Nat) : EpollLoop κ :=
  match l.timers id with
  | none => l
  | some t => l.erase t.tfd t

/-- `poll` on one event of its batch, up to the callback it then runs. -/
def fire (l : EpollLoop κ) (fd : Nat) : Fired κ × EpollLoop κ :=
  match l.timerFdToId fd with
  | none => (.other, l)
  | some id =>
    match l.timers id with
    | none => (.timer none, l)
    | some t => (.timer (some t.cb), l.erase fd t)

end EpollLoop

/-! ## Timers -/

/-- What is done to a loop, with what the system answers. -/
inductive LoopOp (κ : Type) where
  | add (fd : Nat) (events : Event) (refused : Option Int)
  | modify (fd : Nat) (events : Event)
  | remove (fd : Nat)
  | close (fd : Nat)
  | addTimer (cb : κ) (calls : TimerCalls)
  | cancelTimer (id : Nat)
  | fire (fd : Nat)

/-- The call concerns timers. -/
def LoopOp.OnTimers {κ : Type} : LoopOp κ → Prop
  | .addTimer _ _ | .cancelTimer _ | .fire _ => True
  | _ => False

namespace EpollLoop

variable {κ : Type}

def exec (l : EpollLoop κ) : LoopOp κ → EpollLoop κ
  | .add fd events refused => (l.add fd events refused).2
  | .modify fd events => (l.modify fd events).2
  | .remove fd => (l.remove fd).2
  | .close fd => l.close fd
  | .addTimer cb calls => (l.addTimer cb calls).2
  | .cancelTimer id => l.cancelTimer id
  | .fire fd => (l.fire fd).2

/-- The descriptor of a new timer is not that of another one, which is open. -/
def Allows (l : EpollLoop κ) : LoopOp κ → Prop
  | .addTimer _ calls => ∀ fd, calls.create = .ok fd → l.timerFdToId fd = none
  | _ => True

/-- **The two maps of the timers are inverse to each other**, and the numbers in use are below the
next one. -/
structure TimersWF (l : EpollLoop κ) : Prop where
  of_fd : ∀ fd id, l.timerFdToId fd = some id → ∃ cb, l.timers id = some ⟨id, fd, cb⟩
  of_id : ∀ id t, l.timers id = some t → t.id = id ∧ l.timerFdToId t.tfd = some id
  lt    : ∀ id t, l.timers id = some t → id < l.nextTimerId

theorem timersWF_new : TimersWF ({} : EpollLoop κ) := by
  constructor <;> intro _ _ h <;> cases h

/-- The timers that are armed. -/
def table (l : EpollLoop κ) : Table κ := ⟨l.nextTimerId, fun id => (l.timers id).map Timer.cb⟩

/-- What a call does to the timers. -/
def timerOps (l : EpollLoop κ) : LoopOp κ → List (Op κ)
  | .addTimer cb calls =>
    match (l.addTimer cb calls).1 with
    | .ok _ => [.arm cb]
    | .error _ => if (l.addTimer cb calls).2.nextTimerId = l.nextTimerId then [] else [.skip]
  | .cancelTimer id => [.cancel id]
  | .fire fd => ((l.timerFdToId fd).map Op.fire).toList
  | _ => []

section Timers

variable {l : EpollLoop κ}

theorem ctlAdd_ok {l' : EpollLoop κ} {fd : Nat} {mask : EpollMask} {refused : Option Int}
    (h : l.ctlAdd fd mask refused = .ok l') :
    l' = { l with interest := Function.update l.interest fd (some mask) } := by
  unfold ctlAdd at h
  cases refused with
  | some errno => cases h
  | none =>
    simp only at h
    split_ifs at h
    cases h
    rfl

/-- The next number is free. -/
theorem TimersWF.next_free (h : l.TimersWF) : l.timers l.nextTimerId = none := by
  cases ht : l.timers l.nextTimerId with
  | none => rfl
  | some t => exact absurd (h.lt _ t ht) (Nat.lt_irrefl _)

/-- A timer is added. -/
def armed (l : EpollLoop κ) (fd : Nat) (cb : κ) : EpollLoop κ :=
  { interest := Function.update l.interest fd (some { input := true, edge := true })
    timerFdToId := Function.update l.timerFdToId fd (some l.nextTimerId)
    timers := Function.update l.timers l.nextTimerId (some ⟨l.nextTimerId, fd, cb⟩)
    nextTimerId := l.nextTimerId + 1 }

/-- Every way through `add_timer`. -/
theorem TimersWF.addTimer_cases (h : l.TimersWF) (cb : κ) (c : TimerCalls) :
    (∃ e, l.addTimer cb c = (.error e, l)) ∨
    (∃ e, l.addTimer cb c = (.error e, { l with nextTimerId := l.nextTimerId + 1 })) ∨
    ∃ fd, c.create = .ok fd ∧ l.addTimer cb c = (.ok l.nextTimerId, l.armed fd cb) := by
  unfold addTimer
  cases hc : c.create with
  | error errno => exact Or.inl ⟨_, rfl⟩
  | ok fd =>
    cases c.settime with
    | some errno => exact Or.inl ⟨_, rfl⟩
    | none =>
      simp only
      cases ha : ctlAdd { l with nextTimerId := l.nextTimerId + 1 } fd
          { input := true, edge := true } c.refused with
      | error errno => exact Or.inr (Or.inl ⟨_, rfl⟩)
      | ok l' =>
        rw [ctlAdd_ok ha]
        simp only [h.next_free, Option.isSome_none, Bool.false_eq_true, if_false]
        exact Or.inr (Or.inr ⟨fd, rfl, rfl⟩)

/-- Calls that do not concern timers leave them alone. -/
theorem exec_timers_eq (op : LoopOp κ) (hop : ¬ op.OnTimers) :
    (l.exec op).timerFdToId = l.timerFdToId ∧ (l.exec op).timers = l.timers ∧
      (l.exec op).nextTimerId = l.nextTimerId := by
  cases op with
  | add fd events refused =>
    simp only [exec, add]
    cases ha : l.ctlAdd fd (toEpoll events) refused with
    | error errno => exact ⟨rfl, rfl, rfl⟩
    | ok l' =>
      rw [ctlAdd_ok ha]
      exact ⟨rfl, rfl, rfl⟩
  | modify fd events =>
    simp only [exec, modify]
    split_ifs <;> exact ⟨rfl, rfl, rfl⟩
  | remove fd => exact ⟨rfl, rfl, rfl⟩
  | close fd => exact ⟨rfl, rfl, rfl⟩
  | addTimer cb calls => exact absurd trivial hop
  | cancelTimer id => exact absurd trivial hop
  | fire fd => exact absurd trivial hop

namespace TimersWF

theorem of_eq {l' : EpollLoop κ} (h : l.TimersWF) (h1 : l'.timerFdToId = l.timerFdToId)
    (h2 : l'.timers = l.timers) (h3 : l.nextTimerId ≤ l'.nextTimerId) : l'.TimersWF :=
  ⟨by rw [h1, h2]; exact h.of_fd, by rw [h1, h2]; exact h.of_id,
    fun id t ht => Nat.lt_of_lt_of_le (h.lt id t (h2 ▸ ht)) h3⟩

theorem armed (h : l.TimersWF) {fd : Nat} (hfd : l.timerFdToId fd = none) (cb : κ) :
    (l.armed fd cb).TimersWF := by
  refine ⟨fun fd' id hid => ?_, fun id t ht => ?_, fun id t ht => ?_⟩
  · by_cases hne : fd' = fd
    · subst hne
      simp only [EpollLoop.armed, Function.update_self, Option.some.injEq] at hid
      subst hid
      exact ⟨cb, Function.update_self _ _ _⟩
    · simp only [EpollLoop.armed, Function.update_of_ne hne] at hid
      obtain ⟨cb', hcb'⟩ := h.of_fd fd' id hid
      have hid' : id ≠ l.nextTimerId := Nat.ne_of_lt (h.lt id _ hcb')
      exact ⟨cb', by simp only [EpollLoop.armed, Function.update_of_ne hid', hcb']⟩
  · by_cases hid : id = l.nextTimerId
    · subst hid
      simp only [EpollLoop.armed, Function.update_self, Option.some.injEq] at ht
      subst ht
      exact ⟨rfl, Function.update_self _ _ _⟩
    · simp only [EpollLoop.armed, Function.update_of_ne hid] at ht
      obtain ⟨h1, h2⟩ := h.of_id id t ht
      have hne : t.tfd ≠ fd := fun he => by rw [he, hfd] at h2; cases h2
      exact ⟨h1, by simp only [EpollLoop.armed, Function.update_of_ne hne, h2]⟩
  · by_cases hid : id = l.nextTimerId
    · exact hid ▸ Nat.lt_succ_self _
    · simp only [EpollLoop.armed, Function.update_of_ne hid] at ht
      exact Nat.lt_succ_of_lt (h.lt id t ht)

theorem erase (h : l.TimersWF) {fd id : Nat} {t : Timer κ} (hfd : l.timerFdToId fd = some id)
    (ht : l.timers id = some t) : (l.erase fd t).TimersWF := by
  obtain ⟨rfl, -⟩ := h.of_id id t ht
  refine ⟨fun fd' id' hid => ?_, fun id' t' ht' => ?_, fun id' t' ht' => ?_⟩
  · by_cases hne : fd' = fd
    · subst hne
      simp [EpollLoop.erase] at hid
    · simp only [EpollLoop.erase, Function.update_of_ne hne] at hid
      obtain ⟨cb', hcb'⟩ := h.of_fd fd' id' hid
      have hid' : id' ≠ t.id := by
        rintro rfl
        obtain ⟨cb, hcb⟩ := h.of_fd fd t.id hfd
        rw [hcb] at hcb'
        exact hne (congrArg Timer.tfd (Option.some.inj hcb')).symm
      exact ⟨cb', by simp only [EpollLoop.erase, Function.update_of_ne hid', hcb']⟩
  · by_cases hid : id' = t.id
    · subst hid
      simp [EpollLoop.erase] at ht'
    · simp only [EpollLoop.erase, Function.update_of_ne hid] at ht'
      obtain ⟨h1, h2⟩ := h.of_id id' t' ht'
      have hne : t'.tfd ≠ fd := by
        rintro rfl
        exact hid (Option.some.inj (h2.symm.trans hfd))
      exact ⟨h1, by simp only [EpollLoop.erase, Function.update_of_ne hne, h2]⟩
  · by_cases hid : id' = t.id
    · subst hid
      simp [EpollLoop.erase] at ht'
    · simp only [EpollLoop.erase, Function.update_of_ne hid] at ht'
      exact h.lt id' t' ht'

/-- A timer's event finds its callback. -/
theorem fire_eq (h : l.TimersWF) (fd : Nat) :
    (l.timerFdToId fd = none ∧ l.fire fd = (.other, l)) ∨
      ∃ id t, l.timerFdToId fd = some id ∧ l.timers id = some t ∧ t.id = id ∧ t.tfd = fd ∧
        l.fire fd = (.timer (some t.cb), l.erase fd t) := by
  unfold fire
  cases hfd : l.timerFdToId fd with
  | none => exact Or.inl ⟨rfl, rfl⟩
  | some id =>
    obtain ⟨cb, hcb⟩ := h.of_fd fd id hfd
    exact Or.inr ⟨id, _, rfl, hcb, rfl, rfl, by simp only [hcb]⟩

/-- A timer that is cancelled. -/
theorem cancelTimer_eq (h : l.TimersWF) (id : Nat) :
    (l.timers id = none ∧ l.cancelTimer id = l) ∨
      ∃ t, l.timerFdToId t.tfd = some id ∧ l.timers id = some t ∧ t.id = id ∧
        l.cancelTimer id = l.erase t.tfd t := by
  unfold cancelTimer
  cases ht : l.timers id with
  | none => exact Or.inl ⟨rfl, rfl⟩
  | some t =>
    obtain ⟨h1, h2⟩ := h.of_id id t ht
    exact Or.inr ⟨t, h2, rfl, h1, rfl⟩

/-- **Every call keeps the maps inverse to each other.** -/
theorem exec (h : l.TimersWF) {op : LoopOp κ} (hop : l.Allows op) : (l.exec op).TimersWF := by
  have hother : ∀ op' : LoopOp κ, ¬ op'.OnTimers → (l.exec op').TimersWF := fun op' h' => by
    obtain ⟨h1, h2, h3⟩ := exec_timers_eq (l := l) op' h'
    exact h.of_eq h1 h2 (Nat.le_of_eq h3.symm)
  cases op with
  | add fd events refused => exact hother _ id
  | modify fd events => exact hother _ id
  | remove fd => exact hother _ id
  | close fd => exact hother _ id
  | addTimer cb calls =>
    rcases h.addTimer_cases cb calls with ⟨e, he⟩ | ⟨e, he⟩ | ⟨fd, hfd, he⟩
    · simp only [EpollLoop.exec, he]
      exact h
    · simp only [EpollLoop.exec, he]
      exact h.of_eq rfl rfl (Nat.le_succ _)
    · simp only [EpollLoop.exec, he]
      exact h.armed (hop fd hfd) cb
  | cancelTimer id =>
    rcases h.cancelTimer_eq id with ⟨-, he⟩ | ⟨t, hfd, ht, -, he⟩
    · simp only [EpollLoop.exec, he]
      exact h
    · simp only [EpollLoop.exec, he]
      exact h.erase hfd ht
  | fire fd =>
    rcases h.fire_eq fd with ⟨-, he⟩ | ⟨id, t, hfd, ht, -, -, he⟩
    · simp only [EpollLoop.exec, he]
      exact h
    · simp only [EpollLoop.exec, he]
      exact h.erase hfd ht

end TimersWF

theorem table_of_eq {l' : EpollLoop κ} (h2 : l'.timers = l.timers)
    (h3 : l'.nextTimerId = l.nextTimerId) : l'.table = l.table := by
  unfold table
  rw [h2, h3]

theorem table_erase {fd id : Nat} {t : Timer κ} (ht : t.id = id) :
    (l.erase fd t).table = { l.table with live := Function.update l.table.live id none } := by
  subst ht
  simp only [table, erase, Table.mk.injEq, true_and]
  funext i
  by_cases hi : i = t.id
  · subst hi
    simp
  · simp [Function.update_of_ne hi]

theorem table_armed (fd : Nat) (cb : κ) : (l.armed fd cb).table = l.table.step (.arm cb) := by
  simp only [table, armed, Table.step, Table.mk.injEq, true_and]
  funext i
  by_cases hi : i = l.nextTimerId
  · subst hi
    simp
  · simp [Function.update_of_ne hi]

theorem table_cancel_none {id : Nat} (h : l.timers id = none) :
    l.table.step (.cancel id) = l.table := by
  have : l.table.live id = none := by simp [table, h]
  simp only [Table.step, ← this, Function.update_eq_self]

/-- **The loop does to its timers what a table does.** -/
theorem table_exec (h : l.TimersWF) (op : LoopOp κ) :
    (l.exec op).table = (l.timerOps op).foldl Table.step l.table := by
  have hother : ∀ op' : LoopOp κ, ¬ op'.OnTimers → (l.exec op').table = l.table := fun op' h' => by
    obtain ⟨-, h2, h3⟩ := exec_timers_eq (l := l) op' h'
    exact table_of_eq h2 h3
  cases op with
  | add fd events refused => exact hother _ id
  | modify fd events => exact hother _ id
  | remove fd => exact hother _ id
  | close fd => exact hother _ id
  | addTimer cb calls =>
    rcases h.addTimer_cases cb calls with ⟨e, he⟩ | ⟨e, he⟩ | ⟨fd, hfd, he⟩
    · simp [exec, timerOps, he]
    · simp [exec, timerOps, he, table, Table.step]
    · simp only [exec, timerOps, he, List.foldl_cons, List.foldl_nil, table_armed]
  | cancelTimer id =>
    rcases h.cancelTimer_eq id with ⟨hnone, he⟩ | ⟨t, hfd, ht, hid, he⟩
    · rw [show l.exec (.cancelTimer id) = l from he]
      exact (table_cancel_none hnone).symm
    · rw [show l.exec (.cancelTimer id) = _ from he, table_erase hid]
      rfl
  | fire fd =>
    rcases h.fire_eq fd with ⟨hnone, he⟩ | ⟨id, t, hfd, ht, hid, -, he⟩
    · simp [exec, timerOps, he, hnone]
    · simp only [exec, timerOps, he, hfd, Option.map_some, Option.toList_some, List.foldl_cons,
        List.foldl_nil, table_erase hid, Table.step]

end Timers

/-- The runs of a loop, with the ledger of its timers. -/
inductive Reach : Ledger κ → EpollLoop κ → Prop where
  | new : Reach {} {}
  | call {g l} (h : Reach g l) (op : LoopOp κ) (hop : l.Allows op) :
      Reach ((l.timerOps op).foldl (fun s op => (s.1.record s.2 op, s.2.step op)) (g, l.table)).1
        (l.exec op)

/-- Steps of a table, one behind the other. -/
theorem settles_foldl {g : Ledger κ} {t : Table κ} (h : g.Settles t) : ∀ ops : List (Op κ),
    let s := ops.foldl (fun (s : Ledger κ × Table κ) op => (s.1.record s.2 op, s.2.step op)) (g, t)
    s.1.Settles s.2 ∧ s.2 = ops.foldl Table.step t := by
  intro ops
  induction ops generalizing g t with
  | nil => exact ⟨h, rfl⟩
  | cons op ops ih => exact ih (h.step op)

/-- **Runs keep the maps inverse and the ledger settled.** -/
theorem Reach.settles {g : Ledger κ} {l : EpollLoop κ} (h : Reach g l) :
    l.TimersWF ∧ g.Settles l.table := by
  induction h with
  | new => exact ⟨timersWF_new, Ledger.settles_new⟩
  | @call g l _ op hop ih =>
    obtain ⟨hwf, hset⟩ := ih
    obtain ⟨hnew, htable⟩ := settles_foldl hset (l.timerOps op)
    refine ⟨hwf.exec hop, ?_⟩
    rw [table_exec hwf, ← htable]
    exact hnew

/-- **Timers fire once.** In every run of the loop, whatever the system answers and in whatever
order timers are added, cancelled and polled: no timer fires twice, none fires behind its
cancellation, and one that has fired was added with the callback that ran and is gone. An event runs
a timer's callback exactly if its descriptor is that of a timer that is armed, which is never
missing in the second of the two maps. -/
theorem timers_fire_once {g : Ledger κ} {l : EpollLoop κ} (h : Reach g l) :
    (g.fired.map Gone.id).Nodup ∧
    (∀ x ∈ g.fired, (x.id, x.item) ∈ g.armed ∧ l.timers x.id = none ∧
      ∀ y ∈ g.gone, y.id = x.id → y.fired = true) ∧
    (∀ id cb, (∃ fd, l.timers id = some ⟨id, fd, cb⟩) ↔
      (id, cb) ∈ g.armed ∧ id ∉ g.gone.map Gone.id) ∧
    ∀ fd, (l.fire fd).1 ≠ .timer none ∧
      ∀ cb, (l.fire fd).1 = .timer (some cb) ↔ ∃ id, l.timers id = some ⟨id, fd, cb⟩ := by
  obtain ⟨hwf, hset⟩ := h.settles
  obtain ⟨hnodup, hfired⟩ := hset.fires_once
  refine ⟨hnodup, fun x hx => ?_, fun id cb => ?_, fun fd => ?_⟩
  · obtain ⟨harmed, hlive, hgone⟩ := hfired x hx
    exact ⟨harmed, Option.map_eq_none_iff.mp hlive, hgone⟩
  · rw [← hset.live_iff]
    constructor
    · rintro ⟨fd, ht⟩
      simp [table, ht]
    · intro hlive
      obtain ⟨t, ht, rfl⟩ := Option.map_eq_some_iff.mp hlive
      obtain ⟨rfl, -⟩ := hwf.of_id id t ht
      exact ⟨t.tfd, ht⟩
  · rcases hwf.fire_eq fd with ⟨hnone, he⟩ | ⟨id, t, hfd, ht, rfl, rfl, he⟩
    · rw [he]
      refine ⟨by simp, fun cb => iff_of_false (by simp) ?_⟩
      rintro ⟨id, ht⟩
      have := (hwf.of_id id _ ht).2
      rw [hnone] at this
      cases this
    · rw [he]
      refine ⟨by simp, fun cb => ?_⟩
      simp only [Fired.timer.injEq, Option.some.injEq]
      constructor
      · rintro rfl
        exact ⟨t.id, ht⟩
      · rintro ⟨id, ht'⟩
        have hid := (hwf.of_id id _ ht').2
        rw [hfd] at hid
        obtain rfl := Option.some.inj hid
        rw [ht] at ht'
        exact congrArg Timer.cb (Option.some.inj ht')

/-- A timer that is added behind one that has fired. -/
theorem timers_fire_once_rearmed :
    let calls : TimerCalls := { create := .ok 9 }
    let l := ((({} : EpollLoop String).exec (.addTimer "first" calls)).exec (.fire 9)).exec
      (.addTimer "second" calls)
    (l.fire 9).1 = .timer (some "second") := by
  intro calls l
  have hfirst := Reach.new.call (.addTimer "first" calls) (fun _ _ => rfl)
  have hfired := hfirst.call (.fire 9) trivial
  have hsecond := hfired.call (.addTimer "second" calls) (fun _ h => by cases h; rfl)
  exact (((timers_fire_once hsecond).2.2.2 9).2 "second").mpr ⟨2, rfl⟩

end EpollLoop

end Uproxy
