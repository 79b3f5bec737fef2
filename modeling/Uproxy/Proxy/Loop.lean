import Uproxy.Proxy.Connection

/-!
# The server and its event loop (`ProxyServer::run`)

The whole server over epoll: the listeners, the timer of `on_tick`, the connections in `conns_`, and
the loop that hands every event of a batch to what its descriptor belongs to. The system's part is
in the events: what `accept` and the timer calls answer, and what happens on the sockets. The one
thing assumed of it is that a descriptor it hands out is not open (`Fresh`).

An event is handled in small steps, each of which touches one descriptor (`Step`): that of the
event, or a new one (`dispatch_steps`). What is open and not the descriptor of the event stays as it
is (`Steps.frame`), and what is registered with epoll are the listeners, the timer and the
connections, each descriptor for one of them (`WF.steps`). `Proxy/Serving.lean` has the runs.

The calls of `setup_listeners` before a listener is added to the loop (`socket`, `bind`, `listen`)
are not part of the model: a server is one that has its listeners.
-/

namespace Uproxy

open Lib.Run

/-! ## The code -/

/-- The callbacks of timers: `on_tick`. -/
inductive Callback where
  | onTick
  deriving DecidableEq, Repr

/-- `ProxyServer`, with `g_shutdown`. -/
structure ServerLoop where
  server      : ProxyServer
  loop        : EpollLoop Callback
  listenFd    : Nat
  tlsListenFd : Option Nat
  conns       : Nat → Option Conn := fun _ => none
  shutdown    : Bool := false

/-- A connection `accept` returns, and the errno `epoll_ctl` refuses it with. -/
structure Accepted where
  fd      : Nat
  refused : Option Int := none

/-- An event of a batch, with what the system answers while it is handled. -/
structure Reported where
  fd      : Nat
  mask    : EpollMask
  io      : ConnIo
  accepts : List Accepted := []
  nowMs   : Nat := 0
  timer   : TimerCalls

namespace ServerLoop

/-- `close_conn`; the connection owns its descriptor. -/
def closeConn (st : ServerLoop) (fd : Nat) : ServerLoop :=
  let st := { st with loop := (st.loop.remove fd).2 }
  match st.conns fd with
  | none => st
  | some _ => { st with conns := Function.update st.conns fd none, loop := st.loop.close fd }

/-- `on_accept`: the loop up to the call of `accept` that fails. -/
def onAccept (st : ServerLoop) (tls : Bool) : List Accepted → ServerLoop
  | [] => st
  | a :: as =>
    match st.loop.add a.fd { read := true } a.refused with
    | (.error _, loop) => onAccept { st with loop := loop.close a.fd } tls as
    | (.ok (), loop) =>
      -- `emplace` does not replace
      if (st.conns a.fd).isSome then onAccept { st with loop := loop.close a.fd } tls as
      else
        onAccept { st with
          loop
          conns := Function.update st.conns a.fd (some (Conn.accepted tls)) } tls as

/-- `on_client_event`. -/
def onClientEvent (st : ServerLoop) (fd : Nat) (ev : Event) (io : ConnIo) : ServerLoop :=
  match st.conns fd with
  | none => st
  | some conn =>
    let r := conn.onClientEvent st.server ev io
    let st := { st with
      server := r.server
      loop := r.modifies.foldl (fun l e => (l.modify fd e).2) st.loop }
    match r.conn with
    | none => st.closeConn fd
    | some conn => { st with conns := Function.update st.conns fd (some conn) }

/-- `on_tick`. -/
def onTick (st : ServerLoop) (nowMs : Nat) (timer : TimerCalls) : ServerLoop :=
  let st := { st with server := { st.server with pools := st.server.pools.tick nowMs } }
  if ¬ st.shutdown then { st with loop := (st.loop.addTimer .onTick timer).2 } else st

/-- `poll` on one event of its batch, with the callback of `run`. -/
def dispatch (st : ServerLoop) (e : Reported) : ServerLoop :=
  match st.loop.fire e.fd with
  | (.timer (some .onTick), loop) => { st with loop }.onTick e.nowMs e.timer
  | (.timer none, loop) => { st with loop }
  | (.other, loop) =>
    let st := { st with loop }
    if e.fd = st.listenFd then st.onAccept false e.accepts
    else if some e.fd = st.tlsListenFd then st.onAccept true e.accepts
    else st.onClientEvent e.fd (fromEpoll e.mask) e.io

/-- The end of `run`: the connections are closed in the order of `conns_`. -/
def closeAll (st : ServerLoop) (fds : List Nat) : ServerLoop := fds.foldl closeConn st

/-- `run` up to its loop, behind the calls that make the listeners: they are added to the event
loop, and the first timer. -/
def start (server : ProxyServer) (listenFd : Nat) (tlsListenFd : Option Nat) (timer : TimerCalls) :
    Result ServerLoop :=
  match ({} : EpollLoop Callback).add listenFd { read := true } none with
  | (.error e, _) => .error e
  | (.ok (), loop) =>
    match tlsListenFd with
    | none =>
      match loop.addTimer .onTick timer with
      | (.error e, _) => .error e
      | (.ok _, loop) => .ok { server, loop, listenFd, tlsListenFd }
    | some fd =>
      match loop.add fd { read := true } none with
      | (.error e, _) => .error e
      | (.ok (), loop) =>
        match loop.addTimer .onTick timer with
        | (.error e, _) => .error e
        | (.ok _, loop) => .ok { server, loop, listenFd, tlsListenFd }

/-! ## Steps -/

/-- The descriptor is in use by the server. -/
def Open (st : ServerLoop) (fd : Nat) : Prop :=
  fd = st.listenFd ∨ st.tlsListenFd = some fd ∨ (st.conns fd).isSome = true ∨
    (st.loop.timerFdToId fd).isSome = true

instance instDecidableOpen (st : ServerLoop) (fd : Nat) : Decidable (st.Open fd) :=
  inferInstanceAs (Decidable (_ ∨ _))

/-- The interest list changes at one descriptor. -/
def setInterest (st : ServerLoop) (fd : Nat) (m : Option EpollMask) : ServerLoop :=
  { st with loop := { st.loop with interest := Function.update st.loop.interest fd m } }

/-- What can happen to the server at one descriptor. -/
inductive Step (st : ServerLoop) : Nat → ServerLoop → Prop where
  /-- An event is handled on a connection, and it stays open. -/
  | serve {fd : Nat} {conn conn' : Conn} {ev : Event} {io : ConnIo} (hc : st.conns fd = some conn)
      (hr : (conn.onClientEvent st.server ev io).conn = some conn') :
      Step st fd { st with
        server := (conn.onClientEvent st.server ev io).server
        conns := Function.update st.conns fd (some conn')
        loop := (conn.onClientEvent st.server ev io).modifies.foldl
          (fun l e => (l.modify fd e).2) st.loop }
  /-- A connection is closed. -/
  | drop {fd : Nat} {conn : Conn} {server : ProxyServer} (hc : st.conns fd = some conn) :
      Step st fd { st.setInterest fd none with
        server
        conns := Function.update st.conns fd none }
  /-- A connection is accepted. -/
  | enter {fd : Nat} {tls : Bool} (hf : ¬ st.Open fd) :
      Step st fd { st.setInterest fd (some (toEpoll { read := true })) with
        conns := Function.update st.conns fd (some (Conn.accepted tls)) }
  /-- The timer fires. -/
  | expire {fd id : Nat} {t : Timer Callback} (pools : PoolManager)
      (hfd : st.loop.timerFdToId fd = some id) (ht : st.loop.timers id = some t) :
      Step st fd { st with
        loop := st.loop.erase fd t
        server := { st.server with pools } }
  /-- It is set again, or a number is used up in vain. -/
  | arm {fd : Nat} (hf : ¬ st.Open fd) : Step st fd { st with loop := st.loop.armed fd .onTick }
  | burn {fd : Nat} :
      Step st fd { st with loop := { st.loop with nextTimerId := st.loop.nextTimerId + 1 } }

/-- **What a descriptor is**: closed, a listener, a connection or a timer, and only one of these. It
is registered with epoll accordingly: a connection for reads, and for writes as well while its write
buffer is not empty. -/
inductive Owned (st : ServerLoop) (fd : Nat) : Prop where
  | closed (hl : fd ≠ st.listenFd ∧ st.tlsListenFd ≠ some fd) (hc : st.conns fd = none)
      (ht : st.loop.timerFdToId fd = none) (hi : st.loop.interest fd = none)
  | listener (hl : fd = st.listenFd ∨ st.tlsListenFd = some fd) (hc : st.conns fd = none)
      (ht : st.loop.timerFdToId fd = none)
      (hi : st.loop.interest fd = some (toEpoll { read := true }))
  | connection {conn : Conn} {e : Event} (hl : fd ≠ st.listenFd ∧ st.tlsListenFd ≠ some fd)
      (hc : st.conns fd = some conn) (ht : st.loop.timerFdToId fd = none)
      (hi : st.loop.interest fd = some (toEpoll e)) (hread : e.read = true)
      (hwrite : conn.wbuf ≠ [] → e.write = true)
  | timer {id : Nat} (hl : fd ≠ st.listenFd ∧ st.tlsListenFd ≠ some fd) (hc : st.conns fd = none)
      (ht : st.loop.timerFdToId fd = some id)
      (hi : st.loop.interest fd = some { input := true, edge := true })

/-- **The server is well formed.** -/
structure WF (st : ServerLoop) : Prop where
  timersWF : st.loop.TimersWF
  owned    : ∀ fd, st.Owned fd

/-- Nothing has changed at a descriptor. -/
structure SameAt (st st' : ServerLoop) (fd : Nat) : Prop where
  listen   : st'.listenFd = st.listenFd ∧ st'.tlsListenFd = st.tlsListenFd
  conns    : st'.conns fd = st.conns fd
  interest : st'.loop.interest fd = st.loop.interest fd
  timerFd  : st'.loop.timerFdToId fd = st.loop.timerFdToId fd

namespace SameAt

variable {st st' : ServerLoop} {fd : Nat}

theorem trans {st'' : ServerLoop} (h : SameAt st st' fd) (h' : SameAt st' st'' fd) :
    SameAt st st'' fd :=
  ⟨⟨h'.listen.1.trans h.listen.1, h'.listen.2.trans h.listen.2⟩, h'.conns.trans h.conns,
    h'.interest.trans h.interest, h'.timerFd.trans h.timerFd⟩

theorem open_iff (h : SameAt st st' fd) : st'.Open fd ↔ st.Open fd := by
  unfold Open
  rw [h.listen.1, h.listen.2, h.conns, h.timerFd]

theorem owned (h : SameAt st st' fd) (ho : st.Owned fd) : st'.Owned fd := by
  obtain ⟨⟨h1, h2⟩, h3, h4, h5⟩ := h
  cases ho with
  | closed hl hc ht hi =>
    exact .closed (by rwa [h1, h2]) (h3.trans hc) (h5.trans ht) (h4.trans hi)
  | listener hl hc ht hi =>
    exact .listener (by rwa [h1, h2]) (h3.trans hc) (h5.trans ht) (h4.trans hi)
  | connection hl hc ht hi hread hwrite =>
    exact .connection (by rwa [h1, h2]) (h3.trans hc) (h5.trans ht) (h4.trans hi) hread hwrite
  | timer hl hc ht hi =>
    exact .timer (by rwa [h1, h2]) (h3.trans hc) (h5.trans ht) (h4.trans hi)

end SameAt

section Steps

variable {st st' : ServerLoop} {fd : Nat}

/-- The calls of `modify` on one descriptor that is registered. -/
theorem modify_foldl (fd : Nat) : ∀ (ms : List Event) {l : EpollLoop Callback} {m : EpollMask},
    l.interest fd = some m →
    ∃ m', ms.foldl (fun l e => (l.modify fd e).2) l =
        { l with interest := Function.update l.interest fd (some m') } ∧
      (ms = [] → m' = m) ∧ ∀ e, ms.getLast? = some e → m' = toEpoll e
  | [], l, m, h => ⟨m, by rw [← h, Function.update_eq_self]; rfl, fun _ => rfl, by simp⟩
  | e :: ms, l, m, h => by
    have hm : (l.modify fd e).2 =
        { l with interest := Function.update l.interest fd (some (toEpoll e)) } := by
      rw [EpollLoop.modify, if_neg (by simp [h])]
    obtain ⟨m', h1, h2, h3⟩ := modify_foldl fd ms (l := (l.modify fd e).2) (m := toEpoll e)
      (by rw [hm]; exact Function.update_self _ _ _)
    refine ⟨m', ?_, by simp, fun e' he' => ?_⟩
    · rw [List.foldl_cons, h1, hm]
      simp only [Function.update_idem]
    · cases ms with
      | nil =>
        obtain rfl : e = e' := by simpa using he'
        exact h2 rfl
      | cons e₂ ms => exact h3 e' (by simpa using he')

theorem WF.connection (h : st.WF) {conn : Conn} (hc : st.conns fd = some conn) :
    (fd ≠ st.listenFd ∧ st.tlsListenFd ≠ some fd) ∧ st.loop.timerFdToId fd = none ∧
      ∃ e, st.loop.interest fd = some (toEpoll e) ∧ e.read = true ∧
        (conn.wbuf ≠ [] → e.write = true) := by
  cases h.owned fd with
  | closed hl hc' ht hi => rw [hc] at hc'; cases hc'
  | listener hl hc' ht hi => rw [hc] at hc'; cases hc'
  | connection hl hc' ht hi hread hwrite =>
    rw [hc] at hc'
    cases hc'
    exact ⟨hl, ht, _, hi, hread, hwrite⟩
  | timer hl hc' ht hi => rw [hc] at hc'; cases hc'

theorem WF.timer (h : st.WF) {id : Nat} (ht : st.loop.timerFdToId fd = some id) :
    (fd ≠ st.listenFd ∧ st.tlsListenFd ≠ some fd) ∧ st.conns fd = none ∧
      ∃ cb, st.loop.timers id = some ⟨id, fd, cb⟩ := by
  have htimer := h.timersWF.of_fd fd id ht
  cases h.owned fd with
  | closed hl hc ht' hi => rw [ht] at ht'; cases ht'
  | listener hl hc ht' hi => rw [ht] at ht'; cases ht'
  | connection hl hc ht' hi hread hwrite => rw [ht] at ht'; cases ht'
  | timer hl hc ht' hi => exact ⟨hl, hc, htimer⟩

/-- What is not open is closed. -/
theorem WF.closed (h : st.WF) (hf : ¬ st.Open fd) :
    (fd ≠ st.listenFd ∧ st.tlsListenFd ≠ some fd) ∧ st.conns fd = none ∧
      st.loop.timerFdToId fd = none ∧ st.loop.interest fd = none := by
  cases h.owned fd with
  | closed hl hc ht hi => exact ⟨hl, hc, ht, hi⟩
  | listener hl hc ht hi => exact absurd (hl.imp id Or.inl) hf
  | connection hl hc ht hi hread hwrite => exact absurd (Or.inr (Or.inr (Or.inl (by simp [hc])))) hf
  | timer hl hc ht hi => exact absurd (Or.inr (Or.inr (Or.inr (by simp [ht])))) hf

/-- What is open is registered, and nothing else. -/
theorem WF.registered_iff (h : st.WF) (fd : Nat) :
    (st.loop.interest fd).isSome = true ↔ st.Open fd := by
  unfold Open
  cases h.owned fd with
  | closed hl hc ht hi => simp [hi, hc, ht, hl.1, hl.2]
  | listener hl hc ht hi => exact iff_of_true (by simp [hi]) (hl.imp id Or.inl)
  | connection hl hc ht hi hread hwrite => simp [hi, hc]
  | timer hl hc ht hi => simp [hi, ht]

/-- What an event leaves registered. -/
theorem WF.modifies (h : st.WF) {conn conn' : Conn} {ev : Event} {io : ConnIo}
    (hc : st.conns fd = some conn) (hr : (conn.onClientEvent st.server ev io).conn = some conn') :
    ∃ e, (conn.onClientEvent st.server ev io).modifies.foldl
        (fun l e => (l.modify fd e).2) st.loop =
          { st.loop with interest := Function.update st.loop.interest fd (some (toEpoll e)) } ∧
      e.read = true ∧ (conn'.wbuf ≠ [] → e.write = true) := by
  obtain ⟨-, -, e, hi, hread, hwrite⟩ := h.connection hc
  obtain ⟨hreads, hwaits⟩ := Conn.event_waits hr
  obtain ⟨m', h1, h2, h3⟩ := modify_foldl fd (conn.onClientEvent st.server ev io).modifies hi
  generalize (conn.onClientEvent st.server ev io).modifies = ms at *
  rcases ms.eq_nil_or_concat with rfl | ⟨pre, last, rfl⟩
  · refine ⟨e, by rw [h1, h2 rfl], hread, fun hne => ?_⟩
    rcases hwaits hne with ⟨-, hbefore⟩ | hlast
    · exact hwrite hbefore
    · cases hlast
  · refine ⟨last, by rw [h1, h3 last (by simp)], hreads last (by simp), fun hne => ?_⟩
    rcases hwaits hne with ⟨hnil, -⟩ | hlast
    · simp at hnil
    · simpa using hlast

/-- **A step touches one descriptor.** -/
theorem Step.frame (h : st.WF) (hs : Step st fd st') {fd' : Nat} (hne : fd' ≠ fd) :
    SameAt st st' fd' := by
  cases hs with
  | serve hc hr =>
    obtain ⟨e, he, -, -⟩ := h.modifies hc hr
    rw [he]
    exact ⟨⟨rfl, rfl⟩, Function.update_of_ne hne _ _, Function.update_of_ne hne _ _, rfl⟩
  | drop hc =>
    exact ⟨⟨rfl, rfl⟩, Function.update_of_ne hne _ _, Function.update_of_ne hne _ _, rfl⟩
  | enter hf =>
    exact ⟨⟨rfl, rfl⟩, Function.update_of_ne hne _ _, Function.update_of_ne hne _ _, rfl⟩
  | expire pools hfd ht =>
    obtain ⟨-, -, cb, hcb⟩ := h.timer hfd
    rw [hcb] at ht
    cases ht
    exact ⟨⟨rfl, rfl⟩, rfl, Function.update_of_ne hne _ _, Function.update_of_ne hne _ _⟩
  | arm hf =>
    exact ⟨⟨rfl, rfl⟩, rfl, Function.update_of_ne hne _ _, Function.update_of_ne hne _ _⟩
  | burn => exact ⟨⟨rfl, rfl⟩, rfl, rfl, rfl⟩

/-- **A step keeps the server well formed.** -/
theorem WF.step (h : st.WF) (hs : Step st fd st') : st'.WF := by
  have hother : ∀ fd', fd' ≠ fd → st'.Owned fd' := fun fd' hne =>
    (hs.frame h hne).owned (h.owned fd')
  have hall : st'.Owned fd → ∀ fd', st'.Owned fd' := by
    intro hfd fd'
    by_cases hne : fd' = fd
    · exact hne ▸ hfd
    · exact hother fd' hne
  cases hs with
  | serve hc hr =>
    obtain ⟨e, he, hread, hwrite⟩ := h.modifies hc hr
    obtain ⟨hl, ht, -⟩ := h.connection hc
    rw [he] at hall ⊢
    refine ⟨h.timersWF.of_eq rfl rfl (Nat.le_refl _), hall ?_⟩
    exact .connection hl (Function.update_self _ _ _) ht (Function.update_self _ _ _) hread hwrite
  | drop hc =>
    obtain ⟨hl, ht, -⟩ := h.connection hc
    refine ⟨h.timersWF.of_eq rfl rfl (Nat.le_refl _), hall ?_⟩
    exact .closed hl (Function.update_self _ _ _) ht (Function.update_self _ _ _)
  | @enter tls hf =>
    obtain ⟨hl, -, ht, -⟩ := h.closed hf
    refine ⟨h.timersWF.of_eq rfl rfl (Nat.le_refl _), hall ?_⟩
    refine .connection hl (Function.update_self _ _ _) ht (Function.update_self _ _ _) rfl ?_
    cases tls <;> exact fun hne => absurd rfl hne
  | expire pools hfd ht =>
    obtain ⟨hl, hc, cb, hcb⟩ := h.timer hfd
    rw [hcb] at ht
    cases ht
    refine ⟨h.timersWF.erase hfd hcb, hall ?_⟩
    exact .closed hl hc (Function.update_self _ _ _) (Function.update_self _ _ _)
  | arm hf =>
    obtain ⟨hl, hc, ht, -⟩ := h.closed hf
    refine ⟨h.timersWF.armed ht .onTick, hall ?_⟩
    exact .timer hl hc (Function.update_self _ _ _) (Function.update_self _ _ _)
  | burn =>
    have hsame : ∀ fd', SameAt st
        { st with loop := { st.loop with nextTimerId := st.loop.nextTimerId + 1 } } fd' :=
      fun _ => ⟨⟨rfl, rfl⟩, rfl, rfl, rfl⟩
    exact ⟨h.timersWF.of_eq rfl rfl (Nat.le_succ _), fun fd' => (hsame fd').owned (h.owned fd')⟩

/-- An event is handled in steps at its own descriptor and at new ones. -/
inductive Steps (fd₀ : Nat) (st : ServerLoop) : ServerLoop → Prop where
  | refl : Steps fd₀ st st
  | tail {st' st'' : ServerLoop} {fd : Nat} (h : Steps fd₀ st st') (hfd : fd = fd₀ ∨ ¬ st'.Open fd)
      (hs : Step st' fd st'') : Steps fd₀ st st''

theorem Steps.single {fd₀ : Nat} (hfd : fd = fd₀ ∨ ¬ st.Open fd) (hs : Step st fd st') :
    Steps fd₀ st st' :=
  .tail .refl hfd hs

theorem WF.steps {fd₀ : Nat} (h : st.WF) (hs : Steps fd₀ st st') : st'.WF := by
  induction hs with
  | refl => exact h
  | tail _ _ hs ih => exact ih.step hs

/-- **What is open and not the descriptor of the event stays as it is.** -/
theorem Steps.frame {fd₀ : Nat} (h : st.WF) (hs : Steps fd₀ st st') {fd' : Nat} (hne : fd' ≠ fd₀)
    (ho : st.Open fd') : SameAt st st' fd' := by
  induction hs with
  | refl => exact ⟨⟨rfl, rfl⟩, rfl, rfl, rfl⟩
  | tail hs hfd hstep ih =>
    have hwf := h.steps hs
    refine ih.trans (hstep.frame hwf ?_)
    rintro rfl
    rcases hfd with rfl | hnot
    · exact hne rfl
    · exact hnot (ih.open_iff.mpr ho)

theorem Steps.trans {fd₀ : Nat} {st'' : ServerLoop} (h : Steps fd₀ st st')
    (h' : Steps fd₀ st' st'') : Steps fd₀ st st'' := by
  induction h' with
  | refl => exact h
  | tail _ hfd hs ih => exact ih.tail hfd hs

end Steps

/-- Every descriptor `accept` returns is one that is not open. -/
def AcceptsFresh (tls : Bool) : ServerLoop → List Accepted → Prop
  | _, [] => True
  | st, a :: as => ¬ st.Open a.fd ∧ AcceptsFresh tls (st.onAccept tls [a]) as

instance decidableAcceptsFresh (tls : Bool) : ∀ (st : ServerLoop) (as : List Accepted),
    Decidable (AcceptsFresh tls st as)
  | _, [] => isTrue trivial
  | st, a :: as =>
    have := decidableAcceptsFresh tls (st.onAccept tls [a]) as
    inferInstanceAs (Decidable (_ ∧ _))

/-- The system hands out no descriptor that is open. -/
def Fresh (st : ServerLoop) (e : Reported) : Prop :=
  match st.loop.fire e.fd with
  | (.timer _, loop) => ∀ fd, e.timer.create = .ok fd → ¬ { st with loop }.Open fd
  | (.other, _) => (e.fd = st.listenFd → AcceptsFresh false st e.accepts) ∧
      (some e.fd = st.tlsListenFd → AcceptsFresh true st e.accepts)

section Dispatch

variable {st : ServerLoop}

theorem closeConn_eq (st : ServerLoop) (fd : Nat) (hc : (st.conns fd).isSome = true) :
    st.closeConn fd =
      { st.setInterest fd none with conns := Function.update st.conns fd none } := by
  obtain ⟨conn, hconn⟩ := Option.isSome_iff_exists.mp hc
  simp only [closeConn, hconn, EpollLoop.remove, EpollLoop.close, Function.update_idem, setInterest]

/-- A connection is taken, or its descriptor is closed again. -/
theorem onAccept_one (h : st.WF) {a : Accepted} (hf : ¬ st.Open a.fd) (tls : Bool) :
    st.onAccept tls [a] = st ∨
      st.onAccept tls [a] = { st.setInterest a.fd (some (toEpoll { read := true })) with
        conns := Function.update st.conns a.fd (some (Conn.accepted tls)) } := by
  obtain ⟨-, hc, -, hi⟩ := h.closed hf
  simp only [onAccept, EpollLoop.add, EpollLoop.ctlAdd]
  cases a.refused with
  | some errno =>
    refine Or.inl ?_
    simp only [EpollLoop.close, ← hi, Function.update_eq_self]
  | none =>
    refine Or.inr ?_
    simp [hi, hc, setInterest]

theorem onAccept_cons (st : ServerLoop) (tls : Bool) (a : Accepted) (as : List Accepted) :
    st.onAccept tls (a :: as) = (st.onAccept tls [a]).onAccept tls as := by
  simp only [onAccept]
  rcases st.loop.add a.fd { read := true } a.refused with ⟨e | _, loop⟩
  · rfl
  · simp only
    split_ifs <;> rfl

theorem onAccept_steps (fd₀ : Nat) (tls : Bool) : ∀ (as : List Accepted) {st : ServerLoop}, st.WF →
    AcceptsFresh tls st as → Steps fd₀ st (st.onAccept tls as)
  | [], _, _, _ => .refl
  | a :: as, st, h, hf => by
    have hone : Steps fd₀ st (st.onAccept tls [a]) := by
      rcases onAccept_one h hf.1 tls with he | he
      · rw [he]
        exact .refl
      · rw [he]
        exact .single (Or.inr hf.1) (.enter hf.1)
    rw [onAccept_cons]
    exact hone.trans (onAccept_steps fd₀ tls as (h.steps hone) hf.2)

theorem onClientEvent_steps (h : st.WF) (fd : Nat) (ev : Event) (io : ConnIo) :
    Steps fd st (st.onClientEvent fd ev io) := by
  unfold onClientEvent
  cases hc : st.conns fd with
  | none => exact .refl
  | some conn =>
    simp only
    cases hr : (conn.onClientEvent st.server ev io).conn with
    | some conn' => exact .single (Or.inl rfl) (.serve hc hr)
    | none =>
      obtain ⟨-, -, e, hi, -⟩ := h.connection hc
      obtain ⟨m, hm, -⟩ := modify_foldl fd (conn.onClientEvent st.server ev io).modifies hi
      rw [closeConn_eq _ fd (by simp [hc]), hm]
      simp only [setInterest, Function.update_idem]
      exact .single (Or.inl rfl) (.drop hc)

/-- **An event is handled in steps.** -/
theorem dispatch_steps (h : st.WF) {e : Reported} (hf : st.Fresh e) :
    Steps e.fd st (st.dispatch e) := by
  unfold dispatch
  unfold Fresh at hf
  rcases h.timersWF.fire_eq e.fd with ⟨hnone, he⟩ | ⟨id, t, hfd, ht, hid, htfd, he⟩
  · rw [he] at hf ⊢
    simp only
    split_ifs with hl htls
    · exact onAccept_steps e.fd false e.accepts h (hf.1 hl)
    · exact onAccept_steps e.fd true e.accepts h (hf.2 htls)
    · exact onClientEvent_steps h e.fd _ e.io
  · rw [he] at hf ⊢
    obtain ⟨id', tfd, cb⟩ := t
    cases cb
    simp only [onTick]
    have hexpire : Steps e.fd st _ := .single (Or.inl rfl)
      (.expire (st.server.pools.tick e.nowMs) hfd ht)
    split_ifs with hdown
    · exact hexpire
    · rcases (h.steps hexpire).timersWF.addTimer_cases .onTick e.timer with
        ⟨err, hadd⟩ | ⟨err, hadd⟩ | ⟨fd, hcreate, hadd⟩
      · rw [hadd]
        exact hexpire
      · rw [hadd]
        exact hexpire.tail (Or.inl rfl) .burn
      · rw [hadd]
        exact hexpire.tail (Or.inr (hf fd hcreate)) (.arm (hf fd hcreate))

end Dispatch

end ServerLoop

end Uproxy
