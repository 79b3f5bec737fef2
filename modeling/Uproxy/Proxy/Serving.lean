import Uproxy.Proxy.Loop

/-!
# Runs of the server

A run of the server is a list of inputs: the events of one batch after the other, and the signal to
shut down. What `poll` reports together is handled one by one, so by the time an event is handled
the ones before it in its batch have had their effect.

* **`registered_descriptors`**: what is registered with epoll are the listeners, the timer and the
  connections, and a connection whose write buffer is not empty waits for room;
* **`events_reach_their_owner`**: when an event of a batch is handled, what it was reported for is
  still there and unchanged, whatever the events before it did;
* **`connections_run_alone`**: since it was accepted, every connection is what the events of its own
  descriptor have made of it, so the results on single connections hold of each;
* **`one_tick`**: there is never more than one timer, and there is one unless an attempt to set it
  failed;
* `shutdown_closes_all`: at the end of `run` no connection is left.
-/

namespace Uproxy

open Lib.Run

namespace ServerLoop

/-! ## Runs -/

/-- What happens to a server: an event, or the signal to shut down. -/
inductive Input where
  | event (e : Reported)
  | signal

def step (st : ServerLoop) : Input → ServerLoop
  | .event e => st.dispatch e
  | .signal => { st with shutdown := true }

/-- A server at the start of its loop; the descriptor of its timer is not a listener's. -/
def Started (st : ServerLoop) : Prop :=
  ∃ server listenFd tlsListenFd timer, start server listenFd tlsListenFd timer = .ok st ∧
    ∀ fd, timer.create = .ok fd → fd ≠ listenFd ∧ tlsListenFd ≠ some fd

/-- In the run the system hands out no descriptor that is open. -/
def FreshRun (st : ServerLoop) (is : List Input) : Prop :=
  ∀ pre e, pre ++ [.event e] <+: is → (run step st pre).Fresh e

theorem freshRun_nil (st : ServerLoop) : FreshRun st [] := fun pre e hpre =>
  absurd (List.prefix_nil.mp hpre) (by simp)

theorem FreshRun.concat {st : ServerLoop} {is : List Input} (h : FreshRun st is) {e : Reported}
    (he : (run step st is).Fresh e) : FreshRun st (is ++ [.event e]) := by
  intro pre e' hpre
  rcases List.prefix_concat_iff.mp hpre with heq | hpre
  · obtain ⟨rfl, hlast⟩ := List.append_inj' heq rfl
    cases hlast
    exact he
  · exact h pre e' hpre

theorem FreshRun.init {st : ServerLoop} {is : List Input} {i : Input}
    (h : FreshRun st (is ++ [i])) : FreshRun st is :=
  fun pre e hpre => h pre e (hpre.trans (List.prefix_append is [i]))

/-- What holds at the start and is kept by every step of a well-formed server holds in every run. -/
theorem run_rule {P : ServerLoop → Prop} {st₀ : ServerLoop} (h0 : P st₀)
    (hevent : ∀ st e, P st → st.Fresh e → P (st.dispatch e))
    (hsignal : ∀ st, P st → P { st with shutdown := true }) :
    ∀ {is : List Input}, FreshRun st₀ is → P (run step st₀ is) := by
  intro is
  induction is using List.reverseRecOn with
  | nil => exact fun _ => h0
  | append_singleton is i ih =>
    intro hf
    rw [run_concat]
    cases i with
    | event e => exact hevent _ e (ih hf.init) (hf is e (List.prefix_refl _))
    | signal => exact hsignal _ (ih hf.init)

section Start

/-- A loop with listeners only. -/
def Listening (l : EpollLoop Callback) (listenFd : Nat) (tlsListenFd : Option Nat) : Prop :=
  (l.timerFdToId = fun _ => none) ∧ (l.timers = fun _ => none) ∧
    ∀ fd, l.interest fd = if fd = listenFd ∨ tlsListenFd = some fd then
      some (toEpoll { read := true }) else none

theorem Listening.timersWF {l : EpollLoop Callback} {listenFd : Nat} {tlsListenFd : Option Nat}
    (h : Listening l listenFd tlsListenFd) : l.TimersWF := by
  obtain ⟨hfds, hids, -⟩ := h
  constructor <;> simp [hfds, hids]

/-- `run` sets the timer on a loop with listeners only. -/
theorem Listening.started {l : EpollLoop Callback} {server : ProxyServer} {listenFd : Nat}
    {tlsListenFd : Option Nat} {timer : TimerCalls} {st : ServerLoop}
    (hl : Listening l listenFd tlsListenFd)
    (hfresh : ∀ fd, timer.create = .ok fd → fd ≠ listenFd ∧ tlsListenFd ≠ some fd)
    (hok : (match l.addTimer .onTick timer with
      | (.error e, _) => .error e
      | (.ok _, loop) => .ok { server, loop, listenFd, tlsListenFd }) = Except.ok st) :
    ∃ l fd, Listening l st.listenFd st.tlsListenFd ∧ st.loop = l.armed fd .onTick ∧
      (fd ≠ st.listenFd ∧ st.tlsListenFd ≠ some fd) ∧
      st.conns = (fun _ => none) ∧ st.shutdown = false := by
  rcases hl.timersWF.addTimer_cases .onTick timer with ⟨e, he⟩ | ⟨e, he⟩ | ⟨fd, hcreate, he⟩ <;>
    rw [he] at hok <;> cases hok
  exact ⟨l, fd, hl, rfl, hfresh fd hcreate, rfl, rfl⟩

/-- The state in which the loop starts. -/
theorem Started.eq {st : ServerLoop} (h : st.Started) :
    ∃ l fd, Listening l st.listenFd st.tlsListenFd ∧ st.loop = l.armed fd .onTick ∧
      (fd ≠ st.listenFd ∧ st.tlsListenFd ≠ some fd) ∧
      st.conns = (fun _ => none) ∧ st.shutdown = false := by
  obtain ⟨server, listenFd, tlsListenFd, timer, hstart, hfresh⟩ := h
  unfold start at hstart
  simp only [EpollLoop.add, EpollLoop.ctlAdd, Option.isSome_none, Bool.false_eq_true,
    if_false] at hstart
  cases tlsListenFd with
  | none =>
    refine Listening.started ⟨rfl, rfl, fun fd => ?_⟩ hfresh hstart
    by_cases hfd : fd = listenFd
    · subst hfd
      simp
    · simp [hfd]
  | some tfd =>
    by_cases hsame : tfd = listenFd
    · subst hsame
      simp at hstart
    · simp only [Function.update_of_ne hsame, Option.isSome_none, Bool.false_eq_true,
        if_false] at hstart
      refine Listening.started ⟨rfl, rfl, fun fd => ?_⟩ hfresh hstart
      by_cases hfd : fd = tfd
      · subst hfd
        simp
      · by_cases hl : fd = listenFd
        · subst hl
          simp [Function.update_of_ne hfd]
        · simp [Function.update_of_ne hfd, hl, Ne.symm hfd]

theorem Started.wf {st : ServerLoop} (h : st.Started) : st.WF := by
  obtain ⟨l, fd, hl, hloop, hfd, hconns, -⟩ := h.eq
  have hnone : ∀ fd, st.conns fd = none := fun fd => by rw [hconns]
  refine ⟨by rw [hloop]; exact hl.timersWF.armed (by rw [hl.1]) .onTick, fun fd' => ?_⟩
  by_cases hne : fd' = fd
  · subst hne
    exact .timer hfd (hnone _) (by rw [hloop]; exact Function.update_self _ _ _)
      (by rw [hloop]; exact Function.update_self _ _ _)
  · have ht : st.loop.timerFdToId fd' = none := by
      rw [hloop, EpollLoop.armed]
      simp only [Function.update_of_ne hne, hl.1]
    have hi : st.loop.interest fd' = l.interest fd' := by
      rw [hloop, EpollLoop.armed]
      exact Function.update_of_ne hne _ _
    rw [hl.2.2] at hi
    by_cases hlisten : fd' = st.listenFd ∨ st.tlsListenFd = some fd'
    · exact .listener hlisten (hnone _) ht (by rw [hi, if_pos hlisten])
    · exact .closed (not_or.mp hlisten) (hnone _) ht (by rw [hi, if_neg hlisten])

end Start

section Runs

variable {st₀ : ServerLoop} {is : List Input}

theorem WF.signal {st : ServerLoop} (h : st.WF) : { st with shutdown := true }.WF := by
  have hsame : ∀ fd, SameAt st { st with shutdown := true } fd :=
    fun _ => ⟨⟨rfl, rfl⟩, rfl, rfl, rfl⟩
  exact ⟨h.timersWF, fun fd => (hsame fd).owned (h.owned fd)⟩

/-- **The server is well formed in every run.** -/
theorem Started.run_wf (h : st₀.Started) (hf : FreshRun st₀ is) : (run step st₀ is).WF :=
  run_rule h.wf (fun _ _ hwf hfresh => hwf.steps (dispatch_steps hwf hfresh))
    (fun _ hwf => hwf.signal) hf

/-- **What is registered.** In every run of the server, whatever happens on its sockets: a
descriptor is registered with epoll exactly if it is a listener, a connection or a timer, and it is
only one of these. Listeners are watched for reads, and so are connections; a connection whose write
buffer is not empty is watched for writes as well. -/
theorem registered_descriptors (h : st₀.Started) (hf : FreshRun st₀ is) (fd : Nat) :
    let st := run step st₀ is
    ((st.loop.interest fd).isSome = true ↔ fd = st.listenFd ∨ st.tlsListenFd = some fd ∨
      (st.conns fd).isSome = true ∨ (st.loop.timerFdToId fd).isSome = true) ∧
    ((st.conns fd).isSome = true → st.loop.timerFdToId fd = none) ∧
    ((st.conns fd).isSome = true ∨ (st.loop.timerFdToId fd).isSome = true →
      fd ≠ st.listenFd ∧ st.tlsListenFd ≠ some fd) ∧
    ∀ conn, st.conns fd = some conn → ∃ e, st.loop.interest fd = some (toEpoll e) ∧
      e.read = true ∧ (conn.wbuf ≠ [] → e.write = true) := by
  intro st
  have hwf : st.WF := h.run_wf hf
  refine ⟨hwf.registered_iff fd, fun hc => ?_, fun hor => ?_,
    fun conn hc => (hwf.connection hc).2.2⟩
  · obtain ⟨conn, hconn⟩ := Option.isSome_iff_exists.mp hc
    exact (hwf.connection hconn).2.1
  · rcases hor with hc | ht
    · obtain ⟨conn, hconn⟩ := Option.isSome_iff_exists.mp hc
      exact (hwf.connection hconn).1
    · obtain ⟨id, hid⟩ := Option.isSome_iff_exists.mp ht
      exact (hwf.timer hid).1

/-- A server with one listener. -/
def sampleServer : ServerLoop where
  server := sampleProxy
  listenFd := 3
  tlsListenFd := none
  loop := EpollLoop.armed
    { interest := Function.update (fun _ => none) 3 (some (toEpoll { read := true })) } 4 .onTick

theorem sampleServer_started : sampleServer.Started :=
  ⟨sampleProxy, 3, none, { create := .ok 4 }, rfl, fun fd h => by cases h; decide⟩

/-- An event on which the system has nothing more to say. -/
def sampleReport (fd : Nat) (mask : EpollMask) (accepts : List Nat) : Reported where
  fd
  mask
  accepts := accepts.map fun fd => { fd }
  io := { sys := responds lowerResponse }
  timer := { create := .error 24 }

/-- Two connections are accepted. -/
def acceptTwo : Reported := sampleReport 3 { input := true } [5, 6]

theorem acceptTwo_fresh : FreshRun sampleServer [.event acceptTwo] :=
  (freshRun_nil sampleServer).concat
    (show sampleServer.Fresh acceptTwo from ⟨fun _ => by decide, fun h => by cases h⟩)

/-- The connections are registered, each for reads. -/
theorem registered_descriptors_two :
    ((run step sampleServer [.event acceptTwo]).loop.interest 6).isSome = true :=
  (registered_descriptors sampleServer_started acceptTwo_fresh 6).1.mpr
    (Or.inr (Or.inr (Or.inl (by decide))))

/-- The descriptors of the events among some inputs. -/
def eventFds (is : List Input) : List Nat :=
  is.filterMap fun
    | .event e => some e.fd
    | .signal => none

/-- One input that is not an event of the descriptor leaves it alone. -/
theorem step_frame {st : ServerLoop} (hwf : st.WF) {i : Input}
    (hf : ∀ e, i = .event e → st.Fresh e) {fd : Nat} (hfd : fd ∉ eventFds [i]) (ho : st.Open fd) :
    SameAt st (st.step i) fd := by
  cases i with
  | event e =>
    exact (dispatch_steps hwf (hf e rfl)).frame hwf (by simpa [eventFds] using hfd) ho
  | signal => exact ⟨⟨rfl, rfl⟩, rfl, rfl, rfl⟩

/-- **Inputs that are not events of a descriptor that is open leave it alone.** -/
theorem run_frame (h : st₀.Started) {batch : List Input} (hf : FreshRun st₀ (is ++ batch))
    {fd : Nat}
    (ho : (run step st₀ is).Open fd) (hfd : fd ∉ eventFds batch) :
    SameAt (run step st₀ is) (run step st₀ (is ++ batch)) fd := by
  induction batch using List.reverseRecOn with
  | nil =>
    rw [List.append_nil]
    exact ⟨⟨rfl, rfl⟩, rfl, rfl, rfl⟩
  | append_singleton batch i ih =>
    rw [← List.append_assoc] at hf ⊢
    have hfd' : fd ∉ eventFds batch ∧ fd ∉ eventFds [i] := by
      rw [← not_or, ← List.mem_append, eventFds, eventFds, ← List.filterMap_append]
      exact hfd
    have hsame := ih hf.init hfd'.1
    rw [run_concat]
    refine hsame.trans (step_frame (h.run_wf hf.init) (fun e he => ?_) hfd'.2
      (hsame.open_iff.mpr ho))
    exact hf _ e (he ▸ List.prefix_refl _)

/-- **Events reach what they were reported for.** A batch has at most one event for a descriptor,
and only for registered ones. When an event is handled, whatever the events before it in the batch
did (connections closed, accepted and their descriptors used again, the timer set anew), its
descriptor is what it was when the batch was reported: the same connection in the same state, the
same listener, or a timer whose callback runs. -/
theorem events_reach_their_owner (h : st₀.Started) {pre post : List Input} {e : Reported}
    (hf : FreshRun st₀ (is ++ (pre ++ .event e :: post)))
    (hbatch : (eventFds (pre ++ .event e :: post)).Nodup)
    (hreg : ((run step st₀ is).loop.interest e.fd).isSome = true) :
    let st := run step st₀ is
    let st' := run step st₀ (is ++ pre)
    st'.conns e.fd = st.conns e.fd ∧ st'.loop.interest e.fd = st.loop.interest e.fd ∧
      (st'.loop.fire e.fd).1 = (st.loop.fire e.fd).1 ∧
      (st'.listenFd = st.listenFd ∧ st'.tlsListenFd = st.tlsListenFd) := by
  intro st st'
  have hfpre : FreshRun st₀ (is ++ pre) := fun q e' hq => by
    refine hf q e' (hq.trans ?_)
    rw [← List.append_assoc]
    exact List.prefix_append _ _
  have hfis : FreshRun st₀ is := fun q e' hq => hfpre q e' (hq.trans (List.prefix_append _ _))
  have hopen : st.Open e.fd := ((h.run_wf hfis).registered_iff e.fd).mp hreg
  have hnot : e.fd ∉ eventFds pre := by
    rw [eventFds, List.filterMap_append, List.nodup_append] at hbatch
    intro hmem
    exact hbatch.2.2 _ hmem e.fd (by simp) rfl
  have hsame : SameAt st st' e.fd := run_frame h hfpre hopen hnot
  refine ⟨hsame.conns, hsame.interest, ?_, hsame.listen⟩
  rcases (h.run_wf hfis).timersWF.fire_eq e.fd with ⟨hnone, he⟩ | ⟨id, t, hfd, ht, -, -, he⟩ <;>
    rcases (h.run_wf hfpre).timersWF.fire_eq e.fd with
      ⟨hnone', he'⟩ | ⟨id', t', hfd', ht', -, -, he'⟩
  · rw [he, he']
  · rw [hsame.timerFd, hnone] at hfd'
    cases hfd'
  · rw [hsame.timerFd, hfd] at hnone'
    cases hnone'
  · rw [he, he']

/-- The client on 5 goes away, and its descriptor is accepted anew. -/
def sampleBatch : List Input :=
  [.event (sampleReport 5 { hup := true } []), .event (sampleReport 3 { input := true } [5])]

/-- The last event of the batch is for the client on 6. -/
theorem events_reach_their_owner_reused :
    (run step sampleServer ([.event acceptTwo] ++ sampleBatch)).conns 6 =
      (run step sampleServer [.event acceptTwo]).conns 6 := by
  have hclosed := acceptTwo_fresh.concat (e := sampleReport 5 { hup := true } [])
    ⟨fun h => absurd h (by decide), fun h => absurd h (by decide)⟩
  have haccepted := hclosed.concat (e := sampleReport 3 { input := true } [5])
    ⟨fun _ => by decide, fun h => absurd h (by decide)⟩
  have hread : FreshRun sampleServer ([.event acceptTwo] ++
      (sampleBatch ++ .event (sampleReport 6 { input := true } []) :: [])) :=
    haccepted.concat ⟨fun h => absurd h (by decide), fun h => absurd h (by decide)⟩
  exact (events_reach_their_owner sampleServer_started hread (by decide) (by decide)).1

/-! ### Connections -/

/-- An input as a connection meets it: an event of its descriptor, with the server of that
moment. -/
def meetingAt (fd : Nat) (st : ServerLoop) : Input → List ConnMeeting
  | .event e => if e.fd = fd then [⟨st.server, fromEpoll e.mask, e.io⟩] else []
  | .signal => []

/-- The events of a descriptor in a run, each with the server as the run has left it. -/
def meetings (fd : Nat) : ServerLoop → List Input → List ConnMeeting :=
  smallSteps step (meetingAt fd)

/-- The event is that of a listener. -/
def FromListener (st : ServerLoop) (tls : Bool) (e : Reported) : Prop :=
  if tls then st.tlsListenFd = some e.fd else e.fd = st.listenFd

theorem onClientEvent_conns (st : ServerLoop) (fd : Nat) (ev : Event) (io : ConnIo) :
    (st.onClientEvent fd ev io).conns =
      Function.update st.conns fd (Conn.meet (st.conns fd) ⟨st.server, ev, io⟩) := by
  unfold onClientEvent
  cases hc : st.conns fd with
  | none => exact (Function.update_eq_self_iff.mpr hc.symm).symm
  | some conn =>
    simp only [Conn.meet_some]
    cases (conn.onClientEvent st.server ev io).conn with
    | some conn' => rfl
    | none => rw [closeConn_eq _ fd (by simp [hc])]

theorem onAccept_one_conns (st : ServerLoop) (tls : Bool) (a : Accepted) :
    (st.onAccept tls [a]).conns = st.conns ∨ st.conns a.fd = none ∧
      (st.onAccept tls [a]).conns =
        Function.update st.conns a.fd (some (Conn.accepted tls)) := by
  simp only [onAccept]
  rcases st.loop.add a.fd { read := true } a.refused with ⟨e | _, loop⟩
  · exact Or.inl rfl
  · simp only
    split_ifs with hsome
    · exact Or.inl rfl
    · exact Or.inr ⟨Option.not_isSome_iff_eq_none.mp hsome, rfl⟩

theorem onAccept_conns_some (tls : Bool) {fd : Nat} {conn : Conn} :
    ∀ (as : List Accepted) {st : ServerLoop}, st.conns fd = some conn →
      (st.onAccept tls as).conns fd = some conn
  | [], _, h => h
  | a :: as, st, h => by
    rw [onAccept_cons]
    refine onAccept_conns_some tls as ?_
    rcases onAccept_one_conns st tls a with he | ⟨hnone, he⟩
    · rw [he, h]
    · have hne : fd ≠ a.fd := by
        rintro rfl
        rw [h] at hnone
        cases hnone
      rw [he, Function.update_of_ne hne, h]

/-- What `on_accept` makes of a descriptor without a connection. -/
theorem onAccept_conns_none (tls : Bool) {fd : Nat} : ∀ (as : List Accepted) {st : ServerLoop},
    st.conns fd = none → (st.onAccept tls as).conns fd = none ∨
      fd ∈ as.map Accepted.fd ∧ (st.onAccept tls as).conns fd = some (Conn.accepted tls)
  | [], _, h => Or.inl h
  | a :: as, st, h => by
    rw [onAccept_cons, List.map_cons]
    have hlater : (st.onAccept tls [a]).conns fd = none → _ := onAccept_conns_none tls as
    rcases onAccept_one_conns st tls a with he | ⟨-, he⟩
    · exact (hlater (by rw [he, h])).imp_right (And.imp_left (List.mem_cons_of_mem _))
    by_cases hfd : fd = a.fd
    · subst hfd
      exact Or.inr ⟨List.mem_cons_self, onAccept_conns_some tls as (by rw [he]; simp)⟩
    · have hnone : (st.onAccept tls [a]).conns fd = none := by
        rw [he, Function.update_of_ne hfd, h]
      exact (hlater hnone).imp_right (And.imp_left (List.mem_cons_of_mem _))

theorem onTick_conns (st : ServerLoop) (nowMs : Nat) (timer : TimerCalls) :
    (st.onTick nowMs timer).conns = st.conns := by
  simp only [onTick]
  split_ifs <;> rfl

/-- **An input at a connection**: an event of its descriptor is handled by it, any other leaves it
as it is. -/
theorem step_meet {st : ServerLoop} (hwf : st.WF) {i : Input}
    (hf : ∀ e, i = .event e → st.Fresh e) {fd : Nat} {conn : Conn} (hc : st.conns fd = some conn) :
    (st.step i).conns fd = run Conn.meet (some conn) (meetingAt fd st i) := by
  cases i with
  | signal => exact hc
  | event e =>
    by_cases hfd : e.fd = fd
    · subst hfd
      obtain ⟨⟨hlisten, htls⟩, hnone, -⟩ := hwf.connection hc
      have hdispatch : st.dispatch e = st.onClientEvent e.fd (fromEpoll e.mask) e.io := by
        rcases hwf.timersWF.fire_eq e.fd with ⟨-, he⟩ | ⟨id, t, hid, -⟩
        · simp only [dispatch, he, if_neg hlisten, if_neg (Ne.symm htls)]
        · rw [hnone] at hid
          cases hid
      rw [step, hdispatch, onClientEvent_conns, Function.update_self, hc, meetingAt, if_pos rfl]
      rfl
    · have hsame := (dispatch_steps hwf (hf e rfl)).frame hwf (Ne.symm hfd)
        (Or.inr (Or.inr (Or.inl (by rw [hc]; rfl))))
      rw [meetingAt, if_neg hfd]
      exact hsame.conns.trans hc

/-- **Connections are accepted**: a descriptor without a connection gets one from a listener
only. -/
theorem step_enters {st : ServerLoop} (hwf : st.WF) {i : Input} {fd : Nat} {conn : Conn}
    (hnone : st.conns fd = none) (hc : (st.step i).conns fd = some conn) :
    ∃ e tls, i = .event e ∧ st.FromListener tls e ∧ fd ∈ e.accepts.map Accepted.fd ∧
      conn = Conn.accepted tls := by
  have hkeeps : ∀ {P : Prop}, (st.step i).conns fd = st.conns fd → P := fun h => by
    rw [hc, hnone] at h
    cases h
  cases i with
  | signal => exact hkeeps rfl
  | event e =>
    have haccept : ∀ tls, st.FromListener tls e → (st.dispatch e).conns fd =
        (st.onAccept tls e.accepts).conns fd → ∃ e' tls, Input.event e = .event e' ∧
          st.FromListener tls e' ∧ fd ∈ e'.accepts.map Accepted.fd ∧ conn = Conn.accepted tls := by
      intro tls hl heq
      rcases onAccept_conns_none tls e.accepts hnone with h | ⟨hmem, h⟩
      · exact hkeeps (heq.trans (h.trans hnone.symm))
      · refine ⟨e, tls, rfl, hl, hmem, Option.some.inj (hc.symm.trans (heq.trans h))⟩
    rcases hwf.timersWF.fire_eq e.fd with ⟨-, he⟩ | ⟨id, ⟨id', tfd, ⟨⟩⟩, -, -, -, -, he⟩
    · by_cases hl : e.fd = st.listenFd
      · exact haccept false hl (by simp only [dispatch, he, if_pos hl])
      by_cases htls : some e.fd = st.tlsListenFd
      · exact haccept true htls.symm (by simp only [dispatch, he, if_neg hl, if_pos htls])
      · refine hkeeps ?_
        simp only [step, dispatch, he, if_neg hl, if_neg htls, onClientEvent_conns]
        by_cases hfd : fd = e.fd
        · subst hfd
          rw [Function.update_self, hnone]
          rfl
        · exact Function.update_of_ne hfd _ _
    · refine hkeeps ?_
      simp only [step, dispatch, he]
      rw [onTick_conns]

/-- **Connections do not interfere.** In every run of the server, however its connections are
interleaved, accepted and closed, every connection was accepted at some event of a listener, and at
every moment since then it is what the events of its own descriptor have made of it, one after the
other, each of which meets the load balancer and the pools as the run has left them. So what holds
of every run of a single connection holds of each connection of the server. -/
theorem connections_run_alone (h : st₀.Started) (hf : FreshRun st₀ is) {fd : Nat} {conn : Conn}
    (hc : (run step st₀ is).conns fd = some conn) :
    ∃ before e after tls, is = before ++ .event e :: after ∧
      (run step st₀ before).FromListener tls e ∧ fd ∈ e.accepts.map Accepted.fd ∧
      (run step st₀ before).conns fd = none ∧
      ∀ pre, pre <+: after → (run step st₀ (before ++ .event e :: pre)).conns fd =
        run Conn.meet (some (Conn.accepted tls))
          (meetings fd (run step st₀ (before ++ [.event e])) pre) := by
  induction is using List.reverseRecOn generalizing conn with
  | nil =>
    obtain ⟨-, -, -, -, -, hconns, -⟩ := h.eq
    rw [run, List.foldl_nil, hconns] at hc
    cases hc
  | append_singleton is i ih =>
    have hwf := h.run_wf hf.init
    have hfresh : ∀ e, i = .event e → (run step st₀ is).Fresh e :=
      fun e he => hf is e (he ▸ List.prefix_refl _)
    rw [run_concat] at hc
    cases hbefore : (run step st₀ is).conns fd with
    | none =>
      obtain ⟨e, tls, rfl, hl, hmem, rfl⟩ := step_enters hwf hbefore hc
      refine ⟨is, e, [], tls, rfl, hl, hmem, hbefore, fun pre hpre => ?_⟩
      rw [List.prefix_nil.mp hpre, run_concat]
      exact hc
    | some conn₀ =>
      obtain ⟨before, e, after, tls, rfl, hl, hmem, hnone, hruns⟩ := ih hf.init hbefore
      refine ⟨before, e, after ++ [i], tls, by simp, hl, hmem, hnone, fun pre hpre => ?_⟩
      rcases List.prefix_concat_iff.mp hpre with rfl | hpre
      · have hlive := (hruns after (List.prefix_refl _)).symm.trans hbefore
        have hrun : run step (run step st₀ (before ++ [.event e])) after =
            run step st₀ (before ++ .event e :: after) := by
          have hcons : before ++ .event e :: after = (before ++ [.event e]) ++ after := by simp
          rw [hcons]
          exact List.foldl_append.symm
        have hsplit : before ++ .event e :: (after ++ [i]) =
            (before ++ .event e :: after) ++ [i] := by simp
        rw [meetings, smallSteps_concat, hrun, hsplit, run_concat, step_meet hwf hfresh hbefore,
          ← hlive]
        exact List.foldl_append.symm
      · exact hruns pre hpre

/-- The client on 5 sends something. -/
def readFive (text : String) : Reported :=
  { sampleReport 5 { input := true } [] with
    io := { recvs := [.bytes (ascii text)], sys := responds lowerResponse } }

/-- One client sends a request line in two parts, and the other goes away in between. -/
def sampleRun : List Input :=
  [.event acceptTwo, .event (readFive "GET / "), .event (sampleReport 6 { hup := true } []),
    .event (readFive "HTTP/1.1")]

theorem sampleRun_fresh : FreshRun sampleServer sampleRun := by
  have hfirst := acceptTwo_fresh.concat (e := readFive "GET / ")
    ⟨fun h => absurd h (by decide), fun h => absurd h (by decide)⟩
  have hgone := hfirst.concat (e := sampleReport 6 { hup := true } [])
    ⟨fun h => absurd h (by decide), fun h => absurd h (by decide)⟩
  exact hgone.concat (e := readFive "HTTP/1.1")
    ⟨fun h => absurd h (by decide), fun h => absurd h (by decide)⟩

/-- The client that stays has its own two events behind it. -/
theorem connections_run_alone_two :
    ∃ before e after tls, sampleRun = before ++ .event e :: after ∧
      (run Conn.meet (some (Conn.accepted tls))
        (meetings 5 (run step sampleServer (before ++ [.event e])) after)).map (fun c => c.rbuf) =
          some (ascii "GET / HTTP/1.1") := by
  have hrbuf : ((run step sampleServer sampleRun).conns 5).map (fun c => c.rbuf) =
      some (ascii "GET / HTTP/1.1") := by decide +kernel
  obtain ⟨conn, hc, -⟩ := Option.map_eq_some_iff.mp hrbuf
  obtain ⟨before, e, after, tls, his, -, -, -, hruns⟩ :=
    connections_run_alone sampleServer_started sampleRun_fresh hc
  refine ⟨before, e, after, tls, his, ?_⟩
  rw [← hruns after (List.prefix_refl _), ← his]
  exact hrbuf

theorem closeAll_spec : ∀ (fds : List Nat) {st : ServerLoop}, st.WF → fds.Nodup →
    (∀ fd, (st.conns fd).isSome = true ↔ fd ∈ fds) →
    (st.closeAll fds).WF ∧ ∀ fd, (st.closeAll fds).conns fd = none
  | [], st, h, _, hkeys => by
    refine ⟨h, fun fd => ?_⟩
    exact Option.not_isSome_iff_eq_none.mp fun hsome => absurd ((hkeys fd).mp hsome) (by simp)
  | fd :: fds, st, h, hnodup, hkeys => by
    obtain ⟨hfd, hnodup⟩ := List.nodup_cons.mp hnodup
    have hsome : (st.conns fd).isSome = true := (hkeys fd).mpr List.mem_cons_self
    obtain ⟨conn, hc⟩ := Option.isSome_iff_exists.mp hsome
    have heq := closeConn_eq st fd hsome
    have hwf : (st.closeConn fd).WF := h.step (heq ▸ Step.drop hc)
    have hkeys' : ∀ fd', ((st.closeConn fd).conns fd').isSome = true ↔ fd' ∈ fds := by
      intro fd'
      rw [heq]
      by_cases hne : fd' = fd
      · subst hne
        simp [hfd]
      · simp only [Function.update_of_ne hne, hkeys fd', List.mem_cons, hne, false_or]
    exact closeAll_spec fds hwf hnodup hkeys'

/-- **At the end no connection is left.** When `run` leaves its loop and goes through `conns_`, in
whatever order, every connection is closed, and what is still registered are the listeners and the
timer. -/
theorem shutdown_closes_all (h : st₀.Started) (hf : FreshRun st₀ is) {fds : List Nat}
    (hnodup : fds.Nodup) (hkeys : ∀ fd, ((run step st₀ is).conns fd).isSome = true ↔ fd ∈ fds) :
    let st := (run step st₀ is).closeAll fds
    (∀ fd, st.conns fd = none) ∧
      ∀ fd, (st.loop.interest fd).isSome = true ↔ fd = st.listenFd ∨ st.tlsListenFd = some fd ∨
        (st.loop.timerFdToId fd).isSome = true := by
  obtain ⟨hwf, hnone⟩ := closeAll_spec fds (h.run_wf hf) hnodup hkeys
  refine ⟨hnone, fun fd => (hwf.registered_iff fd).trans ?_⟩
  simp [Open, hnone fd]

/-- The two connections are closed. -/
theorem shutdown_closes_all_two :
    ((run step sampleServer [.event acceptTwo]).closeAll [6, 5]).conns = fun _ => none := by
  have hconns : (run step sampleServer [.event acceptTwo]).conns =
      Function.update (Function.update (fun _ => none) 5 (some (Conn.accepted false))) 6
        (some (Conn.accepted false)) := rfl
  refine funext (shutdown_closes_all sampleServer_started acceptTwo_fresh (by decide)
    fun fd => ?_).1
  rw [hconns]
  by_cases h6 : fd = 6
  · simp [h6]
  · by_cases h5 : fd = 5
    · simp [h5]
    · simp [Function.update_of_ne, h5, h6]

/-! ### The timer -/

/-- There is one timer, or there is none. -/
def Ticking (st : ServerLoop) : Prop :=
  ∃ id, ∀ id', (st.loop.timers id').isSome = true ↔ id' = id

def Silent (st : ServerLoop) : Prop := ∀ id, st.loop.timers id = none

theorem Silent.not_ticking {st : ServerLoop} (h : st.Silent) : ¬ st.Ticking := by
  rintro ⟨id, hall⟩
  have := (hall id).mpr rfl
  rw [h id] at this
  cases this

/-- The event is the timer's, and the timer is not set again: the server is shutting down, or
`add_timer` fails, which `on_tick` does not look at. -/
def TickLost (st : ServerLoop) (e : Reported) : Prop :=
  ∃ id t, st.loop.timerFdToId e.fd = some id ∧ st.loop.timers id = some t ∧
    (st.shutdown = true ∨ ∃ err, ((st.loop.erase e.fd t).addTimer .onTick e.timer).1 = .error err)

/-- The timer is lost at an input. -/
def LosesTick (st : ServerLoop) : Input → Prop
  | .event e => st.TickLost e
  | .signal => False

theorem onAccept_timers (tls : Bool) : ∀ (as : List Accepted) (st : ServerLoop),
    (st.onAccept tls as).loop.timers = st.loop.timers
  | [], _ => rfl
  | a :: as, st => by
    have hadd := (EpollLoop.exec_timers_eq (l := st.loop) (.add a.fd { read := true } a.refused)
      id).2.1
    simp only [onAccept]
    rcases he : st.loop.add a.fd { read := true } a.refused with ⟨e | _, loop⟩ <;>
      rw [EpollLoop.exec, he] at hadd
    · rw [onAccept_timers tls as]
      exact hadd
    · simp only
      split_ifs <;> rw [onAccept_timers tls as] <;> exact hadd

theorem modify_foldl_timers (fd : Nat) : ∀ (ms : List Event) (l : EpollLoop Callback),
    (ms.foldl (fun l e => (l.modify fd e).2) l).timers = l.timers
  | [], _ => rfl
  | e :: ms, l => by
    rw [List.foldl_cons, modify_foldl_timers fd ms]
    exact (EpollLoop.exec_timers_eq (l := l) (.modify fd e) id).2.1

theorem onClientEvent_timers (st : ServerLoop) (fd : Nat) (ev : Event) (io : ConnIo) :
    (st.onClientEvent fd ev io).loop.timers = st.loop.timers := by
  unfold onClientEvent
  cases hc : st.conns fd with
  | none => rfl
  | some conn =>
    simp only
    cases (conn.onClientEvent st.server ev io).conn with
    | some conn' => exact modify_foldl_timers fd _ st.loop
    | none =>
      rw [closeConn_eq _ fd (by simp [hc])]
      exact modify_foldl_timers fd _ st.loop

/-- What an event does to the timers. -/
theorem dispatch_timers {st : ServerLoop} (h : st.WF) (e : Reported) :
    (¬ st.TickLost e ∧ (st.dispatch e).loop.timers = st.loop.timers) ∨
    ∃ id, (st.loop.timers id).isSome = true ∧
      ((st.TickLost e ∧ (st.dispatch e).loop.timers = Function.update st.loop.timers id none) ∨
      (¬ st.TickLost e ∧ ∃ t, (st.dispatch e).loop.timers =
        Function.update (Function.update st.loop.timers id none) st.loop.nextTimerId
          (some t))) := by
  unfold dispatch
  rcases h.timersWF.fire_eq e.fd with ⟨hnone, he⟩ | ⟨id, ⟨id', tfd, ⟨⟩⟩, hfd, ht, hid, htfd, he⟩
  · rw [he]
    refine Or.inl ⟨?_, ?_⟩
    · rintro ⟨id, t, hfd, -⟩
      rw [hnone] at hfd
      cases hfd
    simp only
    split_ifs
    · exact onAccept_timers false e.accepts st
    · exact onAccept_timers true e.accepts st
    · exact onClientEvent_timers st e.fd _ e.io
  · rw [he]
    refine Or.inr ⟨id, by simp [ht], ?_⟩
    have htimers : (st.loop.erase e.fd ⟨id', tfd, .onTick⟩).timers =
        Function.update st.loop.timers id none := by rw [← hid]; rfl
    have hwf := h.timersWF.erase hfd ht
    simp only [onTick]
    split_ifs with hdown
    · exact Or.inl ⟨⟨id, _, hfd, ht, Or.inl hdown⟩, htimers⟩
    · rcases hwf.addTimer_cases .onTick e.timer with ⟨err, hadd⟩ | ⟨err, hadd⟩ | ⟨fd, -, hadd⟩
      · rw [hadd]
        exact Or.inl ⟨⟨id, _, hfd, ht, Or.inr ⟨err, by rw [hadd]⟩⟩, htimers⟩
      · rw [hadd]
        exact Or.inl ⟨⟨id, _, hfd, ht, Or.inr ⟨err, by rw [hadd]⟩⟩, htimers⟩
      · rw [hadd]
        refine Or.inr ⟨?_, _, by rw [← htimers]; rfl⟩
        rintro ⟨id₂, t₂, hfd₂, ht₂, hdown' | ⟨err, herr⟩⟩
        · exact hdown hdown'
        · rw [hfd] at hfd₂
          cases hfd₂
          rw [ht] at ht₂
          cases ht₂
          rw [hadd] at herr
          cases herr

/-- One event: the timer goes on exactly if it is not lost, and one that is lost stays lost. -/
theorem Ticking.dispatch {st : ServerLoop} (h : st.WF) (e : Reported) :
    (st.Ticking → (¬ st.TickLost e → (st.dispatch e).Ticking) ∧
      (st.TickLost e → (st.dispatch e).Silent)) ∧
    (st.Silent → (st.dispatch e).Silent ∧ ¬ st.TickLost e) := by
  have hnext := h.timersWF.next_free
  rcases dispatch_timers h e with ⟨hlost, ht⟩ | ⟨id, hid, ⟨hlost, ht⟩ | ⟨hlost, t, ht⟩⟩
  · unfold Ticking Silent
    rw [ht]
    exact ⟨fun htick => ⟨fun _ => htick, fun hl => absurd hl hlost⟩, fun hs => ⟨hs, hlost⟩⟩
  · refine ⟨fun ⟨id', hall⟩ => ⟨fun hn => absurd hlost hn, fun _ id'' => ?_⟩, fun hs => ?_⟩
    · rw [ht]
      by_cases hne : id'' = id
      · subst hne
        exact Function.update_self _ _ _
      · rw [Function.update_of_ne hne]
        have : ¬ (st.loop.timers id'').isSome = true := fun hsome =>
          hne (((hall id'').mp hsome).trans ((hall id).mp hid).symm)
        simpa using this
    · rw [hs id] at hid
      cases hid
  · refine ⟨fun ⟨id', hall⟩ => ⟨fun _ => ⟨st.loop.nextTimerId, fun id'' => ?_⟩,
      fun hl => absurd hl hlost⟩, fun hs => ?_⟩
    · rw [ht]
      by_cases hne : id'' = st.loop.nextTimerId
      · subst hne
        simp
      · rw [Function.update_of_ne hne]
        refine iff_of_false ?_ hne
        by_cases hid'' : id'' = id
        · subst hid''
          simp
        · rw [Function.update_of_ne hid'']
          exact fun hsome => hid'' (((hall id'').mp hsome).trans ((hall id).mp hid).symm)
    · rw [hs id] at hid
      cases hid

theorem Started.ticking (h : st₀.Started) : st₀.Ticking := by
  obtain ⟨l, fd, hl, hloop, -⟩ := h.eq
  refine ⟨l.nextTimerId, fun id => ?_⟩
  rw [hloop, EpollLoop.armed]
  by_cases hne : id = l.nextTimerId
  · subst hne
    simp
  · simp [hl.2.1, hne]

/-- **One timer at a time.** In every run of the server there is one timer for `on_tick` or none,
and there is one exactly if so far every tick has set it again. Once it is lost it stays lost, and
idle connections of the pools are never closed again. -/
theorem one_tick (h : st₀.Started) (hf : FreshRun st₀ is) :
    ((run step st₀ is).Ticking ∨ (run step st₀ is).Silent) ∧
      ((run step st₀ is).Ticking ↔
        ∀ pre i, pre ++ [i] <+: is → ¬ (run step st₀ pre).LosesTick i) := by
  induction is using List.reverseRecOn with
  | nil =>
    refine ⟨Or.inl h.ticking, iff_of_true h.ticking fun pre i hpre => ?_⟩
    exact absurd (List.prefix_nil.mp hpre) (by simp)
  | append_singleton is i ih =>
    obtain ⟨hor, hiff⟩ := ih hf.init
    rw [run_concat, forall_prefix_concat, ← hiff]
    cases i with
    | signal => exact ⟨hor, (and_iff_left not_false).symm⟩
    | event e =>
      obtain ⟨htick, hsilent⟩ := Ticking.dispatch (h.run_wf hf.init) e
      rcases hor with ht | hs
      · by_cases hlost : (run step st₀ is).TickLost e
        · have hs' := (htick ht).2 hlost
          exact ⟨Or.inr hs', iff_of_false hs'.not_ticking fun hand => hand.2 hlost⟩
        · have ht' := (htick ht).1 hlost
          exact ⟨Or.inl ht', iff_of_true ht' ⟨ht, hlost⟩⟩
      · have hs' := (hsilent hs).1
        exact ⟨Or.inr hs', iff_of_false hs'.not_ticking fun hand => hs.not_ticking hand.1⟩

/-- **A tick that cannot set the timer again is the last one**: there are no descriptors left. -/
theorem one_tick_lost :
    (run step sampleServer [.event (sampleReport 4 { input := true } [])]).Silent := by
  have hfresh : FreshRun sampleServer [.event (sampleReport 4 { input := true } [])] :=
    (freshRun_nil sampleServer).concat
      (show sampleServer.Fresh (sampleReport 4 { input := true } []) from fun fd h => by cases h)
  have hlost :
      (run step sampleServer []).LosesTick (.event (sampleReport 4 { input := true } [])) :=
    ⟨1, ⟨1, 4, .onTick⟩, rfl, rfl, Or.inr ⟨_, rfl⟩⟩
  obtain ⟨htick | hsilent, hiff⟩ := one_tick sampleServer_started hfresh
  · exact absurd hlost (hiff.mp htick [] _ (List.prefix_refl _))
  · exact hsilent

end Runs

end ServerLoop

end Uproxy
