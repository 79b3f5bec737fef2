import Uproxy.Http2.Run

/-!
# Conforming clients

What a client may send is said by the state the client itself keeps (`Client`): the decoder its
encoder talks to, the streams it has opened and ended, and the windows it has granted. `Conforms`
follows a sequence of frames: `SETTINGS` and `PING`, `WINDOW_UPDATE` on the connection or on an open
stream, `HEADERS` on a new stream and `DATA` on a stream that has not ended.

* `Follows` is the simulation between a connection and its client, `Follows.frame` its step: every
  such frame is accepted, but for `WINDOW_UPDATE` on the connection;
* **`h2_conforming`**: all calls of a server connection that is fed such frames succeed, in whatever
  pieces and among whatever other calls, exactly if no `WINDOW_UPDATE` on stream 0 is among them:
  `handle_frame` refuses it as a `stream frame on stream 0` (`h2_conforming_window`), although
  `send_window_update` writes such frames.
-/

namespace Uproxy

open Lib.Stream

/-! ## What a client may send -/

/-- What a client knows of its connection. -/
structure Client where
  /-- The decoder behind the header blocks sent so far. -/
  dec    : HpackDecoder := {}
  opened : Nat → Bool := fun _ => false
  ended  : Nat → Bool := fun _ => false
  /-- The windows granted, with the connection's at 0. -/
  window : Nat → Nat := fun _ => 65535

namespace Client

/-- The frames a client may send next. -/
def Allows (p : Client) (f : H2Frame) : Prop :=
  match f.type with
  | .settings => f.streamId = 0 ∧ f.length % 6 = 0
  | .ping => f.streamId = 0 ∧ f.length = 8
  | .windowUpdate =>
    f.length = 4 ∧ f.increment ≠ 0 ∧ (f.streamId = 0 ∨ p.opened f.streamId = true) ∧
      p.window f.streamId + f.increment < 2 ^ 31
  | .headers =>
    f.streamId ≠ 0 ∧ p.opened f.streamId = false ∧ f.has H2Flags.endHeaders = true ∧
      f.has H2Flags.padded = false ∧ f.has H2Flags.priority = false ∧
      (decode p.dec f.payload []).1 = .ok ()
  | .data =>
    p.opened f.streamId = true ∧ p.ended f.streamId = false ∧ f.has H2Flags.padded = false
  | _ => False

/-- What the client knows behind a frame. -/
def after (p : Client) (f : H2Frame) : Client :=
  match f.type with
  | .windowUpdate =>
    { p with window := Function.update p.window f.streamId (p.window f.streamId + f.increment) }
  | .headers =>
    { p with
      dec := (decode p.dec f.payload []).2.1
      opened := Function.update p.opened f.streamId true
      ended := Function.update p.ended f.streamId (f.has H2Flags.endStream) }
  | .data => { p with ended := Function.update p.ended f.streamId (f.has H2Flags.endStream) }
  | _ => p

/-- **The sequences of frames a client may send.** -/
def Conforms (p : Client) : List H2Frame → Prop
  | [] => True
  | f :: fs => f.Fits h2MaxFrameSize ∧ p.Allows f ∧ (p.after f).Conforms fs

end Client

/-- The frame that `handle_frame` refuses. -/
def H2Frame.ConnUpdate (f : H2Frame) : Prop := f.type = .windowUpdate ∧ f.streamId = 0

namespace H2Conn

/-- The bytes fed by some calls. -/
def fed (ops : List Op) : Bytes :=
  ops.flatMap fun
    | .feed data => data
    | _ => []

/-- Calls one after the other; `none` is an error of `process`. -/
def execAll (c : H2Conn) : List Op → Option H2Conn
  | [] => some c
  | op :: ops => (c.exec op).bind (execAll · ops)

/-! ## A connection and its client -/

/-- The state of a stream, as the client knows it. -/
def clientState (p : Client) (id : Nat) : H2StreamState :=
  if p.opened id then if p.ended id then .halfClosedRemote else .opened else .idle

/-- The connection knows what its client does. -/
structure Follows (c : H2Core) (p : Client) : Prop where
  started : ¬ c.Awaits
  dec     : c.hpackDec = p.dec
  state   : ∀ id, (c.stream id).state = clientState p id
  zero    : p.opened 0 = false

section Step

variable {c c' : H2Core} {p : Client} {f : H2Frame}

theorem Follows.awaits (h : Follows c p) {r : Result Unit} {id : Option Nat}
    (hf : c.handleFrame f = (r, c', id)) : ¬ c'.Awaits := by
  have := handleFrame_awaits h.started f
  rwa [hf] at this

/-- Frames of the connection. -/
theorem Follows.conn (h : Follows c p) (hc : f.OnConn)
    (hok : (c.handleFrame f).1 = .ok ()) :
    ∃ c' id, c.handleFrame f = (.ok (), c', id) ∧ Follows c' (p.after f) := by
  have hafter : p.after f = p := by rcases hc with ht | ht | ht <;> simp only [Client.after, ht]
  rw [hafter]
  obtain ⟨r, sendBuf, done, he⟩ := H2Core.handleFrame_onConn (c := c) hc
  rw [he] at hok
  cases hok
  exact ⟨_, _, he, h.awaits he, h.dec, h.state, h.zero⟩

/-- Frames on a stream, from the state and the decoder they leave. -/
theorem Follows.stream (h : Follows c p) {p' : Client} {s : StreamResult} (hc : ¬ f.OnConn)
    (h0 : f.streamId ≠ 0) (hs : streamFrame c.hpackDec (c.stream f.streamId) c.sendBuf f = s)
    (hok : s.result = .ok ()) (hdec : s.dec = p'.dec)
    (hself : s.stream.state = clientState p' f.streamId)
    (hother : ∀ id, id ≠ f.streamId → clientState p' id = clientState p id)
    (hzero : p'.opened 0 = false) :
    ∃ c' id, c.handleFrame f = (.ok (), c', id) ∧ Follows c' p' := by
  obtain ⟨c', hf, hstreams, hdec'⟩ := H2Core.handleFrame_stream hc h0 hs
  rw [hok] at hf
  refine ⟨c', _, hf, h.awaits hf, hdec'.trans hdec, fun id => ?_, hzero⟩
  by_cases hid : id = f.streamId
  · subst hid
    rw [stream_of_some ((congrFun hstreams f.streamId).trans (if_pos rfl))]
    exact hself
  · rw [stream_congr ((congrFun hstreams id).trans (if_neg hid)), hother id hid]
    exact h.state id

/-- **Every frame a client may send is accepted**, unless it updates the connection's window. -/
theorem Follows.frame (h : Follows c p) (hf : f.Fits h2MaxFrameSize) (ha : p.Allows f)
    (hw : ¬ f.ConnUpdate) :
    ∃ c' id, c.handleFrame f = (.ok (), c', id) ∧ Follows c' (p.after f) := by
  unfold Client.Allows at ha
  cases ht : f.type with
  | settings =>
    rw [ht] at ha
    refine h.conn (Or.inl ht) ?_
    simp only [H2Core.handleFrame, ht]
    rw [if_neg (by simp [ha.1, ha.2])]
    split_ifs <;> rfl
  | ping =>
    rw [ht] at ha
    refine h.conn (Or.inr (Or.inl ht)) ?_
    simp only [H2Core.handleFrame, ht]
    rw [if_neg (by simp [ha.1, ha.2])]
    split_ifs <;> rfl
  | windowUpdate =>
    rw [ht] at ha
    obtain ⟨hlen, hinc, -⟩ := ha
    have h0 : f.streamId ≠ 0 := fun h0 => hw ⟨ht, h0⟩
    have hafter : ∀ id, clientState (p.after f) id = clientState p id := fun id => by
      simp only [Client.after, ht, clientState]
    have hpay : f.payload.length = 4 := hf.length_eq ▸ hlen
    refine h.stream (by simp [H2Frame.OnConn, ht]) h0
      ((streamFrame_windowUpdate ht).trans (windowUpdateFrame_increment hlen hpay hinc)) rfl
      ?_ ?_ (fun id _ => hafter id) ?_
    · simp only [Client.after, ht, h.dec]
    · rw [hafter]
      exact h.state f.streamId
    · simp only [Client.after, ht, h.zero]
  | headers =>
    rw [ht] at ha
    obtain ⟨h0, hnew, hend, -, -, hdec⟩ := ha
    have hst : (c.stream f.streamId).state = .idle := by simp [h.state, clientState, hnew]
    rw [← h.dec] at hdec
    refine h.stream (by simp [H2Frame.OnConn, ht]) h0
      ((streamFrame_headers ht).trans (headersFrame_idle hst hend hdec)) rfl ?_ ?_
      (fun id hid => ?_) ?_
    · simp only [Client.after, ht, h.dec]
    · simp [Client.after, ht, clientState]
    · simp [Client.after, ht, clientState, Function.update_of_ne hid]
    · simp only [Client.after, ht, Function.update_of_ne h0.symm, h.zero]
  | data =>
    rw [ht] at ha
    obtain ⟨hopen, hend, -⟩ := ha
    have h0 : f.streamId ≠ 0 := fun h0 => by simp [h0, h.zero] at hopen
    have hst : (c.stream f.streamId).state = .opened := by simp [h.state, clientState, hopen, hend]
    refine h.stream (by simp [H2Frame.OnConn, ht]) h0
      ((streamFrame_data ht).trans (dataFrame_opened hst)) rfl ?_ ?_ (fun id hid => ?_) ?_
    · simp only [Client.after, ht, h.dec]
    · simp [Client.after, ht, clientState, hopen]
    · simp [Client.after, ht, clientState, Function.update_of_ne hid]
    · simp only [Client.after, ht, h.zero]
  | _ => simp [ht] at ha

theorem handleFrame_connUpdate (h : f.ConnUpdate) (c : H2Core) :
    c.handleFrame f = (.error (http2Error "stream frame on stream 0"), c, none) := by
  rw [H2Core.handleFrame_onStream (by simp [H2Frame.OnConn, h.1]), if_pos h.2]

end Step

/-! ## Runs -/

/-- The bytes to come are those of a client whose frames are all accepted. -/
inductive Safe : H2Core → Bytes → Prop
  | preface {c fs} (ha : c.Awaits) (hc : Follows c.greet.2 {}) (hfs : Client.Conforms {} fs)
      (hw : ∀ f ∈ fs, ¬ f.ConnUpdate) : Safe c (h2Preface ++ fs.flatMap frameBytes)
  | frames {c p fs} (hc : Follows c p) (hfs : p.Conforms fs) (hw : ∀ f ∈ fs, ¬ f.ConnUpdate) :
      Safe c (fs.flatMap frameBytes)

/-- The next item is accepted, and what follows it is safe. -/
theorem Safe.step {c : H2Core} {b : Bytes} (h : Safe c b) : machine.read c b = .more ∨
    ∃ x r c' out, machine.read c b = .item x r ∧ machine.handle c x = (none, c', out) ∧
      Safe c' r := by
  cases h with
  | @preface fs ha hc hfs hw =>
    obtain ⟨sendBuf, hgreet⟩ := c.greet_ok
    refine Or.inr ⟨none, _, c.greet.2, [], read_preface_append ha _, ?_, .frames hc hfs hw⟩
    simp only [machine, handle, hgreet]
  | @frames p fs hc hfs hw =>
    cases fs with
    | nil => exact Or.inl (read_frame hc.started [])
    | cons f fs =>
      obtain ⟨hfit, hallow, hrest⟩ := hfs
      obtain ⟨c', id, hf, hc'⟩ := hc.frame hfit hallow (hw f List.mem_cons_self)
      refine Or.inr ⟨some f, fs.flatMap frameBytes, c', id.toList, ?_, ?_,
        .frames hc' hrest fun g hg => hw g (List.mem_cons_of_mem f hg)⟩
      · rw [List.flatMap_cons]
        exact read_frameBytes hc.started hfit _
      · simp only [machine, handle, hf]

/-- The second connection behaves towards the client as the first does. -/
structure SameView (c c' : H2Core) : Prop where
  isServer   : c'.isServer = c.isServer
  sawPreface : c'.sawPreface = c.sawPreface
  hpackDec   : c'.hpackDec = c.hpackDec
  state      : ∀ id, (c'.stream id).state = (c.stream id).state

theorem SameView.awaits {c c' : H2Core} (h : SameView c c') : c'.Awaits ↔ c.Awaits := by
  unfold H2Core.Awaits
  rw [h.isServer, h.sawPreface]

theorem SameView.safe {c c' : H2Core} {b : Bytes} (h : SameView c c') (hs : Safe c b) :
    Safe c' b := by
  cases hs with
  | preface ha hc hfs hw =>
    refine .preface (h.awaits.mpr ha) ⟨fun ha' => ha'.2 rfl, ?_, fun id => ?_, rfl⟩ hfs hw
    · exact h.hpackDec.trans hc.dec
    · exact (h.state id).trans (hc.state id)
  | frames hc hfs hw =>
    refine .frames ⟨fun ha => hc.started (h.awaits.mp ha), h.hpackDec.trans hc.dec, fun id => ?_,
      hc.zero⟩ hfs hw
    exact (h.state id).trans (hc.state id)

/-- Calls other than `feed` and `process` do not touch what the client sees. -/
theorem exec_sameView {c c' : H2Conn} {op : Op} (hop : op ≠ .process)
    (he : c.exec op = some c') : SameView c.toH2Core c'.toH2Core := by
  rcases exec_cases hop he with ⟨id, n, -, hc⟩ | ⟨-, hpackEnc, sendBuf, done, hc⟩
  · have hstate := fun i => (consumeBody_stream c.toH2Core id n i).1
    obtain ⟨streams, he⟩ := c.consumeBody_eq id n
    rw [hc]
    refine ⟨?_, ?_, ?_, hstate⟩ <;> rw [he]
  · rw [hc]
    exact ⟨rfl, rfl, rfl, fun _ => rfl⟩

/-- **Safe bytes are received without an error**, among any other calls. -/
theorem execAll_safe {ops : List Op} {c : H2Conn} {rest : Bytes}
    (h : Safe c.toH2Core (c.recvBuf ++ (fed ops ++ rest))) : (execAll c ops).isSome := by
  induction ops generalizing c with
  | nil => rfl
  | cons op ops ih =>
    rw [execAll]
    by_cases hop : op = .process
    · subst hop
      obtain ⟨herr, hsafe⟩ := machine.drain_safe (fun _ _ => Safe.step) _ _ _ h
      have he : c.exec .process = some ⟨(machine.drain c.toH2Core c.recvBuf).state,
          (machine.drain c.toH2Core c.recvBuf).rest⟩ := by
        simp only [exec, process_eq_drain, result, herr]
      rw [he]
      exact ih hsafe
    · obtain ⟨c', he⟩ : ∃ c', c.exec op = some c' := by
        cases op with
        | process => exact absurd rfl hop
        | _ => exact ⟨_, rfl⟩
      rw [he]
      refine ih ((exec_sameView hop he).safe ?_)
      have hbuf : c'.recvBuf ++ (fed ops ++ rest) = c.recvBuf ++ (fed (op :: ops) ++ rest) := by
        cases op with
        | process => exact absurd rfl hop
        | feed data =>
          cases he
          simp only [feed, fed, List.flatMap_cons, List.append_assoc]
        | _ => cases he; rfl
      rw [hbuf]
      exact h

/-- Frames that are all accepted hold no update of the connection's window. -/
theorem drain_noConnUpdate {fs : List H2Frame} {c : H2Core} {p : Client} (hc : Follows c p)
    (hfs : p.Conforms fs) (h : (machine.drain c (fs.flatMap frameBytes)).error = none) :
    ∀ f ∈ fs, ¬ f.ConnUpdate := by
  induction fs generalizing c p with
  | nil => exact List.forall_mem_nil _
  | cons f fs ih =>
    obtain ⟨hfit, hallow, hrest⟩ := hfs
    rw [List.flatMap_cons] at h
    have hw : ¬ f.ConnUpdate := fun hw => by
      rw [drain_frameBytes_error hc.started hfit (handleFrame_connUpdate hw c)] at h
      cases h
    obtain ⟨c', id, hf, hc'⟩ := hc.frame hfit hallow hw
    rw [drain_frameBytes hc.started hfit hf] at h
    intro g hg
    rcases List.mem_cons.mp hg with rfl | hg
    · exact hw
    · exact ih hc' hrest h g hg

/-- **A conforming client is not disconnected**, in whatever pieces its bytes arrive and whatever
else is called, exactly if it does not update the connection's window. -/
theorem h2_conforming {fs : List H2Frame} (h : Client.Conforms {} fs) :
    (∀ ops, fed ops <+: h2Preface ++ fs.flatMap frameBytes → (execAll (new true) ops).isSome) ↔
      ∀ f ∈ fs, ¬ (f.type = .windowUpdate ∧ f.streamId = 0) := by
  have hstart : Follows (new true).greet.2 {} :=
    ⟨by decide, rfl, fun _ => rfl, rfl⟩
  constructor
  · intro hall
    have hsome := hall [.feed (h2Preface ++ fs.flatMap frameBytes), .process] (by simp [fed])
    refine drain_noConnUpdate hstart h ?_
    rw [← drain_preface (by decide)]
    simp only [execAll, exec, process_feed_new, result, Option.bind_some] at hsome
    cases herr : (machine.drain (new true).toH2Core (h2Preface ++ fs.flatMap frameBytes)).error with
    | none => rfl
    | some e =>
      rw [herr] at hsome
      cases hsome
  · rintro hw ops ⟨rest, hrest⟩
    refine @execAll_safe ops _ rest ?_
    rw [hrest]
    exact .preface (by decide) hstart h hw

/-- A client that sends one request. -/
theorem h2_conforming_request :
    Client.Conforms {} [sampleHeaders] ∧
      (execAll (new true)
        [.feed h2Preface, .process, .feed (frameBytes sampleHeaders), .process]).isSome := by
  have hconf : Client.Conforms {} [sampleHeaders] :=
    ⟨⟨rfl, by decide, rfl, by decide⟩,
      ⟨by decide, rfl, by decide, by decide, by decide, by decide +kernel⟩, trivial⟩
  refine ⟨hconf, (h2_conforming hconf).mpr (fun f hf h => ?_) _ (by simp [fed])⟩
  rw [List.mem_singleton.mp hf] at h
  exact absurd h.1 (by decide)

/-- A `WINDOW_UPDATE` of the connection by 1. -/
def sampleUpdate : H2Frame := ⟨4, .windowUpdate, 0, 0, [0, 0, 0, 1]⟩

/-- **A client that updates the connection's window is disconnected.** -/
theorem h2_conforming_window :
    Client.Conforms {} [sampleUpdate] ∧
      ((new true).feed (h2Preface ++ frameBytes sampleUpdate)).process.1 =
        .error (http2Error "stream frame on stream 0") ∧
      ¬ (∀ ops, fed ops <+: h2Preface ++ [sampleUpdate].flatMap frameBytes →
        (execAll (new true) ops).isSome) := by
  have hconf : Client.Conforms {} [sampleUpdate] :=
    ⟨⟨rfl, by decide, rfl, by decide⟩,
      ⟨rfl, by decide, Or.inl rfl, by decide⟩, trivial⟩
  refine ⟨hconf, by decide +kernel, fun hall => ?_⟩
  have hnone : (execAll (new true)
      [.feed (h2Preface ++ [sampleUpdate].flatMap frameBytes), .process]).isSome = false := by
    decide +kernel
  rw [hall _ (by simp [fed])] at hnone
  cases hnone

end H2Conn

end Uproxy
