import Uproxy.Http2.Response

/-!
# Runs of an HTTP/2 connection

A run is a sequence of calls of the public functions of `H2Conn`, up to the first error of
`process`. `Reach isServer calls c` holds of the connection `c` behind the calls, each of which is
kept with the connection it met; `frames calls` are the frames handled so far, each with the members
it met, and `ready calls` the ids reported so far.

* `Reach.rule` is the rule for runs with calls of one kind: what the preface, every accepted frame
  and every other call preserve holds throughout. `Reach.inv` is the one for what depends on streams
  and decoder only;
* **`hpack_synchronised`**: the decoder is that of the peer as long as no header block arrives on a
  stream that has ended, since `handle_frame` drops such a block unread (`hpack_synchronised_skip`);
* **`h2_request_frozen`**: a request is reported once, and what was reported does not change.
-/

namespace Uproxy

open Lib.Stream

namespace H2Conn

/-- The calls of a run. -/
inductive Op where
  | feed (data : Bytes)
  | process
  | sendResponse (id : Nat) (headers : List HpackHeader) (body : Bytes) (endStream : Bool)
  | sendWindowUpdate (id increment : Nat)
  | consumeOutput (n : Nat)
  | consumeBody (id n : Nat)
  | goaway (error : H2Error) (debugData : Bytes)
  deriving DecidableEq, Repr

/-- One call; `none` is an error of `process`. -/
def exec (c : H2Conn) : Op → Option H2Conn
  | .feed data => some (c.feed data)
  | .process =>
    match c.process with
    | (.error _, _) => none
    | (.ok _, c') => some c'
  | .sendResponse id headers body endStream =>
    some { c with toH2Core := (c.sendResponse id headers body endStream).2 }
  | .sendWindowUpdate id increment =>
    some { c with toH2Core := (c.sendWindowUpdate id increment).2 }
  | .consumeOutput n => some { c with toH2Core := c.consumeOutput n }
  | .consumeBody id n => some { c with toH2Core := c.consumeBody id n }
  | .goaway error debugData => some { c with toH2Core := (c.goaway error debugData).2 }

/-- The frames a call handles, each with the members it meets. -/
def handled (c : H2Conn) : Op → List (H2Core × H2Frame)
  | .process => (machine.trace c.toH2Core c.recvBuf).filterMap fun p => p.2.map (p.1, ·)
  | _ => []

/-- The ids a call reports. -/
def reported (c : H2Conn) : Op → List Nat
  | .process =>
    match c.process.1 with
    | .error _ => []
    | .ok ready => ready
  | _ => []

/-- The runs of a connection. -/
inductive Reach (isServer : Bool) : List (H2Conn × Op) → H2Conn → Prop where
  | new : Reach isServer [] (new isServer)
  | call {calls c op c'} (h : Reach isServer calls c) (he : c.exec op = some c') :
      Reach isServer (calls ++ [(c, op)]) c'

/-- The frames handled in a run. -/
def frames (calls : List (H2Conn × Op)) : List (H2Core × H2Frame) :=
  calls.flatMap fun p => p.1.handled p.2

/-- The ids reported in a run. -/
def ready (calls : List (H2Conn × Op)) : List Nat := calls.flatMap fun p => p.1.reported p.2

theorem frames_concat (calls : List (H2Conn × Op)) (c : H2Conn) (op : Op) :
    frames (calls ++ [(c, op)]) = frames calls ++ c.handled op := by
  rw [frames, List.flatMap_append, List.flatMap_singleton, frames]

theorem ready_concat (calls : List (H2Conn × Op)) (c : H2Conn) (op : Op) :
    ready (calls ++ [(c, op)]) = ready calls ++ c.reported op := by
  rw [ready, List.flatMap_append, List.flatMap_singleton, ready]

/-! ## Invariants of runs -/

/-- The members `send_response` touches. -/
theorem sendResponse_members (c : H2Core) (id : Nat) (headers : List HpackHeader) (body : Bytes)
    (endStream : Bool) :
    ∃ hpackEnc sendBuf, (c.sendResponse id headers body endStream).2 =
      { c with hpackEnc, sendBuf } := by
  by_cases h : Sendable id headers
  · obtain ⟨hpackEnc, hs⟩ := sendResponse_sent h c body endStream
    exact ⟨_, _, congrArg Prod.snd hs⟩
  · obtain ⟨e, hpackEnc, hs⟩ := sendResponse_unsent h c body endStream
    exact ⟨_, _, congrArg Prod.snd hs⟩

/-- A call other than `process` is `consume_body`, or it writes or drops output. -/
theorem exec_cases {c c' : H2Conn} {op : Op} (hop : op ≠ .process) (he : c.exec op = some c') :
    (∃ id n, op = .consumeBody id n ∧ c'.toH2Core = c.consumeBody id n) ∨
      ((∀ id n, op ≠ .consumeBody id n) ∧
        ∃ hpackEnc sendBuf done, c'.toH2Core = { c.toH2Core with hpackEnc, sendBuf, done }) := by
  cases op with
  | process => exact absurd rfl hop
  | consumeBody id n =>
    cases he
    exact Or.inl ⟨id, n, rfl, rfl⟩
  | sendResponse id headers body endStream =>
    cases he
    obtain ⟨hpackEnc, sendBuf, hs⟩ := sendResponse_members c.toH2Core id headers body endStream
    exact Or.inr ⟨fun _ _ => Op.noConfusion, hpackEnc, sendBuf, c.done, hs⟩
  | _ =>
    cases he
    exact Or.inr ⟨fun _ _ => Op.noConfusion, _, _, _, rfl⟩

/-- Only `process` handles frames and reports requests. -/
theorem handled_reported_of_ne (c : H2Conn) {op : Op} (hop : op ≠ .process) :
    c.handled op = [] ∧ c.reported op = [] := by
  cases op with
  | process => exact absurd rfl hop
  | _ => exact ⟨rfl, rfl⟩

section Inv

variable {I : H2Core → List (H2Core × H2Frame) → List Nat → Prop}
  (greet : ∀ c log ready, I c log ready → c.Awaits → I c.greet.2 log ready)
  (frame : ∀ c log ready f c' id, I c log ready → ¬ c.Awaits → f.Fits h2MaxFrameSize →
    c.handleFrame f = (.ok (), c', id) → I c' (log ++ [(c, f)]) (ready ++ id.toList))

include greet frame

/-- One item that `process` reads: the preface, or a frame. -/
theorem item_inv {c c' : H2Core} {log : List (H2Core × H2Frame)} {ready : List Nat}
    {b r : Bytes} {x : Option H2Frame} {out : List Nat} (h : I c log ready)
    (hr : machine.read c b = .item x r) (hh : machine.handle c x = (none, c', out)) :
    I c' (log ++ (x.map (c, ·)).toList) (ready ++ out) := by
  cases x with
  | none =>
    obtain ⟨sendBuf, hgreet⟩ := c.greet_ok
    have hI := greet c log ready h ((read_item_awaits hr).mp rfl)
    rw [hgreet] at hI
    simp only [machine, handle, hgreet, Prod.mk.injEq] at hh
    obtain ⟨-, rfl, rfl⟩ := hh
    rwa [Option.map_none, Option.toList_none, List.append_nil, List.append_nil]
  | some f =>
    have ha : ¬ c.Awaits := fun ha => Option.some_ne_none f ((read_item_awaits hr).mpr ha)
    rcases hf : c.handleFrame f with ⟨e | ⟨⟩, c'', id⟩
    · simp only [machine, handle, hf] at hh
      cases hh
    · simp only [machine, handle, hf, Prod.mk.injEq] at hh
      obtain ⟨-, rfl, rfl⟩ := hh
      exact frame c log ready f c'' id h ha (read_item_fits hr) hf

/-- A call of `process`, item by item. -/
theorem process_inv {c c' : H2Conn} {log : List (H2Core × H2Frame)} {ready : List Nat}
    (h : I c.toH2Core log ready) (he : c.exec .process = some c') :
    I c'.toH2Core (log ++ c.handled .process) (ready ++ c.reported .process) := by
  have hstart : I c.toH2Core
      (log ++ ([] : List (H2Core × Option H2Frame)).filterMap fun p => p.2.map (p.1, ·))
      (ready ++ []) := by
    rwa [List.filterMap_nil, List.append_nil, List.append_nil]
  have hstep := machine.drain_inv (I := fun c items out =>
      I c (log ++ items.filterMap fun p => p.2.map (p.1, ·)) (ready ++ out))
    (fun c items out b x r c' o hI hr hh => by
      have := item_inv greet frame hI hr hh
      rw [List.append_assoc, List.append_assoc] at this
      rw [List.filterMap_append]
      cases x <;> exact this)
    c.toH2Core c.recvBuf hstart
  simp only [exec, process_eq_drain, result] at he
  simp only [reported, handled, process_eq_drain, result]
  cases herr : (machine.drain c.toH2Core c.recvBuf).error with
  | none =>
    rw [herr] at he
    cases he
    simpa using hstep herr
  | some e =>
    rw [herr] at he
    cases he

end Inv

/-- **The rule for runs** whose calls are all of the kind `P`. -/
theorem Reach.rule {isServer : Bool} {P : Op → Prop}
    {I : H2Core → List (H2Core × H2Frame) → List Nat → Prop}
    (new : I (H2Conn.new isServer).toH2Core [] [])
    (greet : ∀ c log ready, I c log ready → c.Awaits → I c.greet.2 log ready)
    (frame : ∀ c log ready f c' id, I c log ready → ¬ c.Awaits → f.Fits h2MaxFrameSize →
      c.handleFrame f = (.ok (), c', id) → I c' (log ++ [(c, f)]) (ready ++ id.toList))
    (call : ∀ (c c' : H2Conn) op log ready, P op → op ≠ .process → c.exec op = some c' →
      I c.toH2Core log ready → I c'.toH2Core log ready)
    {calls : List (H2Conn × Op)} {c : H2Conn} (h : Reach isServer calls c)
    (hP : ∀ p ∈ calls, P p.2) : I c.toH2Core (frames calls) (ready calls) := by
  induction h with
  | new => exact new
  | @call calls c op c' h he ih =>
    have hI := ih fun p hp => hP p (List.mem_append_left _ hp)
    rw [frames_concat, ready_concat]
    by_cases hop : op = .process
    · subst hop
      exact process_inv greet frame hI he
    · obtain ⟨hhandled, hreported⟩ := c.handled_reported_of_ne hop
      rw [hhandled, hreported, List.append_nil, List.append_nil]
      exact call c c' op _ _ (hP (c, op) (by simp)) hop he hI

/-- **The invariant rule**, for what does not depend on the output. -/
theorem Reach.inv {isServer : Bool} {I : H2Core → List (H2Core × H2Frame) → List Nat → Prop}
    (new : I (H2Conn.new isServer).toH2Core [] [])
    (frame : ∀ c log ready f c' id, I c log ready → f.Fits h2MaxFrameSize →
      c.handleFrame f = (.ok (), c', id) → I c' (log ++ [(c, f)]) (ready ++ id.toList))
    (quiet : ∀ c log ready c', I c log ready → H2Core.Quiet c c' → I c' log ready)
    (body : ∀ c log ready id n, I c log ready → I (c.consumeBody id n) log ready)
    {calls : List (H2Conn × Op)} {c : H2Conn} (h : Reach isServer calls c) :
    I c.toH2Core (frames calls) (ready calls) := by
  refine h.rule (P := fun _ => True) new
    (fun c log ready hI _ => quiet c log ready _ hI ⟨rfl, rfl, rfl⟩)
    (fun c log ready f c' id hI _ hfit hf => frame c log ready f c' id hI hfit hf) ?_
    (fun _ _ => trivial)
  intro c c' op log ready _ hop he hI
  rcases exec_cases hop he with ⟨id, n, -, hc⟩ | ⟨-, hpackEnc, sendBuf, done, hc⟩
  · rw [hc]
    exact body _ _ _ id n hI
  · rw [hc]
    exact quiet _ _ _ _ hI ⟨rfl, rfl, rfl⟩

/-! ## The header decoder -/

/-- The header blocks among the frames of a run. -/
def blocks (log : List (H2Core × H2Frame)) : List Bytes :=
  (log.filter fun p => p.2.type = .headers).map fun p => p.2.payload

/-- A fresh `HpackDecoder` that has decoded some blocks. -/
def decodeAll (blocks : List Bytes) : HpackDecoder :=
  blocks.foldl (fun t block => (decode t block []).2.1) {}

/-- The frame is a header block on a stream that has ended. -/
def Skipped (c : H2Core) (f : H2Frame) : Prop :=
  f.type = .headers ∧ (c.stream f.streamId).state.Ended

instance instDecidableSkipped (c : H2Core) (f : H2Frame) : Decidable (Skipped c f) :=
  inferInstanceAs (Decidable (_ ∧ _))

theorem blocks_concat (log : List (H2Core × H2Frame)) (c : H2Core) (f : H2Frame) :
    blocks (log ++ [(c, f)]) =
      if f.type = .headers then blocks log ++ [f.payload] else blocks log := by
  unfold blocks
  rw [List.filter_append]
  split_ifs with h
  · rw [List.filter_cons_of_pos (by simpa using h), List.filter_nil, List.map_append]
    rfl
  · rw [List.filter_cons_of_neg (by simpa using h), List.filter_nil, List.append_nil]

theorem decodeAll_concat (bs : List Bytes) (b : Bytes) :
    decodeAll (bs ++ [b]) = (decode (decodeAll bs) b []).2.1 := by
  rw [decodeAll, List.foldl_append]
  rfl

/-- What a frame does to the decoder, unless it is skipped. -/
theorem handleFrame_hpackDec {c c' : H2Core} {f : H2Frame} {id : Option Nat}
    (h : c.handleFrame f = (.ok (), c', id)) (hs : ¬ Skipped c f) :
    c'.hpackDec = if f.type = .headers then (decode c.hpackDec f.payload []).2.1
      else c.hpackDec := by
  rcases H2Core.handleFrame_ok h with ⟨hc, -, hq⟩ | ⟨-, -, s, -, hmove⟩
  · have ht : f.type ≠ .headers := by rcases hc with ht | ht | ht <;> simp [ht]
    rw [if_neg ht]
    exact hq.hpackDec
  · generalize c'.hpackDec = dec' at hmove
    cases hmove with
    | headers ht hend hdec =>
      rw [decode_out] at hdec
      simp only [Prod.mk.injEq] at hdec
      rw [if_pos ht, hdec.2.1]
    | data ht hend => rw [if_neg (by simp [ht])]
    | windowUpdate ht hinc => rw [if_neg (by simp [ht])]
    | refused ht hend =>
      rcases ht with ht | ht
      · exact absurd ⟨ht, hend⟩ hs
      · rw [if_neg (by simp [ht])]
    | ignored ht => rw [if_neg ht.1]

/-- **The header decoder stays synchronised** with the peer's encoder in every run in which no
header block arrives on a stream that has ended. -/
theorem hpack_synchronised {isServer : Bool} {calls : List (H2Conn × Op)} {c : H2Conn}
    (h : Reach isServer calls c) (hopen : ∀ p ∈ frames calls, ¬ Skipped p.1 p.2) :
    c.hpackDec = decodeAll (blocks (frames calls)) := by
  refine h.inv (I := fun c log _ => (∀ p ∈ log, ¬ Skipped p.1 p.2) →
    c.hpackDec = decodeAll (blocks log)) (fun _ => rfl) ?_ ?_ ?_ hopen
  · intro c log ready f c' id hI _ hf hall
    have hlog := hI fun p hp => hall p (List.mem_append_left _ hp)
    rw [handleFrame_hpackDec hf (hall (c, f) (by simp)), blocks_concat, hlog]
    split_ifs
    · rw [decodeAll_concat]
    · rfl
  · intro c log ready c' hI hq hall
    rw [hq.hpackDec]
    exact hI hall
  · intro c log ready id n hI hall
    obtain ⟨streams, he⟩ := c.consumeBody_eq id n
    rw [← hI hall, he]

theorem exec_process {c : H2Conn} {r : List Nat} (h : c.process.1 = .ok r) :
    c.exec .process = some c.process.2 := by
  unfold exec
  rcases hp : c.process with ⟨e | r', c'⟩
  · rw [hp] at h
    cases h
  · rfl

/-- The run that feeds some bytes and processes them. -/
theorem reach_process {isServer : Bool} {bytes : Bytes} {r : List Nat}
    (h : ((new isServer).feed bytes).process.1 = .ok r) :
    Reach isServer [(new isServer, .feed bytes), ((new isServer).feed bytes, .process)]
      ((new isServer).feed bytes).process.2 :=
  .call (.call .new rfl) (exec_process h)

/-- A header block that adds the entry `a: b`, on stream 1, which it ends. -/
def sampleHeaders : H2Frame := ⟨5, .headers, 0x5, 1, [0x40, 0x01, 0x61, 0x01, 0x62]⟩

/-- One header block. -/
theorem hpack_synchronised_once :
    let c := (new true).feed (h2Preface ++ frameBytes sampleHeaders)
    let calls := [(new true, .feed (h2Preface ++ frameBytes sampleHeaders)), (c, .process)]
    Reach true calls c.process.2 ∧ (∀ p ∈ frames calls, ¬ Skipped p.1 p.2) ∧
      c.process.2.hpackDec = decodeAll [sampleHeaders.payload] := by
  intro c calls
  have hrun : Reach true calls c.process.2 := reach_process (r := [1]) (by decide +kernel)
  have hopen : ∀ p ∈ frames calls, ¬ Skipped p.1 p.2 := by
    have hall : (frames calls).all (fun p => decide ¬ Skipped p.1 p.2) = true := by decide +kernel
    simpa using hall
  refine ⟨hrun, hopen, (hpack_synchronised hrun hopen).trans ?_⟩
  have hblocks : blocks (frames calls) = [sampleHeaders.payload] := by decide +kernel
  rw [hblocks]

/-- **A second header block on an ended stream is skipped**: the decoder then lacks its entry. -/
theorem hpack_synchronised_skip :
    let bytes := h2Preface ++ frameBytes sampleHeaders ++ frameBytes sampleHeaders
    let c := (new true).feed bytes
    let calls := [(new true, .feed bytes), (c, .process)]
    Reach true calls c.process.2 ∧ c.process.2.hpackDec.dynamicTable.length = 1 ∧
      (decodeAll (blocks (frames calls))).dynamicTable.length = 2 ∧
      c.process.2.hpackDec ≠ decodeAll (blocks (frames calls)) := by
  intro bytes c calls
  have h1 : c.process.2.hpackDec.dynamicTable.length = 1 := by decide +kernel
  have h2 : (decodeAll (blocks (frames calls))).dynamicTable.length = 2 := by decide +kernel
  refine ⟨reach_process (r := [1]) (by decide +kernel), h1, h2, fun h => ?_⟩
  rw [h, h2] at h1
  cases h1

/-! ## Requests -/

/-- The ways a stream's state moves. -/
def Moves (s s' : H2StreamState) : Prop :=
  s' = s ∨ (s = .idle ∧ s' = .opened) ∨ (s = .opened ∧ s' = .halfClosedRemote) ∨
    (s = .idle ∧ s' = .halfClosedRemote)

/-- The ids reported by some frames. -/
def reports (log : List (H2Core × H2Frame)) : List Nat :=
  log.flatMap fun p => (p.1.handleFrame p.2).2.2.toList

/-- A frame moves the states of streams as it may, and leaves the requests in `ids` alone. -/
def Spares (ids : List Nat) (c : H2Core) (f : H2Frame) : Prop :=
  (∀ id, Moves (c.stream id).state ((c.handleFrame f).2.1.stream id).state) ∧
    ∀ id ∈ ids, (c.handleFrame f).2.1.streamHeaders id = c.streamHeaders id ∧
      (c.handleFrame f).2.1.streamBody id = c.streamBody id

/-- The streams of a connection that only its peer ends. -/
def PeerEnds (c : H2Core) : Prop :=
  ∀ id, (c.stream id).state ≠ .halfClosedLocal ∧ (c.stream id).state ≠ .closed

/-- What a frame does to a stream of such a connection. -/
theorem move_state {f : H2Frame} {dec dec' : HpackDecoder} {s s' : H2Stream} {id : Option Nat}
    (h : StreamMove f dec s dec' s' id) (hl : s.state ≠ .halfClosedLocal) (hc : s.state ≠ .closed) :
    Moves s.state s'.state ∧ s'.state ≠ .halfClosedLocal ∧ s'.state ≠ .closed ∧
      (s.state = .halfClosedRemote → s'.state = .halfClosedRemote ∧
        s'.requestHeaders = s.requestHeaders ∧ s'.recvBuf = s.recvBuf) ∧
      (id ≠ none → s.state ≠ .halfClosedRemote ∧ s'.state = .halfClosedRemote) := by
  unfold Moves
  cases h with
  | headers ht hs hdec =>
    unfold H2StreamState.Ended at hs
    unfold H2Frame.reports
    cases hst : s.state <;> simp [hst] at hl hc hs <;>
      cases hend : f.has H2Flags.endStream <;> simp [H2StreamState.afterHeaders]
  | data ht hs =>
    unfold H2Frame.reports
    cases hst : s.state <;> simp [hst] at hl hc hs
    cases hend : f.has H2Flags.endStream <;> simp [H2StreamState.afterData]
  | windowUpdate ht hinc =>
    exact ⟨Or.inl rfl, hl, hc, fun h => ⟨h, rfl, rfl⟩, fun h => absurd rfl h⟩
  | refused ht hs => exact ⟨Or.inl rfl, hl, hc, fun h => ⟨h, rfl, rfl⟩, fun h => absurd rfl h⟩
  | ignored ht => exact ⟨Or.inl rfl, hl, hc, fun h => ⟨h, rfl, rfl⟩, fun h => absurd rfl h⟩

theorem stream_congr {c c' : H2Core} {id : Nat} (h : c'.streams id = c.streams id) :
    c'.stream id = c.stream id := by
  unfold H2Core.stream
  rw [h]

theorem stream_of_some {c : H2Core} {id : Nat} {s : H2Stream} (h : c.streams id = some s) :
    c.stream id = { s with id } := by
  unfold H2Core.stream
  rw [h]
  rfl

/-- What is known of the streams after some frames: reported requests are complete, and reported
once. -/
structure Frozen (c : H2Core) (log : List (H2Core × H2Frame)) (ready : List Nat) : Prop where
  peerEnds  : PeerEnds c
  complete  : ∀ id ∈ ready, ∃ s, c.streams id = some s ∧ s.state = .halfClosedRemote
  nodup     : ready.Nodup
  ready_eq  : ready = reports log
  spares    : ∀ pre p, pre ++ [p] <+: log → Spares (reports pre) p.1 p.2

/-- What a frame may do to the stream `i`, if it reports the request `id`. -/
structure Effect (c c' : H2Core) (id : Option Nat) (i : Nat) : Prop where
  moves     : Moves (c.stream i).state (c'.stream i).state
  peerEnds  : (c'.stream i).state ≠ .halfClosedLocal ∧ (c'.stream i).state ≠ .closed
  keeps     : ∀ s, c.streams i = some s → s.state = .halfClosedRemote →
    ∃ s', c'.streams i = some s' ∧ s'.state = .halfClosedRemote ∧
      s'.requestHeaders = s.requestHeaders ∧ s'.recvBuf = s.recvBuf
  completes : id = some i → (c.stream i).state ≠ .halfClosedRemote ∧
    ∃ s', c'.streams i = some s' ∧ s'.state = .halfClosedRemote

theorem Effect.of_eq {c c' : H2Core} {id : Option Nat} {i : Nat} (h : PeerEnds c)
    (hs : c'.streams i = c.streams i) (hid : id ≠ some i) : Effect c c' id i where
  moves := Or.inl (by rw [stream_congr hs])
  peerEnds := by rw [stream_congr hs]; exact h i
  keeps := fun s hsome hst => ⟨s, hs.trans hsome, hst, rfl, rfl⟩
  completes := fun hi => absurd hi hid

/-- A frame, on every stream. -/
theorem frame_effect {c c' : H2Core} {f : H2Frame} {id : Option Nat} (h : PeerEnds c)
    (hf : c.handleFrame f = (.ok (), c', id)) (i : Nat) : Effect c c' id i := by
  rcases H2Core.handleFrame_ok hf with ⟨-, rfl, hq⟩ | ⟨-, -, s', hstreams, hmove⟩
  · exact .of_eq h (congrFun hq.streams i) (Option.some_ne_none i).symm
  · have hs := congrFun hstreams i
    by_cases hi : i = f.streamId
    · subst hi
      have hself : c'.streams f.streamId = some s' := hs.trans (if_pos rfl)
      obtain ⟨hmoves, hl, hc, hkeep, hrep⟩ := move_state hmove (h f.streamId).1 (h f.streamId).2
      refine ⟨?_, ?_, fun s hsome hst => ⟨s', hself, ?_⟩, fun hid => ?_⟩
      · rw [stream_of_some hself]
        exact hmoves
      · rw [stream_of_some hself]
        exact ⟨hl, hc⟩
      · rw [stream_of_some hsome] at hkeep
        exact hkeep hst
      · obtain ⟨hne, hst⟩ := hrep (by rw [hid]; exact Option.some_ne_none _)
        exact ⟨hne, s', hself, hst⟩
    · exact .of_eq h (hs.trans (if_neg hi)) fun hid => hi (hmove.ready_eq hid)

/-- A frame on one stream. -/
theorem Frozen.frame {c c' : H2Core} {log : List (H2Core × H2Frame)} {ready : List Nat}
    {f : H2Frame} {id : Option Nat} (h : Frozen c log ready)
    (hf : c.handleFrame f = (.ok (), c', id)) :
    Frozen c' (log ++ [(c, f)]) (ready ++ id.toList) := by
  have heff := frame_effect h.peerEnds hf
  have hnew : ∀ i ∈ id.toList, id = some i := fun i hi => by simpa using hi
  refine ⟨fun i => (heff i).peerEnds, fun i hi => ?_, ?_, ?_, fun pre p hpre => ?_⟩
  · rcases List.mem_append.mp hi with hi | hi
    · obtain ⟨s, hs, hst⟩ := h.complete i hi
      obtain ⟨s', hs', hst', -⟩ := (heff i).keeps s hs hst
      exact ⟨s', hs', hst'⟩
    · exact ((heff i).completes (hnew i hi)).2
  · refine List.nodup_append.mpr ⟨h.nodup, ?_, fun i hi j hj heq => ?_⟩
    · cases id <;> simp
    · -- a request reported before is complete, and no frame completes it again
      obtain ⟨s, hs, hst⟩ := h.complete i hi
      have hne := ((heff j).completes (hnew j hj)).1
      rw [← heq, stream_of_some hs] at hne
      exact hne hst
  · rw [reports, List.flatMap_append, List.flatMap_singleton, hf, ← reports, h.ready_eq]
  · rcases List.prefix_concat_iff.mp hpre with heq | hpre
    · obtain ⟨rfl, hp⟩ := List.append_inj' heq rfl
      cases hp
      rw [← h.ready_eq, Spares, hf]
      refine ⟨fun i => (heff i).moves, fun i hi => ?_⟩
      obtain ⟨s, hs, hst⟩ := h.complete i hi
      obtain ⟨s', hs', -, hh, hb⟩ := (heff i).keeps s hs hst
      simp only [H2Core.streamHeaders, H2Core.streamBody, hs, hs', Option.map_some, hh, hb,
        and_self]
    · exact h.spares pre p hpre

theorem consumeBody_stream (c : H2Core) (id n i : Nat) :
    ((c.consumeBody id n).stream i).state = (c.stream i).state ∧
      (c.consumeBody id n).streamHeaders i = c.streamHeaders i ∧
      (c.consumeBody id n).streamBody i =
        (c.streamBody i).map fun b => if i = id then b.drop n else b := by
  unfold H2Core.consumeBody H2Core.streamHeaders H2Core.streamBody
  by_cases hi : i = id
  · subst hi
    cases hs : c.streams i <;> simp [H2Core.setStream, H2Core.stream, hs]
  · cases hs : c.streams id <;> simp [H2Core.setStream, H2Core.stream, hi, Function.comp_def]

/-- **The streams along a run.** -/
theorem Reach.frozen {isServer : Bool} {calls : List (H2Conn × Op)} {c : H2Conn}
    (h : Reach isServer calls c) : Frozen c.toH2Core (frames calls) (ready calls) := by
  refine h.inv (I := Frozen) ?_ (fun c log ready f c' id hI _ hf => hI.frame hf) ?_ ?_
  · have hidle : ∀ id, ((H2Conn.new isServer).stream id).state = .idle := fun _ => rfl
    refine ⟨fun id => by simp [hidle], by simp, List.nodup_nil, rfl, fun pre p hpre => ?_⟩
    exact absurd (List.prefix_nil.mp hpre) (by simp)
  · intro c log ready c' hI hq
    refine ⟨fun id => ?_, fun id hid => ?_, hI.nodup, hI.ready_eq, hI.spares⟩
    · rw [stream_congr (congrFun hq.streams id)]
      exact hI.peerEnds id
    · rw [hq.streams]
      exact hI.complete id hid
  · intro c log ready id n hI
    refine ⟨fun i => ?_, fun i hi => ?_, hI.nodup, hI.ready_eq, hI.spares⟩
    · rw [(consumeBody_stream c id n i).1]
      exact hI.peerEnds i
    · obtain ⟨s, hs, hst⟩ := hI.complete i hi
      have hbody := (consumeBody_stream c id n i).2.1
      have hstate := (consumeBody_stream c id n i).1
      unfold H2Core.streamHeaders at hbody
      rw [hs] at hbody
      obtain ⟨s', hs', -⟩ := Option.map_eq_some_iff.mp hbody
      rw [stream_of_some hs, stream_of_some hs'] at hstate
      exact ⟨s', hs', hstate.trans hst⟩

/-- A call other than `process` leaves the streams alone, but for the bytes `consume_body` takes. -/
theorem exec_streams {c c' : H2Conn} {op : Op} (hop : op ≠ .process) (he : c.exec op = some c')
    (i : Nat) :
    (c'.stream i).state = (c.stream i).state ∧ c'.streamHeaders i = c.streamHeaders i ∧
      ((∀ n, op ≠ .consumeBody i n) → c'.streamBody i = c.streamBody i) ∧
      ∀ n, op = .consumeBody i n → c'.streamBody i = (c.streamBody i).map (List.drop n) := by
  rcases exec_cases hop he with ⟨id, n, rfl, hc⟩ | ⟨hne, hpackEnc, sendBuf, done, hc⟩
  · rw [hc]
    obtain ⟨hstate, hheaders, hbody⟩ := consumeBody_stream c.toH2Core id n i
    refine ⟨hstate, hheaders, fun hne => ?_, fun m hm => ?_⟩
    · have hi : i ≠ id := fun hi => hne n (by rw [hi])
      simpa [hi] using hbody
    · cases hm
      simpa using hbody
  · rw [hc]
    exact ⟨rfl, rfl, fun _ => rfl, fun n h => absurd h (hne i n)⟩

/-- The ids of requests are those of streams. -/
theorem Reach.ready_lt {isServer : Bool} {calls : List (H2Conn × Op)} {c : H2Conn}
    (h : Reach isServer calls c) : ∀ id ∈ ready calls, 0 < id ∧ id < 2 ^ 31 := by
  refine h.inv (I := fun _ _ ready => ∀ id ∈ ready, 0 < id ∧ id < 2 ^ 31) (by simp) ?_
    (fun _ _ _ _ hI _ => hI) (fun _ _ _ _ _ hI => hI)
  intro c log ready f c' id hI hfit hf i hi
  rcases List.mem_append.mp hi with hi | hi
  · exact hI i hi
  · have hsome : id = some i := by simpa using hi
    rcases H2Core.handleFrame_ok hf with ⟨-, hnone, -⟩ | ⟨-, h0, s', -, hmove⟩
    · rw [hnone] at hsome
      cases hsome
    · rw [hmove.ready_eq hsome]
      exact ⟨Nat.pos_of_ne_zero h0, hfit.streamId_lt⟩

/-- **A request is reported once and then frozen.** In every run: no id is reported twice; a
reported id has a stream; every frame moves the states of streams from idle over open to half closed
(remote), and leaves the headers and the bodies of the requests reported before it alone; and no
other call touches states, headers or bodies, but for the bytes `consume_body` takes off. -/
theorem h2_request_frozen {isServer : Bool} {calls : List (H2Conn × Op)} {c : H2Conn}
    (h : Reach isServer calls c) :
    (ready calls).Nodup ∧
    (∀ id ∈ ready calls, (c.streamHeaders id).isSome ∧ (c.streamBody id).isSome) ∧
    ready calls = reports (frames calls) ∧
    (∀ pre p, pre ++ [p] <+: frames calls →
      (∀ id, Moves (p.1.stream id).state ((p.1.handleFrame p.2).2.1.stream id).state) ∧
      ∀ id ∈ reports pre,
        (p.1.handleFrame p.2).2.1.streamHeaders id = p.1.streamHeaders id ∧
        (p.1.handleFrame p.2).2.1.streamBody id = p.1.streamBody id) ∧
    ∀ op c', op ≠ .process → c.exec op = some c' → ∀ id,
      (c'.stream id).state = (c.stream id).state ∧ c'.streamHeaders id = c.streamHeaders id ∧
      ((∀ n, op ≠ .consumeBody id n) → c'.streamBody id = c.streamBody id) ∧
      ∀ n, op = .consumeBody id n → c'.streamBody id = (c.streamBody id).map (List.drop n) := by
  have hf := h.frozen
  refine ⟨hf.nodup, fun id hid => ?_, hf.ready_eq, hf.spares, fun op c' hop he id =>
    exec_streams hop he id⟩
  obtain ⟨s, hs, -⟩ := hf.complete id hid
  unfold H2Core.streamHeaders H2Core.streamBody
  rw [hs]
  exact ⟨rfl, rfl⟩

/-- A request, and a second header block on its stream. -/
theorem h2_request_frozen_once :
    let bytes := h2Preface ++ frameBytes sampleHeaders ++ frameBytes sampleHeaders
    let c := (new true).feed bytes
    let calls := [(new true, .feed bytes), (c, .process)]
    Reach true calls c.process.2 ∧ ready calls = [1] ∧ (frames calls).length = 2 ∧
      (ready calls).Nodup ∧ (c.process.2.streamHeaders 1).isSome := by
  intro bytes c calls
  have hrun : Reach true calls c.process.2 := reach_process (r := [1]) (by decide +kernel)
  have hready : ready calls = [1] := by decide +kernel
  obtain ⟨hnodup, hsome, -⟩ := h2_request_frozen hrun
  refine ⟨hrun, hready, by decide +kernel, hnodup, (hsome 1 ?_).1⟩
  rw [hready]
  exact List.mem_singleton_self 1

end H2Conn

end Uproxy
