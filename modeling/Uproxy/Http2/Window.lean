import Uproxy.Http2.Run

/-!
# Flow control

`H2Stream` has a receive and a send window, but nothing reads them: `handle_frame` takes every
`DATA` frame of an open stream, whatever its size, and `send_response` queues the whole body.
`recv_window` is never written either, and `WINDOW_UPDATE` only adds to `send_window`.

What flow control is about is counted here from what the calls of a run do: the bytes frames add to
a stream's body (`accepted`) and `send_window_update` grants (`granted`), and the `DATA` bytes
`send_response` appends to the send buffer (`queued`) and `WINDOW_UPDATE` frames allow (`credited`).

* `Reach.accepted_eq_offered`, `queued_eq_passed`: the first are the bytes the peer offers on open
  streams, the second the bodies handed to `send_response`;
* **`h2_windows`**: windows are kept exactly in the runs in which the peer and the caller of
  `send_response` keep to them (`WithinWindows`), and by no other means: `h2_windows_unchecked` has
  a run in which a stream takes 81920 bytes, and one in which a body of 65536 bytes is queued;
* **`send_windows`**: `send_window` is the exact sum of what was credited exactly as long as that
  sum is an `int32_t`, since no `WINDOW_UPDATE` is refused for its size (`send_windows_overflow`).
-/

namespace Uproxy

open Lib.Stream

namespace H2Conn

/-- The initial size of a window. -/
def initialWindow : Nat := 65535

/-- The bytes a frame adds to the body of a stream. -/
def growth (id : Nat) (p : H2Core × H2Frame) : Nat :=
  ((p.1.handleFrame p.2).2.1.stream id).recvBuf.length - (p.1.stream id).recvBuf.length

/-- The `DATA` bytes accepted into a stream. -/
def accepted (log : List (H2Core × H2Frame)) (id : Nat) : Nat := (log.map (growth id)).sum

/-- The increments received for a stream. -/
def credited (log : List (H2Core × H2Frame)) (id : Nat) : Nat :=
  (log.map fun p =>
    if p.2.type = .windowUpdate ∧ p.2.streamId = id then p.2.increment else 0).sum

/-- The increment a call of `send_window_update` grants a stream. -/
def grant (id : Nat) : H2Conn × Op → Nat
  | (c, .sendWindowUpdate i increment) =>
    if i = id ∧ (c.sendWindowUpdate i increment).1.isOk then increment else 0
  | _ => 0

def granted (calls : List (H2Conn × Op)) (id : Nat) : Nat := (calls.map (grant id)).sum

/-- The frames a call of `send_response` appends to the send buffer. -/
def appended : H2Conn × Op → List H2Frame
  | (c, .sendResponse i headers body endStream) =>
    framesIn ((c.sendResponse i headers body endStream).2.sendBuf.drop c.sendBuf.length)
  | _ => []

/-- The `DATA` bytes queued on a stream. -/
def queued (calls : List (H2Conn × Op)) (id : Nat) : Nat :=
  (calls.map fun p =>
    (((appended p).filter fun f => f.type = .data ∧ f.streamId = id).flatMap
      H2Frame.payload).length).sum

/-- **Flow control**, at every point of a run. -/
def FlowControlled (calls : List (H2Conn × Op)) : Prop :=
  ∀ pre, pre <+: calls → ∀ id, accepted (frames pre) id ≤ initialWindow + granted pre id ∧
    queued pre id ≤ initialWindow + credited (frames pre) id

/-! ## What is offered -/

/-- The bytes of a `DATA` frame on an open stream. -/
def offer (id : Nat) (p : H2Core × H2Frame) : Nat :=
  if p.2.type = .data ∧ p.2.streamId = id ∧
      ((p.1.stream id).state = .opened ∨ (p.1.stream id).state = .halfClosedLocal)
    then p.2.payload.length
  else 0

/-- The `DATA` bytes that arrive on a stream while it is open. -/
def offered (log : List (H2Core × H2Frame)) (id : Nat) : Nat := (log.map (offer id)).sum

/-- The body handed to `send_response` for a stream, if the response can be sent. -/
def pass (id : Nat) : H2Conn × Op → Nat
  | (_, .sendResponse i headers body _) => if i = id ∧ Sendable i headers then body.length else 0
  | _ => 0

def passed (calls : List (H2Conn × Op)) (id : Nat) : Nat := (calls.map (pass id)).sum

/-- The peer and the caller of `send_response` keep to the windows. -/
def WithinWindows (calls : List (H2Conn × Op)) : Prop :=
  ∀ pre, pre <+: calls → ∀ id, offered (frames pre) id ≤ initialWindow + granted pre id ∧
    passed pre id ≤ initialWindow + credited (frames pre) id

/-- A stream takes all a frame offers. -/
theorem growth_eq_offer {c c' : H2Core} {f : H2Frame} {r : Option Nat}
    (h : c.handleFrame f = (.ok (), c', r)) (id : Nat) : growth id (c, f) = offer id (c, f) := by
  unfold growth offer
  rw [h]
  rcases H2Core.handleFrame_ok h with ⟨hc, -, hq⟩ | ⟨-, -, s', hstreams, hmove⟩
  · have ht : f.type ≠ .data := by rcases hc with ht | ht | ht <;> simp [ht]
    rw [if_neg fun hd => ht hd.1, stream_congr (congrFun hq.streams id), Nat.sub_self]
  · have hs := congrFun hstreams id
    by_cases hid : id = f.streamId
    · subst hid
      have hself : c'.stream f.streamId = { s' with id := f.streamId } :=
        stream_of_some (hs.trans (if_pos rfl))
      rw [hself]
      generalize c'.hpackDec = dec' at hmove
      cases hmove with
      | headers ht hend hdec => rw [if_neg (by simp [ht]), Nat.sub_self]
      | data ht hopen =>
        rw [if_pos ⟨ht, rfl, hopen⟩]
        simp only [List.length_append]
        omega
      | windowUpdate ht hinc => rw [if_neg (by simp [ht]), Nat.sub_self]
      | refused ht hend =>
        have hclosed : ¬ ((c.stream f.streamId).state = .opened ∨
            (c.stream f.streamId).state = .halfClosedLocal) := by
          rcases hend with hst | hst <;> simp [hst]
        rw [if_neg fun hd => hclosed hd.2.2, Nat.sub_self]
      | ignored ht => rw [if_neg fun hd => ht.2.1 hd.1, Nat.sub_self]
    · rw [if_neg fun hd => hid hd.2.1.symm, stream_congr (hs.trans (if_neg hid)), Nat.sub_self]

/-- Every frame of a run was accepted. -/
theorem Reach.frames_ok {isServer : Bool} {calls : List (H2Conn × Op)} {c : H2Conn}
    (h : Reach isServer calls c) :
    ∀ p ∈ frames calls, ∃ c' r, p.1.handleFrame p.2 = (.ok (), c', r) := by
  refine h.inv (I := fun _ log _ => ∀ p ∈ log, ∃ c' r, p.1.handleFrame p.2 = (.ok (), c', r))
    (by simp) ?_ (fun _ _ _ _ hI _ => hI) (fun _ _ _ _ _ hI => hI)
  intro c log ready f c' r hI _ hf p hp
  rcases List.mem_append.mp hp with hp | hp
  · exact hI p hp
  · rw [List.mem_singleton.mp hp]
    exact ⟨c', r, hf⟩

/-- **What is accepted is what is offered.** -/
theorem Reach.accepted_eq_offered {isServer : Bool} {calls : List (H2Conn × Op)} {c : H2Conn}
    (h : Reach isServer calls c) (id : Nat) :
    accepted (frames calls) id = offered (frames calls) id := by
  refine congrArg List.sum (List.map_congr_left fun p hp => ?_)
  obtain ⟨c', r, hf⟩ := h.frames_ok p hp
  exact growth_eq_offer hf id

/-- The `DATA` frames of a response, for each stream. -/
theorem data_of_response {i : Nat} {headers : List HpackHeader} (h : Sendable i headers)
    (body : Bytes) (endStream : Bool) (id : Nat) :
    ((responseFrames i headers body endStream).filter fun f =>
        f.type = .data ∧ f.streamId = id).flatMap H2Frame.payload =
      if i = id then body else [] := by
  rw [responseFrames, List.filter_cons_of_neg (by simp [blockFrame])]
  have hall : ∀ f ∈ dataFrames i endStream h2MaxFrameSize body.length body, _ :=
    dataFrames_fits h.1.2 body.length body
  by_cases hi : i = id
  · rw [if_pos hi, List.filter_eq_self.mpr fun f hf => by simp [(hall f hf).2, hi]]
    exact responseFrames_data i headers body endStream
  · rw [if_neg hi, List.filter_eq_nil_iff.mpr fun f hf => by simp [(hall f hf).2, hi]]
    rfl

/-- **What is queued is what was handed over.** -/
theorem queued_eq_passed (calls : List (H2Conn × Op)) (id : Nat) :
    queued calls id = passed calls id := by
  refine congrArg List.sum (List.map_congr_left fun p _ => ?_)
  obtain ⟨c, op⟩ := p
  cases op with
  | sendResponse i headers body endStream =>
    unfold appended pass
    by_cases hsend : Sendable i headers
    · obtain ⟨hpackEnc, hs⟩ := sendResponse_sent hsend c.toH2Core body endStream
      simp only [hs, List.drop_left, framesIn_response hsend, data_of_response hsend, hsend,
        and_true]
      split_ifs <;> rfl
    · obtain ⟨e, hpackEnc, hs⟩ := sendResponse_unsent hsend c.toH2Core body endStream
      simp only [hs, List.drop_length, hsend, and_false, if_false]
      rfl
  | _ => rfl

/-- The points of a run are runs. -/
theorem Reach.of_prefix {isServer : Bool} {calls : List (H2Conn × Op)} {c : H2Conn}
    (h : Reach isServer calls c) {pre : List (H2Conn × Op)} (hpre : pre <+: calls) :
    ∃ c', Reach isServer pre c' := by
  induction h with
  | new =>
    rw [List.prefix_nil.mp hpre]
    exact ⟨_, .new⟩
  | call h he ih =>
    rcases List.prefix_concat_iff.mp hpre with rfl | hpre
    · exact ⟨_, .call h he⟩
    · exact ih hpre

/-- **Windows are kept exactly if the peer and the caller keep to them.** -/
theorem h2_windows {isServer : Bool} {calls : List (H2Conn × Op)} {c : H2Conn}
    (h : Reach isServer calls c) : FlowControlled calls ↔ WithinWindows calls := by
  unfold FlowControlled WithinWindows
  refine forall₃_congr fun pre hpre id => ?_
  obtain ⟨c', hc'⟩ := h.of_prefix hpre
  rw [hc'.accepted_eq_offered id, queued_eq_passed]

/-- A response on the stream of `sampleHeaders`. -/
def sampleResponse (body : Bytes) : Op :=
  .sendResponse 1 [⟨ascii ":status", ascii "200", false⟩] body true

/-- The calls that receive `sampleHeaders` and answer with a body. -/
def sampleCalls (body : Bytes) : List (H2Conn × Op) :=
  let c := (new true).feed (h2Preface ++ frameBytes sampleHeaders)
  [(new true, .feed (h2Preface ++ frameBytes sampleHeaders)), (c, .process)] ++
    [(c.process.2, sampleResponse body)]

theorem sampleCalls_reach (body : Bytes) : ∃ c, Reach true (sampleCalls body) c :=
  ⟨_, .call (reach_process (r := [1]) (by decide +kernel)) rfl⟩

theorem sampleCalls_frames (body : Bytes) :
    (frames (sampleCalls body)).map Prod.snd = [sampleHeaders] := by
  unfold sampleCalls
  rw [frames_concat]
  show List.map Prod.snd (frames _ ++ []) = _
  rw [List.append_nil]
  decide +kernel

/-- Counts over the frames to which `sampleHeaders` adds nothing. -/
theorem sampleCalls_sum (body : Bytes) {g : H2Core × H2Frame → Nat}
    (hg : ∀ c, g (c, sampleHeaders) = 0) : ((frames (sampleCalls body)).map g).sum = 0 := by
  refine List.sum_eq_zero fun n hn => ?_
  obtain ⟨⟨c, f⟩, hp, rfl⟩ := List.mem_map.mp hn
  have hf : f ∈ [sampleHeaders] := by
    rw [← sampleCalls_frames body]
    exact List.mem_map_of_mem hp
  rw [List.mem_singleton.mp hf]
  exact hg c

theorem sampleCalls_passed (body : Bytes) (id : Nat) :
    passed (sampleCalls body) id = if 1 = id then body.length else 0 := by
  have hsend : Sendable 1 [⟨ascii ":status", ascii "200", false⟩] := by decide +kernel
  simp [passed, sampleCalls, sampleResponse, pass, hsend]

/-- A body of two bytes is within the windows. -/
theorem h2_windows_two : FlowControlled (sampleCalls [104, 105]) := by
  obtain ⟨c, hrun⟩ := sampleCalls_reach [104, 105]
  refine (h2_windows hrun).mpr fun pre ⟨post, hpost⟩ id => ⟨?_, ?_⟩
  · have hzero : offered (frames (sampleCalls [104, 105])) id = 0 :=
      sampleCalls_sum _ fun c => if_neg fun h => by cases h.1
    rw [← hpost, frames, List.flatMap_append, offered, List.map_append, List.sum_append] at hzero
    unfold offered frames
    omega
  · have htwo := sampleCalls_passed [104, 105] id
    rw [← hpost, passed, List.map_append, List.sum_append] at htwo
    unfold passed initialWindow
    have hle : (if 1 = id then ([104, 105] : Bytes).length else 0) ≤ 2 := by
      split_ifs
      · exact Nat.le_refl 2
      · exact Nat.zero_le 2
    omega

/-! ## Nothing is refused -/

/-- The body of a stream holds no more than was accepted into it. -/
theorem Reach.body_le {isServer : Bool} {calls : List (H2Conn × Op)} {c : H2Conn}
    (h : Reach isServer calls c) (id : Nat) :
    (c.stream id).recvBuf.length ≤ accepted (frames calls) id := by
  refine h.inv (I := fun c log _ => (c.stream id).recvBuf.length ≤ accepted log id)
    (Nat.zero_le _) ?_ ?_ ?_
  · intro c log ready f c' r hI _ hf
    simp only [accepted, List.map_append, List.sum_append, List.map_cons, List.map_nil,
      List.sum_cons, List.sum_nil, growth, hf] at hI ⊢
    omega
  · intro c log ready c' hI hq
    rw [stream_congr (congrFun hq.streams id)]
    exact hI
  · intro c log ready i n hI
    refine Nat.le_trans ?_ hI
    rw [H2Core.stream_consumeBody]
    dsimp only
    split_ifs
    · rw [List.length_drop]
      exact Nat.sub_le _ _
    · exact Nat.le_refl _

/-- `DATA` frames on an open stream are taken one after the other. -/
theorem drain_data {f : H2Frame} (hf : f.Fits h2MaxFrameSize) (ht : f.type = .data)
    (hend : f.has H2Flags.endStream = false) (hid : f.streamId ≠ 0) (n : Nat) {c : H2Core}
    (ha : ¬ c.Awaits) (hs : (c.stream f.streamId).state = .opened) :
    ∃ c', machine.drain c ((List.replicate n f).flatMap frameBytes) = ⟨none, c', [], []⟩ ∧
      (c'.stream f.streamId).recvBuf.length =
        (c.stream f.streamId).recvBuf.length + n * f.payload.length := by
  induction n generalizing c with
  | zero =>
    refine ⟨c, Machine.drain_more ?_, by simp⟩
    exact read_frame ha []
  | succ n ih =>
    obtain ⟨c₁, hok, hstreams, -⟩ := H2Core.handleFrame_stream (by simp [H2Frame.OnConn, ht]) hid
      ((streamFrame_data ht).trans (dataFrame_opened hs))
    have hstream := stream_of_some ((congrFun hstreams f.streamId).trans (if_pos rfl))
    have ha₁ := handleFrame_awaits ha f
    rw [hok] at ha₁
    obtain ⟨c', hdrain, hlen⟩ := ih ha₁ (by rw [hstream]; simp [hend])
    refine ⟨c', ?_, ?_⟩
    · rw [List.replicate_succ, List.flatMap_cons, drain_frameBytes ha hf hok, hdrain,
        H2Frame.reports, hend]
      rfl
    · rw [hlen, hstream, Nat.succ_mul]
      simp only [List.length_append]
      omega

/-- A header block that opens stream 1. -/
def openHeaders : H2Frame := { sampleHeaders with flags := 0x4 }

/-- The largest `DATA` frame, on stream 1. -/
def largeData : H2Frame := ⟨16384, .data, 0, 1, List.replicate 16384 0⟩

/-- A client that sends five of them. -/
def largeBytes : Bytes :=
  h2Preface ++ (frameBytes openHeaders ++ (List.replicate 5 largeData).flatMap frameBytes)

theorem process_largeBytes : ∃ c', ((new true).feed largeBytes).process = (.ok [], ⟨c', []⟩) ∧
    (c'.stream 1).recvBuf.length = 81920 := by
  let core := (new true).greet.2
  have hopen : core.handleFrame openHeaders = (.ok (), (core.handleFrame openHeaders).2.1, none) :=
    Prod.ext (by decide +kernel) (Prod.ext rfl (by decide +kernel))
  have hfit : openHeaders.Fits h2MaxFrameSize := ⟨rfl, by decide, rfl, by decide⟩
  have hlarge : largeData.Fits h2MaxFrameSize :=
    ⟨List.length_replicate.symm, by decide, rfl, by decide⟩
  obtain ⟨c', hdrain, hlen⟩ := drain_data hlarge rfl rfl (by decide) 5
    (handleFrame_awaits (c := core) (by decide) openHeaders) (by decide +kernel)
  have hd : machine.drain (new true).toH2Core largeBytes = ⟨none, c', [], []⟩ := by
    rw [largeBytes, drain_preface (by decide), drain_frameBytes (by decide) hfit hopen, hdrain]
    rfl
  refine ⟨c', ?_, hlen.trans ?_⟩
  · rw [process_feed_new, hd]
    rfl
  · rw [largeData, List.length_replicate]
    decide +kernel

/-- **Nothing is refused**: a stream takes 81920 bytes without any grant, and a body of 65536 bytes
is queued without any credit. -/
theorem h2_windows_unchecked :
    (∃ calls c, Reach true calls c ∧ granted calls 1 = 0 ∧
      81920 ≤ accepted (frames calls) 1 ∧ ¬ FlowControlled calls) ∧
    (∃ calls c, Reach true calls c ∧ credited (frames calls) 1 = 0 ∧
      queued calls 1 = 65536 ∧ ¬ FlowControlled calls) := by
  constructor
  · obtain ⟨c', hprocess, hlen⟩ := process_largeBytes
    have hrun := reach_process (congrArg Prod.fst hprocess)
    rw [hprocess] at hrun
    have hgrant : granted [(new true, .feed largeBytes), ((new true).feed largeBytes, .process)] 1 =
        0 := rfl
    have haccepted : 81920 ≤ accepted (frames _) 1 := hlen ▸ hrun.body_le 1
    refine ⟨_, _, hrun, hgrant, haccepted, fun hflow => ?_⟩
    have := (hflow _ (List.prefix_refl _) 1).1
    rw [hgrant, initialWindow] at this
    omega
  · obtain ⟨c, hrun⟩ := sampleCalls_reach (List.replicate 65536 0)
    have hcredit : credited (frames (sampleCalls (List.replicate 65536 0))) 1 = 0 :=
      sampleCalls_sum _ fun c => if_neg fun h => by cases h.1
    have hqueued : queued (sampleCalls (List.replicate 65536 0)) 1 = 65536 := by
      rw [queued_eq_passed, sampleCalls_passed, if_pos rfl, List.length_replicate]
    refine ⟨_, c, hrun, hcredit, hqueued, fun hflow => ?_⟩
    have := (hflow _ (List.prefix_refl _) 1).2
    rw [hcredit, hqueued, initialWindow] at this
    omega

/-! ## Send windows -/

/-- The largest value of `send_window`. -/
def maxWindow : Int := 2 ^ 31 - 1

/-- Every window is the initial one and the increments accepted for it, as exact numbers, and does
not pass the maximum. -/
structure WindowsExact (c : H2Core) (log : List (H2Core × H2Frame)) : Prop where
  sum_eq : ∀ id, (c.stream id).sendWindow = initialWindow + credited log id
  le_max : ∀ id, (c.stream id).sendWindow ≤ maxWindow

/-- What a window is about to become. -/
def nextWindow (c : H2Core) (f : H2Frame) : Int := (c.stream f.streamId).sendWindow + f.increment

/-- A `WINDOW_UPDATE` is refused if the window would pass the maximum, and added without overflow
if it is not. -/
structure UpdateSafe (c : H2Core) (f : H2Frame) : Prop where
  refused : maxWindow < nextWindow c f → (c.handleFrame f).1 ≠ .ok ()
  added   : (c.handleFrame f).1 = .ok () → -(2 ^ 31) ≤ nextWindow c f ∧ nextWindow c f ≤ maxWindow

/-- The windows along a run: behind its calls, and at every frame of it. -/
def WindowsSafe (calls : List (H2Conn × Op)) (c : H2Conn) : Prop :=
  WindowsExact c.toH2Core (frames calls) ∧
    ∀ pre p, pre ++ [p] <+: frames calls →
      WindowsExact p.1 pre ∧ (p.2.type = .windowUpdate → UpdateSafe p.1 p.2)

theorem credited_append (log log' : List (H2Core × H2Frame)) (id : Nat) :
    credited (log ++ log') id = credited log id + credited log' id := by
  rw [credited, List.map_append, List.sum_append]
  rfl

/-- What a frame does to a window. -/
theorem handleFrame_sendWindow {c c' : H2Core} {f : H2Frame} {r : Option Nat}
    (h : c.handleFrame f = (.ok (), c', r)) (id : Nat) :
    (c'.stream id).sendWindow =
      if f.type = .windowUpdate ∧ f.streamId = id then
        Int.bmod ((c.stream id).sendWindow + f.increment) (2 ^ 32)
      else (c.stream id).sendWindow := by
  rcases H2Core.handleFrame_ok h with ⟨hc, -, hq⟩ | ⟨-, -, s', hstreams, hmove⟩
  · have ht : f.type ≠ .windowUpdate := by rcases hc with ht | ht | ht <;> simp [ht]
    rw [if_neg fun hw => ht hw.1, stream_congr (congrFun hq.streams id)]
  · have hs := congrFun hstreams id
    by_cases hid : id = f.streamId
    · subst hid
      rw [stream_of_some (hs.trans (if_pos rfl))]
      generalize c'.hpackDec = dec' at hmove
      cases hmove with
      | headers ht hend hdec => rw [if_neg (by simp [ht])]
      | data ht hopen => rw [if_neg (by simp [ht])]
      | windowUpdate ht hinc => rw [if_pos ⟨ht, rfl⟩]
      | refused ht hend => rw [if_neg (by rcases ht with ht | ht <;> simp [ht])]
      | ignored ht => rw [if_neg fun hw => ht.2.2 hw.1]
    · rw [if_neg fun hw => hid hw.2.symm, stream_congr (hs.trans (if_neg hid))]

theorem consumeBody_sendWindow (c : H2Core) (i n id : Nat) :
    ((c.consumeBody i n).stream id).sendWindow = (c.stream id).sendWindow := by
  rw [H2Core.stream_consumeBody]

/-- The increments of a stream leave room in its window. -/
def Room (log : List (H2Core × H2Frame)) : Prop :=
  ∀ id, (initialWindow + credited log id : Int) ≤ maxWindow

theorem Room.of_prefix {log pre : List (H2Core × H2Frame)} (h : Room log) (hpre : pre <+: log) :
    Room pre := by
  obtain ⟨post, rfl⟩ := hpre
  intro id
  have := h id
  rw [credited_append] at this
  push_cast at this
  omega

/-- A sum within the maximum is not wrapped. -/
theorem bmod_of_room {x : Int} (h0 : 0 ≤ x) (hx : x ≤ maxWindow) : Int.bmod x (2 ^ 32) = x := by
  unfold maxWindow at hx
  rw [Int.bmod_def, Int.emod_eq_of_lt h0 (by omega), if_pos (by omega)]

/-- A frame keeps windows exact, as long as there is room. -/
theorem WindowsExact.frame {c c' : H2Core} {log : List (H2Core × H2Frame)} {f : H2Frame}
    {r : Option Nat} (h : WindowsExact c log) (hroom : Room (log ++ [(c, f)]))
    (hf : c.handleFrame f = (.ok (), c', r)) : WindowsExact c' (log ++ [(c, f)]) := by
  have hsum : ∀ id, (c'.stream id).sendWindow = initialWindow + credited (log ++ [(c, f)]) id := by
    intro id
    have hid := hroom id
    rw [handleFrame_sendWindow hf, h.sum_eq]
    rw [credited_append] at hid ⊢
    by_cases hw : f.type = .windowUpdate ∧ f.streamId = id
    · have hinc : credited [(c, f)] id = f.increment := by simp [credited, hw]
      rw [hinc, Nat.cast_add, ← Int.add_assoc] at hid
      rw [if_pos hw, hinc, Nat.cast_add, ← Int.add_assoc, bmod_of_room (by omega) hid]
    · have hinc : credited [(c, f)] id = 0 := by simp [credited, hw]
      rw [if_neg hw, hinc, Nat.add_zero]
  exact ⟨hsum, fun id => (hsum id).trans_le (hroom id)⟩

/-- **The windows along a run** that leaves room. -/
theorem Reach.windowsExact {isServer : Bool} {calls : List (H2Conn × Op)} {c : H2Conn}
    (h : Reach isServer calls c) (hroom : Room (frames calls)) :
    WindowsExact c.toH2Core (frames calls) ∧
      ∀ pre p, pre ++ [p] <+: frames calls → WindowsExact p.1 pre := by
  refine h.inv (I := fun c log _ => Room log →
    WindowsExact c log ∧ ∀ pre p, pre ++ [p] <+: log → WindowsExact p.1 pre) ?_ ?_ ?_ ?_ hroom
  · refine fun _ => ⟨⟨fun _ => rfl, fun _ => show (65535 : Int) ≤ maxWindow by decide⟩,
      fun pre p hpre => ?_⟩
    exact absurd (List.prefix_nil.mp hpre) (by simp)
  · intro c log ready f c' r hI _ hf hroom
    obtain ⟨hc, hall⟩ := hI (hroom.of_prefix (List.prefix_append _ _))
    refine ⟨hc.frame hroom hf, fun pre p hpre => ?_⟩
    rcases List.prefix_concat_iff.mp hpre with heq | hpre
    · obtain ⟨rfl, hp⟩ := List.append_inj' heq rfl
      cases hp
      exact hc
    · exact hall pre p hpre
  · intro c log ready c' hI hq hroom
    obtain ⟨hc, hall⟩ := hI hroom
    have hs : ∀ id, c'.stream id = c.stream id := fun id => stream_congr (congrFun hq.streams id)
    exact ⟨⟨fun id => by rw [hs]; exact hc.sum_eq id, fun id => by rw [hs]; exact hc.le_max id⟩,
      hall⟩
  · intro c log ready i n hI hroom
    obtain ⟨hc, hall⟩ := hI hroom
    exact ⟨⟨fun id => by rw [consumeBody_sendWindow]; exact hc.sum_eq id,
      fun id => by rw [consumeBody_sendWindow]; exact hc.le_max id⟩, hall⟩

/-- **Send windows are exact and within their maximum exactly if the increments leave room**: no
update is refused because of the window, and `send_window` takes sums modulo `2 ^ 32`. -/
theorem send_windows {isServer : Bool} {calls : List (H2Conn × Op)} {c : H2Conn}
    (h : Reach isServer calls c) :
    WindowsSafe calls c ↔
      ∀ id, (initialWindow + credited (frames calls) id : Int) ≤ 2 ^ 31 - 1 := by
  constructor
  · intro hsafe id
    rw [← hsafe.1.sum_eq]
    exact hsafe.1.le_max id
  · intro hroom
    obtain ⟨hc, hall⟩ := h.windowsExact hroom
    refine ⟨hc, fun pre p hpre => ⟨hall pre p hpre, fun ht => ?_⟩⟩
    -- the window behind the frame is that of a prefix of the run
    have hnext : nextWindow p.1 p.2 = initialWindow + credited (pre ++ [p]) p.2.streamId := by
      have hinc : credited [p] p.2.streamId = p.2.increment := by simp [credited, ht]
      rw [nextWindow, (hall pre p hpre).sum_eq, credited_append, hinc]
      push_cast
      omega
    have hle : nextWindow p.1 p.2 ≤ maxWindow :=
      hnext.trans_le (Room.of_prefix hroom hpre p.2.streamId)
    exact ⟨fun hgt => absurd hle (Int.not_le.mpr hgt), fun _ => ⟨by omega, hle⟩⟩

/-- A `WINDOW_UPDATE` on stream 1. -/
def peerUpdate (payload : Bytes) : H2Frame := ⟨4, .windowUpdate, 0, 1, payload⟩

/-- The calls that receive it. -/
def updateCalls (payload : Bytes) : List (H2Conn × Op) :=
  let c := (new true).feed (h2Preface ++ frameBytes (peerUpdate payload))
  [(new true, .feed (h2Preface ++ frameBytes (peerUpdate payload))), (c, .process)]

theorem credited_eq (log : List (H2Core × H2Frame)) (id : Nat) :
    credited log id = ((log.map Prod.snd).map fun f =>
      if f.type = .windowUpdate ∧ f.streamId = id then f.increment else 0).sum := by
  rw [List.map_map]
  rfl

theorem credited_updateCalls {payload : Bytes}
    (h : (frames (updateCalls payload)).map Prod.snd = [peerUpdate payload]) (id : Nat) :
    credited (frames (updateCalls payload)) id =
      if 1 = id then (peerUpdate payload).increment else 0 := by
  rw [credited_eq, h]
  simp [peerUpdate]

/-- An increment of ten. -/
theorem send_windows_ten : ∃ c, Reach true (updateCalls [0, 0, 0, 10]) c ∧
    (∀ id, (initialWindow + credited (frames (updateCalls [0, 0, 0, 10])) id : Int) ≤ 2 ^ 31 - 1) ∧
    WindowsSafe (updateCalls [0, 0, 0, 10]) c := by
  have hrun : Reach true (updateCalls [0, 0, 0, 10]) _ :=
    reach_process (r := []) (by decide +kernel)
  have hroom : ∀ id, (initialWindow + credited (frames (updateCalls [0, 0, 0, 10])) id : Int) ≤
      2 ^ 31 - 1 := by
    intro id
    rw [credited_updateCalls (by decide +kernel)]
    split_ifs <;> decide
  exact ⟨_, hrun, hroom, (send_windows hrun).mpr hroom⟩

/-- **The largest increment is accepted** and leaves a negative window. -/
theorem send_windows_overflow :
    ∃ c, Reach true (updateCalls [0x7f, 0xff, 0xff, 0xff]) c ∧
      credited (frames (updateCalls [0x7f, 0xff, 0xff, 0xff])) 1 = 2 ^ 31 - 1 ∧
      (c.stream 1).sendWindow = -2147418114 ∧
      ¬ WindowsSafe (updateCalls [0x7f, 0xff, 0xff, 0xff]) c := by
  have hrun : Reach true (updateCalls [0x7f, 0xff, 0xff, 0xff]) _ :=
    reach_process (r := []) (by decide +kernel)
  have hcredit : credited (frames (updateCalls [0x7f, 0xff, 0xff, 0xff])) 1 = 2 ^ 31 - 1 := by
    rw [credited_updateCalls (by decide +kernel)]
    decide
  have hwindow : (((new true).feed (h2Preface ++
      frameBytes (peerUpdate [0x7f, 0xff, 0xff, 0xff]))).process.2.stream 1).sendWindow =
      -2147418114 := by
    decide +kernel
  refine ⟨_, hrun, hcredit, hwindow, fun hsafe => ?_⟩
  have := hsafe.1.sum_eq 1
  rw [hwindow, hcredit] at this
  exact absurd this (by decide)

end H2Conn

end Uproxy
