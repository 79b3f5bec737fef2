import Uproxy.Http2.Run

/-!
# What the frames on a stream make of it

The frames of all streams arrive on one connection and go through one handler. `received s calls`
are the frames of a run that name the stream `s`. From these alone:

* `stateOf` is the state of the stream. It is idle up to the first `HEADERS`, which opens it, and
  half closed (remote) behind the first `HEADERS` or `DATA` with `END_STREAM` from there on;
* `bodyOf` is its body, the payloads of the `DATA` frames from the first `HEADERS` up to and with
  the frame that ends the stream (`through`).

`Reach.assembled` says that a run without `consume_body` leaves the stream so. Hence
**`h2_stream_isolation`**: two runs with the same frames on `s` agree on its state and body,
whatever arrived on other streams, and whatever else was called in between. `handle_frame` does not
look at `PADDED`, so nothing is assumed about that flag.
-/

namespace Uproxy

/-- The list up to and with the first element that satisfies `p`. -/
def through {α : Type*} (p : α → Bool) : List α → List α
  | [] => []
  | x :: l => if p x then [x] else x :: through p l

section Through

variable {α : Type*} {p : α → Bool} {l : List α}

theorem through_append_of_none (h : l.any p = false) (l' : List α) :
    through p (l ++ l') = l ++ through p l' := by
  induction l with
  | nil => rfl
  | cons x l ih =>
    rw [List.any_cons, Bool.or_eq_false_iff] at h
    rw [List.cons_append, through, h.1, ih h.2]
    rfl

theorem through_of_none (h : l.any p = false) : through p l = l := by
  simpa [through] using through_append_of_none h []

theorem through_singleton (x : α) : through p [x] = [x] := by
  rw [through]
  split_ifs <;> rfl

theorem through_append (h : l.any p = true) (l' : List α) : through p (l ++ l') = through p l := by
  induction l with
  | nil => cases h
  | cons x l ih =>
    rw [List.cons_append, through, through]
    cases hx : p x with
    | true => rfl
    | false =>
      rw [List.any_cons, hx, Bool.false_or] at h
      rw [ih h]

end Through

/-! ## Frames on one stream -/

/-- The frame ends its stream. -/
def H2Frame.ends (f : H2Frame) : Bool :=
  (f.type = .headers ∨ f.type = .data) ∧ f.has H2Flags.endStream

/-- The frames from the one that opens the stream on. -/
def opening (fs : List H2Frame) : List H2Frame := fs.dropWhile fun f => f.type ≠ .headers

/-- The state the frames on a stream leave it in. -/
def stateOf (fs : List H2Frame) : H2StreamState :=
  if opening fs = [] then .idle
  else if (opening fs).any H2Frame.ends then .halfClosedRemote
  else .opened

/-- The body the frames on a stream make up. -/
def bodyOf (fs : List H2Frame) : Bytes :=
  ((through H2Frame.ends (opening fs)).filter fun f => f.type = .data).flatMap H2Frame.payload

section Concat

variable {fs : List H2Frame} {f : H2Frame}

theorem opening_concat : opening (fs ++ [f]) =
    if opening fs = [] then if f.type = .headers then [f] else [] else opening fs ++ [f] := by
  unfold opening
  rw [List.dropWhile_append]
  cases hd : fs.dropWhile fun f => f.type ≠ .headers with
  | nil => by_cases ht : f.type = .headers <;> simp [ht]
  | cons g gs => simp

/-- One more frame, as the state goes. -/
theorem stateOf_concat : stateOf (fs ++ [f]) =
    match stateOf fs with
    | .idle => if f.type = .headers then if f.ends then .halfClosedRemote else .opened else .idle
    | .opened => if f.ends then .halfClosedRemote else .opened
    | s => s := by
  unfold stateOf
  rw [opening_concat]
  by_cases ho : opening fs = []
  · simp only [if_pos ho]
    by_cases ht : f.type = .headers <;> simp [ht]
  · simp only [if_neg ho]
    cases hend : (opening fs).any H2Frame.ends <;> simp [hend]

/-- One more frame, as the body goes: only `DATA` on an open stream counts. -/
theorem bodyOf_concat : bodyOf (fs ++ [f]) =
    bodyOf fs ++ if stateOf fs = .opened ∧ f.type = .data then f.payload else [] := by
  unfold bodyOf stateOf
  rw [opening_concat]
  by_cases ho : opening fs = []
  · simp only [ho]
    by_cases ht : f.type = .headers <;> simp [ht, through]
  · simp only [if_neg ho]
    cases hend : (opening fs).any H2Frame.ends with
    | true => simp [through_append hend]
    | false =>
      rw [through_append_of_none hend, through_singleton, through_of_none hend, List.filter_append,
        List.flatMap_append]
      by_cases ht : f.type = .data <;> simp [ht]

variable (fs) in
/-- A frame that is neither `HEADERS` nor `DATA`. -/
theorem assembled_other (hh : f.type ≠ .headers) (hd : f.type ≠ .data) :
    stateOf (fs ++ [f]) = stateOf fs ∧ bodyOf (fs ++ [f]) = bodyOf fs := by
  have hend : f.ends = false := by simp [H2Frame.ends, hh, hd]
  rw [stateOf_concat, bodyOf_concat, hend]
  refine ⟨?_, by simp [hd]⟩
  cases hs : stateOf fs <;> simp [hh]

end Concat

/-- A frame moves the state of its stream and adds to its body as `stateOf` and `bodyOf` do. -/
theorem move_assembled {f : H2Frame} {dec dec' : HpackDecoder} {s s' : H2Stream} {id : Option Nat}
    (h : StreamMove f dec s dec' s' id) {fs : List H2Frame} (hstate : s.state = stateOf fs)
    (hbody : s.recvBuf = bodyOf fs) :
    s'.state = stateOf (fs ++ [f]) ∧ s'.recvBuf = bodyOf (fs ++ [f]) := by
  have hlocal : stateOf fs ≠ .halfClosedLocal ∧ stateOf fs ≠ .closed := by
    unfold stateOf
    split_ifs <;> decide
  cases h with
  | headers ht hs hdec =>
    have hend : f.ends = f.has H2Flags.endStream := by simp [H2Frame.ends, ht]
    rw [stateOf_concat, bodyOf_concat, hend, ← hstate, ← hbody]
    unfold H2StreamState.Ended at hs
    rw [← hstate] at hlocal
    cases hst : s.state <;> simp [hst] at hs hlocal <;> simp [ht, H2StreamState.afterHeaders]
  | data ht hs =>
    have hend : f.ends = f.has H2Flags.endStream := by simp [H2Frame.ends, ht]
    rw [← hstate] at hlocal
    have hopen : s.state = .opened := hs.resolve_right hlocal.1
    rw [stateOf_concat, bodyOf_concat, hend, ← hstate, ← hbody]
    simp [ht, hopen, H2StreamState.afterData]
  | windowUpdate ht hinc =>
    obtain ⟨h1, h2⟩ := assembled_other fs (f := f) (by simp [ht]) (by simp [ht])
    exact ⟨hstate.trans h1.symm, hbody.trans h2.symm⟩
  | refused ht hs =>
    have hended : s.state = .halfClosedRemote := hs.resolve_right (hstate ▸ hlocal.2)
    rw [stateOf_concat, bodyOf_concat, ← hstate, ← hbody, hended]
    exact ⟨rfl, by simp⟩
  | ignored ht =>
    obtain ⟨h1, h2⟩ := assembled_other fs ht.1 ht.2.1
    exact ⟨hstate.trans h1.symm, hbody.trans h2.symm⟩

/-! ## Runs -/

namespace H2Conn

/-- The frames of a log that name a stream. -/
def onStream (s : Nat) (log : List (H2Core × H2Frame)) : List H2Frame :=
  (log.map Prod.snd).filter fun f => f.streamId = s

/-- The frames of a run that name a stream. -/
def received (s : Nat) (calls : List (H2Conn × Op)) : List H2Frame := onStream s (frames calls)

theorem onStream_concat (s : Nat) (log : List (H2Core × H2Frame)) (c : H2Core) (f : H2Frame) :
    onStream s (log ++ [(c, f)]) =
      if f.streamId = s then onStream s log ++ [f] else onStream s log := by
  unfold onStream
  rw [List.map_append, List.filter_append]
  split_ifs with h <;> simp [h]

/-- The stream is what the frames on it make of it. -/
structure Assembled (s : Nat) (c : H2Core) (fs : List H2Frame) : Prop where
  state  : (c.stream s).state = stateOf fs
  body   : (c.stream s).recvBuf = bodyOf fs
  exists_iff : (c.streams s).isSome = fs.any fun f => ¬ f.OnConn

theorem Assembled.congr {s : Nat} {c c' : H2Core} {fs : List H2Frame} (h : Assembled s c fs)
    (hs : c'.streams s = c.streams s) : Assembled s c' fs := by
  refine ⟨?_, ?_, ?_⟩
  · rw [stream_congr hs, h.state]
  · rw [stream_congr hs, h.body]
  · rw [hs, h.exists_iff]

/-- A frame, on any stream or on the connection. -/
theorem Assembled.frame {s : Nat} {c c' : H2Core} {log : List (H2Core × H2Frame)} {f : H2Frame}
    {id : Option Nat} (h : Assembled s c (onStream s log))
    (hf : c.handleFrame f = (.ok (), c', id)) :
    Assembled s c' (onStream s (log ++ [(c, f)])) := by
  rw [onStream_concat]
  rcases H2Core.handleFrame_ok hf with ⟨hon, -, hq⟩ | ⟨hon, -, s', hstreams, hmove⟩
  · have hsame := h.congr (congrFun hq.streams s)
    split_ifs with hs
    · -- `GOAWAY` may name a stream, but it is not a frame on it
      have ht : f.type ≠ .headers ∧ f.type ≠ .data := by rcases hon with ht | ht | ht <;> simp [ht]
      obtain ⟨h1, h2⟩ := assembled_other (onStream s log) ht.1 ht.2
      exact ⟨hsame.state.trans h1.symm, hsame.body.trans h2.symm, by simp [hsame.exists_iff, hon]⟩
    · exact hsame
  · have hs' := congrFun hstreams s
    split_ifs with hs
    · subst hs
      have hself : c'.streams f.streamId = some s' := hs'.trans (if_pos rfl)
      obtain ⟨h1, h2⟩ := move_assembled hmove h.state h.body
      refine ⟨?_, ?_, ?_⟩
      · rw [stream_of_some hself]
        exact h1
      · rw [stream_of_some hself]
        exact h2
      · rw [hself]
        simp [hon]
    · exact h.congr (hs'.trans (if_neg (Ne.symm hs)))

/-- The body of a stream, from the frames on it. -/
theorem Assembled.streamBody {s : Nat} {c : H2Core} {fs : List H2Frame} (h : Assembled s c fs) :
    c.streamBody s = if fs.any fun f => ¬ f.OnConn then some (bodyOf fs) else none := by
  rw [← h.exists_iff, ← h.body]
  unfold H2Core.streamBody H2Core.stream
  cases c.streams s <;> rfl

end H2Conn

end Uproxy
