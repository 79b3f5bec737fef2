import Uproxy.Http2.Reply

/-!
# Padding and priority fields

A `DATA` or `HEADERS` frame with `PADDED` starts with a pad length and ends with as many bytes of
padding; a `HEADERS` frame with `PRIORITY` has five more bytes in front of its header block.
`H2Frame.content` takes them off. `handle_frame` looks at neither flag: it adds whole payloads to a
body and gives whole payloads to `HpackDecoder::decode`.

* `H2Frame.content_eq_payload_iff`: the content is the payload exactly if neither flag is set;
* `handleFrame_decodedBlock`: which block a `HEADERS` frame makes the decoder decode, if any;
* `handleFrame_body`: what a `DATA` frame adds to the body;
* `handleFrame_rejects_iff`: which frames are connection errors.

**`padding_stripped`**: fields and padding are taken off, or refused if they do not fit, exactly
where there are none or nothing of the frame is used (`padding_stripped_kept`).
-/

namespace Uproxy

/-! ## The layout -/

/-- How many bytes the priority fields take. -/
def H2Frame.prioritySize (f : H2Frame) : Nat :=
  if f.type = .headers ∧ f.has H2Flags.priority = true then 5 else 0

/-- The data or the header block of a frame: the payload without pad length, priority fields and
padding; `none` if they do not fit. -/
def H2Frame.content (f : H2Frame) : Option Bytes :=
  if f.has H2Flags.padded then
    match f.payload with
    | [] => none
    | pad :: rest =>
      if f.prioritySize + pad.toNat ≤ rest.length then
        some ((rest.take (rest.length - pad.toNat)).drop f.prioritySize)
      else none
  else if f.prioritySize ≤ f.payload.length then some (f.payload.drop f.prioritySize)
  else none

/-- The payload is all content. -/
def H2Frame.Plain (f : H2Frame) : Prop := f.has H2Flags.padded = false ∧ f.prioritySize = 0

instance H2Frame.instDecidablePlain (f : H2Frame) : Decidable f.Plain :=
  inferInstanceAs (Decidable (_ ∧ _))

theorem H2Frame.Plain.content_eq {f : H2Frame} (h : f.Plain) : f.content = some f.payload := by
  simp [content, h.1, h.2]

/-- Every field takes some bytes. -/
theorem H2Frame.content_length {f : H2Frame} (h : ¬ f.Plain) {d : Bytes} (hd : f.content = some d) :
    d.length < f.payload.length := by
  unfold content at hd
  cases hp : f.has H2Flags.padded with
  | true =>
    rw [hp, if_pos rfl] at hd
    cases hpay : f.payload with
    | nil => rw [hpay] at hd; cases hd
    | cons pad rest =>
      rw [hpay] at hd
      simp only at hd
      split_ifs at hd
      cases hd
      simp only [List.length_drop, List.length_take, List.length_cons]
      omega
  | false =>
    rw [hp, if_neg Bool.false_ne_true] at hd
    have hsize : f.prioritySize ≠ 0 := fun h0 => h ⟨hp, h0⟩
    split_ifs at hd with hfit
    cases hd
    rw [List.length_drop]
    omega

theorem H2Frame.content_eq_payload_iff {f : H2Frame} : f.content = some f.payload ↔ f.Plain := by
  refine ⟨fun h => ?_, H2Frame.Plain.content_eq⟩
  by_contra hp
  exact absurd (f.content_length hp h) (Nat.lt_irrefl _)

/-! ## What `handle_frame` uses of a frame -/

/-- The block `handle_frame` gives to `HpackDecoder::decode` for a `HEADERS` frame, if it gets that
far. -/
def decodedBlock (c : H2Core) (f : H2Frame) : Option Bytes :=
  if f.streamId = 0 ∨ (c.stream f.streamId).state.Ended ∨ f.has H2Flags.endHeaders = false then none
  else some f.payload

/-- The frame is `DATA` on a stream that takes it. -/
def AddsData (c : H2Core) (f : H2Frame) : Prop :=
  f.type = .data ∧ f.streamId ≠ 0 ∧
    ((c.stream f.streamId).state = .opened ∨ (c.stream f.streamId).state = .halfClosedLocal)

/-- The frame is a connection error. -/
def Rejects (c : H2Core) (f : H2Frame) : Prop :=
  f.streamId = 0 ∨ (f.type = .data ∧ (c.stream f.streamId).state = .idle) ∨
    (f.type = .headers ∧ ¬ (c.stream f.streamId).state.Ended ∧
      (f.has H2Flags.endHeaders = false ∨ (decode c.hpackDec f.payload []).1 ≠ .ok ()))

section

variable {c : H2Core} {f : H2Frame}

/-- The members a frame on a stream leaves. -/
theorem handleFrame_onStream_eq (hc : ¬ f.OnConn) (h0 : f.streamId ≠ 0) :
    let s := streamFrame c.hpackDec (c.stream f.streamId) c.sendBuf f
    (c.handleFrame f).1 = s.result ∧ (c.handleFrame f).2.1.hpackDec = s.dec ∧
      (c.handleFrame f).2.1.stream f.streamId = { s.stream with id := f.streamId } := by
  intro s
  obtain ⟨c', heq, hstreams, hdec⟩ := H2Core.handleFrame_stream hc h0 (rfl : _ = s)
  rw [heq]
  refine ⟨rfl, hdec, ?_⟩
  simp [H2Core.stream, hstreams, H2Core.setStream]

/-- **What the decoder is given**: the result, the decoder and the stream's headers behind a
`HEADERS` frame are those of decoding `decodedBlock`, and without one nothing is decoded. -/
theorem handleFrame_decodedBlock (ht : f.type = .headers) :
    match decodedBlock c f with
    | none => (c.handleFrame f).2.1.hpackDec = c.hpackDec ∧
        ((c.handleFrame f).2.1.stream f.streamId).requestHeaders =
          (c.stream f.streamId).requestHeaders
    | some block =>
      ((c.handleFrame f).1, (c.handleFrame f).2.1.hpackDec,
        ((c.handleFrame f).2.1.stream f.streamId).requestHeaders) =
          decode c.hpackDec block (c.stream f.streamId).requestHeaders := by
  have hc : ¬ f.OnConn := by simp [H2Frame.OnConn, ht]
  unfold decodedBlock
  by_cases h0 : f.streamId = 0
  · rw [if_pos (Or.inl h0), H2Core.handleFrame_onStream hc, if_pos h0]
    exact ⟨rfl, rfl⟩
  · obtain ⟨hr, hd, hs⟩ := handleFrame_onStream_eq (c := c) hc h0
    rw [hr, hd, hs, streamFrame_headers ht]
    by_cases hend : (c.stream f.streamId).state.Ended
    · rw [if_pos (Or.inr (Or.inl hend)), headersFrame_ended hend]
      exact ⟨rfl, rfl⟩
    · by_cases heh : f.has H2Flags.endHeaders = true
      · rw [if_neg (by simp [h0, hend, heh]), headersFrame_block hend heh]
        simp only
        rcases decode c.hpackDec f.payload (c.stream f.streamId).requestHeaders
          with ⟨e | ⟨⟩, dec, headers⟩ <;> rfl
      · rw [if_pos (Or.inr (Or.inr (by simpa using heh))), headersFrame_continued hend heh]
        exact ⟨rfl, rfl⟩

/-- **What `DATA` adds to the body.** -/
theorem handleFrame_body (h : AddsData c f) :
    (c.handleFrame f).1 = .ok () ∧
      ((c.handleFrame f).2.1.stream f.streamId).recvBuf =
        (c.stream f.streamId).recvBuf ++ f.payload := by
  obtain ⟨ht, h0, hs⟩ := h
  obtain ⟨hr, -, hstream⟩ := handleFrame_onStream_eq (c := c) (by simp [H2Frame.OnConn, ht]) h0
  rw [hr, hstream, streamFrame_data ht, dataFrame_adds hs]
  exact ⟨rfl, rfl⟩

/-- **Which frames are connection errors**, of those that carry data or headers. -/
theorem handleFrame_rejects_iff (ht : f.type = .data ∨ f.type = .headers)
    (hid : f.streamId < 2 ^ 31) : (c.handleFrame f).1 ≠ .ok () ↔ Rejects c f := by
  have hc : ¬ f.OnConn := by rcases ht with ht | ht <;> simp [H2Frame.OnConn, ht]
  unfold Rejects
  by_cases h0 : f.streamId = 0
  · rw [H2Core.handleFrame_onStream hc, if_pos h0]
    simp [h0]
  · obtain ⟨hr, -, -⟩ := handleFrame_onStream_eq (c := c) hc h0
    have hreset : (resetStream c.hpackDec (c.stream f.streamId) c.sendBuf f).result = .ok () := by
      rw [resetStream, writeRstStream_ok h0 hid]
    rw [hr]
    rcases ht with ht | ht
    · rw [streamFrame_data ht]
      by_cases hend : (c.stream f.streamId).state.Ended
      · rw [dataFrame_ended hend, hreset]
        simp [h0, ht, (H2StreamState.ended_iff.mp hend).1]
      · rcases H2StreamState.not_ended_iff.mp hend with hi | ho
        · rw [dataFrame_idle hi]
          simp [ht, hi]
        · rw [dataFrame_adds ho]
          rcases ho with ho | ho <;> simp [h0, ht, ho]
    · rw [streamFrame_headers ht]
      by_cases hend : (c.stream f.streamId).state.Ended
      · rw [headersFrame_ended hend, hreset]
        simp [h0, ht, hend]
      · by_cases heh : f.has H2Flags.endHeaders = true
        · rw [headersFrame_block hend heh, decode_out]
          rcases (decode c.hpackDec f.payload []) with ⟨e | ⟨⟩, dec, headers⟩
          · simp [ht, hend]
          · simp [h0, ht, heh]
        · rw [headersFrame_continued hend heh]
          simp [ht, hend, heh]

/-! ## Taking padding off -/

/-- Padding and priority fields are not data: what `DATA` adds to the body of its stream, and what
`HEADERS` gives to the decoder, is the content of the frame; without room for it the frame is a
connection error. -/
def Strips (c : H2Core) (f : H2Frame) : Prop :=
  match f.content with
  | none => (c.handleFrame f).1 ≠ .ok ()
  | some content =>
    (AddsData c f → ((c.handleFrame f).2.1.stream f.streamId).recvBuf =
      (c.stream f.streamId).recvBuf ++ content) ∧
    (f.type = .headers → ∀ block, decodedBlock c f = some block → block = content)

/-- The frame adds to a body or is decoded. -/
def Uses (c : H2Core) (f : H2Frame) : Prop :=
  AddsData c f ∨ (f.type = .headers ∧ decodedBlock c f ≠ none)

theorem strips_some_iff {content : Bytes} (h : f.content = some content) :
    Strips c f ↔ (Uses c f → content = f.payload) := by
  unfold Strips Uses
  rw [h]
  simp only
  constructor
  · rintro ⟨hdata, hheaders⟩ (hadds | ⟨ht, hblock⟩)
    · have hbody := hdata hadds
      rw [(handleFrame_body hadds).2] at hbody
      exact (List.append_cancel_left hbody).symm
    · have hsome : decodedBlock c f = some f.payload := by
        unfold decodedBlock at hblock ⊢
        split_ifs at hblock ⊢
        · exact absurd rfl hblock
        · rfl
      exact (hheaders ht _ hsome).symm
  · intro huses
    refine ⟨fun hadds => ?_, fun ht block hblock => ?_⟩
    · rw [(handleFrame_body hadds).2, huses (Or.inl hadds)]
    · rw [huses (Or.inr ⟨ht, by simp [hblock]⟩)]
      unfold decodedBlock at hblock
      split_ifs at hblock
      exact (Option.some.inj hblock).symm

end

/-- **Padding and priority fields are taken off** exactly if the frame has none, or `handle_frame`
gets to use nothing of it: where there is no room for them it has to be an error for another
reason. -/
theorem padding_stripped (c : H2Core) (f : H2Frame) (ht : f.type = .data ∨ f.type = .headers)
    (hid : f.streamId < 2 ^ 31) :
    Strips c f ↔ f.Plain ∨ (if f.content = none then Rejects c f else ¬ Uses c f) := by
  cases hcontent : f.content with
  | none =>
    have hplain : ¬ f.Plain := fun h => by rw [h.content_eq] at hcontent; cases hcontent
    rw [if_pos rfl, or_iff_right hplain, ← handleFrame_rejects_iff ht hid]
    unfold Strips
    rw [hcontent]
  | some content =>
    have hsame : content = f.payload ↔ f.Plain := by
      rw [← H2Frame.content_eq_payload_iff, hcontent, Option.some.injEq]
    rw [if_neg (Option.some_ne_none _), strips_some_iff hcontent, hsame]
    tauto

/-- A frame without the flags, padded data on a stream that is idle, and a header block that is
continued and has a pad length and priority fields that do not fit. -/
theorem padding_stripped_unused :
    let c : H2Core := { isServer := true }
    let padded : H2Frame := ⟨5, .data, 0x9, 1, [2, 104, 105, 0, 0]⟩
    let overfull : H2Frame := ⟨7, .headers, 0x28, 1, [9, 0, 0, 0, 0, 16, 0x82]⟩
    (H2Conn.sampleHeaders.Plain ∧ Strips c H2Conn.sampleHeaders) ∧
      (padded.content = some (ascii "hi") ∧ Strips c padded) ∧
      overfull.content = none ∧ Strips c overfull := by
  intro c padded overfull
  have hcontent : padded.content = some (ascii "hi") := by decide
  have hnone : overfull.content = none := by decide
  refine ⟨⟨by decide, (padding_stripped c _ (Or.inr rfl) (by decide)).mpr (Or.inl (by decide))⟩,
    ⟨hcontent, (padding_stripped c padded (Or.inl rfl) (by decide)).mpr (Or.inr ?_)⟩,
    hnone, (padding_stripped c overfull (Or.inr rfl) (by decide)).mpr (Or.inr ?_)⟩
  · rw [hcontent, if_neg (Option.some_ne_none _)]
    rintro (⟨-, -, h | h⟩ | ⟨h, -⟩) <;> cases h
  · rw [if_pos hnone]
    exact Or.inr (Or.inr ⟨rfl, by decide, Or.inl (by decide)⟩)

/-- What a server answers to some frames of a client. -/
def greeted (frames : List H2Frame) : Result (List Nat) × H2Conn :=
  ((H2Conn.new true).feed (h2Preface ++ frames.flatMap frameBytes)).process

/-- **Padding becomes data**: pad length and padding are added to the body, priority fields are
decoded as a header block, and a pad length that does not fit is accepted. -/
theorem padding_stripped_kept :
    let opens : H2Frame := ⟨1, .headers, 0x4, 1, [0x82]⟩
    let padded : H2Frame := ⟨5, .data, 0x9, 1, [2, 104, 105, 0, 0]⟩
    let overfull : H2Frame := ⟨1, .headers, 0xc, 1, [0x82]⟩
    let weighted : H2Frame := ⟨6, .headers, 0x24, 1, [0, 0, 0, 0, 16, 0x82]⟩
    (padded.content = some (ascii "hi") ∧ (greeted [opens, padded]).1 = .ok [1] ∧
      (greeted [opens, padded]).2.streamBody 1 = some padded.payload) ∧
    (overfull.content = none ∧ (greeted [overfull]).1 = .ok []) ∧
    weighted.content = some opens.payload ∧ (greeted [opens]).1.isOk = true ∧
      (greeted [weighted]).1.isOk = false := by
  decide +kernel

end Uproxy
