import Uproxy.Http2.Conn

/-!
# What `send_response` writes

A response is a `HEADERS` frame with the encoded headers and the `DATA` frames of its body
(`responseFrames`). `send_response` appends these frames to the send buffer if the response can be
sent at all (`Sendable`), and otherwise returns an error and appends nothing:

* `sendResponse_sent`, `sendResponse_unsent`: the two cases;
* `framesIn_response`: a peer reads the frames back;
* `responseFrames_endStream`: `END_STREAM` stands on the last frame and only there.
-/

namespace Uproxy

/-- The frames of a response. -/
def responseFrames (id : Nat) (headers : List HpackHeader) (body : Bytes) (endStream : Bool) :
    List H2Frame :=
  blockFrame id (headers.flatMap encodeHeader) (body.isEmpty && endStream) ::
    dataFrames id endStream h2MaxFrameSize body.length body

/-- The responses that can be sent: on a stream, with names in lower case, and with a header block
that fits into one frame. -/
def Sendable (id : Nat) (headers : List HpackHeader) : Prop :=
  (0 < id ∧ id < 2 ^ 31) ∧ (∀ h ∈ headers, hasUppercase h.name = false) ∧
    (headers.flatMap encodeHeader).length ≤ h2MaxFrameSize

instance instDecidableSendable (id : Nat) (headers : List HpackHeader) :
    Decidable (Sendable id headers) :=
  inferInstanceAs (Decidable (_ ∧ _))

section

variable {id : Nat} {headers : List HpackHeader}

/-- **A response that can be sent** is appended, frame by frame. -/
theorem sendResponse_sent (h : Sendable id headers) (c : H2Core) (body : Bytes)
    (endStream : Bool) :
    ∃ hpackEnc, c.sendResponse id headers body endStream = (.ok (), { c with
      hpackEnc
      sendBuf := c.sendBuf ++ (responseFrames id headers body endStream).flatMap frameBytes }) := by
  obtain ⟨⟨hpos, hid⟩, hlow, hfits⟩ := h
  obtain ⟨hpackEnc, henc⟩ := encode_eq hlow c.hpackEnc []
  refine ⟨hpackEnc, ?_⟩
  unfold H2Core.sendResponse
  simp only [henc, List.nil_append, writeHeaders_ok hpos hid hfits (by decide)]
  by_cases hbody : body = []
  · subst hbody
    simp [responseFrames, dataFrames]
  · have hmax : 0 < h2MaxFrameSize ∧ h2MaxFrameSize < 2 ^ 24 := by decide
    simp only [if_neg hbody, writeData_ok hpos hid hmax.1 hmax.2, responseFrames,
      List.flatMap_cons, List.append_assoc]

/-- **A response that cannot be sent** leaves the send buffer as it was. -/
theorem sendResponse_unsent (h : ¬ Sendable id headers) (c : H2Core) (body : Bytes)
    (endStream : Bool) :
    ∃ e hpackEnc, c.sendResponse id headers body endStream = (.error e, { c with hpackEnc }) := by
  unfold H2Core.sendResponse
  by_cases hlow : ∀ x ∈ headers, hasUppercase x.name = false
  · obtain ⟨hpackEnc, henc⟩ := encode_eq hlow c.hpackEnc []
    obtain ⟨e, he⟩ := writeHeaders_error
      (fun hok => h ⟨⟨hok.1, hok.2.1⟩, hlow, hok.2.2⟩) c.sendBuf (body.isEmpty && endStream)
    simp only [henc, List.nil_append, he]
    exact ⟨_, _, rfl⟩
  · obtain ⟨e, hpackEnc, out, henc⟩ := encode_uppercase (by simpa using hlow) c.hpackEnc []
    simp only [henc]
    exact ⟨_, _, rfl⟩

theorem responseFrames_fits (h : Sendable id headers) (body : Bytes) (endStream : Bool) :
    ∀ f ∈ responseFrames id headers body endStream,
      f.Fits h2MaxFrameSize ∧ f.streamId = id := by
  intro f hf
  obtain ⟨⟨-, hid⟩, -, hfits⟩ := h
  rcases List.mem_cons.mp hf with rfl | hf
  · exact ⟨⟨rfl, hfits, rfl, hid⟩, rfl⟩
  · obtain ⟨h1, -, h3⟩ := dataFrames_fits hid _ _ f hf
    exact ⟨h1, h3⟩

/-- **The peer reads the response** frame by frame. -/
theorem framesIn_response (h : Sendable id headers) (body : Bytes) (endStream : Bool) :
    framesIn ((responseFrames id headers body endStream).flatMap frameBytes) =
      responseFrames id headers body endStream := by
  refine framesIn_flatMap fun f hf => ?_
  have hfit := (responseFrames_fits h body endStream f hf).1
  exact { hfit with length_le := Nat.le_trans hfit.length_le (by decide) }

/-- The `DATA` frames carry the body. -/
theorem responseFrames_data (id : Nat) (headers : List HpackHeader) (body : Bytes)
    (endStream : Bool) :
    (responseFrames id headers body endStream).tail.flatMap H2Frame.payload = body :=
  dataFrames_payload (by decide) (Nat.le_refl _)

/-- **`END_STREAM`** stands on the last frame of a response, and only there. -/
theorem responseFrames_endStream (id : Nat) (headers : List HpackHeader) (body : Bytes) :
    ∃ fs f, responseFrames id headers body true = fs ++ [f] ∧
      f.has H2Flags.endStream = true ∧ ∀ g ∈ fs, g.has H2Flags.endStream = false := by
  by_cases hbody : body = []
  · subst hbody
    exact ⟨[], _, rfl, blockFrame_endStream _ _ _, List.forall_mem_nil _⟩
  · have hmax : 0 < h2MaxFrameSize := by decide
    obtain ⟨fs, f, hfs, hf, hall⟩ := @dataFrames_flags id _ hmax _ _ hbody (Nat.le_refl _)
    refine ⟨blockFrame id (headers.flatMap encodeHeader) (body.isEmpty && true) :: fs, f,
      ?_, ?_, ?_⟩
    · rw [responseFrames, hfs]
      rfl
    · unfold H2Frame.has
      rw [hf]
      rfl
    · intro g hg
      rcases List.mem_cons.mp hg with rfl | hg
      · rw [blockFrame_endStream, List.isEmpty_eq_false_iff.mpr hbody]
        rfl
      · unfold H2Frame.has
        rw [hall g hg]
        rfl

end

end Uproxy
