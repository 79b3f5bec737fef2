import Uproxy.Http2.Frame
import Uproxy.Lib.Run

/-!
# Frames survive their writers and the reader

Calls of `H2FrameWriter` on one buffer (`WriterCall`), and the frames each of them stands for
(`Yields`). Numbers in payloads are big-endian (`beBytes`); a `write_data` call stands for as many
`DATA` frames as it takes, described by what they have to satisfy (`DataFrames`) and not by how
they are cut.

* `writeCall_ok`: a call that returns ok has appended its frames;
* `readsAll_flatMap`: `read_frame` takes frames off a buffer one by one until it is empty;
* **`frame_round_trip`**: what a sequence of calls has written is read back.
-/

namespace Uproxy

open Lib.Run

/-! ## Calls and their frames -/

/-- A call of `H2FrameWriter`. -/
inductive WriterCall where
  | settings (settings : List (H2Setting × Nat))
  | settingsAck
  | ping (data : Nat) (ack : Bool)
  | windowUpdate (streamId increment : Nat)
  | goaway (lastStreamId : Nat) (error : H2Error) (debugData : Bytes)
  | rstStream (streamId : Nat) (error : H2Error)
  | headers (streamId : Nat) (headerBlock : Bytes) (endStream : Bool) (maxFrameSize : Nat)
  | data (streamId : Nat) (data : Bytes) (endStream : Bool) (maxFrameSize : Nat)
  deriving DecidableEq, Repr

def WriterCall.write (buf : Bytes) : WriterCall → Result Unit × Bytes
  | .settings s => writeSettings buf s
  | .settingsAck => writeSettingsAck buf
  | .ping value ack => writePing buf value ack
  | .windowUpdate streamId increment => writeWindowUpdate buf streamId increment
  | .goaway lastStreamId error debugData => writeGoaway buf lastStreamId error debugData
  | .rstStream streamId error => writeRstStream buf streamId error
  | .headers streamId headerBlock endStream maxFrameSize =>
    writeHeaders buf streamId headerBlock endStream maxFrameSize
  | .data streamId bytes endStream maxFrameSize =>
    writeData buf streamId bytes endStream maxFrameSize

/-- One call on the buffer; `none` is an error. -/
def writeCall (buf : Bytes) (call : WriterCall) : Option Bytes :=
  match call.write buf with
  | (.error _, _) => none
  | (.ok (), buf) => some buf

/-- A number as `w` bytes, the most significant first. -/
def beBytes (w v : Nat) : Bytes := (List.range w).reverse.map fun i => (v / 256 ^ i).toUInt8

/-- The `DATA` frames of some data on a stream: as many as it takes, none larger than `m`, and
`END_STREAM` on the last one if asked for. -/
structure DataFrames (streamId : Nat) (data : Bytes) (endStream : Bool) (m : Nat)
    (fs : List H2Frame) : Prop where
  count    : fs.length = (data.length + m - 1) / m
  fit      : ∀ f ∈ fs, f.type = .data ∧ f.streamId = streamId ∧ f.length = f.payload.length ∧
    f.payload.length ≤ m
  payloads : fs.flatMap H2Frame.payload = data
  flags    : ∃ init last, fs = init ++ [last] ∧ (∀ f ∈ init, f.flags = 0) ∧
    last.flags = if endStream then H2Flags.endStream else 0

/-- The frames a call stands for. -/
def WriterCall.Yields : WriterCall → List H2Frame → Prop
  | .settings s, fs => fs = [⟨s.length * 6, .settings, 0, 0,
      s.flatMap fun e => beBytes 2 e.1.code ++ beBytes 4 e.2⟩]
  | .settingsAck, fs => fs = [⟨0, .settings, H2Flags.ack, 0, []⟩]
  | .ping value ack, fs => fs = [⟨8, .ping, if ack then H2Flags.ack else 0, 0, beBytes 8 value⟩]
  | .windowUpdate streamId increment, fs =>
    fs = [⟨4, .windowUpdate, 0, streamId, beBytes 4 increment⟩]
  | .goaway lastStreamId error debugData, fs => fs = [⟨8 + debugData.length, .goaway, 0, 0,
      beBytes 4 (lastStreamId % 2 ^ 31) ++ beBytes 4 error.code ++ debugData⟩]
  | .rstStream streamId error, fs => fs = [⟨4, .rstStream, 0, streamId, beBytes 4 error.code⟩]
  | .headers streamId headerBlock endStream _, fs => fs = [⟨headerBlock.length, .headers,
      H2Flags.endHeaders ||| (if endStream then H2Flags.endStream else 0), streamId, headerBlock⟩]
  | .data streamId bytes endStream maxFrameSize, fs =>
    DataFrames streamId bytes endStream maxFrameSize fs

/-- The arguments: lists and debug data whose length a frame can state, frame sizes other than 0
that it can, and data to send. -/
def WriterCall.Admissible : WriterCall → Prop
  | .settings s => s.length ≤ 2796202
  | .goaway _ _ debugData => debugData.length < 2 ^ 24
  | .headers _ _ _ maxFrameSize => 1 ≤ maxFrameSize ∧ maxFrameSize ≤ 2 ^ 24 - 1
  | .data _ bytes _ maxFrameSize => bytes ≠ [] ∧ 1 ≤ maxFrameSize ∧ maxFrameSize ≤ 2 ^ 24 - 1
  | _ => True

/-- `read_frame` returns these frames one after the other, `Complete` each time, until the buffer
is empty. -/
inductive ReadsAll (limit : Nat) : Bytes → List H2Frame → Prop where
  | nil : ReadsAll limit [] []
  | cons {buf rest f fs} (h : readFrame buf limit = .ok (f, rest)) (hr : ReadsAll limit rest fs) :
      ReadsAll limit buf (f :: fs)

theorem readsAll_flatMap {limit : Nat} (hl : limit < 2 ^ 24) {fs : List H2Frame}
    (h : ∀ f ∈ fs, f.Fits limit) : ReadsAll limit (fs.flatMap frameBytes) fs := by
  induction fs with
  | nil => exact .nil
  | cons f fs ih =>
    obtain ⟨hf, hfs⟩ := List.forall_mem_cons.mp h
    exact .cons (readFrame_frameBytes hf hl _) (ih hfs)

/-! ## Layouts -/

theorem beBytes_succ (w v : Nat) : beBytes (w + 1) v = (v / 256 ^ w).toUInt8 :: beBytes w v := by
  rw [beBytes, List.range_succ, List.reverse_append]
  rfl

theorem byte_eq (v k : Nat) : byte v (8 * k) = (v / 256 ^ k).toUInt8 := by
  rw [byte, Nat.shiftRight_eq_div_pow, Nat.pow_mul]

theorem u16_eq (v : Nat) : [byte v 8, byte v 0] = beBytes 2 v := by
  simp only [beBytes_succ, ← byte_eq]
  rfl

theorem u32_eq (v : Nat) : u32 v = beBytes 4 v := by
  simp only [beBytes_succ, ← byte_eq]
  rfl

theorem u64_eq (v : Nat) : [byte v 56, byte v 48, byte v 40, byte v 32, byte v 24, byte v 16,
    byte v 8, byte v 0] = beBytes 8 v := by
  simp only [beBytes_succ, ← byte_eq]
  rfl

theorem length_beBytes (w v : Nat) : (beBytes w v).length = w := by
  rw [beBytes, List.length_map, List.length_reverse, List.length_range]

/-! ## One call -/

/-- A frame that was written. -/
theorem writeFrame_eq_ok {buf buf' payload : Bytes} {length streamId : Nat} {type : H2FrameType}
    {flags : UInt8} (h : writeFrame buf length type flags streamId payload = (.ok (), buf')) :
    length < 2 ^ 24 ∧ streamId < 2 ^ 31 ∧
      buf' = buf ++ frameBytes ⟨length, type, flags, streamId, payload⟩ := by
  by_cases hbad : length > 0x00ffffff ∨ 2 ^ 31 ≤ streamId
  · simp only [writeFrame, writeFrameHeader, if_pos hbad] at h
    cases h
  · rw [not_or] at hbad
    have hl : length < 2 ^ 24 := by omega
    have hid : streamId < 2 ^ 31 := by omega
    rw [writeFrame_ok hl hid] at h
    cases h
    exact ⟨hl, hid, rfl⟩

/-- The frames a call has appended, which the reader accepts. -/
def Appends (call : WriterCall) (buf buf' : Bytes) : Prop :=
  ∃ fs, call.Yields fs ∧ (∀ f ∈ fs, f.Fits 0x00ffffff) ∧ buf' = buf ++ fs.flatMap frameBytes

/-- A call that writes one frame. -/
theorem appends_frame {call : WriterCall} {buf buf' payload : Bytes} {length streamId : Nat}
    {type : H2FrameType} {flags : UInt8}
    (h : writeFrame buf length type flags streamId payload = (.ok (), buf'))
    (hy : call.Yields [⟨length, type, flags, streamId, payload⟩]) (hlen : length = payload.length)
    (htype : .ofCode type.code = type) : Appends call buf buf' := by
  obtain ⟨hl, hid, rfl⟩ := writeFrame_eq_ok h
  refine ⟨_, hy, fun f hf => ?_, by rw [List.flatMap_singleton]⟩
  rw [List.mem_singleton.mp hf]
  exact ⟨hlen, Nat.le_of_lt_succ hl, htype, hid⟩

section DataFrames

variable {streamId maxFrameSize : Nat} {endStream : Bool}

theorem dataFrames_length (hmax : 0 < maxFrameSize) : ∀ {fuel : Nat} {data : Bytes},
    data.length ≤ fuel →
      (dataFrames streamId endStream maxFrameSize fuel data).length =
        (data.length + maxFrameSize - 1) / maxFrameSize
  | 0, data, h => by
    rw [Nat.le_zero.mp h, Nat.zero_add, Nat.div_eq_of_lt (by omega)]
    rfl
  | fuel + 1, data, h => by
    rw [dataFrames]
    by_cases h0 : data = []
    · rw [if_pos h0, h0]
      exact (Nat.div_eq_of_lt (by rw [List.length_nil]; omega)).symm
    · have hpos : 0 < data.length := List.length_pos_iff.mpr h0
      rw [if_neg h0, List.length_cons, dataFrames_length hmax (by rw [List.length_drop]; omega),
        List.length_drop, ← Nat.add_div_right _ hmax]
      by_cases hlast : data.length ≤ maxFrameSize
      · -- one frame takes all that is left
        rw [Nat.sub_eq_zero_of_le hlast, Nat.zero_add,
          Nat.div_eq_of_lt_le (k := 1) (by omega) (by omega),
          Nat.div_eq_of_lt_le (k := 1) (by omega) (by omega)]
      · congr 1
        omega

/-- The frames of `write_data` are those the data stands for. -/
theorem dataFrames_spec (hid : streamId < 2 ^ 31) (hmax : 0 < maxFrameSize) {data : Bytes}
    (h0 : data ≠ []) : DataFrames streamId data endStream maxFrameSize
      (dataFrames streamId endStream maxFrameSize data.length data) where
  count := dataFrames_length hmax (Nat.le_refl _)
  fit := by
    intro f hf
    obtain ⟨hfit, ht, hs⟩ := dataFrames_fits hid _ _ f hf
    exact ⟨ht, hs, hfit.length_eq, hfit.length_eq ▸ hfit.length_le⟩
  payloads := dataFrames_payload hmax (Nat.le_refl _)
  flags := by
    obtain ⟨init, last, hfs, hlast, hinit⟩ := dataFrames_last hmax h0 (Nat.le_refl _)
    exact ⟨init, last, hfs, hinit, hlast⟩

end DataFrames

theorem writeData_eq_ok {buf buf' data : Bytes} {streamId maxFrameSize : Nat} {endStream : Bool}
    (h0 : data ≠ []) (h : writeData buf streamId data endStream maxFrameSize = (.ok (), buf')) :
    0 < streamId ∧ streamId < 2 ^ 31 := by
  unfold writeData at h
  split_ifs at h with hbad
  · cases h
  · refine ⟨by omega, ?_⟩
    by_contra hid
    -- the first frame is refused
    obtain ⟨n, hn⟩ := Nat.exists_eq_succ_of_ne_zero (List.length_pos_iff.mpr h0).ne'
    have hbad' : min maxFrameSize data.length > 0x00ffffff ∨ 2 ^ 31 ≤ streamId := by omega
    rw [hn, writeDataLoop, if_neg h0] at h
    simp only [writeFrame, writeFrameHeader, if_pos hbad'] at h
    cases h

/-- **A call that returns ok has appended its frames.** -/
theorem writeCall_ok {call : WriterCall} {buf buf' : Bytes} (ha : call.Admissible)
    (h : call.write buf = (.ok (), buf')) : Appends call buf buf' := by
  cases call with
  | settings s =>
    have hmod : s.length * 6 % 2 ^ 32 = s.length * 6 := by
      unfold WriterCall.Admissible at ha
      omega
    rw [WriterCall.write, writeSettings] at h
    simp only [hmod, List.cons_append, List.nil_append] at h
    refine appends_frame h ?_ ?_ rfl
    · show _ = _
      simp only [← u16_eq, ← u32_eq, List.cons_append, List.nil_append]
    · rw [List.length_flatMap]
      simp [u32]
  | settingsAck =>
    have h' : writeFrame buf 0 .settings H2Flags.ack 0 [] = (.ok (), buf') := by
      rw [writeFrame_ok (by decide) (by decide)]
      exact h
    exact appends_frame h' rfl rfl rfl
  | ping value ack =>
    rw [WriterCall.write, writePing, u64_eq] at h
    exact appends_frame h rfl (length_beBytes 8 value).symm rfl
  | windowUpdate streamId increment =>
    rw [WriterCall.write, writeWindowUpdate] at h
    split_ifs at h
    · cases h
    · rw [u32_eq] at h
      exact appends_frame h rfl (length_beBytes 4 increment).symm rfl
  | goaway lastStreamId error debugData =>
    have hmod : (8 + debugData.length) % 2 ^ 32 = 8 + debugData.length := by
      unfold WriterCall.Admissible at ha
      omega
    rw [WriterCall.write, writeGoaway, hmod, u32_eq, u32_eq] at h
    refine appends_frame h rfl ?_ rfl
    rw [List.length_append, List.length_append, length_beBytes, length_beBytes]
  | rstStream streamId error =>
    rw [WriterCall.write, writeRstStream] at h
    split_ifs at h
    · cases h
    · rw [u32_eq] at h
      exact appends_frame h rfl (length_beBytes 4 error.code).symm rfl
  | headers streamId headerBlock endStream maxFrameSize =>
    rw [WriterCall.write, writeHeaders] at h
    split at h
    · cases h
    · exact appends_frame h rfl rfl rfl
  | data streamId bytes endStream maxFrameSize =>
    obtain ⟨h0, hm1, hm⟩ := ha
    obtain ⟨hpos, hid⟩ := writeData_eq_ok h0 h
    rw [WriterCall.write, writeData_ok hpos hid hm1 (by omega)] at h
    cases h
    refine ⟨_, dataFrames_spec hid hm1 h0, fun f hf => ?_, rfl⟩
    have hfit := (dataFrames_fits hid _ _ f hf).1
    exact { hfit with length_le := Nat.le_trans hfit.length_le (by omega) }

/-! ## Sequences of calls -/

/-- What a sequence of calls has appended. -/
theorem runM_writeCall : ∀ {calls : List WriterCall} {buf buf' : Bytes},
    (∀ call ∈ calls, call.Admissible) → runM writeCall buf calls = some buf' →
      ∃ fss : List (List H2Frame), List.Forall₂ WriterCall.Yields calls fss ∧
        (∀ f ∈ fss.flatten, f.Fits 0x00ffffff) ∧ buf' = buf ++ fss.flatten.flatMap frameBytes
  | [], buf, buf', _, h => by
    cases h
    exact ⟨[], .nil, by simp, by simp⟩
  | call :: calls, buf, buf', ha, h => by
    obtain ⟨hcall, hcalls⟩ := List.forall_mem_cons.mp ha
    obtain ⟨buf₁, h₁, h⟩ := Option.bind_eq_some_iff.mp h
    unfold writeCall at h₁
    rcases hw : call.write buf with ⟨e | ⟨⟩, buf₂⟩
    · rw [hw] at h₁
      cases h₁
    · rw [hw] at h₁
      cases h₁
      obtain ⟨fs, hy, hfit, rfl⟩ := writeCall_ok hcall hw
      obtain ⟨fss, hys, hfits, rfl⟩ := runM_writeCall hcalls h
      refine ⟨fs :: fss, .cons hy hys, fun f hf => ?_, ?_⟩
      · rw [List.flatten_cons] at hf
        rcases List.mem_append.mp hf with hf | hf
        · exact hfit f hf
        · exact hfits f hf
      · rw [List.flatten_cons, List.flatMap_append, List.append_assoc]

/-- **Frame round trip**: what any sequence of calls on an empty buffer has written, each returning
ok, `read_frame` returns as the frames of the calls in order, `Complete` each time, until the buffer
is empty. -/
theorem frame_round_trip (calls : List WriterCall) (hcalls : ∀ call ∈ calls, call.Admissible)
    (buf : Bytes) (h : runM writeCall [] calls = some buf) :
    ∃ fss : List (List H2Frame), List.Forall₂ WriterCall.Yields calls fss ∧
      ReadsAll (2 ^ 24 - 1) buf fss.flatten := by
  obtain ⟨fss, hy, hfits, rfl⟩ := runM_writeCall hcalls h
  refine ⟨fss, hy, ?_⟩
  rw [List.nil_append]
  exact readsAll_flatMap (by decide) hfits

/-- Eight calls, one of each kind. -/
def sampleWrites : List WriterCall :=
  [.settings [(.maxFrameSize, 16384)], .settingsAck, .ping 0x0102030405060708 true,
    .windowUpdate 0 1, .headers 1 [0x82] false 100, .data 1 [104, 105, 33] true 2,
    .rstStream 3 .cancel, .goaway 1 .noError (ascii "bye")]

/-- Three bytes of data in frames of two. -/
theorem frame_round_trip_all : ∃ buf, runM writeCall [] sampleWrites = some buf ∧
    (∀ call ∈ sampleWrites, call.Admissible) ∧
    ∃ fss, List.Forall₂ WriterCall.Yields sampleWrites fss ∧
      ReadsAll (2 ^ 24 - 1) buf fss.flatten := by
  have hall : ∀ call ∈ sampleWrites, call.Admissible := by
    simp [sampleWrites, WriterCall.Admissible, ascii]
  obtain ⟨buf, hbuf⟩ : ∃ buf, runM writeCall [] sampleWrites = some buf := ⟨_, rfl⟩
  exact ⟨buf, hbuf, hall, frame_round_trip sampleWrites hall buf hbuf⟩

end Uproxy
