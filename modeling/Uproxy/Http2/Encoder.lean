import Uproxy.Hpack.Accounting
import Uproxy.Http2.Run

/-!
# The header encoder of a connection and its peer

`H2Conn::send_response` encodes the headers first and only then finds out whether the response can
be sent. The encoder inserts each header as it goes, up to the first name in upper case, and nothing
takes the insertions back. A failed call therefore changes the encoder, though no header block was
queued from which a peer could learn of it.

A run here goes on behind an error (`H2Conn.call`), and is followed by the table of a peer that has
read every header block queued so far (`PeerView`), which is what a decoder of these blocks has
(`PeerView.step_decodes`).

* `sendResponse_hpackEnc`: what `send_response` leaves in the encoder, whatever it returns;
* `call_hpackEnc`: no other call changes the encoder;
* `insertAll_eq_self_iff`: the headers that leave the table as it was;
* **`send_response_atomic`**: a failed call is without effect exactly if its headers insert nothing
  or push out entries like themselves, and encoder and peer agree throughout exactly if that holds
  of every failed call.
-/

namespace Uproxy

open Lib.Run HpackTable

namespace H2Core

variable (c : H2Core) (id : Nat) (headers : List HpackHeader) (body : Bytes) (endStream : Bool)

theorem sendResponse_hpackEnc : (c.sendResponse id headers body endStream).2.hpackEnc =
    insertAll c.hpackEnc (encodedHeaders headers) := by
  rw [← encode_table headers c.hpackEnc []]
  unfold sendResponse
  rcases encode c.hpackEnc headers [] with ⟨e | ⟨⟩, hpackEnc, block⟩
  · rfl
  · rcases hw : writeHeaders c.sendBuf id block (body.isEmpty && endStream) h2MaxFrameSize
      with ⟨e | ⟨⟩, sendBuf⟩
    · simp only [hw]
    · simp only [hw]
      split_ifs <;> rfl

/-- `send_response` returns ok on the responses that can be sent, and on no others. -/
theorem sendResponse_ok_iff :
    (c.sendResponse id headers body endStream).1 = .ok () ↔ Sendable id headers := by
  constructor
  · intro h
    by_contra hs
    obtain ⟨e, hpackEnc, hun⟩ := sendResponse_unsent hs c body endStream
    rw [hun] at h
    cases h
  · intro h
    obtain ⟨hpackEnc, hs⟩ := sendResponse_sent h c body endStream
    rw [hs]

/-- A call that returns an error has left send buffer and encoder as they were. -/
def Atomic : Prop :=
  ∀ e, (c.sendResponse id headers body endStream).1 = .error e →
    (c.sendResponse id headers body endStream).2.sendBuf = c.sendBuf ∧
      (c.sendResponse id headers body endStream).2.hpackEnc = c.hpackEnc

theorem handleFrame_hpackEnc (f : H2Frame) : (c.handleFrame f).2.1.hpackEnc = c.hpackEnc := by
  unfold handleFrame
  split
  · split_ifs <;> rfl
  · split_ifs <;> rfl
  · rfl
  · split_ifs <;> rfl

end H2Core

/-- The headers `encode` inserts: those in front of the first name in upper case, but for the
sensitive ones. -/
def insertedHeaders (headers : List HpackHeader) : List HpackHeader :=
  (encodedHeaders headers).filter fun h => !isSensitive h

/-- The response can be sent, or its headers insert nothing into the encoder's table, or what they
push out of it are entries like themselves. -/
def Harmless (enc : HpackEncoder) (id : Nat) (headers : List HpackHeader) : Prop :=
  Sendable id headers ∨ insertedHeaders headers = [] ∨ enc.Restores (insertedHeaders headers)

theorem insertAll_eq_self_iff {enc : HpackEncoder} (h : enc.Sound) (headers : List HpackHeader) :
    insertAll enc (encodedHeaders headers) = enc ↔
      insertedHeaders headers = [] ∨ enc.Restores (insertedHeaders headers) := by
  rw [insertAll_eq]
  exact inserts_eq_self_iff h _

theorem Sound.insertAll {enc : HpackEncoder} (h : enc.Sound) (hs : List HpackHeader) :
    (insertAll enc hs).Sound := by
  rw [insertAll_eq]
  exact (inserts_longest h _).1

/-- **One call.** -/
theorem atomic_iff {c : H2Core} (hsound : c.hpackEnc.Sound) (id : Nat)
    (headers : List HpackHeader) (body : Bytes) (endStream : Bool) :
    c.Atomic id headers body endStream ↔ Harmless c.hpackEnc id headers := by
  have henc := c.sendResponse_hpackEnc id headers body endStream
  have hself := insertAll_eq_self_iff hsound headers
  by_cases hs : Sendable id headers
  · refine iff_of_true (fun e he => ?_) (Or.inl hs)
    rw [(c.sendResponse_ok_iff id headers body endStream).mpr hs] at he
    cases he
  · obtain ⟨e, hpackEnc, hun⟩ := sendResponse_unsent hs c body endStream
    unfold H2Core.Atomic
    rw [hun] at henc ⊢
    constructor
    · intro h
      exact Or.inr (hself.mp (henc.symm.trans (h e rfl).2))
    · rintro (h | h) _ -
      · exact absurd h hs
      · exact ⟨rfl, henc.trans (hself.mpr h)⟩

/-! ## Runs -/

namespace H2Conn

/-- One call, whatever it returns. -/
def call (c : H2Conn) : Op → H2Conn
  | .process => c.process.2
  | .feed data => c.feed data
  | .sendResponse id headers body endStream =>
    { c with toH2Core := (c.sendResponse id headers body endStream).2 }
  | .sendWindowUpdate id increment => { c with toH2Core := (c.sendWindowUpdate id increment).2 }
  | .consumeOutput n => { c with toH2Core := c.consumeOutput n }
  | .consumeBody id n => { c with toH2Core := c.consumeBody id n }
  | .goaway error debugData => { c with toH2Core := (c.goaway error debugData).2 }

theorem processLoop_hpackEnc : ∀ (fuel : Nat) (c : H2Core) (buf : Bytes) (ready : List Nat),
    (processLoop fuel c buf ready).2.hpackEnc = c.hpackEnc
  | 0, _, _, _ => rfl
  | fuel + 1, c, buf, ready => by
    unfold processLoop
    rcases readFrame buf h2MaxFrameSize with e | ⟨f, rest⟩
    · cases e <;> rfl
    · have henc := c.handleFrame_hpackEnc f
      rcases hf : c.handleFrame f with ⟨e | ⟨⟩, c', id⟩
      · simp only [hf] at henc ⊢
        exact henc
      · simp only [hf] at henc ⊢
        exact (processLoop_hpackEnc fuel c' rest _).trans henc

theorem process_hpackEnc (c : H2Conn) : c.process.2.hpackEnc = c.hpackEnc := by
  unfold process
  split_ifs
  · rfl
  · rfl
  · obtain ⟨sendBuf, hgreet⟩ := c.greet_ok
    simp only [hgreet]
    exact processLoop_hpackEnc _ _ _ _
  · exact processLoop_hpackEnc _ _ _ _

/-- No call but `send_response` changes the encoder. -/
theorem call_hpackEnc (c : H2Conn) {op : Op}
    (hop : ∀ id headers body endStream, op ≠ .sendResponse id headers body endStream) :
    (c.call op).hpackEnc = c.hpackEnc := by
  cases op with
  | sendResponse id headers body endStream => exact absurd rfl (hop id headers body endStream)
  | process => exact c.process_hpackEnc
  | consumeBody id n =>
    obtain ⟨streams, he⟩ := c.consumeBody_eq id n
    show (c.consumeBody id n).hpackEnc = c.hpackEnc
    rw [he]
  | _ => rfl

end H2Conn

open H2Conn

/-- A connection, and the table of a peer that has read the header blocks queued so far. -/
structure PeerView where
  conn  : H2Conn
  table : HpackTable := {}

/-- One call; a response that is queued brings its headers to the peer. -/
def PeerView.step (v : PeerView) (op : Op) : PeerView :=
  { conn := v.conn.call op
    table :=
      match op with
      | .sendResponse id headers body endStream =>
        match (v.conn.sendResponse id headers body endStream).1 with
        | .ok () => insertAll v.table headers
        | .error _ => v.table
      | _ => v.table }

/-- **The table of the peer is that of a decoder**: a response that returns ok has queued its
frames, and whoever decodes the header block in them has the table behind the step. -/
theorem PeerView.step_decodes (v : PeerView) {id : Nat} {headers : List HpackHeader} {body : Bytes}
    {endStream : Bool} (h : (v.conn.sendResponse id headers body endStream).1 = .ok ())
    {dec : HpackDecoder} {out : List HpackHeader}
    (hdec : decode v.table (headers.flatMap encodeHeader) [] = (.ok (), dec, out)) :
    (v.step (.sendResponse id headers body endStream)).conn.sendBuf =
        v.conn.sendBuf ++ (responseFrames id headers body endStream).flatMap frameBytes ∧
      (v.step (.sendResponse id headers body endStream)).table = dec := by
  obtain ⟨hpackEnc, hsent⟩ := sendResponse_sent
    ((v.conn.sendResponse_ok_iff id headers body endStream).mp h) v.conn.toH2Core body endStream
  have hconn : (v.step (.sendResponse id headers body endStream)).conn.sendBuf =
      (v.conn.sendResponse id headers body endStream).2.sendBuf := rfl
  constructor
  · rw [hconn, hsent]
  · unfold step
    simp only [h]
    exact (decode_encoded hdec).1.symm

/-- The encoder has the table of the peer. -/
def PeerView.Agrees (v : PeerView) : Prop := v.conn.hpackEnc = v.table

/-- The call is a response that fails and changes the encoder. -/
def PeerView.Drifts (v : PeerView) : Op → Prop
  | .sendResponse id headers _ _ => ¬ Harmless v.conn.hpackEnc id headers
  | _ => False

/-- No call makes the accounts of the encoder wrong. -/
theorem H2Conn.call_sound {c : H2Conn} (h : c.hpackEnc.Sound) (op : Op) :
    (c.call op).hpackEnc.Sound := by
  cases op with
  | sendResponse id headers body endStream =>
    show (c.sendResponse id headers body endStream).2.hpackEnc.Sound
    rw [c.sendResponse_hpackEnc]
    exact Sound.insertAll h _
  | _ => rwa [c.call_hpackEnc fun _ _ _ _ => Op.noConfusion]

/-- What a call does to the agreement. -/
theorem PeerView.step_agrees (v : PeerView) (op : Op) (h : v.Agrees ∧ v.conn.hpackEnc.Sound) :
    (v.step op).Agrees ∧ (v.step op).conn.hpackEnc.Sound ↔ ¬ v.Drifts op := by
  obtain ⟨h, hsound⟩ := h
  refine (and_iff_left (H2Conn.call_sound hsound op)).trans ?_
  unfold Agrees at h
  cases op with
  | sendResponse id headers body endStream =>
    have henc := v.conn.sendResponse_hpackEnc id headers body endStream
    have hok := v.conn.sendResponse_ok_iff id headers body endStream
    have hself := insertAll_eq_self_iff hsound headers
    unfold Agrees step Drifts
    rw [not_not]
    show (v.conn.sendResponse id headers body endStream).2.hpackEnc = _ ↔ _
    rw [henc]
    rcases hr : (v.conn.sendResponse id headers body endStream).1 with e | ⟨⟩
    · have hs : ¬ Sendable id headers := fun hs => by
        rw [hok.mpr hs] at hr
        cases hr
      simp only [hr, ← h, Harmless, hs, false_or, hself]
    · have hs := hok.mp hr
      simp only [hr, ← h, encodedHeaders_of_lower hs.2.1, Harmless, hs, true_or]
  | _ =>
    refine iff_of_true ?_ not_false
    exact (v.conn.call_hpackEnc fun _ _ _ _ => Op.noConfusion).trans h

/-- The connection and its peer behind some calls. -/
def peerRun (isServer : Bool) (ops : List Op) : PeerView :=
  run PeerView.step { conn := new isServer } ops

/-- **A failed response is without effect** on send buffer and encoder exactly if it is harmless;
and the encoder has the table of the peer at every moment of a run exactly if all its responses
are. The table of an encoder is sound in every run. -/
theorem send_response_atomic (isServer : Bool) (ops : List Op) :
    (∀ (c : H2Core) (id : Nat) (headers : List HpackHeader) (body : Bytes) (endStream : Bool),
      c.hpackEnc.Sound → (c.Atomic id headers body endStream ↔ Harmless c.hpackEnc id headers)) ∧
    (peerRun isServer ops).conn.hpackEnc.Sound ∧
    ((∀ pre, pre <+: ops → (peerRun isServer pre).Agrees) ↔
      ∀ pre id headers body endStream, pre ++ [.sendResponse id headers body endStream] <+: ops →
        Harmless (peerRun isServer pre).conn.hpackEnc id headers) := by
  have hsound : ∀ ops, (peerRun isServer ops).conn.hpackEnc.Sound := fun ops =>
    run_inv (P := fun v : PeerView => v.conn.hpackEnc.Sound)
      (fun _ op h => H2Conn.call_sound h op) ops sound_init
  refine ⟨fun c id headers body endStream h => atomic_iff h id headers body endStream,
    hsound ops, ?_⟩
  have h : (∀ pre, pre <+: ops → (peerRun isServer pre).Agrees ∧ _) ↔
      ∀ pre op, pre ++ [op] <+: ops → ¬ (peerRun isServer pre).Drifts op :=
    run_always_iff PeerView.step_agrees ⟨rfl, sound_init⟩
  constructor
  · intro hag pre id headers body endStream hpre
    exact not_not.mp (h.mp (fun pre hpre => ⟨hag pre hpre, hsound pre⟩) pre
      (.sendResponse id headers body endStream) hpre)
  · intro hharm pre hpre
    refine (h.mpr (fun pre op hpre => ?_) pre hpre).1
    cases op with
    | sendResponse id headers body endStream =>
      exact not_not.mpr (hharm pre id headers body endStream hpre)
    | _ => exact not_false

/-- A response that is sent, and one that fails behind a sensitive header. -/
def sampleResponses : List Op :=
  [.sendResponse 1 [⟨ascii ":status", ascii "200", false⟩] [] true,
    .sendResponse 3 [⟨ascii "a", ascii "b", true⟩, ⟨ascii "Bad", ascii "x", false⟩] [] true]

/-- The failed response of `sampleResponses` is harmless, so that the peer keeps up. -/
theorem send_response_atomic_sensitive :
    (H2Core.Atomic (new true).toH2Core 3
      [⟨ascii "a", ascii "b", true⟩, ⟨ascii "Bad", ascii "x", false⟩] [] true) ∧
    ∀ pre, pre <+: sampleResponses → (peerRun true pre).Agrees := by
  have hsens : ∀ enc, Harmless enc 3
      [⟨ascii "a", ascii "b", true⟩, ⟨ascii "Bad", ascii "x", false⟩] :=
    fun enc => Or.inr (Or.inl (by decide +kernel))
  obtain ⟨hcall, -, hrun⟩ := send_response_atomic true sampleResponses
  refine ⟨(hcall _ _ _ _ _ sound_init).mpr (hsens _), hrun.mpr ?_⟩
  intro pre id headers body endStream hpre
  have hmem : Op.sendResponse id headers body endStream ∈ sampleResponses :=
    hpre.subset (by simp)
  simp only [sampleResponses, List.mem_cons, Op.sendResponse.injEq, List.not_mem_nil,
    or_false] at hmem
  rcases hmem with ⟨rfl, rfl, -, -⟩ | ⟨rfl, rfl, -, -⟩
  · exact Or.inl (by decide +kernel)
  · exact hsens _

/-- **A header in front of the bad one stays in the table**: the call fails, nothing is queued, and
the encoder has an entry that no peer can have. -/
theorem send_response_atomic_fails :
    let headers : List HpackHeader :=
      [⟨ascii "a", ascii "b", false⟩, ⟨ascii "Bad", ascii "x", false⟩]
    let v := peerRun true [.sendResponse 1 headers [] true]
    (∃ e, ((new true).sendResponse 1 headers [] true).1 = .error e) ∧ v.conn.sendBuf = [] ∧
      v.conn.hpackEnc.dynamicTable = [⟨ascii "a", ascii "b", false⟩] ∧ v.table = {} ∧
      ¬ H2Core.Atomic (new true).toH2Core 1 headers [] true ∧ ¬ v.Agrees := by
  intro headers v
  have herr : ((new true).sendResponse 1 headers [] true).1 =
      .error (hpackError "uppercase HTTP/2 header name") := rfl
  have htable : v.conn.hpackEnc.dynamicTable = [⟨ascii "a", ascii "b", false⟩] := rfl
  have hpeer : v.table = {} := rfl
  refine ⟨⟨_, herr⟩, rfl, htable, hpeer, fun h => ?_, fun h => ?_⟩
  · have henc : v.conn.hpackEnc = (new true).hpackEnc := (h _ herr).2
    rw [henc] at htable
    cases htable
  · unfold PeerView.Agrees at h
    rw [h, hpeer] at htable
    cases htable

end Uproxy
