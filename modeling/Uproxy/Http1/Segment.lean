import Uproxy.Http1.Grammar

/-!
# Requests delivered in pieces

The proxy parses its receive buffer again after every read, so a head that arrives in pieces is
parsed at every cut.

* `parseRequest_extends`: once the whole head is there, what follows it does not matter.
* `parseRequest_cut`: on a strict prefix of an accepted head the parser answers `Incomplete`
  exactly when the prefix has no LF. Its check for bare line feeds in an unfinished head looks for
  any LF, also one behind a CR, so the first complete line already ends the connection.

**`request_delivery`** states both for every accepted buffer; the cut behind the request line
(`request_delivery_line`) is one the parser refuses for every request.
-/

namespace Uproxy

open Lib.Search

/-- Any buffer that starts with an accepted head parses to the same request. -/
theorem parseRequest_extends {h : Head} (hmax : h.render.length ≤ maxHeaderBytes) (hwf : h.WF)
    {b : Buffer} (hb : h.render <+: b.contents) (req : HttpRequest) :
    parseRequest b.toRingBuffer req = (.complete, h.request) :=
  parseRequest_complete_iff.mpr ⟨h, hb, hmax, hwf, rfl⟩

/-- The parser's answer on a strict prefix of an accepted head. -/
theorem parseRequest_cut {h : Head} (hmax : h.render.length ≤ maxHeaderBytes) (hwf : h.WF)
    {b : Buffer} (hb : b.contents <+: h.render) (hne : b.contents ≠ h.render) (req : HttpRequest) :
    parseRequest b.toRingBuffer req =
      (if lf ∈ b.contents then .error else .incomplete, req) := by
  have hlt : b.contents.length < h.render.length := by
    rcases Nat.lt_or_ge b.contents.length h.render.length with hl | hl
    · exact hl
    · exact absurd (hb.eq_of_length_le hl) hne
  have hfind : find crlfcrlf b.contents = none := by
    have hblank := hwf.find_blank []
    rw [List.append_nil] at hblank
    rw [List.prefix_iff_eq_take.mp hb]
    have h4 : crlfcrlf.length = 4 := rfl
    have hle := find_add_le hblank
    exact find_take_none hblank (by omega)
  unfold parseRequest
  rw [peek_head, List.take_of_length_le (by omega)]
  have hlong : ¬ maxHeaderBytes < b.contents.length := by omega
  unfold parseRequestHeaders splitHead
  rw [hfind]
  by_cases hlf : lf ∈ b.contents
  · have hc : contains [lf] b.contents = true := contains_singleton.mpr hlf
    simp [hc, hlf]
  · have hc : contains [lf] b.contents = false :=
      Bool.eq_false_iff.mpr fun hc => hlf (contains_singleton.mp hc)
    simp [hc, hlf, hlong]

/-- **A request delivered in pieces.** For every accepted buffer: every buffer that starts with the
same head is accepted with the same request, and a buffer holding a strict prefix of the head is
`Incomplete` exactly when it has no LF and `Error` otherwise. The second case is met by the prefix
that ends with the request line, whatever the request. -/
theorem request_delivery (b : Buffer) (req₀ req : HttpRequest)
    (h : parseRequest b.toRingBuffer req₀ = (.complete, req)) :
    (∀ (b' : Buffer) (req₁ : HttpRequest), b.contents.take req.headerBytes <+: b'.contents →
      parseRequest b'.toRingBuffer req₁ = (.complete, req)) ∧
    (∀ (b' : Buffer) (req₁ : HttpRequest), b'.contents <+: b.contents.take req.headerBytes →
      b'.contents ≠ b.contents.take req.headerBytes →
        ((parseRequest b'.toRingBuffer req₁).1 = .incomplete ↔ lf ∉ b'.contents) ∧
        ((parseRequest b'.toRingBuffer req₁).1 = .error ↔ lf ∈ b'.contents)) ∧
    ∃ b' : Buffer, b'.contents <+: b.contents.take req.headerBytes ∧
      b'.contents ≠ b.contents.take req.headerBytes ∧ lf ∈ b'.contents := by
  obtain ⟨hd, hpre, hmax, hwf, rfl⟩ := parseRequest_complete_iff.mp h
  have htake : b.contents.take hd.request.headerBytes = hd.render :=
    (List.prefix_iff_eq_take.mp hpre).symm
  rw [htake]
  refine ⟨fun b' req₁ hb => parseRequest_extends hmax hwf hb req₁, fun b' req₁ hb hne => ?_, ?_⟩
  · rw [parseRequest_cut hmax hwf hb hne]
    by_cases hlf : lf ∈ b'.contents <;> simp [hlf]
  · refine ⟨Buffer.ofBytes (hd.startLine ++ crlf), ?_⟩
    rw [Buffer.contents_ofBytes]
    exact ⟨hd.startLine_prefix.1, hd.startLine_prefix.2, by simp [crlf]⟩

/-- A request in one piece, and cut within its first line. -/
theorem request_delivery_get :
    let whole := ascii "GET / HTTP/1.1\r\nHost: x\r\n\r\n"
    ∃ req, parseRequest (Buffer.ofBytes whole).toRingBuffer {} = (.complete, req) ∧
      (parseRequest (Buffer.ofBytes (ascii "GET / HT")).toRingBuffer {}).1 = .incomplete := by
  intro whole
  have h : parseRequest (Buffer.ofBytes whole).toRingBuffer {} =
      (.complete, ⟨ascii "GET", ascii "/", ascii "HTTP/1.1", [⟨ascii "Host", ascii "x"⟩],
        true, 0, false, 27⟩) := by
    unfold whole
    rw [ascii_ofList]
    decide +kernel
  refine ⟨_, h, ?_⟩
  have hcut := (request_delivery (Buffer.ofBytes whole) {} _ h).2.1
    (Buffer.ofBytes (ascii "GET / HT")) {}
  exact (hcut (by decide +kernel) (by decide +kernel)).1.mpr (by decide +kernel)

/-- **The parser refuses a request whose first packet ends with its request line.** -/
theorem request_delivery_line :
    let whole := ascii "GET / HTTP/1.1\r\nHost: x\r\n\r\n"
    let cut := ascii "GET / HTTP/1.1\r\n"
    ∃ req, parseRequest (Buffer.ofBytes whole).toRingBuffer {} = (.complete, req) ∧
      cut <+: whole.take req.headerBytes ∧ cut ≠ whole.take req.headerBytes ∧
      (parseRequest (Buffer.ofBytes cut).toRingBuffer {}).1 = .error := by
  intro whole cut
  refine ⟨⟨ascii "GET", ascii "/", ascii "HTTP/1.1", [⟨ascii "Host", ascii "x"⟩], true, 0, false,
    27⟩, ?_⟩
  unfold whole cut
  rw [ascii_ofList, ascii_ofList]
  decide +kernel

end Uproxy
