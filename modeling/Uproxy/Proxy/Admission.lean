import Uproxy.Http1.Forward
import Uproxy.Proxy.Client

/-!
# Requests that are let through

An accepted request is read a second time: `on_client_event` takes its body by the framing the
parser found, and the upstream reads its parts in the lines `write_request` puts them in.

* `Head.WF.headFields_render`: a receiver that cuts the client's head into lines and fields reads
  the fields the parser stored, so statements about a buffer need not mention the parser;
* `onClientEvent_chunked`: a request that is found to be chunked is answered with 501 and nothing
  of it is forwarded;
* **`transfer_coding_refused`**: a head with a `transfer-encoding` is let through exactly if no
  value of it contains the text `chunked`. Other codings are forwarded as if there were none
  (`transfer_coding_refused_gzip`);
* `Head.WF.noControls_iff`, `framed_requestHead_iff`: the parts other than the target are free of
  control bytes, and so are the lines written for them;
* **`request_no_controls`**: what is missing is a check of the target, which may hold every byte
  but SP and LF (`request_no_controls_cr`).
-/

namespace Uproxy

open Lib.Search

/-! ## The client's head, read by another -/

/-- The bytes up to the first blank line. -/
def clientHead (bytes : Bytes) : Bytes :=
  match find crlfcrlf bytes with
  | some n => bytes.take (n + crlfcrlf.length)
  | none => bytes

/-- The values of `transfer-encoding` in the head that starts some bytes. -/
def codings (bytes : Bytes) : List Bytes :=
  values "transfer-encoding" (headFields (clientHead bytes))

theorem Field.WF.textFields_line {f : Field} (h : f.WF) : textFields f.line = [f.header] := by
  have hfind : find [colon] f.line = some f.name.length :=
    find_singleton.mpr ⟨_, _, rfl, token_not_mem h.name_token (by decide), rfl⟩
  have hread : readField f.line = some f.header := by
    unfold readField
    rw [hfind, Option.map_some]
    unfold Field.line
    rw [List.take_left, drop_behind]
    rfl
  unfold textFields
  rw [splitLines_of_not_mem h.line_ok.2, List.filterMap_cons_some hread, List.filterMap_nil]

theorem Head.WF.headFields_render {h : Head} (hwf : h.WF) : headFields h.render = h.headers := by
  have hfields : h.fields.flatMap (fun f => textFields f.line) = h.headers := by
    rw [List.flatMap_congr fun f hf => (hwf.fields_wf f hf).textFields_line]
    exact List.flatMap_pure_eq_map Field.header h.fields
  unfold Head.render
  rw [headFields_joinLines, headFields_of_not_mem hwf.lines_ok.1, List.flatMap_map]
  exact hfields

theorem Head.WF.clientHead_eq {h : Head} (hwf : h.WF) {bytes : Bytes} (hpre : h.render <+: bytes) :
    clientHead bytes = h.render := by
  obtain ⟨tail, rfl⟩ := hpre
  have hlen : 4 ≤ h.render.length := by
    rw [h.length_render, joinLines_cons]
    simp only [List.length_append, List.length_cons]
    omega
  unfold clientHead
  rw [hwf.find_blank]
  exact List.take_left' (by rw [show crlfcrlf.length = 4 from rfl]; omega)

theorem Head.WF.codings_eq {h : Head} (hwf : h.WF) {bytes : Bytes} (hpre : h.render <+: bytes) :
    codings bytes = values "transfer-encoding" h.headers := by
  unfold codings
  rw [hwf.clientHead_eq hpre, hwf.headFields_render]

/-! ## Transfer codings -/

theorem saysWord_iff {name word : String} {hs : List HttpHeader} :
    saysWord name word hs = true ↔ ∃ v ∈ values name hs, ascii word <:+: lower v := by
  unfold saysWord
  rw [List.any_eq_true]
  exact exists_congr fun v => and_congr_right fun _ => contains_iff

/-- The connection behind a request that is refused with 501. -/
def ClientConn.refused (conn : ClientConn) (rest : Bytes) : ClientConn :=
  { conn with wbuf := conn.wbuf ++ unsupported, keepAlive := false, rbuf := rest }

theorem onClientEvent_chunked (s : ProxyServer) {conn : ClientConn} (hproto : conn.proto = .http1)
    {ev : ClientEvent} (hreads : ev.Reads) {rbuf : Bytes} {req : HttpRequest}
    (hread : readClientInput ev.recvs conn.rbuf = (.ok false, rbuf))
    (hparse : parseInput rbuf = (.complete, req)) (hch : req.chunked = true) :
    onClientEvent s conn ev = (some (conn.refused (rbuf.drop req.headerBytes)), s, []) := by
  have honread : onRead s conn ev =
      (.returned (conn.refused (rbuf.drop req.headerBytes)), s, []) := by
    obtain ⟨proto, buf, wbuf, keepAlive, h2conn⟩ := conn
    cases hproto
    unfold onRead onInput
    simp only [hread, hparse, hch, if_true]
    rfl
  unfold onClientEvent
  rw [if_neg (by simp [hreads.1.1, hreads.1.2]), hreads.2, if_pos rfl, honread]

/-- **Requests with an unsupported coding are not forwarded**: if a head has a
`transfer-encoding` and is accepted it is found to be chunked, and refused by every event that
reads it, exactly if some value of the field contains the text `chunked` (or the bytes do not start
with a head the grammar knows, and nothing is accepted). -/
theorem transfer_coding_refused (b : Buffer) (req₀ : HttpRequest) :
    (codings b.contents ≠ [] → ∀ req, parseRequest b.toRingBuffer req₀ = (.complete, req) →
      req.chunked = true ∧ ∀ s conn ev, conn.proto = .http1 → ev.Reads →
        readClientInput ev.recvs conn.rbuf = (.ok false, b.contents) →
        onClientEvent s conn ev =
          (some (conn.refused (b.contents.drop req.headerBytes)), s, [])) ↔
      codings b.contents = [] ∨
        (∀ h : Head, h.WF → h.render.length ≤ maxHeaderBytes → ¬ h.render <+: b.contents) ∨
        ∃ v ∈ codings b.contents, ascii "chunked" <:+: lower v := by
  have hchunked : ∀ req, parseRequest b.toRingBuffer req₀ = (.complete, req) →
      (req.chunked = true ↔ ∃ v ∈ codings b.contents, ascii "chunked" <:+: lower v) := by
    intro req hreq
    obtain ⟨h, hpre, -, hwf, rfl⟩ := parseRequest_complete_iff.mp hreq
    rw [hwf.codings_eq hpre]
    exact saysWord_iff
  constructor
  · intro hall
    by_cases hte : codings b.contents = []
    · exact Or.inl hte
    by_cases hhead : ∃ h : Head, h.WF ∧ h.render.length ≤ maxHeaderBytes ∧ h.render <+: b.contents
    · obtain ⟨h, hwf, hmax, hpre⟩ := hhead
      have hreq : parseRequest b.toRingBuffer req₀ = (.complete, h.request) :=
        parseRequest_complete_iff.mpr ⟨h, hpre, hmax, hwf, rfl⟩
      exact Or.inr (Or.inr ((hchunked _ hreq).mp (hall hte _ hreq).1))
    · exact Or.inr (Or.inl fun h hwf hmax hpre => hhead ⟨h, hwf, hmax, hpre⟩)
  · rintro hcond hte req hreq
    have hch : req.chunked = true := by
      refine (hchunked req hreq).mpr ((hcond.resolve_left hte).resolve_left fun hnone => ?_)
      obtain ⟨h, hpre, hmax, hwf, -⟩ := parseRequest_complete_iff.mp hreq
      exact hnone h hwf hmax hpre
    refine ⟨hch, fun s conn ev hproto hreads hread => ?_⟩
    -- the event parses the same bytes in a buffer of its own
    have hparse : parseInput b.contents = (.complete, req) := by
      refine parseRequest_complete_iff.mpr ?_
      rw [Buffer.contents_ofBytes]
      exact parseRequest_complete_iff.mp hreq
    exact onClientEvent_chunked s hproto hreads hread hparse hch

/-- A body the proxy cannot decode, with a length. -/
def gzipPost : String :=
  "POST / HTTP/1.1\r\nTransfer-Encoding: gzip\r\nContent-Length: 2\r\n\r\nhi"

/-- **A coding the proxy does not know is taken for none**: the body is delimited by its length and
forwarded. -/
theorem transfer_coding_refused_gzip :
    let b := Buffer.ofBytes (ascii gzipPost)
    codings b.contents = [ascii "gzip"] ∧
      (parseRequest b.toRingBuffer {}).1 = .complete ∧
      (parseRequest b.toRingBuffer {}).2.chunked = false ∧
      (forwardedAt (some {}) (sampleRead gzipPost)).map Taken.body = [ascii "hi"] := by
  unfold gzipPost sampleRead
  rw [ascii_ofList]
  decide +kernel

/-! ## Control bytes -/

/-- Neither a control byte nor a blank. -/
def isVisible (c : UInt8) : Bool := 0x21 ≤ c && c != 0x7f

/-- The parts of a request hold no control bytes, and blanks only in values. -/
structure HttpRequest.NoControls (req : HttpRequest) : Prop where
  method  : req.method.all isVisible = true
  target  : req.target.all isVisible = true
  version : req.version.all isVisible = true
  name    : ∀ h ∈ req.headers, h.name.all isVisible = true
  value   : ∀ h ∈ req.headers, ∀ c ∈ h.value, 0x20 ≤ c ∨ c = htab

theorem isVisible_of_token {s : Bytes} (h : s.all isTokenChar = true) :
    s.all isVisible = true := by
  have hall : ∀ c, isTokenChar c = true → isVisible c = true :=
    forall_byte (by decide +kernel)
  rw [List.all_eq_true] at h ⊢
  exact fun c hc => hall c (h c hc)

/-- An accepted request has control bytes in its target only. -/
theorem Head.WF.noControls_iff {h : Head} (hwf : h.WF) :
    h.request.NoControls ↔ h.target.all isVisible = true := by
  refine ⟨fun hn => hn.target, fun ht => ⟨isVisible_of_token hwf.method_token, ht, ?_,
    fun x hx => ?_, fun x hx c hc => ?_⟩⟩
  · show h.version.all isVisible = true
    rcases hwf.version_eq with e | e <;> rw [e] <;> decide
  · obtain ⟨f, hf, rfl⟩ := List.mem_map.mp hx
    exact isVisible_of_token (hwf.fields_wf f hf).name_token
  · obtain ⟨f, hf, rfl⟩ := List.mem_map.mp hx
    exact (hwf.fields_wf f hf).raw_valid c (mem_trimOws hc)

theorem mem_requestLines {req : HttpRequest} {host s : Bytes} (h : s ∈ requestLines req host) :
    s = ascii "Host: " ++ host ∨ s ∈ requestLines req [] := by
  unfold requestLines at h ⊢
  simp only [List.mem_append, List.mem_cons] at h ⊢
  rcases h with (((h | h | h) | h) | h) | h
  · exact Or.inr (Or.inl (Or.inl (Or.inl (Or.inl h))))
  · exact Or.inl h
  · exact absurd h List.not_mem_nil
  · exact Or.inr (Or.inl (Or.inl (Or.inr h)))
  · exact Or.inr (Or.inl (Or.inr h))
  · exact Or.inr (Or.inr h)

/-- The lines of a request with clean parts have line ends of their own only in the host. -/
theorem framed_requestHead_iff {req : HttpRequest} (hcr : req.Clean cr) (hlf : req.Clean lf)
    (host : Bytes) :
    Framed cr lf (joinLines cr lf (requestLines req host) ++ crlf) ↔ Framed cr lf host := by
  have hhost : Framed cr lf (ascii "Host: " ++ host) ↔ Framed cr lf host :=
    framed_append_left host (by decide) (by decide)
  rw [framed_joinLines cr_ne_lf, ← hhost]
  constructor
  · rintro ⟨hall, -⟩
    exact hall _ (by simp [requestLines])
  · intro h
    refine ⟨fun s hs => ?_, by decide⟩
    rcases mem_requestLines hs with rfl | hs
    · exact h
    · refine (framed_of_not_mem ?_).mpr ?_
      · exact requestLines_not_mem (by decide) hlf List.not_mem_nil s hs
      · exact requestLines_not_mem (by decide) hcr List.not_mem_nil s hs

/-- **Accepted requests hold no control bytes**, and the head written for them has CR and LF only
as line ends, exactly if the target in the head the buffer starts with is free of them (and the
configured host, which the client does not choose, has none of its own). -/
theorem request_no_controls (b : Buffer) (req₀ req : HttpRequest) (host : Bytes)
    (hc : parseRequest b.toRingBuffer req₀ = (.complete, req)) :
    (req.NoControls ∧ ∃ head, requestHead req host = .ok head ∧ Framed cr lf head) ↔
      (∃ h : Head, h.WF ∧ h.render <+: b.contents ∧ h.target.all isVisible = true) ∧
        Framed cr lf host := by
  obtain ⟨h, hpre, -, hwf, rfl⟩ := parseRequest_complete_iff.mp hc
  have htarget : (∃ h : Head, h.WF ∧ h.render <+: b.contents ∧ h.target.all isVisible = true) ↔
      h.target.all isVisible = true := by
    refine ⟨?_, fun ht => ⟨h, hwf, hpre, ht⟩⟩
    rintro ⟨h', hwf', hpre', ht⟩
    obtain ⟨r, hr⟩ := hpre
    obtain ⟨r', hr'⟩ := hpre'
    exact (Head.render_unique hwf' hwf (hr'.trans hr.symm)).1 ▸ ht
  have hok : requestHead h.request host =
      .ok (joinLines cr lf (requestLines h.request host) ++ crlf) :=
    requestHead_eq_ok_iff.mpr ⟨hwf.clean.value, rfl⟩
  rw [hwf.noControls_iff, htarget]
  refine and_congr_right fun ht => ?_
  have hcr : cr ∉ h.target := fun hm => absurd (List.all_eq_true.mp ht cr hm) (by decide)
  rw [← framed_requestHead_iff (hwf.clean_of (by decide) hcr) hwf.clean, hok]
  constructor
  · rintro ⟨head, hhead, hf⟩
    cases hhead
    exact hf
  · intro hf
    exact ⟨_, rfl, hf⟩

/-- A request without control bytes. -/
theorem request_no_controls_get :
    let b := Buffer.ofBytes (ascii "GET / HTTP/1.1\r\nTE: x\r\n\r\n")
    let req : HttpRequest :=
      { method := ascii "GET", target := ascii "/", version := ascii "HTTP/1.1"
        headers := [⟨ascii "TE", ascii "x"⟩], keepAlive := true, headerBytes := 25 }
    parseRequest b.toRingBuffer {} = (.complete, req) ∧ req.NoControls ∧
      ∃ head, requestHead req (ascii "u:80") = .ok head ∧ Framed cr lf head := by
  intro b req
  have hparse : parseRequest b.toRingBuffer {} = (.complete, req) := by
    unfold b
    rw [ascii_ofList]
    decide +kernel
  obtain ⟨h, hpre, -, hwf, hreq⟩ := parseRequest_complete_iff.mp hparse
  have ht : h.target.all isVisible = true :=
    (congrArg (fun r => r.target.all isVisible) hreq).symm.trans (by decide)
  exact ⟨hparse, (request_no_controls b {} req (ascii "u:80") hparse).mpr
    ⟨⟨h, hwf, hpre, ht⟩, by decide⟩⟩

/-- **A bare CR in the target is accepted and written to the upstream.** -/
theorem request_no_controls_cr :
    let b := Buffer.ofBytes (ascii "GET /\rX:1 HTTP/1.1\r\n\r\n")
    let req : HttpRequest :=
      { method := ascii "GET", target := ascii "/\rX:1", version := ascii "HTTP/1.1"
        keepAlive := true, headerBytes := 22 }
    let head := ascii "GET /\rX:1 HTTP/1.1\r\nHost: u:80\r\nVia: 1.1 uproxy\r\n\r\n"
    parseRequest b.toRingBuffer {} = (.complete, req) ∧
      requestHead req (ascii "u:80") = .ok head ∧
      ¬ req.NoControls ∧ Framed cr lf (ascii "u:80") ∧ ¬ Framed cr lf head := by
  intro b req head
  have hparse : parseRequest b.toRingBuffer {} = (.complete, req) := by
    unfold b
    rw [ascii_ofList]
    decide +kernel
  have hhead : requestHead req (ascii "u:80") = .ok head ∧ ¬ Framed cr lf head := by
    unfold head
    rw [ascii_ofList]
    decide +kernel
  refine ⟨hparse, hhead.1, fun hn => ?_, by decide, hhead.2⟩
  exact absurd hn.target (by decide)

end Uproxy
