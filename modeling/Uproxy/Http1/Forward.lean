import Uproxy.Http1.Serializer

/-!
# Forwarding an HTTP/1 request

A request the parser accepts, with its body behind the head in the client's buffer, is written
again for the upstream. `Http1Parser` and `Http1Serializer` agree on it:

* `requestLines_not_mem`: a request with clean parts is written as clean lines, so cutting at CRLF
  gives back exactly the lines written (`splitLines_requestHead`);
* `Head.WF.clean_of`, `Head.addedLength_eq`: an accepted request has clean parts, and the length
  that frames its body is already among its fields, so `write_request` adds none;
* `Head.WF.headFields_request`: the receiver reads the kept fields with the values the parser
  stored.

**`forward_faithful`** is the round trip, from the client's buffer to the bytes sent upstream.
-/

namespace Uproxy

open Lib.Search

/-! ## Clean requests -/

/-- No part of a request holds `c`: with no line feed, each line of its head is one line. -/
structure HttpRequest.Clean (c : UInt8) (req : HttpRequest) : Prop where
  method  : c ∉ req.method
  target  : c ∉ req.target
  version : c ∉ req.version
  name    : ∀ h ∈ keptFields requestSkips req.headers, c ∉ h.name
  value   : ∀ h ∈ keptFields requestSkips req.headers, validHeaderValue h.value = true

theorem mem_addedLength {req : HttpRequest} {s : Bytes} (h : s ∈ addedLength req) :
    s = ascii "Content-Length: " ++ decimal req.contentLength := by
  unfold addedLength at h
  split_ifs at h
  · exact List.mem_singleton.mp h
  · exact absurd h List.not_mem_nil

/-- The line `write_request` adds, as a receiver reads it. -/
theorem addedLength_text (n : Nat) :
    textFields (ascii "Content-Length: " ++ decimal n) = [⟨ascii "Content-Length", decimal n⟩] := by
  refine (textFields_fieldText (h := ⟨ascii "Content-Length", decimal n⟩)
    (show colon ∉ ascii "Content-Length" by decide) (show lf ∉ ascii "Content-Length" by decide)
    (decimal_not_mem (by decide) n)).trans ?_
  rw [trimOws_eq_self (decimal_not_mem (by decide) n) (decimal_not_mem (by decide) n)]

theorem addedLength_fields {req : HttpRequest} {v : Bytes}
    (hv : v ∈ values "content-length" ((addedLength req).flatMap textFields)) :
    isNumeral v = true ∧ digitsVal 10 v = req.contentLength := by
  obtain ⟨f, hf, -, rfl⟩ := mem_values.mp hv
  obtain ⟨line, hline, hf⟩ := List.mem_flatMap.mp hf
  rw [mem_addedLength hline, addedLength_text, List.mem_singleton] at hf
  rw [hf]
  exact decimal_spec req.contentLength

theorem requestLines_not_mem {c : UInt8} (hc : c ∈ [cr, lf]) {req : HttpRequest}
    (hreq : req.Clean c) {host : Bytes} (hh : c ∉ host) : ∀ s ∈ requestLines req host, c ∉ s := by
  -- the texts `write_request` supplies hold neither end
  have hfixed : ∀ c ∈ [cr, lf], c ≠ sp ∧ isDigit c = false ∧ c ∉ ascii "Host: " ∧ c ∉ ascii ": " ∧
      c ∉ ascii "Content-Length: " ∧ c ∉ ascii "Via: 1.1 uproxy" := by decide +kernel
  have hvalue : ∀ {v : Bytes}, validHeaderValue v = true → c ∉ v := by
    intro v hv
    rcases List.mem_pair.mp hc with rfl | rfl
    · exact (validHeaderValue_not_mem hv).1
    · exact (validHeaderValue_not_mem hv).2
  obtain ⟨hsp, hdigit, hhost, hcolon, hlength, hvia⟩ := hfixed c hc
  intro s hs
  unfold requestLines at hs
  simp only [List.mem_append, List.mem_cons, List.not_mem_nil, or_false, List.mem_map] at hs
  rcases hs with (((rfl | rfl) | ⟨h, hk, rfl⟩) | hs) | rfl
  · simp only [List.mem_append, List.mem_cons, not_or]
    exact ⟨hreq.method, hsp, hreq.target, hsp, hreq.version⟩
  · simp only [List.mem_append, not_or]
    exact ⟨hhost, hh⟩
  · simp only [fieldText, List.mem_append, not_or]
    exact ⟨hreq.name h hk, hcolon, hvalue (hreq.value h hk)⟩
  · rw [mem_addedLength hs]
    simp only [List.mem_append, not_or]
    exact ⟨hlength, decimal_not_mem hdigit _⟩
  · exact hvia

/-- Cutting a head with clean parts at CRLF gives the lines written, and the blank line. -/
theorem splitLines_requestHead {req : HttpRequest} (hreq : req.Clean lf) {host : Bytes}
    (hh : lf ∉ host) :
    splitLines cr lf (joinLines cr lf (requestLines req host) ++ crlf) =
      requestLines req host ++ [[], []] := by
  rw [splitLines_joinLines cr_ne_lf crlf (requestLines_not_mem (by decide) hreq hh)]
  rfl

/-! ## Accepted requests -/

/-- An accepted request has no line ends in its parts, but for those its target may hold. -/
theorem Head.WF.clean_of {h : Head} (hwf : h.WF) {c : UInt8} (hc : c ∈ [cr, lf])
    (ht : c ∉ h.target) : h.request.Clean c := by
  have hfixed : ∀ c ∈ [cr, lf], isTokenChar c = false ∧ c ∉ ascii "HTTP/1.1" ∧
      c ∉ ascii "HTTP/1.0" := by decide +kernel
  obtain ⟨htoken, h11, h10⟩ := hfixed c hc
  have hfield : ∀ x ∈ keptFields requestSkips h.request.headers,
      ∃ f : Field, f.WF ∧ x = f.header := by
    intro x hx
    obtain ⟨f, hf, rfl⟩ := List.mem_map.mp (List.mem_filter.mp hx).1
    exact ⟨f, hwf.fields_wf f hf, rfl⟩
  refine ⟨token_not_mem hwf.method_token htoken, ht, ?_, fun x hx => ?_, fun x hx => ?_⟩
  · show c ∉ h.version
    rcases hwf.version_eq with e | e <;> rw [e]
    · exact h11
    · exact h10
  · obtain ⟨f, hf, rfl⟩ := hfield x hx
    exact token_not_mem hf.name_token htoken
  · obtain ⟨f, hf, rfl⟩ := hfield x hx
    exact validHeaderValue_trimOws.mpr (validHeaderValue_iff.mpr hf.raw_valid)

theorem Head.WF.clean {h : Head} (hwf : h.WF) : h.request.Clean lf :=
  hwf.clean_of (by decide) hwf.target_lf

/-- Every `content-length` of an accepted head is the length that frames the body. -/
theorem Head.WF.length_eq {h : Head} (hwf : h.WF) {v : Bytes}
    (hv : v ∈ values "content-length" h.headers) :
    isNumeral v = true ∧ digitsVal 10 v = h.contentLength := by
  refine ⟨(hwf.lengths v hv).1, ?_⟩
  unfold contentLength commonLength
  cases hvs : values "content-length" h.headers with
  | nil => rw [hvs] at hv; exact absurd hv List.not_mem_nil
  | cons w ws =>
    have hw : w ∈ values "content-length" h.headers := hvs ▸ List.mem_cons_self
    exact hwf.lengths_same v hv w hw

theorem Head.values_ne_nil {h : Head} (hpos : 0 < h.contentLength) :
    values "content-length" h.headers ≠ [] := by
  intro he
  unfold contentLength commonLength at hpos
  rw [he] at hpos
  exact absurd hpos (by decide)

theorem Head.addedLength_eq (h : Head) : addedLength h.request = [] :=
  if_neg fun hc => h.values_ne_nil hc.1 hc.2

/-- A receiver reads the kept fields with their names and values unchanged. -/
theorem Head.WF.headFields_request {h : Head} (hwf : h.WF) {host : Bytes} (hh : lf ∉ host) :
    headFields (joinLines cr lf (requestLines h.request host) ++ crlf) =
      ⟨ascii "Host", trimOws host⟩ ::
        (keptFields requestSkips h.headers ++ [⟨ascii "Via", ascii "1.1 uproxy"⟩]) := by
  have hclean := hwf.clean
  have hstart : headFields (h.method ++ sp :: (h.target ++ sp :: h.version)) = [] := by
    refine headFields_of_not_mem ?_
    exact requestLines_not_mem (by decide) hclean hh _ (by simp [requestLines, request])
  have hhost : textFields (ascii "Host: " ++ host) = [⟨ascii "Host", trimOws host⟩] :=
    textFields_fieldText (h := ⟨ascii "Host", host⟩) (show colon ∉ ascii "Host" by decide)
      (show lf ∉ ascii "Host" by decide) hh
  have hkept : (keptFields requestSkips h.headers).flatMap (fun x => textFields (fieldText x)) =
      keptFields requestSkips h.headers := by
    have : ∀ x ∈ keptFields requestSkips h.headers, textFields (fieldText x) = [x] := by
      intro x hx
      obtain ⟨f, hf, rfl⟩ := List.mem_map.mp (List.mem_filter.mp hx).1
      rw [textFields_fieldText (token_not_mem (hwf.fields_wf f hf).name_token (by decide))
        (hclean.name _ hx) (validHeaderValue_not_mem (hclean.value _ hx)).2]
      show [HttpHeader.mk f.name (trimOws (trimOws f.raw))] = _
      rw [trimOws_trimOws]
      rfl
    rw [List.flatMap_congr this, List.flatMap_singleton']
  rw [headFields_requestHead, h.addedLength_eq]
  show headFields (h.method ++ sp :: (h.target ++ sp :: h.version)) ++ (_ ++ (List.flatMap _
    (keptFields requestSkips h.headers) ++ _)) = _
  rw [hstart, hhost, hkept]
  rfl

/-- The client's lengths are those the receiver reads. -/
theorem Head.WF.lengths_request {h : Head} (hwf : h.WF) {host : Bytes} (hh : lf ∉ host) :
    values "content-length" (headFields (joinLines cr lf (requestLines h.request host) ++ crlf)) =
      values "content-length" h.headers := by
  rw [hwf.headFields_request hh, values_cons,
    if_neg (show ¬ lower (ascii "Host") = ascii "content-length" by decide), values_append,
    values_keptFields (by decide)]
  exact List.append_nil _

theorem Head.WF.encodings_request {h : Head} (hwf : h.WF) {host : Bytes} (hh : lf ∉ host) :
    values "transfer-encoding"
      (headFields (joinLines cr lf (requestLines h.request host) ++ crlf)) = [] := by
  rw [hwf.headFields_request hh, values_cons,
    if_neg (show ¬ lower (ascii "Host") = ascii "transfer-encoding" by decide), values_append,
    values_keptFields_skipped (by decide)]
  rfl

/-- The first blank line of head and body is the end of the head. -/
theorem find_blank_requestHead {req : HttpRequest} (hreq : req.Clean lf) {host : Bytes}
    (hh : lf ∉ host) (body : Bytes) :
    find crlfcrlf (joinLines cr lf (requestLines req host) ++ crlf ++ body) =
      some ((joinLines cr lf (requestLines req host) ++ crlf).length - 4) := by
  have hlf := requestLines_not_mem (by decide) hreq hh
  obtain ⟨start, rest, he, hne⟩ : ∃ start rest, requestLines req host = start :: rest ∧
      ∀ s ∈ rest, s ≠ [] := by
    refine ⟨_, _, rfl, fun s hs h0 => ?_⟩
    subst h0
    simp only [List.append_eq, List.mem_append, List.mem_cons, List.mem_map,
      List.not_mem_nil, or_false, fieldText] at hs
    rcases hs with ((hs | ⟨h, -, hs⟩) | hs) | hs
    · simp [ascii] at hs
    · simp [ascii] at hs
    · have := mem_addedLength hs
      simp [ascii] at this
    · exact absurd hs (by decide)
  rw [he] at hlf ⊢
  rw [List.append_assoc]
  refine (find_blank cr_ne_lf body (hlf start List.mem_cons_self) fun s hs =>
    ⟨hne s hs, hlf s (List.mem_cons_of_mem start hs)⟩).trans ?_
  rw [List.length_append]
  rfl

/-! ## The round trip -/

/-- What `forward_http1` sends for a request parsed from a client's buffer. The body is what
`on_client_event` takes: the `content_length` bytes behind the head. -/
theorem forward_faithful (b : Buffer) (req₀ req : HttpRequest) (host : Bytes)
    (hc : parseRequest b.toRingBuffer req₀ = (.complete, req))
    (hlen : req.headerBytes + req.contentLength ≤ b.readable) (hh : lf ∉ host) :
    let start := req.method ++ sp :: (req.target ++ sp :: req.version)
    let body := (b.commitRead req.headerBytes).peek req.contentLength
    let kept := req.headers.filter fun h => !requestSkips.contains (lower h.name)
    start ++ crlf <+: b.contents ∧
    body = (b.contents.drop req.headerBytes).take req.contentLength ∧
    body.length = req.contentLength ∧
    ∃ head, requestHead req host = .ok head ∧
      (∀ buf : Buffer, buf.capacity + head.length < sizeMod →
        ∃ buf', writeRequest buf.toRingBuffer req host = some (.ok (), buf') ∧
          buf'.contents = buf.contents ++ head) ∧
      upstreamRequest req body host = .ok (head ++ body) ∧
      crlfcrlf <:+ head ∧ find crlfcrlf (head ++ body) = some (head.length - 4) ∧
      splitLines cr lf head =
        [start, ascii "Host: " ++ host] ++ kept.map (fun h => h.name ++ (ascii ": " ++ h.value)) ++
          [ascii "Via: 1.1 uproxy", [], []] ∧
      (∀ v ∈ values "content-length" (headFields head),
        isNumeral v = true ∧ digitsVal 10 v = body.length) ∧
      (body ≠ [] → values "content-length" (headFields head) ≠ []) ∧
      values "transfer-encoding" (headFields head) = [] := by
  intro start body kept
  obtain ⟨h, hpre, -, hwf, rfl⟩ := parseRequest_complete_iff.mp hc
  have hclean := hwf.clean
  have hbody : body = (b.contents.drop h.render.length).take h.contentLength :=
    b.peek_commitRead h.render.length h.contentLength
  have hbl : body.length = h.contentLength := by
    rw [b.readable_eq] at hlen
    change h.render.length + h.contentLength ≤ _ at hlen
    rw [hbody, List.length_take, List.length_drop]
    omega
  have hok : requestHead h.request host =
      .ok (joinLines cr lf (requestLines h.request host) ++ crlf) :=
    requestHead_eq_ok_iff.mpr ⟨hclean.value, rfl⟩
  refine ⟨h.startLine_prefix.1.trans hpre, hbody, hbl, _, hok, fun buf hfit => ?_,
    upstreamRequest_of_head hok body, blank_suffix_requestHead h.request host,
    find_blank_requestHead hclean hh body, ?_, fun v hv => ?_, fun hne he => ?_,
    hwf.encodings_request hh⟩
  · obtain ⟨buf', e, -, hc', -⟩ := writeRequest_spec buf.wf hok hfit
    exact ⟨buf', e, hc'⟩
  · rw [splitLines_requestHead hclean hh]
    unfold requestLines
    rw [h.addedLength_eq, List.append_nil, List.append_assoc]
    rfl
  · rw [hwf.lengths_request hh] at hv
    rw [hbl]
    exact hwf.length_eq hv
  · rw [hwf.lengths_request hh] at he
    refine h.values_ne_nil ?_ he
    rw [← hbl]
    exact List.length_pos_iff.mpr hne

/-- A pipelined request: the body is cut out of what follows the head. -/
theorem forward_faithful_post :
    let b := Buffer.ofBytes
      (ascii "POST /p HTTP/1.1\r\nHost: a\r\nContent-Length:  3 \r\nTE: x\r\n\r\nabcGET /")
    let req := (parseRequest b.toRingBuffer {}).2
    parseRequest b.toRingBuffer {} = (.complete, req) ∧
      upstreamRequest req (ascii "abc") (ascii "u:80") = .ok (ascii
        "POST /p HTTP/1.1\r\nHost: u:80\r\nContent-Length: 3\r\nVia: 1.1 uproxy\r\n\r\nabc") ∧
      ((b.commitRead req.headerBytes).peek req.contentLength).length = 3 := by
  intro b req
  let parsed : HttpRequest :=
    { method := ascii "POST", target := ascii "/p", version := ascii "HTTP/1.1"
      headers := [⟨ascii "Host", ascii "a"⟩, ⟨ascii "Content-Length", ascii "3"⟩,
        ⟨ascii "TE", ascii "x"⟩]
      keepAlive := true, contentLength := 3, headerBytes := 57 }
  have hparse : parseRequest b.toRingBuffer {} = (.complete, parsed) := by
    unfold b
    rw [ascii_ofList]
    decide +kernel
  have hreq : req = parsed := congrArg Prod.snd hparse
  have hsent : upstreamRequest parsed (ascii "abc") (ascii "u:80") = .ok (ascii
      "POST /p HTTP/1.1\r\nHost: u:80\r\nContent-Length: 3\r\nVia: 1.1 uproxy\r\n\r\nabc") := by
    rw [ascii_ofList]
    decide +kernel
  have hlen : parsed.headerBytes + parsed.contentLength ≤ b.readable := by
    unfold b
    rw [ascii_ofList]
    decide +kernel
  rw [hreq]
  have h := forward_faithful b {} parsed (ascii "u:80") hparse hlen (by decide)
  exact ⟨hparse, hsent, h.2.2.1⟩

end Uproxy
