import Uproxy.Http1.Response
import Uproxy.Http2.Window
import Uproxy.Proxy.Delimited

/-!
# Where a response ends

`response_complete` decides from the bytes received so far whether a response is there. For a
response with a length it compares two numbers, for a chunked one it looks for the bytes that
usually end one.

* **`status_line_grammar`**: what a response that parses may have for a status line;
* **`content_length_exact`**: the comparison is that of the exact numbers, unless their sum leaves
  64 bits;
* **`chunked_complete`**: the search finds the end of a chunked body for the usual last chunks, if
  the data do not look like one;
* **`read_one_message`**: what `read_response` returns is one message exactly if one of its reads
  ended where the message ends;
* **`h2_body_content`**: an HTTP/2 client gets the content of a response with a length, and the
  encoded body of a chunked one.
-/

namespace Uproxy

open Lib.Search

section

variable {response : Bytes} {parsed resp : HttpResponse}

/-- `parse_response` on the bytes received, into any record. -/
def Parses (response : Bytes) (parsed resp : HttpResponse) : Prop :=
  parseResponse (Buffer.ofBytes response).toRingBuffer parsed = (.complete, resp)

/-- A response that parses is a head and a rest. -/
theorem Parses.head (h : Parses response parsed resp) :
    ∃ head : ResponseHead, head.Reads resp ∧
      response = head.render ++ response.drop resp.headerBytes := by
  obtain ⟨head, hpre, -, hr⟩ := parseResponse_complete_iff.mp h
  rw [Buffer.contents_ofBytes] at hpre
  obtain ⟨rest, rfl⟩ := hpre
  refine ⟨head, hr, ?_⟩
  rw [hr.headerBytes_eq, List.drop_left]

theorem Parses.answer (h : Parses response parsed resp) :
    parseAnswer response = (.complete, resp) := by
  obtain ⟨h1, h2⟩ := parseResponse_record (Buffer.ofBytes response).toRingBuffer parsed {}
  unfold Parses at h
  rw [h] at h1 h2
  exact Prod.ext h1.symm (h2 rfl).symm

/-- Bytes with the same head parse to the same record. -/
theorem Parses.of_head {other : Bytes} (h : Parses response parsed resp)
    (hhead : response.take resp.headerBytes <+: other) (parsed' : HttpResponse) :
    Parses other parsed' resp := by
  obtain ⟨head, hpre, hmax, hr⟩ := parseResponse_complete_iff.mp h
  refine parseResponse_complete_iff.mpr ⟨head, ?_, hmax, hr⟩
  rw [Buffer.contents_ofBytes] at hpre ⊢
  rwa [hr.headerBytes_eq, ← List.prefix_iff_eq_take.mp hpre] at hhead

/-- What `response_complete` answers for it. -/
theorem Parses.complete (h : Parses response parsed resp) :
    (responseComplete response parsed).1 = bodyReceived response resp := by
  unfold responseComplete
  rw [h]

/-! ## Samples -/

/-- What `lowerResponse` parses to. -/
def lowerRecord : HttpResponse :=
  ⟨200, ascii "OK", [⟨ascii "content-length", ascii "2"⟩], 2, false, 38⟩

/-- A version that is none, and a status below zero. -/
def signedResponse : Bytes := ascii "HTTP/next-12;Moved\r\n\r\n"

def signedRecord : HttpResponse := ⟨-12, ascii "Moved", [], 0, false, 22⟩

/-- A head that announces the largest length there is. -/
def hugeResponse : Bytes :=
  ascii "HTTP/1.1 200 OK\r\nContent-Length: 18446744073709551615\r\n\r\n"

def hugeRecord : HttpResponse :=
  ⟨200, ascii "OK", [⟨ascii "Content-Length", ascii "18446744073709551615"⟩], 2 ^ 64 - 1, false, 57⟩

/-- The head of a chunked response. -/
def chunkedHead : Bytes := ascii "HTTP/1.1 200 OK\r\ntransfer-encoding: chunked\r\n\r\n"

def chunkedRecord : HttpResponse :=
  ⟨200, ascii "OK", [⟨ascii "transfer-encoding", ascii "chunked"⟩], 0, true, 47⟩

theorem parses_samples :
    Parses lowerResponse {} lowerRecord ∧ Parses signedResponse {} signedRecord ∧
      Parses hugeResponse {} hugeRecord ∧ Parses chunkedHead {} chunkedRecord := by
  unfold Parses lowerResponse signedResponse hugeResponse chunkedHead
  repeat rw [ascii_ofList]
  decide +kernel

theorem parses_lowerResponse : Parses lowerResponse {} lowerRecord := parses_samples.1

theorem length_lowerResponse :
    lowerResponse.length = lowerRecord.headerBytes + lowerRecord.contentLength := by
  rw [lowerResponse, ascii_ofList]
  rfl

/-! ## The status line -/

/-- The first line. -/
def firstLine (bytes : Bytes) : Bytes := bytes.take ((find crlf bytes).getD bytes.length)

theorem firstLine_render {head : ResponseHead} (hlf : lf ∉ head.start) (rest : Bytes) :
    firstLine (head.render ++ rest) = head.start := by
  have hsplit : head.render ++ rest = head.start ++ cr :: lf ::
      (joinLines cr lf (head.fields.map Field.line) ++ crlf ++ rest) := by
    rw [ResponseHead.render, joinLines_cons]
    simp only [List.append_assoc, List.cons_append]
  have hfind : find crlf (head.render ++ rest) = some head.start.length := by
    rw [hsplit]
    exact find_delim cr_ne_lf hlf _
  unfold firstLine
  rw [hfind, hsplit]
  exact List.take_left

/-- **The status line** of a response that parses is one of the protocol, and the `:status` of an
HTTP/2 response a number of three digits, exactly if the bytes the parser skips are right and the
code has no sign. -/
theorem status_line_grammar (h : Parses response parsed resp) :
    (StatusLine (firstLine response) resp.status resp.reason ∧
      ∃ n < 1000, (h2ResponseHeaders resp).head? = some ⟨ascii ":status", decimal n, false⟩) ↔
      StatusChecks (firstLine response) := by
  obtain ⟨head, hr, heq⟩ := h.head
  have hline : firstLine response = head.start := by
    rw [heq]
    exact firstLine_render hr.start_lf _
  rw [hline, ← statusLine_sound_iff hr.status_eq]
  refine ⟨And.left, fun hs => ⟨hs, ?_⟩⟩
  obtain ⟨-, -, code, -, -, -, -, hlen, -, hstatus, -⟩ := hs
  refine ⟨digitsVal 10 code, ?_, ?_⟩
  · have := digitsVal_lt code
    rw [hlen] at this
    exact this
  · rw [h2ResponseHeaders, hstatus]
    rfl

theorem status_line_grammar_ok :
    Parses lowerResponse {} lowerRecord ∧
      StatusLine (firstLine lowerResponse) 200 (ascii "OK") := by
  have hchecks : StatusChecks (firstLine lowerResponse) := by
    unfold lowerResponse
    rw [ascii_ofList]
    decide
  exact ⟨parses_lowerResponse, ((status_line_grammar parses_lowerResponse).mpr hchecks).1⟩

/-- **The status reaches HTTP/2 clients** with its sign. -/
theorem status_line_grammar_signed :
    Parses signedResponse {} signedRecord ∧
      (h2ResponseHeaders signedRecord).head? = some ⟨ascii ":status", ascii "-12", false⟩ :=
  ⟨parses_samples.2.1, by decide⟩

/-! ## A length -/

/-- **The end of a response with a length** is found exactly, unless the length and that of the head
do not fit into 64 bits together. -/
theorem content_length_exact (h : Parses response parsed resp) (hchunked : resp.chunked = false)
    (hlen : hasContentLength resp = true) :
    ((responseComplete response parsed).1 = true ↔
      resp.headerBytes + resp.contentLength ≤ response.length) ↔
      (resp.headerBytes + resp.contentLength < sizeMod ∨
        resp.headerBytes + resp.contentLength ≤ response.length) := by
  obtain ⟨head, hr, -⟩ := h.head
  have hn := hr.contentLength_lt
  have hle := parseAnswer_headerBytes_le h.answer
  have hcode : (responseComplete response parsed).1 = true ↔
      (resp.headerBytes + resp.contentLength) % sizeMod ≤ response.length := by
    rw [h.complete]
    simp [bodyReceived, hchunked, hlen]
  rw [hcode]
  by_cases hfit : resp.headerBytes + resp.contentLength < sizeMod
  · rw [Nat.mod_eq_of_lt hfit]
    exact iff_of_true Iff.rfl (Or.inl hfit)
  · -- the sum wraps around to less than the head
    have hwrap : (resp.headerBytes + resp.contentLength) % sizeMod ≤ response.length := by
      rw [Nat.mod_eq_sub_mod (Nat.le_of_not_lt hfit)]
      exact (Nat.mod_le _ _).trans (by omega)
    rw [iff_true_left hwrap, or_iff_right hfit]

theorem content_length_exact_small :
    Parses lowerResponse {} lowerRecord ∧
      ((responseComplete lowerResponse {}).1 = true ↔
        lowerRecord.headerBytes + lowerRecord.contentLength ≤ lowerResponse.length) :=
  ⟨parses_lowerResponse, (content_length_exact parses_lowerResponse rfl (by decide)).mpr
    (Or.inl (by decide))⟩

/-- **The sum wraps around**, and the response is complete without its body. -/
theorem content_length_exact_wraps :
    Parses hugeResponse {} hugeRecord ∧ (responseComplete hugeResponse {}).1 = true ∧
      hugeResponse.length < hugeRecord.headerBytes + hugeRecord.contentLength := by
  have h : Parses hugeResponse {} hugeRecord := parses_samples.2.2.1
  refine ⟨h, ?_⟩
  rw [h.complete, hugeResponse, ascii_ofList]
  decide +kernel

/-! ## Chunks -/

/-- The bytes `response_complete` looks for are in the rest of the response: a last chunk written
`0`, or a line that starts with `0;`, which may also be the first one. -/
def marked (rest : Bytes) : Bool :=
  contains (ascii "\r\n0\r\n\r\n") rest || contains (ascii "\r\n0;") (crlf ++ rest)

/-- Whether a chunked response is complete is read off its body alone. -/
theorem Parses.complete_chunked (h : Parses response parsed resp) (hchunked : resp.chunked = true) :
    (responseComplete response parsed).1 = marked (response.drop resp.headerBytes) := by
  obtain ⟨head, hr, heq⟩ := h.head
  have hext : contains (ascii "\r\n0;") response =
      contains (ascii "\r\n0;") (crlf ++ response.drop resp.headerBytes) := by
    conv_lhs => rw [heq]
    exact hr.contains_behind (by decide) (by decide) (by decide) _
  rw [h.complete, bodyReceived, if_pos hchunked, hext, findFrom, Option.isSome_map]
  rfl

theorem marked_eq_true_iff {rest : Bytes} :
    marked rest = true ↔ endMark <:+: rest ∨ extensionMark <:+: crlf ++ rest := by
  rw [marked, Bool.or_eq_true, contains_iff, contains_iff]
  rfl

/-- **The end of a chunked response** is found exactly if the last chunk of a body has an extension,
or is written `0` behind another chunk and without trailers, and nothing that looks like one is in
the data or in the bytes of a body that is not all there. -/
theorem chunked_complete (h : Parses response parsed resp) (hchunked : resp.chunked = true) :
    let rest := response.drop resp.headerBytes
    (∃ chunks tail, InChunks rest chunks tail) ∧ ∀ chunks tail, InChunks rest chunks tail →
      (((responseComplete response parsed).1 = true ↔
        ∃ body behind, rest = body ++ behind ∧ ChunkedBody body) ↔
        (∀ line trailers behind, LastChunk line trailers →
          tail = joinLines cr lf (line :: trailers) ++ crlf ++ behind →
            EndSeen chunks line trailers behind) ∧
        ((∀ line trailers behind, LastChunk line trailers →
          tail ≠ joinLines cr lf (line :: trailers) ++ crlf ++ behind) →
            Unmarked chunks tail)) := by
  intro rest
  refine ⟨exists_inChunks rest.length rest (Nat.le_refl _), fun chunks tail hsplit => ?_⟩
  rw [h.complete_chunked hchunked, marked_eq_true_iff]
  exact hsplit.search_iff

/-- A chunked response with some body. -/
def chunkedResponse (body : String) : Bytes := chunkedHead ++ ascii body

theorem length_chunkedHead : chunkedHead.length = chunkedRecord.headerBytes := by
  rw [chunkedHead, ascii_ofList]
  rfl

theorem drop_chunkedResponse (body : String) :
    (chunkedResponse body).drop chunkedRecord.headerBytes = ascii body :=
  List.drop_left' length_chunkedHead

theorem parses_chunkedResponse (body : String) :
    Parses (chunkedResponse body) {} chunkedRecord := by
  refine parses_samples.2.2.2.of_head ?_ {}
  rw [← length_chunkedHead, List.take_length]
  exact List.prefix_append _ _

/-- A response that ends as most do. -/
def usualResponse : Bytes := chunkedResponse "2\r\nhi\r\n0\r\n\r\n"

theorem usualResponse_chunks :
    InChunks (usualResponse.drop chunkedRecord.headerBytes) [⟨ascii "2", ascii "hi"⟩]
      (joinLines cr lf [ascii "0"] ++ crlf ++ []) := by
  refine ⟨?_, ?_, fun c hc hpre => ?_⟩
  · rw [usualResponse, drop_chunkedResponse]
    decide +kernel
  · exact List.forall_mem_singleton.mpr ⟨by decide, by decide, by decide⟩
  · obtain ⟨r, hr⟩ := hpre
    exact LastChunk.not_chunk ⟨by decide, by decide, List.forall_mem_nil _⟩ hc hr

theorem chunked_complete_usual :
    Parses usualResponse {} chunkedRecord ∧
      ((responseComplete usualResponse {}).1 = true ↔ ∃ body behind,
        usualResponse.drop chunkedRecord.headerBytes = body ++ behind ∧ ChunkedBody body) := by
  have hparses : Parses usualResponse {} chunkedRecord := parses_chunkedResponse _
  refine ⟨hparses, ((chunked_complete hparses rfl).2 _ _ usualResponse_chunks).mpr ⟨?_, ?_⟩⟩
  · intro line trailers behind hlast htail
    have hsplit : ascii "0" ++ crlf ++ crlf =
        line ++ crlf ++ (joinLines cr lf trailers ++ crlf ++ behind) := by
      simpa [crlf] using htail
    obtain ⟨rfl, hrest⟩ := line_unique (by decide) hlast.line hsplit
    have hempty : crlf <+: joinLines cr lf trailers ++ (crlf ++ behind) := by
      rw [← List.append_assoc, ← hrest]
    have hnone : trailers = [] := (crlf_prefix_trailers hlast.trailers).mp hempty
    exact Or.inl (Or.inr ⟨List.cons_ne_nil _ _, rfl, hnone⟩)
  · exact fun hnone =>
      absurd rfl (hnone _ [] [] ⟨by decide, by decide, List.forall_mem_nil _⟩)

/-- **Two bytes of data end a response** of which most is missing; a response without data, or with
a trailer, is not seen to end. -/
theorem chunked_complete_fails :
    (∀ body, Parses (chunkedResponse body) {} chunkedRecord ∧
      (chunkedResponse body).drop chunkedRecord.headerBytes = ascii body) ∧
    ((responseComplete (chunkedResponse "ff\r\n0;") {}).1 = true ∧
      dechunk (ascii "ff\r\n0;") = none) ∧
    ((responseComplete (chunkedResponse "0\r\n\r\n") {}).1 = false ∧
      dechunk (ascii "0\r\n\r\n") = some ([], [])) ∧
    (responseComplete (chunkedResponse "2\r\nhi\r\n0\r\nt: 1\r\n\r\n") {}).1 = false ∧
      dechunk (ascii "2\r\nhi\r\n0\r\nt: 1\r\n\r\n") = some (ascii "hi", []) := by
  have hcode : ∀ body, (responseComplete (chunkedResponse body) {}).1 = marked (ascii body) := by
    intro body
    rw [(parses_chunkedResponse body).complete_chunked rfl, drop_chunkedResponse]
  simp only [hcode]
  exact ⟨fun body => ⟨parses_chunkedResponse body, drop_chunkedResponse body⟩, by decide +kernel⟩

end

/-! ## Reading a message -/

section

variable {turns : List ReadTurn} {bytes : Bytes} {resp : HttpResponse}

/-- A response with a length that fits is complete as soon as its bytes are there. -/
theorem isComplete_of_length (hp : parseAnswer bytes = (.complete, resp))
    (hchunked : resp.chunked = false) (hlen : hasContentLength resp = true)
    (hfit : resp.headerBytes + resp.contentLength < sizeMod) :
    isComplete bytes = true ↔ resp.headerBytes + resp.contentLength ≤ bytes.length := by
  unfold isComplete
  rw [hp]
  simp [bodyReceived, hchunked, hlen, Nat.mod_eq_of_lt hfit]

/-- **`read_response` returns one message** with a length exactly if one of its reads ended where
the message ends. -/
theorem read_one_message (hok : (readResponse turns).result = .ok bytes)
    (hp : parseAnswer bytes = (.complete, resp)) (hchunked : resp.chunked = false)
    (hlen : hasContentLength resp = true)
    (hfit : resp.headerBytes + resp.contentLength < sizeMod) :
    bytes.length = resp.headerBytes + resp.contentLength ↔
      ∃ k, (∀ t ∈ turns.take k, t.GoesOn) ∧
        (received (turns.take k)).length = resp.headerBytes + resp.contentLength := by
  obtain ⟨m, hpast, hstop, hbytes, hcomplete⟩ : ∃ m, ReadsPast turns m ∧ StopsAt turns m ∧
      bytes = received (turns.take m) ∧ (Unfinished bytes ∨ isComplete bytes = true) := by
    obtain ⟨m, hpast, hstop, hexit⟩ := readResponse_stops turns
    refine ⟨m, hpast, hstop, ?_⟩
    rcases hexit with ⟨hc, heq⟩ | ⟨hu, -, heq⟩ | ⟨hu, -, heq⟩ | ⟨e, heq⟩ <;> rw [heq] at hok <;>
      cases hok
    · exact ⟨rfl, Or.inr hc⟩
    · exact ⟨rfl, Or.inl hu⟩
    · exact ⟨rfl, Or.inl hu⟩
  constructor
  · intro heq
    exact ⟨m, hpast.goesOn, hbytes ▸ heq⟩
  · rintro ⟨k, hgoes, hk⟩
    rcases Nat.lt_trichotomy k m with hlt | rfl | hlt
    · -- the loop went on behind the end of the message, where it had a complete response
      have hpre : received (turns.take k) <+: bytes := hbytes ▸ received_take_prefix turns hlt.le
      have hparses : Parses bytes {} resp := hp
      have hpart : parseAnswer (received (turns.take k)) = (.complete, resp) :=
        hparses.of_head (List.prefix_of_prefix_length_le (List.take_prefix _ _) hpre
          (by rw [List.length_take]; omega)) {}
      have hc := (isComplete_of_length hpart hchunked hlen hfit).mpr (Nat.le_of_eq hk.symm)
      exact absurd hc (Bool.eq_false_iff.mp (hpast.unfinished k hlt).1)
    · rw [hbytes, hk]
    · have hpre : bytes <+: received (turns.take k) := hbytes ▸ received_take_prefix turns hlt.le
      rcases hcomplete with hu | hc
      · -- no turn is left that could bring more
        have hall : turns.length ≤ m := by
          by_contra hm
          have hm : m < turns.length := Nat.lt_of_not_le hm
          refine hstop (hbytes ▸ hu) turns[m] (List.getElem?_eq_getElem hm) (hgoes _ ?_)
          exact List.mem_take_iff_getElem.mpr ⟨m, by omega, rfl⟩
        rw [hbytes, ← hk, List.take_of_length_le hall, List.take_of_length_le (hall.trans hlt.le)]
      · have hle := (isComplete_of_length hp hchunked hlen hfit).mp hc
        exact Nat.le_antisymm (hk ▸ hpre.length_le) hle

theorem read_one_message_whole :
    let turns : List ReadTurn := [{ recv := .bytes lowerResponse }]
    (readResponse turns).result = .ok lowerResponse ∧
      lowerResponse.length = lowerRecord.headerBytes + lowerRecord.contentLength := by
  intro turns
  have hok : (readResponse turns).result = .ok lowerResponse := by
    unfold turns lowerResponse
    rw [ascii_ofList]
    decide +kernel
  refine ⟨hok, (read_one_message hok parses_lowerResponse rfl (by decide) (by decide)).mpr
    ⟨1, fun t ht => ?_, length_lowerResponse⟩⟩
  rw [List.mem_singleton.mp ht]
  have hne : lowerResponse ≠ [] :=
    List.ne_nil_of_length_pos (by rw [length_lowerResponse]; decide)
  exact ⟨rfl, fun h => hne (Recv.bytes.inj h), fun _ => Recv.noConfusion⟩

/-- **A body cut short is returned as it is**, and so are bytes behind a message. -/
theorem read_one_message_cut :
    let short : Bytes := lowerResponse.take 39
    let long : Bytes := lowerResponse ++ ascii "HTTP/1.1 500 "
    (readResponse [{ recv := .bytes short }, { recv := .bytes [] }]).result = .ok short ∧
      (readResponse [{ recv := .bytes long }]).result = .ok long ∧
      ∀ bytes ∈ [short, long], Parses bytes {} lowerRecord ∧
        bytes.length ≠ lowerRecord.headerBytes + lowerRecord.contentLength := by
  intro short long
  have hread : (readResponse [{ recv := .bytes short }, { recv := .bytes [] }]).result = .ok short ∧
      (readResponse [{ recv := .bytes long }]).result = .ok long := by
    unfold short long lowerResponse
    rw [ascii_ofList]
    decide +kernel
  refine ⟨hread.1, hread.2, fun bytes hb => ?_⟩
  rcases List.mem_pair.mp hb with rfl | rfl
  · refine ⟨parses_lowerResponse.of_head (List.take_prefix_take_left (by decide)) {}, ?_⟩
    rw [List.length_take, length_lowerResponse]
    decide
  · refine ⟨parses_lowerResponse.of_head ?_ {}, ?_⟩
    · exact (List.take_prefix _ _).trans (List.prefix_append _ _)
    · rw [List.length_append, length_lowerResponse]
      decide

end

/-! ## The body over HTTP/2 -/

/-- The rest of the response is a complete body, and this is its content. -/
def HttpResponse.Content (resp : HttpResponse) (rest content : Bytes) : Prop :=
  if resp.chunked then Carries rest content
  else hasContentLength resp = true ∧ rest.length = resp.contentLength ∧ content = rest

/-- The bytes in the `DATA` frames. -/
def dataOf (frames : List H2Frame) : Bytes :=
  (frames.filter fun f => f.type = .data).flatMap H2Frame.payload

/-- The frames of a stream carry a content, and every length announced with them is its length. -/
structure Delivers (frames : List H2Frame) (resp : HttpResponse) (content : Bytes) : Prop where
  data_eq   : dataOf frames = content
  length_eq : ∀ f ∈ frames, f.type = .headers → ∀ h ∈ h2ResponseHeaders resp,
    lower h.name = ascii "content-length" → digitsVal 10 h.value = (dataOf frames).length

/-- The headers made of a response fit into one frame. -/
def HeadersFit (resp : HttpResponse) : Prop :=
  ((h2ResponseHeaders resp).flatMap encodeHeader).length ≤ h2MaxFrameSize

instance instDecidableHeadersFit (resp : HttpResponse) : Decidable (HeadersFit resp) :=
  inferInstanceAs (Decidable (_ ≤ _))

theorem dataOf_responseFrames {id : Nat} {headers : List HpackHeader} (h : Sendable id headers)
    (body : Bytes) : dataOf (responseFrames id headers body true) = body := by
  have hall : ∀ f ∈ dataFrames id true h2MaxFrameSize body.length body, _ :=
    dataFrames_fits h.1.2 body.length body
  unfold dataOf
  rw [responseFrames, List.filter_cons_of_neg (by simp [blockFrame]),
    List.filter_eq_self.mpr fun f hf => by simp [(hall f hf).2.1]]
  exact responseFrames_data id headers body true

/-- Every length that is passed on is the one of the response. -/
theorem ResponseHead.Reads.passed_length {head : ResponseHead} {resp : HttpResponse}
    (hr : head.Reads resp) {h : HpackHeader} (hh : h ∈ h2ResponseHeaders resp)
    (hname : lower h.name = ascii "content-length") :
    digitsVal 10 h.value = resp.contentLength := by
  rcases List.mem_cons.mp hh with rfl | hh
  · exact absurd (show lower (ascii ":status") = ascii "content-length" from hname) (by decide)
  · obtain ⟨f, hf, rfl⟩ := List.mem_map.mp hh
    exact (hr.length_field (List.mem_filter.mp hf).1 hname).1

section Answer

variable {id : Nat} {bytes : Bytes} {resp : HttpResponse}

/-- What the `DATA` frames of one answer carry. -/
theorem dataOf_answerFrames (hid : 0 < id ∧ id < 2 ^ 31)
    (hp : parseAnswer bytes = (.complete, resp))
    (hnames : ∀ h ∈ passedFields resp, hasUppercase h.name = false) :
    dataOf (answerFrames (id, .response bytes)) =
      if HeadersFit resp then bytes.drop resp.headerBytes else [] := by
  have hresp : h2Response (.response bytes) =
      (h2ResponseHeaders resp, bytes.drop resp.headerBytes) := by
    simp only [h2Response, hp]
  have hlower : ∀ h ∈ h2ResponseHeaders resp, hasUppercase h.name = false := by
    have hstatus : hasUppercase (ascii ":status") = false := by decide
    simpa [h2ResponseHeaders, hstatus] using hnames
  unfold answerFrames
  simp only [hresp]
  by_cases hfit : HeadersFit resp
  · have hsend : Sendable id (h2ResponseHeaders resp) := ⟨hid, hlower, hfit⟩
    rw [if_pos hsend, if_pos hfit]
    exact dataOf_responseFrames hsend (bytes.drop resp.headerBytes)
  · rw [if_neg (fun hs : Sendable id (h2ResponseHeaders resp) => hfit hs.2.2), if_neg hfit]
    rfl

theorem answerFrames_delivers_iff {content : Bytes} (hid : 0 < id ∧ id < 2 ^ 31)
    (hp : parseAnswer bytes = (.complete, resp))
    (hcontent : resp.Content (bytes.drop resp.headerBytes) content)
    (hnames : ∀ h ∈ passedFields resp, hasUppercase h.name = false) :
    Delivers (answerFrames (id, .response bytes)) resp content ↔
      if HeadersFit resp then resp.chunked = false else content = [] := by
  have hparses : Parses bytes {} resp := hp
  obtain ⟨head, hr, -⟩ := hparses.head
  have hdata := dataOf_answerFrames hid hp hnames
  unfold HttpResponse.Content at hcontent
  by_cases hfit : HeadersFit resp
  · rw [if_pos hfit] at hdata ⊢
    constructor
    · intro hd
      by_contra hchunked
      rw [if_pos (Bool.not_eq_false _ ▸ hchunked)] at hcontent
      have hlt := hcontent.length_lt
      rw [← hd.data_eq, hdata] at hlt
      exact Nat.lt_irrefl _ hlt
    · intro hchunked
      rw [if_neg (by simp [hchunked])] at hcontent
      obtain ⟨-, hlen, rfl⟩ := hcontent
      refine ⟨hdata, fun _ _ _ h hh hname => ?_⟩
      rw [hdata, hlen]
      exact hr.passed_length hh hname
  · rw [if_neg hfit] at hdata ⊢
    have hnone : answerFrames (id, .response bytes) = [] := by
      refine if_neg fun hs => hfit ?_
      simp only [h2Response, hp] at hs
      exact hs.2.2
    rw [hnone]
    exact ⟨fun hd => hd.data_eq.symm, fun h0 => ⟨h0.symm, fun f hf => absurd hf List.not_mem_nil⟩⟩

end Answer

/-- **HTTP/2 clients receive the content** of a complete response whose names can be encoded exactly
if it is not chunked, as long as its headers fit into one frame; if they do not, nothing is sent. -/
theorem h2_body_content {calls : List (H2Conn × H2Conn.Op)} {c c₁ : H2Conn} {ready : List Nat}
    (h : H2Conn.Reach true calls c) (hp : c.process = (.ok ready, c₁)) (s : ProxyServer)
    (sys : Nat → Attempt × Attempt) :
    let r := serveStreams s sys c₁.toH2Core ready
    ∃ out, r.core.sendBuf = c₁.sendBuf ++ out ∧
      ∀ id bytes resp content, (id, .response bytes) ∈ r.answers →
        parseAnswer bytes = (.complete, resp) →
        resp.Content (bytes.drop resp.headerBytes) content →
        (∀ f ∈ passedFields resp, hasUppercase f.name = false) →
        (Delivers ((framesIn out).filter fun f => f.streamId = id) resp content ↔
          if HeadersFit resp then resp.chunked = false else content = []) := by
  intro r
  obtain ⟨-, out, hout, hstreams⟩ := serveStreams_out h hp s sys
  refine ⟨out, hout, fun id bytes resp content hmem hparse hcontent hnames => ?_⟩
  obtain ⟨hid, hframes⟩ := hstreams _ hmem
  rw [hframes]
  exact answerFrames_delivers_iff hid hparse hcontent hnames

/-- A response with a length gets through. -/
theorem h2_body_content_length :
    (sampleServed lowerResponse).answers = [(1, .response lowerResponse)] ∧
      ∃ out, (sampleServed lowerResponse).core.sendBuf = sampleClient.process.2.sendBuf ++ out ∧
        Delivers ((framesIn out).filter fun f => f.streamId = 1) lowerRecord (ascii "hi") := by
  have hmem : (1, .response lowerResponse) ∈ (sampleServed lowerResponse).answers := by
    rw [sampleServed_answers]
    exact List.mem_singleton_self _
  have hcontent : lowerRecord.Content (lowerResponse.drop lowerRecord.headerBytes)
      (ascii "hi") := by
    rw [HttpResponse.Content, if_neg (by decide), lowerResponse, ascii_ofList]
    decide
  have hfit : HeadersFit lowerRecord := by decide +kernel
  obtain ⟨out, hout, hall⟩ :=
    h2_body_content sampleClient_reach sampleClient_process sampleProxy (responds lowerResponse)
  refine ⟨sampleServed_answers _, out, hout, (hall 1 lowerResponse lowerRecord (ascii "hi") hmem
    parses_lowerResponse hcontent (by decide)).mpr ?_⟩
  rw [if_pos hfit]
  rfl

/-- **The encoded body of a chunked response** is passed on as its content. -/
theorem h2_body_content_chunked :
    (sampleServed usualResponse).answers = [(1, .response usualResponse)] ∧
      dechunk (usualResponse.drop chunkedRecord.headerBytes) = some (ascii "hi", []) ∧
      ∃ out, (sampleServed usualResponse).core.sendBuf = sampleClient.process.2.sendBuf ++ out ∧
        dataOf ((framesIn out).filter fun f => f.streamId = 1) =
          ascii "2\r\nhi\r\n0\r\n\r\n" := by
  have hparse : parseAnswer usualResponse = (.complete, chunkedRecord) := parses_chunkedResponse _
  have hfit : HeadersFit chunkedRecord := by decide +kernel
  obtain ⟨-, out, hout, hframes⟩ :=
    serveStreams_out sampleClient_reach sampleClient_process sampleProxy (responds usualResponse)
  obtain ⟨hid, hstream⟩ := hframes (1, .response usualResponse) (by
    rw [show serveStreams _ _ _ _ = sampleServed usualResponse from rfl, sampleServed_answers]
    exact List.mem_singleton_self _)
  refine ⟨sampleServed_answers _, ?_, out, hout, ?_⟩
  · rw [usualResponse, drop_chunkedResponse]
    decide +kernel
  · rw [hstream, dataOf_answerFrames hid hparse (by decide), if_pos hfit]
    exact drop_chunkedResponse _

end Uproxy
