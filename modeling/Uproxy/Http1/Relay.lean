import Uproxy.Http1.Response
import Uproxy.Http1.Serializer

/-!
# Heads that are passed on

Both writers drop the fields that are for one connection, write the others as `name: value`, and add
a `Via`. What they write is read back by the parsers of the next party: the fields here, for
requests and responses, and the whole head of a response. Chains of requests are in `Proxy.Chain`.

`write_response` writes the status as a number, so a status line of which the parser accepts three
bytes may come out with fewer (`007` is written `7`), and it drops `Transfer-Encoding`.

* `Field.WF.relayed`: a field that was read is read again, with the same value;
* `statusLine_relay`: the status line that is written, as the parser reads it;
* **`response_relayed_iff`**: what the next party reads of a response that was read and written.
-/

namespace Uproxy

open Lib.Search

/-! ## Fields -/

/-- A field as the serializer writes it. -/
def HttpHeader.field (x : HttpHeader) : Field := ⟨x.name, sp :: x.value⟩

/-- The field every proxy adds. -/
def viaField : Field := ⟨ascii "Via", ascii " 1.1 uproxy"⟩

theorem viaField_wf : viaField.WF :=
  ⟨by decide +kernel, by decide +kernel, by decide +kernel, by decide +kernel, by decide +kernel⟩

theorem header_field (f : Field) : f.header.field.header = f.header := by
  show HttpHeader.mk f.name (trimOws (trimOws f.raw)) = ⟨f.name, trimOws f.raw⟩
  rw [trimOws_trimOws]

/-- A field that was read is read again. -/
theorem Field.WF.relayed {f : Field} (h : f.WF) : f.header.field.WF := by
  refine ⟨h.name_ne, h.name_len, h.name_token, ?_, ?_⟩
  · exact List.forall_mem_cons.mpr ⟨Or.inl (by decide), fun c hc => h.raw_valid c (mem_trimOws hc)⟩
  · show (trimOws (sp :: trimOws f.raw)).length ≤ _
    rw [trimOws_sp, trimOws_trimOws]
    exact h.value_len

/-- The fields that are kept are fields that were read. -/
theorem mem_kept {skips : List Bytes} {fs : List Field} {x : HttpHeader}
    (hx : x ∈ keptFields skips (fs.map Field.header)) : ∃ f ∈ fs, f.header = x :=
  List.mem_map.mp (List.mem_filter.mp hx).1

theorem map_header_kept (skips : List Bytes) (fs : List Field) :
    ((keptFields skips (fs.map Field.header)).map HttpHeader.field).map Field.header =
      keptFields skips (fs.map Field.header) := by
  rw [List.map_map]
  refine (List.map_congr_left fun x hx => ?_).trans (List.map_id _)
  obtain ⟨f, -, rfl⟩ := mem_kept hx
  exact header_field f

/-! ## The status line -/

theorem fromCharsInt_decimalInt {status : Int} (h : -99 ≤ status) (h' : status ≤ 999) :
    fromCharsInt (decimalInt status) = some (status, []) := by
  obtain ⟨hnum, hval⟩ := decimal_spec status.natAbs
  refine fromCharsInt_eq_some_nil.mpr ⟨?_, by omega, by omega⟩
  unfold decimalInt
  split_ifs with hneg
  · refine Or.inr ⟨decimal status.natAbs, rfl, hnum, ?_⟩
    rw [hval]
    omega
  · refine Or.inl ⟨hnum, ?_⟩
    rw [List.nil_append, hval]
    omega

theorem length_decimal : ∀ n ≤ 999,
    (decimal n).length = if n ≤ 9 then 1 else if n ≤ 99 then 2 else 3 := by
  decide +kernel

/-- A status that takes three characters. -/
theorem length_decimalInt {status : Int} (h : -99 ≤ status) (h' : status ≤ 999) :
    (decimalInt status).length ≤ 3 ∧
      ((decimalInt status).length = 3 ↔ 100 ≤ status ∨ status ≤ -10) := by
  have hlen := length_decimal status.natAbs (by omega)
  unfold decimalInt
  rw [List.length_append, hlen]
  by_cases hneg : status < 0
  · rw [if_pos hneg, List.length_singleton]
    split_ifs <;> omega
  · rw [if_neg hneg, List.length_nil]
    split_ifs <;> omega

/-- No number has a space in it. -/
theorem fromCharsInt_sp {code : Bytes} {status : Int} (h : sp ∈ code) :
    fromCharsInt code ≠ some (status, []) := by
  have hdigit : isDigit sp = false := by decide
  intro hc
  rcases (fromCharsInt_eq_some_nil.mp hc).1 with ⟨hn, -⟩ | ⟨t, rfl, hn, -⟩
  · have := (isNumeral_iff.mp hn).2 sp h
    rw [hdigit] at this
    cases this
  · have := (isNumeral_iff.mp hn).2 sp ((List.mem_cons.mp h).resolve_left (by decide))
    rw [hdigit] at this
    cases this

/-- **The status line that is written** is read if the status takes three characters. -/
theorem statusLine_relay {status : Int} (h : -99 ≤ status) (h' : status ≤ 999) (reason : Bytes)
    {status' : Int} {reason' : Bytes} :
    statusLine (ascii "HTTP/1.1 " ++ decimalInt status ++ sp :: reason) = some (status', reason') ↔
      (100 ≤ status ∨ status ≤ -10) ∧ status' = status ∧ reason' = reason := by
  have hversion : ascii "HTTP/1.1 " = ascii "HTTP/" ++ ascii "1.1 " := by decide
  obtain ⟨hle, hthree⟩ := length_decimalInt h h'
  rw [statusLine_eq_some_iff, ← hthree]
  constructor
  · rintro ⟨version, code, tail, heq, hv, hc, hcode, rfl⟩
    rw [hversion, List.append_assoc, List.append_assoc, List.append_assoc, List.append_assoc] at heq
    obtain ⟨-, heq⟩ := List.append_inj (List.append_cancel_left heq) (by rw [hv]; rfl)
    by_cases hlen : (decimalInt status).length = 3
    · obtain ⟨rfl, rfl⟩ := List.append_inj heq (by rw [hlen, hc])
      rw [fromCharsInt_decimalInt h h'] at hcode
      obtain ⟨rfl, -⟩ := Prod.mk.inj (Option.some.inj hcode)
      exact ⟨hlen, rfl, rfl⟩
    · -- the space behind the number is among the three bytes
      have hlt : (decimalInt status).length < code.length := by omega
      have hsp : code[(decimalInt status).length]? = some sp := by
        have hget := congrArg (fun l => l[(decimalInt status).length]?) heq
        simp only [List.getElem?_append_right (Nat.le_refl _), Nat.sub_self,
          List.getElem?_cons_zero, List.getElem?_append_left hlt] at hget
        exact hget.symm
      exact absurd hcode (fromCharsInt_sp (List.mem_of_getElem? hsp))
  · rintro ⟨hlen, rfl, rfl⟩
    refine ⟨ascii "1.1 ", decimalInt status', sp :: reason', ?_, rfl, hlen,
      fromCharsInt_decimalInt h h', rfl⟩
    rw [hversion]

/-- The statuses the parser reads. -/
theorem ResponseHead.Reads.status_range {h : ResponseHead} {resp : HttpResponse}
    (hr : h.Reads resp) : -99 ≤ resp.status ∧ resp.status ≤ 999 := by
  obtain ⟨version, code, tail, -, -, hlen, hcode, -⟩ := statusLine_eq_some_iff.mp hr.status_eq
  rcases (fromCharsInt_eq_some_nil.mp hcode).1 with ⟨-, hs⟩ | ⟨t, rfl, -, hs⟩
  · have := digitsVal_lt code
    rw [hlen] at this
    omega
  · have := digitsVal_lt t
    rw [show t.length = 2 from Nat.succ.inj hlen] at this
    omega

/-! ## Responses -/

/-- The head that `write_response` writes. -/
def relayHead (resp : HttpResponse) : ResponseHead where
  start := ascii "HTTP/1.1 " ++ decimalInt resp.status ++ sp :: resp.reason
  fields := (keptFields responseSkips resp.headers).map HttpHeader.field ++ [viaField]

/-- The response the next party reads. -/
def HttpResponse.relayed (resp : HttpResponse) : HttpResponse where
  status := resp.status
  reason := resp.reason
  headers := keptFields responseSkips resp.headers ++ [viaField.header]
  contentLength := resp.contentLength
  chunked := false
  headerBytes := (relayHead resp).render.length

theorem responseHead_relay {h : ResponseHead} {resp : HttpResponse} (hr : h.Reads resp) :
    responseHead resp = .ok (relayHead resp).render := by
  have hvalid : ∀ x ∈ keptFields responseSkips resp.headers, validHeaderValue x.value = true := by
    intro x hx
    rw [hr.headers_eq] at hx
    obtain ⟨f, hf, rfl⟩ := mem_kept hx
    exact validHeaderValue_iff.mpr fun c hc =>
      (hr.fields_wf.fields_wf f hf).raw_valid c (mem_trimOws hc)
  have hline : Field.line ∘ HttpHeader.field = fieldText := rfl
  have hvia : ascii "Via: 1.1 uproxy" = viaField.line := by decide +kernel
  unfold responseHead
  rw [writeFields_eq_ok_iff.mpr ⟨hvalid, rfl⟩]
  show Except.ok _ = Except.ok _
  simp only [ResponseHead.render, relayHead, decimalInt, List.map_append, List.map_map, hline]
  simp [joinLines_cons, joinLines_append, crlf, crlfcrlf, hvia]

/-- The head that is written, up to the number of its fields. -/
theorem relayHead_lines {h : ResponseHead} {resp : HttpResponse} (hr : h.Reads resp) :
    lf ∉ (relayHead resp).start ∧ ∀ f ∈ (relayHead resp).fields, f.WF := by
  constructor
  · obtain ⟨version, code, tail, hstart, -, -, -, hreason⟩ :=
      statusLine_eq_some_iff.mp hr.status_eq
    have hlf := hr.start_lf
    rw [hstart, List.mem_append, not_or] at hlf
    have hdec : lf ∉ decimal resp.status.natAbs := decimal_not_mem (by decide) _
    have hreason : lf ∉ resp.reason := fun hm => hlf.2 (List.mem_of_mem_drop (hreason ▸ hm))
    have hversion : lf ∉ ascii "HTTP/1.1 " := by decide
    have hminus : lf ≠ 45 := by decide
    have hsp : lf ≠ sp := by decide
    unfold relayHead decimalInt
    split_ifs <;> simp [hdec, hreason, hversion, hminus, hsp]
  · intro f hf
    rcases List.mem_append.mp hf with hf | hf
    · obtain ⟨x, hx, rfl⟩ := List.mem_map.mp hf
      rw [hr.headers_eq] at hx
      obtain ⟨g, hg, rfl⟩ := mem_kept hx
      exact (hr.fields_wf.fields_wf g hg).relayed
    · rw [List.mem_singleton.mp hf]
      exact viaField_wf

theorem headers_relayHead {h : ResponseHead} {resp : HttpResponse} (hr : h.Reads resp) :
    (relayHead resp).headers = resp.relayed.headers := by
  show List.map Field.header (_ ++ _) = _
  rw [List.map_append, hr.headers_eq, ResponseHead.headers, map_header_kept, ← ResponseHead.headers,
    ← hr.headers_eq]
  rfl

/-- The lengths a response announces are kept, its codings are not. -/
theorem values_relayed (resp : HttpResponse) :
    values "content-length" resp.relayed.headers = values "content-length" resp.headers ∧
      values "transfer-encoding" resp.relayed.headers = [] := by
  have hvia : values "content-length" [viaField.header] = [] ∧
      values "transfer-encoding" [viaField.header] = [] := by decide +kernel
  show values _ (_ ++ _) = _ ∧ values _ (_ ++ _) = _
  rw [values_append, values_append, hvia.1, hvia.2, List.append_nil, List.append_nil]
  exact ⟨values_keptFields (by decide +kernel) _, values_keptFields_skipped (by decide +kernel) _⟩

/-- **The head that is written** is read as the response, if its fields are not too many and the
status takes three characters. -/
theorem relayHead_reads_iff {h : ResponseHead} {resp resp' : HttpResponse} (hr : h.Reads resp) :
    (relayHead resp).Reads resp' ↔ (100 ≤ resp.status ∨ resp.status ≤ -10) ∧
      (keptFields responseSkips resp.headers).length < maxHeaderCount ∧ resp' = resp.relayed := by
  obtain ⟨hlow, hhigh⟩ := hr.status_range
  obtain ⟨hlf, hwf⟩ := relayHead_lines hr
  obtain ⟨hlengths, hcodings⟩ := values_relayed resp
  have hheaders := headers_relayHead hr
  have hcount : (relayHead resp).fields.length =
      (keptFields responseSkips resp.headers).length + 1 := by
    simp [relayHead]
  have hchunked : saysWord "transfer-encoding" "chunked" resp.relayed.headers = false := by
    unfold saysWord
    rw [hcodings]
    rfl
  have hlength : commonLength resp.relayed.headers = resp.contentLength := by
    rw [hr.contentLength_eq, ← hr.headers_eq]
    unfold commonLength
    rw [hlengths]
  constructor
  · rintro ⟨-, hfields, hstatus, h1, h2, h3, h4⟩
    obtain ⟨hthree, hs, hre⟩ := (statusLine_relay hlow hhigh resp.reason).mp hstatus
    refine ⟨hthree, ?_, ?_⟩
    · have := hfields.count_le
      omega
    · rw [hheaders] at h1 h2 h3
      cases resp'
      simp only at hs hre h1 h2 h3 h4
      subst hs hre h1 h4
      rw [h2, h3, hchunked, hlength]
      rfl
  · rintro ⟨hthree, hlt, rfl⟩
    have hold := hr.fields_wf
    have hvalues : values "content-length" ((relayHead resp).fields.map Field.header) =
        values "content-length" (h.fields.map Field.header) := by
      show values _ (relayHead resp).headers = values _ h.headers
      rw [hheaders, hlengths, hr.headers_eq]
    refine ⟨hlf, ⟨by omega, hwf, ?_, ?_, ?_⟩,
      (statusLine_relay hlow hhigh resp.reason).mpr ⟨hthree, rfl, rfl⟩, hheaders.symm, ?_, ?_, rfl⟩
    · rw [hvalues]
      exact hold.lengths
    · rw [hvalues]
      exact hold.lengths_same
    · intro _
      show saysWord _ _ (relayHead resp).headers = false
      rw [hheaders, hchunked]
    · rw [hheaders, hlength]
      rfl
    · rw [hheaders, hchunked]
      rfl

/-- **A response that is read, written and read again.** The next party reads the same status,
reason and length, the fields that are kept and a `Via`, or it refuses the response. -/
theorem response_relayed_iff {bytes : Bytes} {resp₀ resp : HttpResponse}
    (h : parseResponseHeaders bytes resp₀ = (.complete, resp)) :
    ∃ text, responseHead resp = .ok text ∧ ∀ (rest : Bytes) (resp₁ resp' : HttpResponse),
      parseResponseHeaders (text ++ rest) resp₁ = (.complete, resp') ↔
        (100 ≤ resp.status ∨ resp.status ≤ -10) ∧
        (keptFields responseSkips resp.headers).length < maxHeaderCount ∧
        text.length ≤ maxHeaderBytes ∧ resp' = resp.relayed := by
  obtain ⟨head, -, -, hr⟩ := parseResponseHeaders_complete_iff.mp h
  refine ⟨_, responseHead_relay hr, fun rest resp₁ resp' => ?_⟩
  rw [parseResponseHeaders_complete_iff]
  constructor
  · rintro ⟨head', ⟨tail, htail⟩, hlen, hr'⟩
    obtain ⟨hlf, hwf⟩ := relayHead_lines hr
    obtain ⟨hstart, hfields, -⟩ := fields_of_render hr'.start_lf
      (fun f hf => (hr'.fields_wf.fields_wf f hf).delimited) hlf
      (fun f hf => (hwf f hf).delimited) htail
    have heq : head' = relayHead resp := by
      cases head'
      simp_all
    rw [heq] at hr' hlen
    obtain ⟨h1, h2, h3⟩ := (relayHead_reads_iff hr).mp hr'
    exact ⟨h1, h2, hlen, h3⟩
  · rintro ⟨h1, h2, hlen, h3⟩
    exact ⟨relayHead resp, List.prefix_append _ _, hlen, (relayHead_reads_iff hr).mpr ⟨h1, h2, h3⟩⟩

/-- `200 OK` with a field that is dropped. -/
def sampleResponseBytes : Bytes :=
  ascii "HTTP/1.1 200 OK\r\nContent-Length: 2\r\nKeep-Alive: 5\r\n\r\nhi"

def sampleResponse : HttpResponse := (parseResponseHeaders sampleResponseBytes {}).2

theorem response_relayed_iff_ok :
    ∃ text, responseHead sampleResponse = .ok text ∧
      parseResponseHeaders (text ++ ascii "hi") {} = (.complete, sampleResponse.relayed) := by
  have hread : parseResponseHeaders sampleResponseBytes {} = (.complete, sampleResponse) := by
    decide +kernel
  have hwrite : responseHead sampleResponse = .ok (relayHead sampleResponse).render := by
    decide +kernel
  obtain ⟨text, htext, hnext⟩ := response_relayed_iff hread
  obtain rfl := Except.ok.inj (htext.symm.trans hwrite)
  exact ⟨_, hwrite,
    (hnext _ _ _).mpr ⟨by decide +kernel, by decide +kernel, by decide +kernel, rfl⟩⟩

end Uproxy
