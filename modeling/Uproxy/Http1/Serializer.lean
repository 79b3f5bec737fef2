import Uproxy.Http1.Grammar

/-!
# The HTTP/1 serializer (`Http1Serializer`)

`write_request` and `write_response` build their text in a string stream and append it to the
buffer, so each is a function giving the text (`requestHead`, `responseHead`) followed by
`RingBuffer::append`. `upstreamRequest` is what `forward_http1` sends: the head and then the body.

* `requestHead_eq_ok_iff`: the head is a list of lines, written for **any** request, also one whose
  parts hold line ends; only the field values are checked.
* `writeRequest_spec`, `buildUpstreamRequest_eq`: through the ring buffer the same bytes come out.
* `headFields` reads a head back as a receiver does: lines cut at CRLF, names at the first colon.
* `headFields_requestHead`: what a receiver sees of a written head.
-/

namespace Uproxy

open Lib.Search

/-! ## The code -/

/-- The digits of a number, most significant first. -/
def digitText (base n : Nat) : Bytes := (Nat.toDigits base n).map fun c => c.toNat.toUInt8

/-- `std::to_string`, and `operator<<` on an unsigned number. -/
def decimal (n : Nat) : Bytes := digitText 10 n

/-- The same on an `int`. -/
def decimalInt (n : Int) : Bytes := (if n < 0 then [45] else []) ++ decimal n.natAbs

/-- The fields `write_response` drops, by lower-case name. -/
def responseSkips : List Bytes :=
  [ascii "connection", ascii "keep-alive", ascii "proxy-authenticate",
    ascii "proxy-authorization", ascii "te", ascii "trailers", ascii "transfer-encoding",
    ascii "upgrade"]

/-- The fields `write_request` drops. -/
def requestSkips : List Bytes := ascii "host" :: responseSkips

/-- `name: value`. -/
def fieldText (h : HttpHeader) : Bytes := h.name ++ (ascii ": " ++ h.value)

/-- The field loop of both writers. -/
def writeFields (skips : List Bytes) : List HttpHeader → Result Bytes
  | [] => .ok []
  | h :: hs =>
    if skips.contains (lower h.name) then writeFields skips hs
    else if ¬ validHeaderValue h.value then
      .error (.fromCode .httpMalformed "invalid header value")
    else (writeFields skips hs).map fun t => fieldText h ++ crlf ++ t

/-- The text of `write_request`. -/
def requestHead (req : HttpRequest) (host : Bytes) : Result Bytes :=
  let sawContentLength := req.headers.any fun h => lower h.name == ascii "content-length"
  (writeFields requestSkips req.headers).map fun fields =>
    (req.method ++ sp :: (req.target ++ sp :: req.version)) ++ crlf ++
    (ascii "Host: " ++ host) ++ crlf ++ fields ++
    (if 0 < req.contentLength ∧ ¬ sawContentLength then
      ascii "Content-Length: " ++ decimal req.contentLength ++ crlf else []) ++
    ascii "Via: 1.1 uproxy" ++ crlfcrlf

/-- The text of `write_response`. -/
def responseHead (resp : HttpResponse) : Result Bytes :=
  (writeFields responseSkips resp.headers).map fun fields =>
    (ascii "HTTP/1.1 " ++ decimalInt resp.status ++ sp :: resp.reason) ++ crlf ++ fields ++
    ascii "Via: 1.1 uproxy" ++ crlfcrlf

/-- `Http1Serializer::write_request`. -/
def writeRequest (buf : RingBuffer) (req : HttpRequest) (host : Bytes) :
    Option (Result Unit × RingBuffer) :=
  match requestHead req host with
  | .error e => some (.error e, buf)
  | .ok text => buf.append text

/-- The first half of `forward_http1`, through its ring buffer: the bytes to send. -/
def buildUpstreamRequest (req : HttpRequest) (body host : Bytes) : Option (Result Bytes) :=
  match writeRequest (RingBuffer.new (65536 + body.length)) req host with
  | none => none
  | some (.error e, _) => some (.error e)
  | some (.ok (), buf) =>
    if body = [] then some (.ok (buf.peek buf.readable))
    else
      match buf.append body with
      | none => none
      | some (.error e, _) => some (.error e)
      | some (.ok (), buf) => some (.ok (buf.peek buf.readable))

/-- The bytes `forward_http1` sends, as a queue of bytes. -/
def upstreamRequest (req : HttpRequest) (body host : Bytes) : Result Bytes :=
  (requestHead req host).map (· ++ body)

/-! ## Decimal numbers -/

theorem digitVal_digitChar : ∀ base ≤ 16, ∀ d < base,
    digitVal base (Nat.digitChar d).toNat.toUInt8 = some d := by decide +kernel

theorem digitText_eq_if {base : Nat} (h1 : 1 < base) (n : Nat) :
    digitText base n =
      if n < base then [(Nat.digitChar n).toNat.toUInt8]
      else digitText base (n / base) ++ [(Nat.digitChar (n % base)).toNat.toUInt8] := by
  unfold digitText
  rw [Nat.toDigits_eq_if h1]
  split_ifs
  · rfl
  · rw [List.map_append]
    rfl

/-- **The digits are a numeral of the value**, in every base `digitChar` has letters for. -/
theorem digitText_spec {base : Nat} (h1 : 1 < base) (h16 : base ≤ 16) (n : Nat) :
    Numeral base (digitText base n) ∧ digitsVal base (digitText base n) = n := by
  induction n using Nat.strong_induction_on with
  | _ n ih =>
    rw [digitText_eq_if h1]
    split_ifs with h
    · have hd := digitVal_digitChar base h16 n h
      refine ⟨⟨List.cons_ne_nil _ _, List.forall_mem_singleton.mpr ?_⟩, ?_⟩
      · rw [hd]
        rfl
      · rw [digitsVal, List.foldl_cons, List.foldl_nil, hd]
        simp
    · have hlt : n % base < base := Nat.mod_lt n (by omega)
      have hd := digitVal_digitChar base h16 (n % base) hlt
      obtain ⟨hnum, hval⟩ := ih (n / base) (Nat.div_lt_self (by omega) h1)
      refine ⟨⟨List.append_ne_nil_of_left_ne_nil hnum.1 _, fun c hc => ?_⟩, ?_⟩
      · rcases List.mem_append.mp hc with hc | hc
        · exact hnum.2 c hc
        · rw [List.mem_singleton.mp hc, hd]
          rfl
      · unfold digitsVal at hval ⊢
        rw [List.foldl_append, hval, List.foldl_cons, List.foldl_nil, hd, Option.getD_some,
          Nat.mul_comm, Nat.div_add_mod]

theorem length_digitText_le {base k n : Nat} (h1 : 1 < base) (hk : 0 < k) (h : n < base ^ k) :
    (digitText base n).length ≤ k := by
  rw [digitText, List.length_map]
  exact (Nat.length_toDigits_le_iff h1 hk).mpr h

/-- `decimal` writes a numeral of its own value. -/
theorem decimal_spec (n : Nat) : isNumeral (decimal n) = true ∧ digitsVal 10 (decimal n) = n := by
  obtain ⟨hnum, hval⟩ := digitText_spec (show 1 < 10 by decide) (by decide) n
  exact ⟨numeral_ten_iff.mp hnum, hval⟩

theorem decimal_not_mem {c : UInt8} (hc : isDigit c = false) (n : Nat) : c ∉ decimal n := by
  have h := (decimal_spec n).1
  unfold isNumeral at h
  rw [Bool.and_eq_true, List.all_eq_true] at h
  intro hm
  rw [h.2 c hm] at hc
  exact Bool.noConfusion hc

/-! ## The head as lines -/

/-- The fields a writer keeps. -/
def keptFields (skips : List Bytes) (hs : List HttpHeader) : List HttpHeader :=
  hs.filter fun h => !skips.contains (lower h.name)

/-- The `Content-Length` line `write_request` adds. -/
def addedLength (req : HttpRequest) : List Bytes :=
  if 0 < req.contentLength ∧ values "content-length" req.headers = [] then
    [ascii "Content-Length: " ++ decimal req.contentLength]
  else []

/-- The lines of a written request head, up to the blank one. -/
def requestLines (req : HttpRequest) (host : Bytes) : List Bytes :=
  [req.method ++ sp :: (req.target ++ sp :: req.version), ascii "Host: " ++ host] ++
    (keptFields requestSkips req.headers).map fieldText ++ addedLength req ++
    [ascii "Via: 1.1 uproxy"]

/-- The field loop writes the kept fields, and refuses only for their values. -/
theorem writeFields_eq_ok_iff {skips : List Bytes} : ∀ {hs : List HttpHeader} {t : Bytes},
    writeFields skips hs = .ok t ↔
      (∀ h ∈ keptFields skips hs, validHeaderValue h.value = true) ∧
        t = joinLines cr lf ((keptFields skips hs).map fieldText)
  | [], t => by
    simp only [writeFields, keptFields, List.filter_nil, List.map_nil, joinLines_nil,
      List.not_mem_nil, false_imp_iff, implies_true, true_and, Except.ok.injEq]
    exact eq_comm
  | h :: hs, t => by
    have ih : ∀ t', writeFields skips hs = .ok t' ↔ _ := fun t' => writeFields_eq_ok_iff
    unfold writeFields keptFields
    rw [List.filter_cons]
    by_cases hk : skips.contains (lower h.name) = true
    · simp only [hk, if_true, Bool.not_true, Bool.false_eq_true, if_false]
      exact ih t
    · simp only [hk, Bool.false_eq_true, if_false, Bool.not_false, if_true, List.forall_mem_cons,
        List.map_cons, joinLines_cons]
      by_cases hv : validHeaderValue h.value = true
      · simp only [hv, not_true_eq_false, if_false, true_and]
        cases hw : writeFields skips hs with
        | error e =>
          simp only [Except.map, reduceCtorEq, false_iff, not_and]
          intro hall
          have := (ih _).mpr ⟨hall, rfl⟩
          rw [hw] at this
          cases this
        | ok t' =>
          obtain ⟨hall, rfl⟩ := (ih t').mp hw
          simp only [Except.map, Except.ok.injEq]
          refine ⟨fun he => ⟨hall, ?_⟩, fun he => ?_⟩
          · rw [← he]; simp [crlf, keptFields]
          · rw [he.2]; simp [crlf, keptFields]
      · simp [hv]

/-- **What `write_request` writes**, for any request: the lines, if every kept value is valid. -/
theorem requestHead_eq_ok_iff {req : HttpRequest} {host text : Bytes} :
    requestHead req host = .ok text ↔
      (∀ h ∈ keptFields requestSkips req.headers, validHeaderValue h.value = true) ∧
        text = joinLines cr lf (requestLines req host) ++ crlf := by
  have hsaw : (req.headers.any fun h => lower h.name == ascii "content-length") = true ↔
      ¬ values "content-length" req.headers = [] := by
    rw [List.any_eq_true, List.eq_nil_iff_forall_not_mem]
    simp only [beq_iff_eq, mem_values, not_forall, Decidable.not_not]
    constructor
    · rintro ⟨h, hh, hn⟩; exact ⟨_, h, hh, hn, rfl⟩
    · rintro ⟨-, h, hh, hn, -⟩; exact ⟨h, hh, hn⟩
  have hjoin : ∀ fields,
      fields = joinLines cr lf ((keptFields requestSkips req.headers).map fieldText) →
      (req.method ++ sp :: (req.target ++ sp :: req.version)) ++ crlf ++
      (ascii "Host: " ++ host) ++ crlf ++ fields ++
      (if 0 < req.contentLength ∧
          ¬ (req.headers.any fun h => lower h.name == ascii "content-length") = true then
        ascii "Content-Length: " ++ decimal req.contentLength ++ crlf else []) ++
      ascii "Via: 1.1 uproxy" ++ crlfcrlf = joinLines cr lf (requestLines req host) ++ crlf := by
    rintro fields rfl
    unfold requestLines addedLength
    simp only [hsaw, Decidable.not_not, joinLines_append]
    split_ifs <;> simp [crlf, crlfcrlf]
  unfold requestHead
  cases hw : writeFields requestSkips req.headers with
  | error e =>
    simp only [Except.map, reduceCtorEq, false_iff, not_and]
    intro hall
    have := writeFields_eq_ok_iff.mpr ⟨hall, rfl⟩
    rw [hw] at this
    cases this
  | ok fields =>
    obtain ⟨hall, hf⟩ := writeFields_eq_ok_iff.mp hw
    simp only [Except.map, Except.ok.injEq]
    rw [hjoin fields hf]
    exact ⟨fun he => ⟨hall, he.symm⟩, fun he => he.2.symm⟩

theorem upstreamRequest_of_head {req : HttpRequest} {host head : Bytes}
    (h : requestHead req host = .ok head) (body : Bytes) :
    upstreamRequest req body host = .ok (head ++ body) := by
  unfold upstreamRequest
  rw [h]
  rfl

/-- A request is sent unless a value in its kept fields is refused. -/
theorem upstreamRequest_isOk_iff (req : HttpRequest) (body host : Bytes) :
    (upstreamRequest req body host).isOk = true ↔
      ∀ h ∈ keptFields requestSkips req.headers, validHeaderValue h.value = true := by
  unfold upstreamRequest
  cases hr : requestHead req host with
  | error e =>
    refine iff_of_false Bool.noConfusion fun hall => ?_
    rw [requestHead_eq_ok_iff.mpr ⟨hall, rfl⟩] at hr
    cases hr
  | ok text => exact iff_of_true rfl (requestHead_eq_ok_iff.mp hr).1

/-- A head ends with the blank line. -/
theorem blank_suffix_requestHead (req : HttpRequest) (host : Bytes) :
    crlfcrlf <:+ joinLines cr lf (requestLines req host) ++ crlf := by
  unfold requestLines
  rw [joinLines_append, joinLines_cons, joinLines_nil, List.append_assoc, List.append_assoc]
  exact (List.suffix_append (ascii "Via: 1.1 uproxy") crlfcrlf).trans (List.suffix_append _ _)

/-! ## Through the ring buffer -/

/-- `write_request` on a buffer with room in `size_t` adds the text at the end. -/
theorem writeRequest_spec {buf : RingBuffer} (hb : buf.WF) {req : HttpRequest} {host text : Bytes}
    (h : requestHead req host = .ok text) (hfit : buf.capacity + text.length < sizeMod) :
    ∃ buf', writeRequest buf req host = some (.ok (), buf') ∧ buf'.WF ∧
      buf'.contents = buf.contents ++ text ∧ buf'.capacity ≤ 2 * buf.capacity + text.length := by
  unfold writeRequest
  rw [h]
  exact RingBuffer.append_spec hb hfit

/-- **The ring buffer of `forward_http1` adds nothing**: what it holds is head and body. -/
theorem buildUpstreamRequest_eq {req : HttpRequest} {body host : Bytes}
    (hfit : ∀ text, requestHead req host = .ok text →
      2 * (65536 + body.length) + text.length + body.length < sizeMod) :
    buildUpstreamRequest req body host = some (upstreamRequest req body host) := by
  unfold buildUpstreamRequest upstreamRequest
  cases hr : requestHead req host with
  | error e => simp only [writeRequest, hr, Except.map]
  | ok text =>
    have hroom := hfit text hr
    have hcap : (RingBuffer.new (65536 + body.length)).capacity = 65536 + body.length :=
      List.length_replicate
    obtain ⟨buf₁, e₁, h₁, hc₁, hcap₁⟩ :=
      writeRequest_spec (RingBuffer.wf_new (65536 + body.length)) hr (by omega)
    rw [RingBuffer.contents_new, List.nil_append] at hc₁
    simp only [e₁, Except.map]
    split_ifs with hbody
    · rw [RingBuffer.peek_readable h₁, hc₁, hbody, List.append_nil]
    · obtain ⟨buf₂, e₂, h₂, hc₂, -⟩ := RingBuffer.append_spec (d := body) h₁ (by omega)
      simp only [e₂]
      rw [RingBuffer.peek_readable h₂, hc₂, hc₁]

/-! ## Reading a head back -/

/-- A field line as a receiver reads it: the name up to the first colon, the value without
surrounding blanks. -/
def readField (line : Bytes) : Option HttpHeader :=
  (find [colon] line).map fun c => ⟨line.take c, trimOws (line.drop (c + 1))⟩

/-- The fields of some text, its lines cut at CRLF. -/
def textFields (text : Bytes) : List HttpHeader := (splitLines cr lf text).filterMap readField

/-- The fields of a head: those behind its first line. -/
def headFields (head : Bytes) : List HttpHeader :=
  ((splitLines cr lf head).drop 1).filterMap readField

theorem readField_fieldText {h : HttpHeader} (hn : colon ∉ h.name) :
    readField (fieldText h) = some ⟨h.name, trimOws h.value⟩ := by
  have hf : find [colon] (fieldText h) = some h.name.length :=
    find_singleton.mpr ⟨h.name, sp :: h.value, rfl, hn, rfl⟩
  have hd : (fieldText h).drop (h.name.length + 1) = sp :: h.value := by
    rw [← List.drop_drop]
    unfold fieldText
    rw [List.drop_left]
    rfl
  unfold readField
  rw [hf, Option.map_some, hd, trimOws_sp]
  unfold fieldText
  rw [List.take_left]

/-- A field free of line ends, with no colon in its name, is read back as it is. -/
theorem textFields_fieldText {h : HttpHeader} (hc : colon ∉ h.name) (hn : lf ∉ h.name)
    (hv : lf ∉ h.value) : textFields (fieldText h) = [⟨h.name, trimOws h.value⟩] := by
  have hl : lf ∉ fieldText h := by
    intro hm
    rcases List.mem_append.mp hm with hm | hm
    · exact hn hm
    · rcases List.mem_append.mp hm with hm | hm
      · exact absurd hm (by decide)
      · exact hv hm
  unfold textFields
  rw [splitLines_of_not_mem hl, List.filterMap_cons_some (readField_fieldText hc),
    List.filterMap_nil]

theorem headFields_of_not_mem {start : Bytes} (h : lf ∉ start) : headFields start = [] := by
  unfold headFields
  rw [splitLines_of_not_mem h]
  rfl

/-- What a receiver reads in a written head, for any lines. -/
theorem headFields_joinLines (start : Bytes) (ls : List Bytes) :
    headFields (joinLines cr lf (start :: ls) ++ crlf) =
      headFields start ++ ls.flatMap textFields := by
  have hend : splitLines cr lf crlf = [[], []] := by decide
  have hread : ([[], []] : List Bytes).filterMap readField = [] := by decide
  unfold headFields
  rw [splitLines_flatMap cr_ne_lf, hend, List.flatMap_cons, List.append_assoc,
    List.drop_append_of_le_length (List.length_pos_iff.mpr (splitLines_ne_nil start)),
    List.filterMap_append, List.filterMap_append, hread, List.append_nil, List.filterMap_flatMap]
  rfl

/-- **What a receiver reads in a request head**, whatever its parts hold. -/
theorem headFields_requestHead (req : HttpRequest) (host : Bytes) :
    headFields (joinLines cr lf (requestLines req host) ++ crlf) =
      headFields (req.method ++ sp :: (req.target ++ sp :: req.version)) ++
        (textFields (ascii "Host: " ++ host) ++
          ((keptFields requestSkips req.headers).flatMap (fun h => textFields (fieldText h)) ++
            ((addedLength req).flatMap textFields ++ [⟨ascii "Via", ascii "1.1 uproxy"⟩]))) := by
  have hvia : textFields (ascii "Via: 1.1 uproxy") = [⟨ascii "Via", ascii "1.1 uproxy"⟩] := by
    decide
  unfold requestLines
  rw [List.cons_append, List.cons_append, List.cons_append, headFields_joinLines,
    List.cons_append, List.cons_append, List.cons_append, List.nil_append, List.flatMap_cons,
    List.flatMap_append, List.flatMap_append, List.flatMap_map, List.flatMap_cons, hvia,
    List.flatMap_nil, List.append_nil, List.append_assoc]

theorem values_append (name : String) (hs hs' : List HttpHeader) :
    values name (hs ++ hs') = values name hs ++ values name hs' := by
  simp [values]

/-- Dropping fields does not touch the values of a name that is not dropped. -/
theorem values_keptFields {skips : List Bytes} {name : String} (h : ascii name ∉ skips)
    (hs : List HttpHeader) : values name (keptFields skips hs) = values name hs := by
  unfold values keptFields
  rw [List.filter_filter]
  congr 1
  refine List.filter_congr fun x _ => ?_
  by_cases hx : lower x.name = ascii name
  · simp [hx, h]
  · simp [hx]

theorem values_keptFields_skipped {skips : List Bytes} {name : String} (h : ascii name ∈ skips)
    (hs : List HttpHeader) : values name (keptFields skips hs) = [] := by
  rw [List.eq_nil_iff_forall_not_mem]
  intro v hv
  obtain ⟨x, hx, hn, -⟩ := mem_values.mp hv
  have := (List.mem_filter.mp hx).2
  simp [hn, h] at this

end Uproxy
