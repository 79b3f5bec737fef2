import Uproxy.Hpack.Codec
import Uproxy.Http1.Forward

/-!
# HTTP/2 requests forwarded as HTTP/1.1 (`ProxyServer::handle_h2_client`)

The headers of an HTTP/2 stream become an `HttpRequest`: the last `:method` and `:path`, and every
field whose name is not empty and does not start with a colon. The request goes through
`forward_http1` like any other. HPACK strings are arbitrary bytes, and of all that is written only
the values of the kept fields are checked.

* `h2Parts_eq`: what the loop over the headers collects;
* **`h2_body_framing`**: the upstream finds the end of the head where it is, and reads the body's
  length in every `Content-Length` and no coding, exactly when no text of the client makes a blank
  line, and the client's own `content-length` fields and the lines smuggled in by other texts say
  so. `handle_h2_client` does not compare them with the stream's body, where `parse_headers` refuses
  lengths that contradict each other;
* **`h2_no_injection`**: the head consists of the lines it should exactly when method, path and
  names are what they would be on an HTTP/1 connection, or the request is refused for a value.
-/

namespace Uproxy

open Lib.Search

/-! ## The code -/

/-- What `handle_h2_client` collects from the headers of a stream. -/
structure H2Parts where
  method    : Bytes := []
  path      : Bytes := []
  authority : Bytes := []
  headers   : List HttpHeader := []
  deriving DecidableEq, Repr

/-- A field that is passed on. -/
def isRegular (h : HpackHeader) : Bool := h.name ≠ [] && h.name.head? ≠ some colon

def H2Parts.add (p : H2Parts) (h : HpackHeader) : H2Parts :=
  if h.name = ascii ":method" then { p with method := h.value }
  else if h.name = ascii ":path" then { p with path := h.value }
  else if h.name = ascii ":authority" then { p with authority := h.value }
  else if isRegular h then { p with headers := p.headers ++ [⟨h.name, h.value⟩] }
  else p

/-- The request made of a stream's headers and body. -/
def h2Request (hs : List HpackHeader) (body : Bytes) : HttpRequest :=
  let p := hs.foldl H2Parts.add {}
  { method := p.method
    target := p.path
    version := ascii "HTTP/1.1"
    headers := p.headers
    keepAlive := true
    contentLength := body.length }

/-! ## What is collected -/

/-- The last value of a name. -/
def lastValue (name : String) (hs : List HpackHeader) : Bytes :=
  ((hs.filter fun h => h.name = ascii name).getLast?.map HpackHeader.value).getD []

/-- The fields passed on. -/
def regularFields (hs : List HpackHeader) : List HttpHeader :=
  (hs.filter isRegular).map fun h => ⟨h.name, h.value⟩

theorem lastValue_concat (name : String) (hs : List HpackHeader) (h : HpackHeader) :
    lastValue name (hs ++ [h]) = if h.name = ascii name then h.value else lastValue name hs := by
  unfold lastValue
  rw [List.filter_append]
  split_ifs with hn
  · rw [List.filter_cons_of_pos (by simpa using hn), List.filter_nil, List.getLast?_concat]
    rfl
  · rw [List.filter_cons_of_neg (by simpa using hn), List.filter_nil, List.append_nil]

theorem regularFields_concat (hs : List HpackHeader) (h : HpackHeader) :
    regularFields (hs ++ [h]) =
      if isRegular h then regularFields hs ++ [⟨h.name, h.value⟩] else regularFields hs := by
  unfold regularFields
  rw [List.filter_append]
  split_ifs with hr
  · rw [List.filter_cons_of_pos hr, List.filter_nil, List.map_append]
    rfl
  · rw [List.filter_cons_of_neg hr, List.filter_nil, List.append_nil]

/-- **The loop over the headers.** -/
theorem h2Parts_eq (hs : List HpackHeader) :
    hs.foldl H2Parts.add {} =
      ⟨lastValue ":method" hs, lastValue ":path" hs, lastValue ":authority" hs,
        regularFields hs⟩ := by
  -- a pseudo-header is not a regular field, and the three names are different
  have hcolon : ∀ name ∈ [ascii ":method", ascii ":path", ascii ":authority"],
      name.head? = some colon := by decide
  have hpseudo : ∀ h : HpackHeader, ∀ name ∈ [ascii ":method", ascii ":path", ascii ":authority"],
      h.name = name → isRegular h = false := by
    intro h name hm hn
    unfold isRegular
    rw [hn, hcolon name hm]
    simp
  have hmp : ascii ":method" ≠ ascii ":path" := by decide
  have hma : ascii ":method" ≠ ascii ":authority" := by decide
  have hpa : ascii ":path" ≠ ascii ":authority" := by decide
  induction hs using List.reverseRecOn with
  | nil => rfl
  | append_singleton hs h ih =>
    rw [List.foldl_append, ih, List.foldl_cons, List.foldl_nil, lastValue_concat,
      lastValue_concat, lastValue_concat, regularFields_concat]
    unfold H2Parts.add
    by_cases h1 : h.name = ascii ":method"
    · have h2 : h.name ≠ ascii ":path" := h1 ▸ hmp
      have h3 : h.name ≠ ascii ":authority" := h1 ▸ hma
      simp only [if_pos h1, if_neg h2, if_neg h3, hpseudo h _ (by simp) h1, Bool.false_eq_true,
        if_false]
    by_cases h2 : h.name = ascii ":path"
    · have h3 : h.name ≠ ascii ":authority" := h2 ▸ hpa
      simp only [if_neg h1, if_pos h2, if_neg h3, hpseudo h _ (by simp) h2, Bool.false_eq_true,
        if_false]
    by_cases h3 : h.name = ascii ":authority"
    · simp only [if_neg h1, if_neg h2, if_pos h3, hpseudo h _ (by simp) h3, Bool.false_eq_true,
        if_false]
    simp only [if_neg h1, if_neg h2, if_neg h3]
    split_ifs <;> rfl

theorem h2Request_eq (hs : List HpackHeader) (body : Bytes) :
    h2Request hs body =
      { method := lastValue ":method" hs
        target := lastValue ":path" hs
        version := ascii "HTTP/1.1"
        headers := regularFields hs
        keepAlive := true
        contentLength := body.length } := by
  unfold h2Request
  rw [h2Parts_eq]

/-! ## Body framing -/

/-- What a receiver reads in the texts of the client that are no `content-length` field, and in the
host: fields, and the lines behind line ends in the method, the path, the host or another field. -/
def smuggledFields (hs : List HpackHeader) (host : Bytes) : List HttpHeader :=
  headFields (lastValue ":method" hs ++ sp :: (lastValue ":path" hs ++ sp :: ascii "HTTP/1.1")) ++
    (textFields (ascii "Host: " ++ host) ++
      ((keptFields requestSkips (regularFields hs)).filter fun h =>
        lower h.name ≠ ascii "content-length").flatMap fun h => textFields (fieldText h))

/-- None of the client's texts, and not the host, makes a blank line in the head. -/
structure NoBlankLine (hs : List HpackHeader) (host : Bytes) : Prop where
  method : ¬ crlfcrlf <:+: lastValue ":method" hs
  path   : ¬ crlfcrlf <:+: lastValue ":path" hs
  host   : ¬ crlfcrlf <:+: host ++ crlf
  names  : ∀ h ∈ keptFields requestSkips (regularFields hs), ¬ crlfcrlf <:+: crlf ++ h.name

theorem mem_lower {c : UInt8} {s : Bytes} (hc : toLower c = c) (h : c ∈ s) : c ∈ lower s :=
  List.mem_map.mpr ⟨c, h, hc⟩

/-- A `content-length` field with a valid value is read as it was sent. -/
theorem textFields_contentLength {h : HttpHeader} (hn : lower h.name = ascii "content-length")
    (hv : validHeaderValue h.value = true) :
    textFields (fieldText h) = [⟨h.name, trimOws h.value⟩] := by
  have hcolon : colon ∉ h.name := fun hm => by
    have := mem_lower (by decide) hm
    rw [hn] at this
    exact absurd this (by decide)
  have hlf : lf ∉ h.name := fun hm => by
    have := mem_lower (by decide) hm
    rw [hn] at this
    exact absurd this (by decide)
  exact textFields_fieldText hcolon hlf (validHeaderValue_not_mem hv).2

theorem mem_values_append {name : String} {hs hs' : List HttpHeader} {v : Bytes} :
    v ∈ values name (hs ++ hs') ↔ v ∈ values name hs ∨ v ∈ values name hs' := by
  rw [values_append, List.mem_append]

theorem mem_values_flatMap {α : Type} {name : String} {l : List α} {f : α → List HttpHeader}
    {v : Bytes} : v ∈ values name (l.flatMap f) ↔ ∃ x ∈ l, v ∈ values name (f x) := by
  simp only [mem_values, List.mem_flatMap]
  constructor
  · rintro ⟨h, ⟨x, hx, hh⟩, hn⟩
    exact ⟨x, hx, h, hh, hn⟩
  · rintro ⟨x, hx, h, hh, hn⟩
    exact ⟨h, ⟨x, hx, hh⟩, hn⟩

/-- A field named `content-length` is kept. -/
theorem mem_kept_contentLength {hs : List HpackHeader} {f : HttpHeader}
    (hn : lower f.name = ascii "content-length") :
    f ∈ keptFields requestSkips (regularFields hs) ↔
      ∃ h ∈ hs, isRegular h = true ∧ (⟨h.name, h.value⟩ : HttpHeader) = f := by
  have hskip : requestSkips.contains (lower f.name) = false := by
    rw [hn]
    decide
  unfold keptFields regularFields
  rw [List.mem_filter, hskip, List.mem_map]
  simp only [List.mem_filter, and_assoc, Bool.not_false, and_true]

/-- What a receiver reads in the kept fields: the lengths the client sent as such, and the rest. -/
theorem values_kept {hs : List HpackHeader} (name : String) (v : Bytes)
    (hv : ∀ h ∈ keptFields requestSkips (regularFields hs), validHeaderValue h.value = true) :
    (∃ f ∈ keptFields requestSkips (regularFields hs),
        v ∈ values name (textFields (fieldText f))) ↔
      (∃ h ∈ hs, isRegular h = true ∧ lower h.name = ascii "content-length" ∧
        v ∈ values name [⟨h.name, trimOws h.value⟩]) ∨
        ∃ f ∈ (keptFields requestSkips (regularFields hs)).filter
          (fun f => lower f.name ≠ ascii "content-length"),
          v ∈ values name (textFields (fieldText f)) := by
  constructor
  · rintro ⟨f, hf, hvf⟩
    by_cases hn : lower f.name = ascii "content-length"
    · rw [textFields_contentLength hn (hv f hf)] at hvf
      obtain ⟨h, hh, hr, rfl⟩ := (mem_kept_contentLength hn).mp hf
      exact Or.inl ⟨h, hh, hr, hn, hvf⟩
    · exact Or.inr ⟨f, List.mem_filter.mpr ⟨hf, by simpa using hn⟩, hvf⟩
  · rintro (⟨h, hh, hr, hn, hvf⟩ | ⟨f, hf, hvf⟩)
    · have hmem := (mem_kept_contentLength (f := ⟨h.name, h.value⟩) hn).mpr ⟨h, hh, hr, rfl⟩
      refine ⟨_, hmem, ?_⟩
      rwa [textFields_contentLength hn (hv _ hmem)]
    · exact ⟨f, (List.mem_filter.mp hf).1, hvf⟩

/-- Where the values an upstream reads come from. -/
theorem mem_values_h2Request {hs : List HpackHeader} (name : String) (body host v : Bytes)
    (hv : ∀ h ∈ keptFields requestSkips (regularFields hs), validHeaderValue h.value = true) :
    v ∈ values name
        (headFields (joinLines cr lf (requestLines (h2Request hs body) host) ++ crlf)) ↔
      (∃ h ∈ hs, isRegular h = true ∧ lower h.name = ascii "content-length" ∧
        v ∈ values name [⟨h.name, trimOws h.value⟩]) ∨
        v ∈ values name (smuggledFields hs host) ∨
        v ∈ values name ((addedLength (h2Request hs body)).flatMap textFields) ∨
        v ∈ values name [⟨ascii "Via", ascii "1.1 uproxy"⟩] := by
  rw [headFields_requestHead, h2Request_eq]
  unfold smuggledFields
  simp only [mem_values_append]
  rw [mem_values_flatMap (l := keptFields _ _), values_kept name v hv,
    mem_values_flatMap (l := List.filter _ _)]
  constructor
  · rintro (h | h | (h | h) | h)
    · exact Or.inr (Or.inl (Or.inl h))
    · exact Or.inr (Or.inl (Or.inr (Or.inl h)))
    · exact Or.inl h
    · exact Or.inr (Or.inl (Or.inr (Or.inr h)))
    · exact Or.inr (Or.inr h)
  · rintro (h | (h | h | h) | h)
    · exact Or.inr (Or.inr (Or.inl (Or.inl h)))
    · exact Or.inl h
    · exact Or.inr (Or.inl h)
    · exact Or.inr (Or.inr (Or.inl (Or.inr h)))
    · exact Or.inr (Or.inr (Or.inr h))

theorem mem_lengths_h2Request {hs : List HpackHeader} (body host v : Bytes)
    (hv : ∀ h ∈ keptFields requestSkips (regularFields hs), validHeaderValue h.value = true) :
    v ∈ values "content-length"
        (headFields (joinLines cr lf (requestLines (h2Request hs body) host) ++ crlf)) ↔
      (∃ h ∈ hs, isRegular h = true ∧ lower h.name = ascii "content-length" ∧
        trimOws h.value = v) ∨
        v ∈ values "content-length" (smuggledFields hs host) ∨
        v ∈ values "content-length" ((addedLength (h2Request hs body)).flatMap textFields) := by
  have hvia : values "content-length" [⟨ascii "Via", ascii "1.1 uproxy"⟩] = [] := by decide
  have hown : ∀ h : HpackHeader, lower h.name = ascii "content-length" →
      (v ∈ values "content-length" [⟨h.name, trimOws h.value⟩] ↔ trimOws h.value = v) := by
    intro h hn
    rw [values_cons, if_pos hn]
    exact List.mem_singleton.trans eq_comm
  rw [mem_values_h2Request _ body host v hv, hvia, or_iff_left List.not_mem_nil]
  refine or_congr_left (exists_congr fun h => and_congr_right fun _ => and_congr_right fun _ =>
    and_congr_right fun hn => hown h hn)

/-- The codings an upstream reads are smuggled in. -/
theorem encodings_h2Request {hs : List HpackHeader} (body host : Bytes)
    (hv : ∀ h ∈ keptFields requestSkips (regularFields hs), validHeaderValue h.value = true) :
    values "transfer-encoding"
        (headFields (joinLines cr lf (requestLines (h2Request hs body) host) ++ crlf)) = [] ↔
      values "transfer-encoding" (smuggledFields hs host) = [] := by
  have hvia : values "transfer-encoding" [⟨ascii "Via", ascii "1.1 uproxy"⟩] = [] := by decide
  have hown : ∀ h : HpackHeader, lower h.name = ascii "content-length" →
      values "transfer-encoding" [⟨h.name, trimOws h.value⟩] = [] := by
    intro h hn
    rw [values_cons, if_neg (hn ▸ by decide)]
    rfl
  have hadd : values "transfer-encoding" ((addedLength (h2Request hs body)).flatMap textFields) =
      [] := by
    refine List.eq_nil_iff_forall_not_mem.mpr fun v hmem => ?_
    obtain ⟨text, htext, hmem⟩ := mem_values_flatMap.mp hmem
    rw [mem_addedLength htext, addedLength_text] at hmem
    exact absurd hmem List.not_mem_nil
  simp only [List.eq_nil_iff_forall_not_mem]
  refine forall_congr' fun v => not_congr ?_
  rw [mem_values_h2Request _ body host v hv, hvia, hadd, or_iff_left List.not_mem_nil,
    or_iff_left List.not_mem_nil, or_iff_right]
  rintro ⟨h, -, -, hn, hmem⟩
  rw [hown h hn] at hmem
  exact List.not_mem_nil hmem

/-- A length is sent with every body: the client's, or the one added. -/
theorem lengths_h2Request_ne_nil {hs : List HpackHeader} {body : Bytes} (host : Bytes)
    (hv : ∀ h ∈ keptFields requestSkips (regularFields hs), validHeaderValue h.value = true)
    (hne : body ≠ []) :
    values "content-length"
      (headFields (joinLines cr lf (requestLines (h2Request hs body) host) ++ crlf)) ≠ [] := by
  suffices h : ∃ v, v ∈ values "content-length"
      (headFields (joinLines cr lf (requestLines (h2Request hs body) host) ++ crlf)) by
    obtain ⟨v, hmem⟩ := h
    exact List.ne_nil_of_mem hmem
  simp only [mem_lengths_h2Request body host _ hv]
  by_cases hcl : values "content-length" (regularFields hs) = []
  · have hadd : addedLength (h2Request hs body) =
        [ascii "Content-Length: " ++ decimal body.length] := by
      rw [h2Request_eq]
      exact if_pos ⟨List.length_pos_iff.mpr hne, hcl⟩
    refine ⟨decimal body.length, Or.inr (Or.inr ?_)⟩
    rw [hadd, List.flatMap_cons, List.flatMap_nil, List.append_nil, addedLength_text]
    exact List.mem_singleton.mpr rfl
  · obtain ⟨v, hvv⟩ := List.exists_mem_of_ne_nil _ hcl
    obtain ⟨f, hf, hn, -⟩ := mem_values.mp hvv
    obtain ⟨h, hh, rfl⟩ := List.mem_map.mp hf
    obtain ⟨hh, hr⟩ := List.mem_filter.mp hh
    exact ⟨trimOws h.value, Or.inl ⟨h, hh, hr, hn, rfl⟩⟩

/-- `write_request` accepts a translated request for the values of its kept fields. -/
theorem requestHead_h2Request {hs : List HpackHeader} (body host : Bytes)
    (hv : ∀ h ∈ keptFields requestSkips (regularFields hs), validHeaderValue h.value = true) :
    requestHead (h2Request hs body) host =
      .ok (joinLines cr lf (requestLines (h2Request hs body) host) ++ crlf) := by
  refine requestHead_eq_ok_iff.mpr ⟨?_, rfl⟩
  rw [h2Request_eq]
  exact hv

/-! ### The blank lines of a head -/

/-- One carriage return makes no blank line. -/
theorem not_blank_behind {s : Bytes} (h : cr ∉ s) : ¬ crlfcrlf <:+: s ++ crlf := by
  intro hi
  have hcount := hi.sublist.count_le cr
  rw [List.count_append, List.count_eq_zero_of_not_mem h] at hcount
  exact absurd hcount (by decide)

theorem not_blank_line {s : Bytes} (hnil : s ≠ []) (h : cr ∉ s) :
    ¬ crlfcrlf <:+: crlf ++ (s ++ crlf) := by
  refine (delim_infix_start cr_ne_lf).not.mpr (not_or.mpr ⟨fun hpre => ?_, not_blank_behind h⟩)
  cases s with
  | nil => exact hnil rfl
  | cons a s => exact h ((List.cons_prefix_cons.mp hpre).1 ▸ List.mem_cons_self)

theorem blank_startLine (m t : Bytes) :
    crlfcrlf <:+: (m ++ sp :: (t ++ sp :: ascii "HTTP/1.1")) ++ crlf ↔
      crlfcrlf <:+: m ∨ crlfcrlf <:+: t := by
  have hsp : sp ∉ crlfcrlf := by decide
  have hversion : ¬ crlfcrlf <:+: ascii "HTTP/1.1" ++ crlf := by decide
  have hsplit : (m ++ sp :: (t ++ sp :: ascii "HTTP/1.1")) ++ crlf =
      m ++ sp :: (t ++ sp :: (ascii "HTTP/1.1" ++ crlf)) := by simp
  rw [hsplit, infix_separator_iff hsp, infix_separator_iff hsp, or_iff_left hversion]

theorem blank_host (host : Bytes) :
    crlfcrlf <:+: crlf ++ ((ascii "Host: " ++ host) ++ crlf) ↔ crlfcrlf <:+: host ++ crlf := by
  have hsplit : crlf ++ ((ascii "Host: " ++ host) ++ crlf) =
      (crlf ++ ascii "Host:") ++ sp :: (host ++ crlf) := by
    rw [show ascii "Host: " = ascii "Host:" ++ [sp] by decide]
    simp
  rw [hsplit, infix_separator_iff (by decide), or_iff_right (by decide)]

theorem blank_fieldText {h : HttpHeader} (hv : validHeaderValue h.value = true) :
    crlfcrlf <:+: crlf ++ (fieldText h ++ crlf) ↔ crlfcrlf <:+: crlf ++ h.name := by
  have hsplit : crlf ++ (fieldText h ++ crlf) =
      (crlf ++ h.name) ++ colon :: ((sp :: h.value) ++ crlf) := by
    rw [fieldText, show ascii ": " = [colon, sp] by decide]
    simp
  have hvalue : ¬ crlfcrlf <:+: (sp :: h.value) ++ crlf :=
    not_blank_behind
      (List.not_mem_cons_of_ne_of_not_mem (by decide) (validHeaderValue_not_mem hv).1)
  rw [hsplit, infix_separator_iff (by decide), or_iff_left hvalue]

theorem blank_kept {hs : List HttpHeader} (hv : ∀ h ∈ hs, validHeaderValue h.value = true) :
    (∃ s ∈ hs.map fieldText, crlfcrlf <:+: crlf ++ (s ++ crlf)) ↔
      ∃ h ∈ hs, crlfcrlf <:+: crlf ++ h.name := by
  simp only [List.mem_map, exists_exists_and_eq_and]
  exact exists_congr fun h => and_congr_right fun hh => blank_fieldText (hv h hh)

/-- What `write_request` adds behind the fields makes none. -/
theorem not_blank_added (req : HttpRequest) :
    ¬ ∃ s ∈ addedLength req ++ [ascii "Via: 1.1 uproxy"], crlfcrlf <:+: crlf ++ (s ++ crlf) := by
  rintro ⟨s, hs, hi⟩
  rcases List.mem_append.mp hs with hs | hs
  · rw [mem_addedLength hs] at hi
    refine not_blank_line (by simp [ascii]) ?_ hi
    simp only [List.mem_append, not_or]
    exact ⟨by decide, decimal_not_mem (by decide) _⟩
  · rw [List.mem_singleton.mp hs] at hi
    exact not_blank_line (by decide) (by decide) hi

/-- Where the blank lines of a head come from. -/
theorem blank_requestLines {hs : List HpackHeader} (body host : Bytes)
    (hv : ∀ h ∈ keptFields requestSkips (regularFields hs), validHeaderValue h.value = true) :
    ¬ crlfcrlf <:+: joinLines cr lf (requestLines (h2Request hs body) host) ↔
      NoBlankLine hs host := by
  have hlines : requestLines (h2Request hs body) host =
      (lastValue ":method" hs ++ sp :: (lastValue ":path" hs ++ sp :: ascii "HTTP/1.1")) ::
        ((ascii "Host: " ++ host) ::
          ((keptFields requestSkips (regularFields hs)).map fieldText ++
            (addedLength (h2Request hs body) ++ [ascii "Via: 1.1 uproxy"]))) := by
    rw [requestLines, h2Request_eq, List.append_assoc, List.append_assoc]
    rfl
  have hblank : crlfcrlf <:+: joinLines cr lf (requestLines (h2Request hs body) host) ↔
      (crlfcrlf <:+: lastValue ":method" hs ∨ crlfcrlf <:+: lastValue ":path" hs) ∨
        crlfcrlf <:+: host ++ crlf ∨
        ∃ h ∈ keptFields requestSkips (regularFields hs), crlfcrlf <:+: crlf ++ h.name := by
    rw [hlines, joinLines_cons]
    refine (blank_infix_delim cr_ne_lf).trans (or_congr (blank_startLine _ _) ?_)
    refine (blank_infix_joinLines cr_ne_lf).trans ?_
    rw [List.exists_mem_cons_iff]
    refine or_congr (blank_host host) ?_
    refine Iff.trans ?_ ((or_iff_left (not_blank_added (h2Request hs body))).trans (blank_kept hv))
    rw [← exists_or]
    exact exists_congr fun s => (and_congr_left' List.mem_append).trans or_and_right
  refine (not_congr hblank).trans ⟨fun h => ?_, fun h => ?_⟩
  · simp only [not_or, not_exists, not_and] at h
    exact ⟨h.1.1, h.1.2, h.2.1, h.2.2⟩
  · simp only [not_or, not_exists, not_and]
    exact ⟨⟨h.method, h.path⟩, h.host, h.names⟩

/-- **The head ends at its first blank line** exactly if none of the texts in it makes one. -/
theorem find_blank_h2Request {hs : List HpackHeader} (body host : Bytes)
    (hv : ∀ h ∈ keptFields requestSkips (regularFields hs), validHeaderValue h.value = true) :
    find crlfcrlf (joinLines cr lf (requestLines (h2Request hs body) host) ++ crlf ++ body) =
        some ((joinLines cr lf (requestLines (h2Request hs body) host) ++ crlf).length - 4) ↔
      NoBlankLine hs host := by
  -- what stands in front of the blank line
  obtain ⟨x, hx⟩ : ∃ x, joinLines cr lf (requestLines (h2Request hs body) host) = x ++ crlf := by
    obtain ⟨front, hfront⟩ : ∃ front, requestLines (h2Request hs body) host =
      front ++ [ascii "Via: 1.1 uproxy"] := ⟨_, rfl⟩
    refine ⟨joinLines cr lf front ++ ascii "Via: 1.1 uproxy", ?_⟩
    rw [hfront, joinLines_append]
    simp [crlf]
  have hhead : joinLines cr lf (requestLines (h2Request hs body) host) ++ crlf ++ body =
      x ++ cr :: lf :: cr :: lf :: body := by
    rw [hx]
    simp [crlf]
  have hlen : (joinLines cr lf (requestLines (h2Request hs body) host) ++ crlf).length - 4 =
      x.length := by
    rw [hx]
    simp [crlf]
  rw [← blank_requestLines body host hv, hhead, hlen, hx]
  exact find_blank_iff cr_ne_lf

/-- **Body framing of forwarded HTTP/2 requests**, for any headers `write_request` accepts: what the
upstream reads in the bytes sent, and what of the client's texts it depends on. -/
theorem h2_body_framing (hs : List HpackHeader) (body host : Bytes)
    (hv : ∀ h ∈ keptFields requestSkips (regularFields hs), validHeaderValue h.value = true) :
    ∃ head, requestHead (h2Request hs body) host = .ok head ∧
      upstreamRequest (h2Request hs body) body host = .ok (head ++ body) ∧
      ((find crlfcrlf (head ++ body) = some (head.length - 4) ∧
          (∀ v ∈ values "content-length" (headFields head),
            isNumeral v = true ∧ digitsVal 10 v = body.length) ∧
          (body ≠ [] → values "content-length" (headFields head) ≠ []) ∧
          values "transfer-encoding" (headFields head) = []) ↔
        NoBlankLine hs host ∧
        (∀ h ∈ hs, isRegular h = true → lower h.name = ascii "content-length" →
          isNumeral (trimOws h.value) = true ∧ digitsVal 10 (trimOws h.value) = body.length) ∧
        (∀ v ∈ values "content-length" (smuggledFields hs host),
          isNumeral v = true ∧ digitsVal 10 v = body.length) ∧
        values "transfer-encoding" (smuggledFields hs host) = []) := by
  have hok := requestHead_h2Request body host hv
  have hmem := fun v => mem_lengths_h2Request body host v hv
  refine ⟨_, hok, upstreamRequest_of_head hok body, ?_⟩
  rw [find_blank_h2Request body host hv, encodings_h2Request body host hv]
  refine and_congr_right fun _ => ⟨fun ⟨hall, _, hte⟩ => ⟨?_, ?_, hte⟩,
    fun ⟨hlen, hsm, hte⟩ => ⟨?_, lengths_h2Request_ne_nil host hv, hte⟩⟩
  · intro h hh hr hn
    exact hall _ ((hmem _).mpr (Or.inl ⟨h, hh, hr, hn, rfl⟩))
  · intro v hsv
    exact hall v ((hmem v).mpr (Or.inr (Or.inl hsv)))
  · intro v hvv
    rcases (hmem v).mp hvv with ⟨h, hh, hr, hn, rfl⟩ | hsv | hadd
    · exact hlen h hh hr hn
    · exact hsm v hsv
    · have hadded := addedLength_fields hadd
      rwa [h2Request_eq] at hadded

/-- A POST whose length and body agree. -/
theorem h2_body_framing_post :
    let hs : List HpackHeader := [⟨ascii ":method", ascii "POST", false⟩,
      ⟨ascii ":path", ascii "/", false⟩, ⟨ascii "content-length", ascii "3", false⟩]
    ∃ head, upstreamRequest (h2Request hs (ascii "abc")) (ascii "abc") (ascii "u") =
        .ok (head ++ ascii "abc") ∧
      find crlfcrlf (head ++ ascii "abc") = some (head.length - 4) ∧
      ∀ v ∈ values "content-length" (headFields head),
        isNumeral v = true ∧ digitsVal 10 v = 3 := by
  intro hs
  obtain ⟨head, -, hsent, hiff⟩ := h2_body_framing hs (ascii "abc") (ascii "u") (by decide +kernel)
  have hframed := hiff.mpr ⟨⟨by decide +kernel, by decide +kernel, by decide +kernel,
    by decide +kernel⟩, by decide +kernel, by decide +kernel, by decide +kernel⟩
  exact ⟨head, hsent, hframed.1, hframed.2.1⟩

/-- A header block that announces five bytes for a body of three: all of it is forwarded. -/
theorem h2_body_framing_short :
    let hs : List HpackHeader := [⟨ascii ":method", ascii "POST", false⟩,
      ⟨ascii ":path", ascii "/", false⟩, ⟨ascii "content-length", ascii "5", false⟩]
    (decode {} ([0x83, 0x84, 0x00] ++ rawString (ascii "content-length") ++ rawString (ascii "5"))
        []).2.2 = hs ∧
      (∀ h ∈ keptFields requestSkips (regularFields hs), validHeaderValue h.value = true) ∧
      upstreamRequest (h2Request hs (ascii "abc")) (ascii "abc") (ascii "u") = .ok (ascii
        "POST / HTTP/1.1\r\nHost: u\r\ncontent-length: 5\r\nVia: 1.1 uproxy\r\n\r\nabc") ∧
      values "content-length" (headFields (ascii
        "POST / HTTP/1.1\r\nHost: u\r\ncontent-length: 5\r\nVia: 1.1 uproxy\r\n\r\n")) =
        [ascii "5"] := by
  repeat rw [ascii_ofList]
  decide +kernel

/-- A name with a blank line in it. The length is that of the body, but the upstream finds as many
bytes between the two blank lines, and the body is the next request to it. -/
example :
    let body := ascii "GET /admin?x HTTP/1.1\r\n\r\n"
    let hs : List HpackHeader := [⟨ascii ":method", ascii "POST", false⟩,
      ⟨ascii ":path", ascii "/", false⟩, ⟨ascii "content-length", decimal body.length, false⟩,
      ⟨ascii "x:y\r\n\r\nz", ascii "1", false⟩]
    let behind := ascii "z: 1\r\nVia: 1.1 uproxy\r\n\r\n"
    upstreamRequest (h2Request hs body) body (ascii "u") = .ok (ascii
        "POST / HTTP/1.1\r\nHost: u\r\ncontent-length: 25\r\nx:y\r\n\r\n" ++ (behind ++ body)) ∧
      behind.length = body.length := by
  repeat rw [ascii_ofList]
  decide +kernel

/-! ## Injection -/

/-- The head of one request: the lines it should have, made of the client's texts, and nothing in
them that a receiver could take for the end of a line or of a word. -/
structure OneRequest (hs : List HpackHeader) (body host head : Bytes) : Prop where
  lines  : ∃ added : List Bytes, added.length ≤ 1 ∧
    (∀ s ∈ added, s = ascii "Content-Length: " ++ decimal body.length) ∧
    splitLines cr lf head =
      [lastValue ":method" hs ++ sp :: (lastValue ":path" hs ++ sp :: ascii "HTTP/1.1"),
        ascii "Host: " ++ host] ++ (keptFields requestSkips (regularFields hs)).map fieldText ++
        added ++ [ascii "Via: 1.1 uproxy", [], []]
  method : lastValue ":method" hs ≠ [] ∧ sp ∉ lastValue ":method" hs
  target : lastValue ":path" hs ≠ [] ∧ sp ∉ lastValue ":path" hs
  names  : ∀ h ∈ keptFields requestSkips (regularFields hs),
    h.name ≠ [] ∧ h.name.all isTokenChar = true
  clean  : ∀ s ∈ splitLines cr lf head, cr ∉ s ∧ lf ∉ s

/-- A text that can stand as a word of the request line. -/
def IsWord (s : Bytes) : Prop := s ≠ [] ∧ sp ∉ s ∧ cr ∉ s ∧ lf ∉ s

theorem addedLength_length (req : HttpRequest) : (addedLength req).length ≤ 1 := by
  unfold addedLength
  split_ifs <;> simp

theorem regularFields_name {hs : List HpackHeader} {h : HttpHeader} (hh : h ∈ regularFields hs) :
    h.name ≠ [] := by
  obtain ⟨x, hx, rfl⟩ := List.mem_map.mp hh
  have hr := (List.mem_filter.mp hx).2
  unfold isRegular at hr
  rw [Bool.and_eq_true, decide_eq_true_eq] at hr
  exact hr.1

/-- A line that holds no line end has none in its first two words. -/
theorem not_mem_words {c : UInt8} {m t v : Bytes} (h : c ∉ m ++ sp :: (t ++ sp :: v)) :
    c ∉ m ∧ c ∉ t := by
  simp only [List.mem_append, List.mem_cons, not_or] at h
  exact ⟨h.1, h.2.2.1⟩

/-- Neither end of a line is in any part of a request made of words, tokens and valid values. -/
theorem h2Request_clean {hs : List HpackHeader} (body : Bytes)
    (hm : IsWord (lastValue ":method" hs)) (ht : IsWord (lastValue ":path" hs))
    (hn : ∀ h ∈ keptFields requestSkips (regularFields hs), h.name.all isTokenChar = true)
    (hv : ∀ h ∈ keptFields requestSkips (regularFields hs), validHeaderValue h.value = true)
    {c : UInt8} (hc : c ∈ [cr, lf]) : (h2Request hs body).Clean c := by
  have hword : ∀ s, IsWord s → c ∉ s := by
    intro s hs
    rcases List.mem_pair.mp hc with rfl | rfl
    · exact hs.2.2.1
    · exact hs.2.2.2
  have hfixed : ∀ c ∈ [cr, lf], c ∉ ascii "HTTP/1.1" ∧ isTokenChar c = false := by
    decide +kernel
  rw [h2Request_eq]
  exact ⟨hword _ hm, hword _ ht, (hfixed c hc).1,
    fun h hh => token_not_mem (hn h hh) (hfixed c hc).2, hv⟩

/-- Words, tokens and valid values make one request. -/
theorem oneRequest_of_words {hs : List HpackHeader} {body host : Bytes} (hcr : cr ∉ host)
    (hlf : lf ∉ host) (hm : IsWord (lastValue ":method" hs)) (ht : IsWord (lastValue ":path" hs))
    (hn : ∀ h ∈ keptFields requestSkips (regularFields hs), h.name.all isTokenChar = true)
    (hv : ∀ h ∈ keptFields requestSkips (regularFields hs), validHeaderValue h.value = true) :
    OneRequest hs body host
      (joinLines cr lf (requestLines (h2Request hs body) host) ++ crlf) := by
  have hccr := h2Request_clean body hm ht hn hv (show cr ∈ [cr, lf] by decide)
  have hclf := h2Request_clean body hm ht hn hv (show lf ∈ [cr, lf] by decide)
  have hsplit := splitLines_requestHead hclf hlf
  refine ⟨⟨addedLength (h2Request hs body), addedLength_length _, fun s hs => ?_, ?_⟩,
    ⟨hm.1, hm.2.1⟩, ⟨ht.1, ht.2.1⟩,
    fun h hh => ⟨regularFields_name (List.mem_filter.mp hh).1, hn h hh⟩, fun s hs => ?_⟩
  · rw [mem_addedLength hs, h2Request_eq]
  · rw [hsplit]
    unfold requestLines
    rw [h2Request_eq, List.append_assoc]
    rfl
  · rw [hsplit, List.mem_append] at hs
    rcases hs with hs | hs
    · exact ⟨requestLines_not_mem (by decide) hccr hcr s hs,
        requestLines_not_mem (by decide) hclf hlf s hs⟩
    · have hnil : s = [] := by simpa using hs
      rw [hnil]
      exact ⟨List.not_mem_nil, List.not_mem_nil⟩

/-- **Request injection from HTTP/2.** What `write_request` emits is the head of one request exactly
when method and path can stand in a request line and the names are tokens, or it emits nothing. -/
theorem h2_no_injection (hs : List HpackHeader) (body host : Bytes) (hcr : cr ∉ host)
    (hlf : lf ∉ host) :
    (∀ head, requestHead (h2Request hs body) host = .ok head → OneRequest hs body host head) ↔
      (∃ h ∈ keptFields requestSkips (regularFields hs), validHeaderValue h.value = false) ∨
        IsWord (lastValue ":method" hs) ∧ IsWord (lastValue ":path" hs) ∧
          ∀ h ∈ keptFields requestSkips (regularFields hs), h.name.all isTokenChar = true := by
  constructor
  · intro hall
    by_cases hv : ∀ h ∈ keptFields requestSkips (regularFields hs), validHeaderValue h.value = true
    · refine Or.inr ?_
      have hone := hall _ (requestHead_h2Request body host hv)
      obtain ⟨added, -, -, hlines⟩ := hone.lines
      obtain ⟨h1, h2⟩ := hone.clean _ (by rw [hlines]; exact List.mem_cons_self)
      obtain ⟨hm1, ht1⟩ := not_mem_words h1
      obtain ⟨hm2, ht2⟩ := not_mem_words h2
      exact ⟨⟨hone.method.1, hone.method.2, hm1, hm2⟩, ⟨hone.target.1, hone.target.2, ht1, ht2⟩,
        fun h hh => (hone.names h hh).2⟩
    · push Not at hv
      obtain ⟨h, hh, hbad⟩ := hv
      exact Or.inl ⟨h, hh, Bool.eq_false_iff.mpr hbad⟩
  · intro hcond head hok
    obtain ⟨hv, rfl⟩ := requestHead_eq_ok_iff.mp hok
    rw [h2Request_eq] at hv
    obtain ⟨h, hh, hbad⟩ | ⟨hm, ht, hn⟩ := hcond
    · rw [hv h hh] at hbad
      exact Bool.noConfusion hbad
    · exact oneRequest_of_words hcr hlf hm ht hn hv

/-- An ordinary request. -/
theorem h2_no_injection_get :
    let hs : List HpackHeader := [⟨ascii ":method", ascii "GET", false⟩,
      ⟨ascii ":path", ascii "/", false⟩, ⟨ascii "accept", ascii "*/*", false⟩]
    OneRequest hs [] (ascii "u")
      (ascii "GET / HTTP/1.1\r\nHost: u\r\naccept: */*\r\nVia: 1.1 uproxy\r\n\r\n") := by
  intro hs
  have hwords : IsWord (lastValue ":method" hs) ∧ IsWord (lastValue ":path" hs) := by
    unfold IsWord
    decide +kernel
  refine (h2_no_injection hs [] (ascii "u") (by decide) (by decide)).mpr
    (Or.inr ⟨hwords.1, hwords.2, by decide +kernel⟩) _ ?_
  unfold hs
  repeat rw [ascii_ofList]
  decide +kernel

/-- A path from a header block that ends the request and starts another one. -/
theorem h2_no_injection_split :
    let path := ascii "/ HTTP/1.1\r\n\r\nGET /admin"
    let hs : List HpackHeader :=
      [⟨ascii ":method", ascii "GET", false⟩, ⟨ascii ":path", path, false⟩]
    let head := ascii ("GET / HTTP/1.1\r\n\r\nGET /admin HTTP/1.1\r\nHost: u\r\n" ++
      "Via: 1.1 uproxy\r\n\r\n")
    decode {} ([0x82, 0x04] ++ rawString path) [] = (.ok (), {}, hs) ∧
      requestHead (h2Request hs []) (ascii "u") = .ok head ∧
      splitLines cr lf head = [ascii "GET / HTTP/1.1", [], ascii "GET /admin HTTP/1.1",
        ascii "Host: u", ascii "Via: 1.1 uproxy", [], []] ∧
      ¬ OneRequest hs [] (ascii "u") head := by
  intro path hs head
  have hwritten : requestHead (h2Request hs []) (ascii "u") = .ok head ∧
      splitLines cr lf head = [ascii "GET / HTTP/1.1", [], ascii "GET /admin HTTP/1.1",
        ascii "Host: u", ascii "Via: 1.1 uproxy", [], []] := by
    decide +kernel
  refine ⟨by decide +kernel, hwritten.1, hwritten.2, fun h => ?_⟩
  exact h.target.2 (by decide +kernel)

end Uproxy
