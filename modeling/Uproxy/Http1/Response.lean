import Uproxy.Http1.Grammar

/-!
# The response grammar

What `parse_response` accepts: a status line, as `statusLine` reads it, field lines as those of a
request, and a blank line.

* **`parseResponse_complete_iff`**: a buffer that parses starts with a response head and stores
  what the head says (`ResponseHead.Reads`), and the other way round;
* `statusLine_eq_some_iff`: the status line the parser accepts. It asks for the prefix `HTTP/` and
  for a number in bytes 9 to 11, which may have a sign, and looks at no other byte;
* `StatusLine` is the status line of the protocol, and `statusLine_sound_iff` what is missing;
* `ResponseHead.Reads.contains_behind`: a line that starts no field is not found in a head.
-/

namespace Uproxy

open Lib.Search

/-! ## The head -/

/-- A response head: the status line, and raw field lines. -/
structure ResponseHead where
  start  : Bytes
  fields : List Field
  deriving DecidableEq, Repr

namespace ResponseHead

def headers (h : ResponseHead) : List HttpHeader := h.fields.map Field.header

/-- `start CRLF (name ':' raw CRLF)* CRLF`. -/
def render (h : ResponseHead) : Bytes :=
  joinLines cr lf (h.start :: h.fields.map Field.line) ++ crlf

/-- The head is well-formed and the response is the one it stands for. -/
structure Reads (h : ResponseHead) (resp : HttpResponse) : Prop where
  start_lf         : lf ∉ h.start
  fields_wf        : FieldsWF h.fields
  status_eq        : statusLine h.start = some (resp.status, resp.reason)
  headers_eq       : resp.headers = h.headers
  contentLength_eq : resp.contentLength = commonLength h.headers
  chunked_eq       : resp.chunked = saysWord "transfer-encoding" "chunked" h.headers
  headerBytes_eq   : resp.headerBytes = h.render.length

theorem length_render (h : ResponseHead) :
    h.render.length = (joinLines cr lf (h.start :: h.fields.map Field.line)).length + 2 := by
  rw [render, List.length_append]; rfl

end ResponseHead

/-- The stages of an accepting run of `parse_headers` on a response. -/
theorem parseResponseHeaders_eq_complete_iff {bytes : Bytes} {resp resp' : HttpResponse} :
    parseResponseHeaders bytes resp = (.complete, resp') ↔
      ∃ start rest n status reason f, splitHead bytes = .ok (start, rest, n) ∧
        statusLine start = some (status, reason) ∧
        headerLoop rest.length rest ⟨[], true, false, false, 0⟩ = (.complete, f) ∧
        ¬ (f.chunked = true ∧ f.sawContentLength = true) ∧
        resp' = ⟨status, reason, f.headers, f.contentLength, f.chunked, n⟩ := by
  unfold parseResponseHeaders
  constructor
  · intro hp
    rcases hsp : splitHead bytes with r | ⟨start, rest, n⟩ <;> rw [hsp] at hp
    · rw [(Prod.mk.inj hp).1] at hsp
      exact absurd hsp (splitHead_ne_complete bytes)
    · simp only at hp
      rcases hs : statusLine start with _ | ⟨status, reason⟩ <;> rw [hs] at hp
      · cases hp
      · rcases hloop : headerLoop rest.length rest ⟨[], true, false, false, 0⟩ with ⟨r, f⟩
        rw [hloop] at hp
        simp only at hp
        split_ifs at hp with hc hch
        · exact absurd (Prod.mk.inj hp).1 hc
        · cases hp
        · rw [Decidable.not_not] at hc
          exact ⟨start, rest, n, status, reason, f, rfl, hs, hc ▸ hloop, hch,
            (Prod.mk.inj hp).2.symm⟩
  · rintro ⟨start, rest, n, status, reason, f, hsp, hs, hloop, hch, rfl⟩
    rw [hsp]
    simp only [hs, hloop]
    rw [if_neg (by simp), if_neg hch]

/-- **`parse_headers` accepts a response exactly when a response head starts the bytes.** -/
theorem parseResponseHeaders_complete_iff {bytes : Bytes} {resp resp' : HttpResponse} :
    parseResponseHeaders bytes resp = (.complete, resp') ↔
      ∃ h : ResponseHead, h.render <+: bytes ∧ h.render.length ≤ maxHeaderBytes ∧
        h.Reads resp' := by
  rw [parseResponseHeaders_eq_complete_iff]
  constructor
  · rintro ⟨start, rest, n, status, reason, f, hsp, hs, hloop, hch, rfl⟩
    obtain ⟨ls, tail, rfl, rfl, rfl, hmax, hlf, hls⟩ := splitHead_eq_ok_iff.mp hsp
    obtain ⟨fs, rfl, hfs, rfl⟩ := (headerLoop_complete_iff hls).mp ⟨hloop, hch⟩
    have hlen := ResponseHead.length_render ⟨start, fs⟩
    exact ⟨⟨start, fs⟩, ⟨tail, rfl⟩, hlen ▸ hmax, hlf, hfs, hs, rfl, rfl, rfl, hlen.symm⟩
  · rintro ⟨h, ⟨tail, rfl⟩, hmax, hr⟩
    have hlines := hr.fields_wf.lines_ok
    obtain ⟨hloop, hch⟩ :=
      (headerLoop_complete_iff hlines).mpr ⟨h.fields, rfl, hr.fields_wf, rfl⟩
    refine ⟨h.start, _, h.render.length, resp'.status, resp'.reason, _,
      splitHead_eq_ok_iff.mpr ⟨_, tail, rfl, rfl, h.length_render, hmax, hr.start_lf, hlines⟩,
      hr.status_eq, hloop, hch, ?_⟩
    cases resp'
    obtain ⟨-, -, -, rfl, rfl, rfl, rfl⟩ := hr
    rfl

/-- The same on a buffer. -/
theorem parseResponse_complete_iff {b : Buffer} {resp resp' : HttpResponse} :
    parseResponse b.toRingBuffer resp = (.complete, resp') ↔
      ∃ h : ResponseHead, h.render <+: b.contents ∧ h.render.length ≤ maxHeaderBytes ∧
        h.Reads resp' := by
  unfold parseResponse
  rw [peek_head, parseResponseHeaders_complete_iff]
  refine exists_congr fun h => ⟨fun hp => ⟨?_, hp.2⟩, fun hp => ⟨?_, hp.2⟩⟩
  · exact hp.1.trans (List.take_prefix _ _)
  · exact List.prefix_take_iff.mpr ⟨hp.1, by have := hp.2.1; omega⟩

/-- No field line starts with two bytes the second of which is no part of a name. -/
theorem Field.WF.not_prefix {f : Field} (h : f.WF) {x y : UInt8} (hy : isTokenChar y = false)
    (hcolon : y ≠ colon) (t : Bytes) : ¬ [x, y] <+: f.line ++ t := by
  obtain ⟨c, name, hname⟩ := List.exists_cons_of_ne_nil h.name_ne
  unfold Field.line
  rw [hname]
  intro hp
  have hp' : [y] <+: name ++ colon :: f.raw ++ t := (List.cons_prefix_cons.mp hp).2
  cases name with
  | nil => exact hcolon (List.cons_prefix_cons.mp hp').1
  | cons d name =>
    have hd := List.all_eq_true.mp h.name_token d (by rw [hname]; simp)
    rw [← (List.cons_prefix_cons.mp hp').1, hy] at hd
    cases hd

/-- **A line that starts no field** is found behind a head only, or at its end. -/
theorem ResponseHead.Reads.contains_behind {h : ResponseHead} {resp : HttpResponse}
    (hr : h.Reads resp) {x y : UInt8} (hx : x ≠ cr) (hy : isTokenChar y = false)
    (hcolon : y ≠ colon) (rest : Bytes) :
    contains [cr, lf, x, y] (h.render ++ rest) = contains [cr, lf, x, y] (crlf ++ rest) := by
  have hblank : ¬ [x, y] <+: crlf ++ rest := fun hp => hx (List.cons_prefix_cons.mp hp).1
  unfold contains ResponseHead.render
  rw [List.append_assoc]
  refine find_isSome_joinLines cr_ne_lf hblank hr.start_lf fun s hs => ?_
  obtain ⟨f, hf, rfl⟩ := List.mem_map.mp hs
  have hwf := hr.fields_wf.fields_wf f hf
  exact ⟨hwf.line_ok.2, fun t => hwf.not_prefix hy hcolon _⟩

/-! ### What a head says of its body -/

/-- A content length that is announced is the number of every such field, and fits. -/
theorem ResponseHead.Reads.contentLength_lt {h : ResponseHead} {resp : HttpResponse}
    (hr : h.Reads resp) : resp.contentLength < sizeMod := by
  rw [hr.contentLength_eq]
  unfold commonLength
  cases hv : (values "content-length" h.headers).head? with
  | none => decide
  | some v => exact (hr.fields_wf.lengths v (List.mem_of_head? hv)).2

theorem ResponseHead.Reads.length_field {h : ResponseHead} {resp : HttpResponse}
    (hr : h.Reads resp) {f : HttpHeader} (hf : f ∈ resp.headers)
    (hname : lower f.name = ascii "content-length") :
    digitsVal 10 f.value = resp.contentLength ∧ resp.chunked = false := by
  have hmem : f.value ∈ values "content-length" h.headers := by
    rw [hr.headers_eq] at hf
    exact List.mem_map_of_mem (List.mem_filter.mpr ⟨hf, by simpa using hname⟩)
  constructor
  · rw [hr.contentLength_eq]
    unfold commonLength
    cases hv : values "content-length" h.headers with
    | nil =>
      rw [hv] at hmem
      exact absurd hmem List.not_mem_nil
    | cons v vs =>
      have hv' : v ∈ values "content-length" h.headers := hv ▸ List.mem_cons_self
      exact hr.fields_wf.lengths_same _ hmem v hv'
  · rw [hr.chunked_eq]
    exact hr.fields_wf.one_framing (List.ne_nil_of_mem hmem)

/-! ## The status line -/

theorem digitsVal_append (base : Nat) (s t : Bytes) :
    digitsVal base (s ++ t) =
      t.foldl (fun n c => n * base + (digitVal base c).getD 0) (digitsVal base s) := by
  unfold digitsVal
  rw [List.foldl_append]

theorem digitVal_ten_lt (c : UInt8) : (digitVal 10 c).getD 0 < 10 := by
  unfold digitVal
  simp only
  generalize (if isDigit c = true then _ else _ : Option Nat) = v
  cases v with
  | none => decide
  | some n =>
    by_cases hn : n < 10 <;> simp [Option.filter, hn]

/-- A numeral is below the power of its length. -/
theorem digitsVal_lt (s : Bytes) : digitsVal 10 s < 10 ^ s.length := by
  induction s using List.reverseRecOn with
  | nil => decide
  | append_singleton s c ih =>
    rw [digitsVal_append, List.length_append, List.length_singleton, pow_succ]
    have := digitVal_ten_lt c
    simp only [List.foldl_cons, List.foldl_nil]
    omega

/-- What `from_chars` reads as a whole number: digits, or a minus sign and digits. -/
theorem fromCharsInt_eq_some_nil {s : Bytes} {n : Int} :
    fromCharsInt s = some (n, []) ↔
      (isNumeral s = true ∧ n = digitsVal 10 s ∨
        ∃ t, s = 45 :: t ∧ isNumeral t = true ∧ n = -(digitsVal 10 t)) ∧
      -(2 ^ 31) ≤ n ∧ n < 2 ^ 31 := by
  -- the sign is read first, and behind it the digits
  have key : ∀ (t : Bytes) (f : Nat → Int),
      (if t.takeWhile isDigit = [] then none
        else if -(2 ^ 31) ≤ f (digitsVal 10 (t.takeWhile isDigit)) ∧
          f (digitsVal 10 (t.takeWhile isDigit)) < 2 ^ 31
        then some (f (digitsVal 10 (t.takeWhile isDigit)), t.drop (t.takeWhile isDigit).length)
        else none) = some (n, []) ↔
      (isNumeral t = true ∧ n = f (digitsVal 10 t)) ∧ -(2 ^ 31) ≤ n ∧ n < 2 ^ 31 := by
    intro t f
    constructor
    · intro h
      split_ifs at h with hne hrange
      obtain ⟨rfl, hrest⟩ := Prod.mk.inj (Option.some.inj h)
      obtain ⟨hnum, heq⟩ := takeWhile_isDigit_iff.mp ⟨hne, hrest⟩
      rw [heq] at hrange ⊢
      exact ⟨⟨hnum, rfl⟩, hrange⟩
    · rintro ⟨⟨hnum, rfl⟩, hrange⟩
      have hdig : t.takeWhile isDigit = t := by
        rw [isNumeral, Bool.and_eq_true, List.all_eq_true] at hnum
        exact List.takeWhile_eq_self_iff.mpr hnum.2
      obtain ⟨hne, hrest⟩ := takeWhile_isDigit_iff.mpr ⟨hnum, hdig⟩
      rw [if_neg hne, hrest, hdig, if_pos hrange]
  unfold fromCharsInt
  simp only [digitVal_ten_isSome]
  cases s with
  | nil => simp [isNumeral]
  | cons c t =>
    by_cases hc : c = 45
    · subst hc
      have hminus : isNumeral (45 :: t) = false := by simp [isNumeral, isDigit]
      simpa [hminus] using key t fun k => -k
    · have hno : ∀ t', c :: t = 45 :: t' ↔ False := fun t' => by simp [hc]
      simpa [hc, hno] using key (c :: t) fun k => k

/-- What the parser reads as a status line: `HTTP/`, four bytes, a number of three bytes, and a
reason behind one more byte. -/
theorem statusLine_eq_some_iff {start reason : Bytes} {status : Int} :
    statusLine start = some (status, reason) ↔
      ∃ version code tail : Bytes, start = ascii "HTTP/" ++ version ++ code ++ tail ∧
        version.length = 4 ∧ code.length = 3 ∧ fromCharsInt code = some (status, []) ∧
        reason = tail.drop 1 := by
  have h5 : (ascii "HTTP/").length = 5 := rfl
  unfold statusLine
  constructor
  · intro h
    by_cases hbad : ¬ ascii "HTTP/" <+: start ∨ start.length < 12
    · rw [if_pos hbad] at h
      cases h
    rw [if_neg hbad] at h
    rw [not_or, not_not, Nat.not_lt] at hbad
    obtain ⟨⟨rest, rfl⟩, hlen⟩ := hbad
    rw [List.length_append, h5] at hlen
    have hdrop : ∀ k, (ascii "HTTP/" ++ rest).drop (5 + k) = rest.drop k := by
      intro k
      rw [← List.drop_drop, ← h5, List.drop_left]
    rw [show (9 : Nat) = 5 + 4 from rfl, hdrop] at h
    rcases hn : fromCharsInt ((rest.drop 4).take 3) with _ | ⟨n, _ | ⟨c, t⟩⟩ <;>
      simp only [hn] at h <;> cases h
    refine ⟨rest.take 4, (rest.drop 4).take 3, rest.drop 7, ?_, ?_, ?_, hn, ?_⟩
    · rw [List.append_assoc, List.append_assoc, show (7 : Nat) = 4 + 3 from rfl, ← List.drop_drop,
        List.take_append_drop, List.take_append_drop]
    · rw [List.length_take]
      omega
    · rw [List.length_take, List.length_drop]
      omega
    · rw [List.drop_drop]
      split_ifs with h13
      · exact hdrop 8
      · rw [List.length_append, h5] at h13
        exact (List.drop_eq_nil_of_le (by omega)).symm
  · rintro ⟨version, code, tail, rfl, hv, hc, hn, rfl⟩
    have hlen : (ascii "HTTP/" ++ version ++ code ++ tail).length = 12 + tail.length := by
      simp only [List.length_append, h5, hv, hc]
    have hcode : ((ascii "HTTP/" ++ version ++ code ++ tail).drop 9).take 3 = code := by
      rw [List.append_assoc, List.drop_left' (by rw [List.length_append, h5, hv]), ← hc,
        List.take_left]
    have htail : (ascii "HTTP/" ++ version ++ code ++ tail).drop 13 = tail.drop 1 := by
      rw [show (13 : Nat) = 12 + 1 from rfl, ← List.drop_drop, List.drop_left']
      simp only [List.length_append, h5, hv, hc]
    rw [if_neg, hcode, hn]
    · simp only [hlen, htail, Option.some.injEq, Prod.mk.injEq, true_and]
      split_ifs with h13
      · rfl
      · exact (List.drop_eq_nil_of_le (by omega)).symm
    · rw [not_or, not_not, hlen]
      exact ⟨⟨version ++ code ++ tail, by simp only [List.append_assoc]⟩, by omega⟩

/-- A status line: `HTTP/` DIGIT `.` DIGIT SP and three digits, then the end of the line or SP and
the reason. -/
def StatusLine (line : Bytes) (status : Int) (reason : Bytes) : Prop :=
  ∃ (major minor : UInt8) (code tail : Bytes),
    line = ascii "HTTP/" ++ [major, 46, minor, sp] ++ code ++ tail ∧
    isDigit major = true ∧ isDigit minor = true ∧
    code.length = 3 ∧ code.all isDigit = true ∧ status = digitsVal 10 code ∧
    (tail = [] ∧ reason = [] ∨ tail = sp :: reason)

/-- The bytes of a status line that the parser does not look at, and the sign it accepts. -/
structure StatusChecks (start : Bytes) : Prop where
  major  : start[5]?.any isDigit = true
  dot    : start[6]? = some 46
  minor  : start[7]?.any isDigit = true
  blank  : start[8]? = some sp
  sign   : start[9]? ≠ some 45
  behind : start[12]? = none ∨ start[12]? = some sp

instance instDecidableStatusChecks (start : Bytes) : Decidable (StatusChecks start) :=
  decidable_of_iff (start[5]?.any isDigit = true ∧ start[6]? = some 46 ∧
      start[7]?.any isDigit = true ∧ start[8]? = some sp ∧ start[9]? ≠ some 45 ∧
      (start[12]? = none ∨ start[12]? = some sp))
    ⟨fun ⟨h1, h2, h3, h4, h5, h6⟩ => ⟨h1, h2, h3, h4, h5, h6⟩,
      fun ⟨h1, h2, h3, h4, h5, h6⟩ => ⟨h1, h2, h3, h4, h5, h6⟩⟩

/-- The checks, on a line cut as the parser cuts it. -/
theorem statusChecks_iff {a b c d x y z : UInt8} {tail : Bytes} :
    StatusChecks (ascii "HTTP/" ++ [a, b, c, d] ++ [x, y, z] ++ tail) ↔
      isDigit a = true ∧ b = 46 ∧ isDigit c = true ∧ d = sp ∧ x ≠ 45 ∧
        (tail = [] ∨ ∃ reason, tail = sp :: reason) := by
  have hbytes : ∀ k, (ascii "HTTP/" ++ [a, b, c, d] ++ [x, y, z] ++ tail)[5 + k]? =
      (a :: b :: c :: d :: x :: y :: z :: tail)[k]? := by
    intro k
    rw [List.append_assoc, List.append_assoc, List.getElem?_append_right (Nat.le_add_right 5 k)]
    exact congrArg _ (Nat.add_sub_cancel_left 5 k)
  have hbehind : (tail[0]? = none ∨ tail[0]? = some sp) ↔
      (tail = [] ∨ ∃ reason, tail = sp :: reason) := by
    cases tail <;> simp
  constructor
  · rintro ⟨hmajor, hdot, hminor, hblank, hsign, hend⟩
    rw [hbytes 0] at hmajor
    rw [hbytes 1] at hdot
    rw [hbytes 2] at hminor
    rw [hbytes 3] at hblank
    rw [hbytes 4] at hsign
    rw [hbytes 7] at hend
    exact ⟨hmajor, Option.some.inj hdot, hminor, Option.some.inj hblank,
      fun hx => hsign (congrArg some hx), hbehind.mp hend⟩
  · rintro ⟨hmajor, rfl, hminor, rfl, hsign, hend⟩
    refine ⟨?_, hbytes 1, ?_, hbytes 3, ?_, ?_⟩
    · rw [hbytes 0]
      exact hmajor
    · rw [hbytes 2]
      exact hminor
    · rw [hbytes 4]
      exact fun h => hsign (Option.some.inj h)
    · rw [hbytes 7]
      exact hbehind.mpr hend

/-- **A line the parser accepts is a status line** exactly if these bytes are right. -/
theorem statusLine_sound_iff {line reason : Bytes} {status : Int}
    (h : statusLine line = some (status, reason)) :
    StatusLine line status reason ↔ StatusChecks line := by
  obtain ⟨version, code, tail, rfl, hv, hc, hn, rfl⟩ := statusLine_eq_some_iff.mp h
  obtain ⟨a, b, c, d, rfl⟩ := List.length_eq_four.mp hv
  obtain ⟨x, y, z, rfl⟩ := List.length_eq_three.mp hc
  rw [statusChecks_iff]
  constructor
  · rintro ⟨major, minor, code, tail', heq, hmajor, hminor, hlen, hdig, -, hend⟩
    obtain ⟨x', y', z', rfl⟩ := List.length_eq_three.mp hlen
    simp only [List.append_assoc, List.append_cancel_left_eq, List.cons_append, List.nil_append,
      List.cons.injEq] at heq
    obtain ⟨rfl, rfl, rfl, rfl, rfl, rfl, rfl, rfl⟩ := heq
    refine ⟨hmajor, rfl, hminor, rfl, ?_, hend.imp And.left fun ht => ⟨_, ht⟩⟩
    rintro rfl
    cases hdig
  · rintro ⟨hmajor, rfl, hminor, rfl, hsign, hend⟩
    obtain ⟨⟨hnum, rfl⟩ | ⟨t, ht, -⟩, -⟩ := fromCharsInt_eq_some_nil.mp hn
    · rw [isNumeral, Bool.and_eq_true] at hnum
      refine ⟨a, c, [x, y, z], tail, rfl, hmajor, hminor, rfl, hnum.2, rfl, ?_⟩
      rcases hend with rfl | ⟨reason, rfl⟩
      · exact Or.inl ⟨rfl, rfl⟩
      · exact Or.inr rfl
    · exact absurd (List.cons.inj ht).1 hsign

end Uproxy
