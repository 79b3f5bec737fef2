import Uproxy.Http1.Message
import Uproxy.Buffer.Queue
import Mathlib.Data.List.Forall2

/-!
# The HTTP/1 head parser (`parse_headers`)

`parse_headers` as written: the search for the blank line, the bare-LF scan, the request or status
line, and the loop over the field lines. It is run on a request or on a response, so the two start
lines are `requestLine` and `statusLine` and the rest is shared. The output record is filled as the
code goes and keeps what was stored before an error, so a parse returns the record along with the
verdict.

* `headerLoop` is the `while` over the block behind the start line. Each turn removes at least one
  byte, so the number of bytes left bounds the turns and running out of it is the loop's own exit.
* `Fields` holds what the loop changes: the stored fields and flags, and its two local variables.

Results:
* **`splitHead_eq_ok_iff`**: the searches find exactly a start line, nonempty field lines and a
  blank line, no line holding an LF (`lines_of_splitHead`, `splitHead_lines`);
* `headerLoop_lines`: the loop takes the field lines one by one (`foldLines`).
-/

namespace Uproxy

open Lib.Search

/-! ## The parts of the head -/

/-- The bare-LF scan: an LF at the start or behind a byte other than CR. -/
def bareLf : Option UInt8 → Bytes → Bool
  | _, [] => false
  | prev, x :: xs => (x == lf && prev != some cr) || bareLf (some x) xs

/-- `parse_headers` up to the start line: the start line, the rest of the header block, and the
number of head bytes. -/
def splitHead (bytes : Bytes) : Except ParseResult (Bytes × Bytes × Nat) :=
  match find crlfcrlf bytes with
  | none =>
    if maxHeaderBytes < bytes.length || contains [lf] bytes then .error .error
    else .error .incomplete
  | some e =>
    if maxHeaderBytes < e + 4 then .error .error
    else
      let headerBlock := bytes.take (e + 2)
      if contains [lf] headerBlock && bareLf none headerBlock then .error .error
      else
        match find crlf headerBlock with
        | none => .error .incomplete
        | some lineEnd => .ok (headerBlock.take lineEnd, headerBlock.drop (lineEnd + 2), e + 4)

/-- The request line: method, target and version. -/
def requestLine (start : Bytes) : Option (Bytes × Bytes × Bytes) :=
  match find [sp] start with
  | none => none
  | some sp1 =>
    match findFrom [sp] start (sp1 + 1) with
    | none => none
    | some sp2 =>
      if (findFrom [sp] start (sp2 + 1)).isSome then none
      else
        let method := start.take sp1
        let target := (start.drop (sp1 + 1)).take (sp2 - sp1 - 1)
        let version := start.drop (sp2 + 1)
        if method = [] ∨ maxMethodLen < method.length ∨ ¬ method.all isTokenChar then none
        else if target = [] ∨ maxTargetLen < target.length ∨
            (version ≠ ascii "HTTP/1.1" ∧ version ≠ ascii "HTTP/1.0") then none
        else some (method, target, version)

/-- The status line: status code and reason. -/
def statusLine (start : Bytes) : Option (Int × Bytes) :=
  if ¬ ascii "HTTP/" <+: start ∨ start.length < 12 then none
  else
    match fromCharsInt ((start.drop 9).take 3) with
    | some (status, []) => some (status, if 13 < start.length then start.drop 13 else [])
    | _ => none

/-- What the header loop changes. -/
structure Fields where
  headers          : List HttpHeader
  keepAlive        : Bool
  chunked          : Bool
  sawContentLength : Bool
  contentLength    : Nat
  deriving DecidableEq, Repr

/-- The checks on one field line, up to its value. -/
def fieldLine (text : Bytes) : Option HttpHeader :=
  if text.head?.any isOws then none
  else
    match find [colon] text with
    | none => none
    | some c =>
      if c = 0 then none
      else if text[c - 1]?.any isOws then none
      else
        let name := text.take c
        if maxHeaderName < name.length ∨ ¬ name.all isTokenChar then none
        else
          let value := trimOws (text.drop (c + 1))
          if maxHeaderValue < value.length ∨ ¬ validHeaderValue value then none
          else some ⟨name, value⟩

/-- Storing one field: the field count, the framing fields, `push_back`. -/
def addField (f : Fields) (h : HttpHeader) : Option Fields :=
  if maxHeaderCount ≤ f.headers.length then none
  else
    let lname := lower h.name
    if lname = ascii "content-length" then
      match fromChars 10 h.value with
      | some (parsed, []) =>
        if f.sawContentLength ∧ parsed ≠ f.contentLength then none
        else some { f with
          sawContentLength := true, contentLength := parsed, headers := f.headers ++ [h] }
      | _ => none
    else if lname = ascii "transfer-encoding" ∧ contains (ascii "chunked") (lower h.value) then
      some { f with chunked := true, headers := f.headers ++ [h] }
    else if lname = ascii "connection" then
      some { f with
        keepAlive := f.keepAlive && !contains (ascii "close") (lower h.value)
        headers := f.headers ++ [h] }
    else some { f with headers := f.headers ++ [h] }

/-- The `while` over the field lines, on the part of the block from `pos` on. -/
def headerLoop : Nat → Bytes → Fields → ParseResult × Fields
  | 0, _, f => (.complete, f)
  | fuel + 1, rest, f =>
    if rest = [] then (.complete, f)
    else
      match find crlf rest with
      | none => (.complete, f)
      | some next =>
        if next = 0 then (.complete, f)
        else
          match (fieldLine (rest.take next)).bind (addField f) with
          | none => (.error, f)
          | some f' => headerLoop fuel (rest.drop (next + 2)) f'

/-- `parse_headers` into a request. -/
def parseRequestHeaders (bytes : Bytes) (req : HttpRequest) : ParseResult × HttpRequest :=
  match splitHead bytes with
  | .error r => (r, req)
  | .ok (start, rest, headerBytes) =>
    match requestLine start with
    | none => (.error, req)
    | some (method, target, version) =>
      let (r, f) := headerLoop rest.length rest
        ⟨[], version == ascii "HTTP/1.1", false, false, 0⟩
      let req : HttpRequest := ⟨method, target, version, f.headers, f.keepAlive, 0, f.chunked,
        headerBytes⟩
      if r ≠ .complete then (r, req)
      else if f.chunked ∧ f.sawContentLength then (.error, req)
      else (.complete, { req with contentLength := f.contentLength })

/-- `parse_headers` into a response. -/
def parseResponseHeaders (bytes : Bytes) (resp : HttpResponse) : ParseResult × HttpResponse :=
  match splitHead bytes with
  | .error r => (r, resp)
  | .ok (start, rest, headerBytes) =>
    match statusLine start with
    | none => (.error, resp)
    | some (status, reason) =>
      let (r, f) := headerLoop rest.length rest ⟨[], true, false, false, 0⟩
      let resp : HttpResponse := ⟨status, reason, f.headers, 0, f.chunked, headerBytes⟩
      if r ≠ .complete then (r, resp)
      else if f.chunked ∧ f.sawContentLength then (.error, resp)
      else (.complete, { resp with contentLength := f.contentLength })

/-- `Http1Parser::parse_request`. -/
def parseRequest (buf : RingBuffer) (req : HttpRequest) : ParseResult × HttpRequest :=
  parseRequestHeaders (buf.peek (min buf.readable (maxHeaderBytes + 1))) req

/-- `Http1Parser::parse_response`. -/
def parseResponse (buf : RingBuffer) (resp : HttpResponse) : ParseResult × HttpResponse :=
  parseResponseHeaders (buf.peek (min buf.readable (maxHeaderBytes + 1))) resp

/-- The parser reads a buffer through its first `65537` bytes. -/
theorem peek_head (b : Buffer) :
    b.peek (min b.readable (maxHeaderBytes + 1)) = b.contents.take (maxHeaderBytes + 1) := by
  rw [b.peek_eq, b.readable_eq, ← List.take_take]
  exact List.take_of_length_le (List.length_take_le' _ _)

/-! ## The blank line -/

/-- The scan accepts exactly the blocks in which every LF follows a CR. -/
theorem bareLf_eq_false_iff : ∀ {prev : Option UInt8} {xs : Bytes},
    bareLf prev xs = false ↔
      ∀ a b, xs = a ++ lf :: b → (a = [] ∧ prev = some cr) ∨ ∃ a', a = a' ++ [cr]
  | prev, [] => by simp [bareLf]
  | prev, x :: xs => by
    have ih : bareLf (some x) xs = false ↔ _ := bareLf_eq_false_iff
    unfold bareLf
    rw [Bool.or_eq_false_iff, ih, Bool.and_eq_false_imp]
    simp only [beq_iff_eq, bne_eq_false_iff_eq, Option.some.injEq]
    constructor
    · rintro ⟨h0, h⟩ a b he
      cases a with
      | nil => exact Or.inl ⟨rfl, h0 (List.cons.inj he).1⟩
      | cons y a =>
        obtain ⟨rfl, he'⟩ := List.cons.inj he
        rcases h a b he' with ⟨rfl, rfl⟩ | ⟨a', rfl⟩
        · exact Or.inr ⟨[], rfl⟩
        · exact Or.inr ⟨x :: a', rfl⟩
    · intro h
      refine ⟨fun hx => ?_, fun a b he => ?_⟩
      · rcases h [] xs (by rw [hx]; rfl) with h1 | ⟨a', h1⟩
        · exact h1.2
        · simp at h1
      · rcases h (x :: a) b (by rw [he]; rfl) with h1 | ⟨a', h1⟩
        · exact absurd h1.1 (by simp)
        · cases a' with
          | nil => exact Or.inl ⟨(List.cons.inj h1).2, (List.cons.inj h1).1⟩
          | cons y a' => exact Or.inr ⟨a', (List.cons.inj h1).2⟩

theorem bareLf_none {xs : Bytes} : bareLf none xs = false ↔ NoBare cr lf xs := by
  rw [bareLf_eq_false_iff]
  unfold NoBare
  simp

/-- A block without a bare LF that ends in CRLF is a sequence of lines. -/
theorem lines_of_block {xs : Bytes} (h : NoBare cr lf (xs ++ crlf)) :
    ∃ s ls, xs ++ crlf = joinLines cr lf (s :: ls) ∧ ∀ s' ∈ s :: ls, lf ∉ s' := by
  obtain ⟨ls, t, he, hls, ht⟩ := lines_of_noBare cr_ne_lf _ _ (Nat.le_refl _) h
  have htnil : t = [] := by
    -- the last byte of the block is an LF, and `t` has none
    rcases t.eq_nil_or_concat with h0 | ⟨t', x, rfl⟩
    · exact h0
    · rw [List.concat_eq_append, ← List.append_assoc,
        show xs ++ crlf = (xs ++ [cr]) ++ [lf] by simp [crlf]] at he
      have hx : [lf] = [x] := (List.append_inj' he rfl).2
      rw [List.concat_eq_append, ← hx] at ht
      exact absurd (by simp) ht
  subst htnil
  rw [List.append_nil] at he
  cases ls with
  | nil => simp [crlf] at he
  | cons s ls => exact ⟨s, ls, he, hls⟩

/-- Lines with an empty one behind the first hold a doubled CRLF before their end. -/
theorem blank_in_lines : ∀ {s : Bytes} {ls : List Bytes}, [] ∈ ls →
    ∃ a b, joinLines cr lf (s :: ls) = a ++ crlfcrlf ++ b
  | s, [], h => absurd h List.not_mem_nil
  | s, s' :: ls, h => by
    by_cases hs : s' = []
    · subst hs
      exact ⟨s, joinLines cr lf ls, by simp [crlfcrlf]⟩
    · have hm : [] ∈ ls := by
        rcases List.mem_cons.mp h with h | h
        · exact absurd h.symm hs
        · exact h
      obtain ⟨a, b, he⟩ := @blank_in_lines s' ls hm
      exact ⟨s ++ crlf ++ a, b, by rw [joinLines_cons, he]; simp [crlf]⟩

/-- The block: what stands before the blank line, and its first CRLF. -/
theorem take_block {bytes : Bytes} {e : Nat} (he : find crlfcrlf bytes = some e) :
    bytes.take (e + 2) = bytes.take e ++ crlf := by
  have hle := find_add_le he
  have hlen : (bytes.take e).length = e := by
    rw [List.length_take]
    omega
  have hcut := congrArg (List.take (e + 2)) (find_split he)
  rw [hcut, List.append_assoc, List.take_append, hlen, List.take_of_length_le (by omega),
    Nat.add_sub_cancel_left]
  rfl

/-- A block that passes the scan has no bare LF. -/
theorem noBare_of_scan {xs : Bytes} (h : ¬ (contains [lf] xs && bareLf none xs) = true) :
    NoBare cr lf xs := by
  by_cases hc : contains [lf] xs = true
  · rw [hc, Bool.true_and, Bool.not_eq_true] at h
    exact bareLf_none.mp h
  · rw [contains_singleton] at hc
    rintro a b rfl
    exact absurd (by simp) hc

/-- No line in front of the first blank line is empty. -/
theorem lines_ne_nil {bytes s : Bytes} {ls : List Bytes} {e : Nat}
    (he : find crlfcrlf bytes = some e) (hj : bytes.take (e + 2) = joinLines cr lf (s :: ls)) :
    [] ∉ ls := by
  intro hnil
  obtain ⟨a, b, hab⟩ := @blank_in_lines s ls hnil
  have h4 : crlfcrlf.length = 4 := rfl
  have hle := find_add_le he
  have hlen := congrArg List.length (hj.trans hab)
  rw [List.length_take, List.length_append, List.length_append] at hlen
  refine (find_eq_some_iff.mp he).2.2 a.length (by omega) ?_
  rw [← List.take_append_drop (e + 2) bytes, hj, hab, List.append_assoc, List.append_assoc,
    List.drop_left]
  exact List.prefix_append _ _

/-- What `splitHead` finds. -/
theorem lines_of_splitHead {bytes start rest : Bytes} {n : Nat}
    (h : splitHead bytes = .ok (start, rest, n)) :
    ∃ ls tail, bytes = joinLines cr lf (start :: ls) ++ crlf ++ tail ∧
      rest = joinLines cr lf ls ∧ n = (joinLines cr lf (start :: ls)).length + 2 ∧
      n ≤ maxHeaderBytes ∧ lf ∉ start ∧ ∀ s ∈ ls, s ≠ [] ∧ lf ∉ s := by
  unfold splitHead at h
  cases he : find crlfcrlf bytes with
  | none => rw [he] at h; simp only at h; split at h <;> cases h
  | some e =>
    rw [he] at h
    simp only at h
    split at h
    · cases h
    rename_i hmax
    split at h
    · cases h
    rename_i hbare
    have hblock := take_block he
    obtain ⟨s, ls, hj, hlines⟩ := lines_of_block (hblock ▸ noBare_of_scan hbare)
    rw [← hblock] at hj
    have hs : lf ∉ s := hlines s List.mem_cons_self
    rw [hj, joinLines_cons] at h
    unfold crlf at h
    rw [find_delim cr_ne_lf hs] at h
    simp only [List.take_left', drop_behind_two, Except.ok.injEq, Prod.mk.injEq] at h
    obtain ⟨rfl, hrest, rfl⟩ := h
    have hlen : (joinLines cr lf (s :: ls)).length = e + 2 := by
      have hle := find_add_le he
      have h4 : crlfcrlf.length = 4 := rfl
      rw [← hj, List.length_take]
      omega
    refine ⟨ls, bytes.drop (e + 4), ?_, hrest.symm, by rw [hlen], by omega, hs, fun s' hs' =>
      ⟨fun h0 => lines_ne_nil he hj (h0 ▸ hs'), hlines s' (List.mem_cons_of_mem s hs')⟩⟩
    rw [← hj, hblock, show (4 : Nat) = crlfcrlf.length from rfl]
    conv_lhs => rw [find_split he]
    simp [crlf, crlfcrlf]

/-- What it does with such a head. -/
theorem splitHead_lines {start : Bytes} {ls : List Bytes} (tail : Bytes)
    (hmax : (joinLines cr lf (start :: ls)).length + 2 ≤ maxHeaderBytes) (hs : lf ∉ start)
    (hls : ∀ s ∈ ls, s ≠ [] ∧ lf ∉ s) :
    splitHead (joinLines cr lf (start :: ls) ++ crlf ++ tail) =
      .ok (start, joinLines cr lf ls, (joinLines cr lf (start :: ls)).length + 2) := by
  have hblank : find crlfcrlf (joinLines cr lf (start :: ls) ++ crlf ++ tail) =
      some ((joinLines cr lf (start :: ls)).length - 2) := by
    rw [List.append_assoc]
    exact find_blank cr_ne_lf tail hs hls
  have h2 : 2 ≤ (joinLines cr lf (start :: ls)).length := by
    rw [joinLines_cons, List.length_append, List.length_cons, List.length_cons]
    omega
  have hscan : bareLf none (joinLines cr lf (start :: ls)) = false := by
    refine bareLf_none.mpr (noBare_joinLines cr_ne_lf fun s' hs' => ?_)
    rcases List.mem_cons.mp hs' with rfl | hs'
    · exact hs
    · exact (hls s' hs').2
  unfold splitHead
  rw [hblank]
  simp only
  rw [if_neg (by omega), Nat.sub_add_cancel h2, List.append_assoc, List.take_left, hscan,
    Bool.and_false, if_neg Bool.false_ne_true, joinLines_cons]
  unfold crlf
  rw [find_delim cr_ne_lf hs]
  simp only [List.take_left', drop_behind_two, Except.ok.injEq, Prod.mk.injEq, true_and]
  rw [← joinLines_cons]
  omega

/-- **The head found.** `splitHead` succeeds exactly on a start line, nonempty field lines, a blank
line and any rest, the head being within the limit and its lines without LF. -/
theorem splitHead_eq_ok_iff {bytes start rest : Bytes} {n : Nat} :
    splitHead bytes = .ok (start, rest, n) ↔
      ∃ ls tail, bytes = joinLines cr lf (start :: ls) ++ crlf ++ tail ∧
        rest = joinLines cr lf ls ∧ n = (joinLines cr lf (start :: ls)).length + 2 ∧
        n ≤ maxHeaderBytes ∧ lf ∉ start ∧ ∀ s ∈ ls, s ≠ [] ∧ lf ∉ s := by
  refine ⟨lines_of_splitHead, ?_⟩
  rintro ⟨ls, tail, rfl, rfl, rfl, hmax, hs, hls⟩
  exact splitHead_lines tail hmax hs hls

/-- The head search never answers `Complete` by itself. -/
theorem splitHead_ne_complete (bytes : Bytes) : splitHead bytes ≠ .error .complete := by
  unfold splitHead
  intro h
  split at h
  · split at h <;> cases h
  · split at h
    · cases h
    · simp only at h
      split at h
      · cases h
      · split at h <;> cases h

/-! ## The header loop -/

/-- The header loop on lines already cut. -/
def foldLines : List Bytes → Fields → ParseResult × Fields
  | [], f => (.complete, f)
  | line :: ls, f =>
    match (fieldLine line).bind (addField f) with
    | none => (.error, f)
    | some f' => foldLines ls f'

/-- On nonempty lines the loop takes them one by one. -/
theorem headerLoop_lines : ∀ {ls : List Bytes} {fuel : Nat} {f : Fields},
    (∀ s ∈ ls, s ≠ [] ∧ lf ∉ s) → (joinLines cr lf ls).length ≤ fuel →
      headerLoop fuel (joinLines cr lf ls) f = foldLines ls f
  | [], fuel, f, _, _ => by cases fuel <;> simp [headerLoop, foldLines]
  | s :: ls, 0, f, _, hf => by simp at hf
  | s :: ls, fuel + 1, f, h, hf => by
    have hs := h s List.mem_cons_self
    have hls : ∀ s' ∈ ls, s' ≠ [] ∧ lf ∉ s' := fun s' hs' => h s' (List.mem_cons_of_mem s hs')
    have hne : s.length ≠ 0 := fun h0 => hs.1 (List.length_eq_zero_iff.mp h0)
    rw [joinLines_cons, List.length_append, List.length_cons, List.length_cons] at hf
    have hfind : find crlf (s ++ cr :: lf :: joinLines cr lf ls) = some s.length :=
      find_delim cr_ne_lf hs.2 _
    unfold headerLoop foldLines
    rw [joinLines_cons, if_neg (by simp), hfind]
    simp only [if_neg hne, List.take_left', drop_behind_two]
    cases (fieldLine s).bind (addField f) with
    | none => rfl
    | some f' => exact headerLoop_lines hls (by omega)

/-- A complete loop read every line and stored every field. -/
theorem foldLines_complete_iff : ∀ {ls : List Bytes} {f f' : Fields},
    foldLines ls f = (.complete, f') ↔
      ∃ hs, List.Forall₂ (fun l h => fieldLine l = some h) ls hs ∧ hs.foldlM addField f = some f'
  | [], f, f' => by simp [foldLines]
  | line :: ls, f, f' => by
    unfold foldLines
    constructor
    · intro h
      cases hl : fieldLine line with
      | none => rw [hl] at h; cases h
      | some hd =>
        rw [hl, Option.bind_some] at h
        cases ha : addField f hd with
        | none => rw [ha] at h; cases h
        | some f₁ =>
          rw [ha] at h
          obtain ⟨hs, hm, hf⟩ := foldLines_complete_iff.mp h
          exact ⟨hd :: hs, .cons hl hm, by rw [List.foldlM_cons, ha]; exact hf⟩
    · rintro ⟨hs, hm, hf⟩
      cases hm with
      | cons hl hm =>
        rw [List.foldlM_cons] at hf
        obtain ⟨f₁, ha, hf⟩ := Option.bind_eq_some_iff.mp hf
        rw [hl, Option.bind_some, ha]
        exact foldLines_complete_iff.mpr ⟨_, hm, hf⟩

end Uproxy
