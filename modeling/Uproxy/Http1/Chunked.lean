import Uproxy.Http1.Message

/-!
# Chunked bodies

The grammar of a chunked body and the content it carries, and a walk over the chunks that finds
both. The walk is the reference that `response_complete` and the translation to HTTP/2 are compared
with; the proxy itself has none.

* `Carries`, `ChunkedBody`: the grammar with the content, and without;
* `dechunk_eq_some_iff`: the walk finds the body at the front of a byte string exactly if there is
  one, and what it returns is the content and what stands behind the body;
* `Carries.unique`, `Carries.length_lt`: a body has one content, and is longer than it;
* `InChunks`: any bytes are the chunks at their front and a tail, and `InChunks.body_iff`: they
  start with a body if the tail starts with a last chunk;
* `marked_iff`: where the texts lie that usually end a body, and `InChunks.search_iff`: when the
  search for them finds the bodies.
-/

namespace Uproxy

open Lib.Search

/-! ## The grammar -/

/-- The size in the first line of a chunk; an extension is skipped. -/
def chunkSize (line : Bytes) : Option Nat :=
  match fromChars 16 (line.takeWhile (· ≠ 59)) with
  | some (n, []) => some n
  | _ => none

/-- A chunked body and its content: chunks, each a line with its size, the data and a line end;
then a chunk of size 0, trailers and an empty line. The content is the data of the chunks. -/
inductive Carries : Bytes → Bytes → Prop where
  | last {line : Bytes} {trailers : List Bytes} (hsize : chunkSize line = some 0)
      (hline : lf ∉ line) (htrailers : ∀ t ∈ trailers, t ≠ [] ∧ lf ∉ t) :
      Carries (joinLines cr lf (line :: trailers) ++ crlf) []
  | chunk {line data rest content : Bytes} (hsize : chunkSize line = some data.length)
      (hline : lf ∉ line) (hdata : data ≠ []) (hrest : Carries rest content) :
      Carries (line ++ crlf ++ data ++ crlf ++ rest) (data ++ content)

/-- A chunked body, whatever it carries. -/
def ChunkedBody (body : Bytes) : Prop := ∃ content, Carries body content

/-- The size lines and the line ends are not part of the content. -/
theorem Carries.length_lt {body content : Bytes} (h : Carries body content) :
    content.length < body.length := by
  induction h with
  | last hsize hline htrailers =>
    rw [List.length_append]
    exact Nat.add_pos_right _ (by decide)
  | chunk hsize hline hdata _ ih =>
    simp only [List.length_append]
    omega

/-! ## The walk -/

/-- The first line and what stands behind it, if there is a line without a bare LF. -/
def takeLine (s : Bytes) : Option (Bytes × Bytes) :=
  match find crlf s with
  | none => none
  | some n => if lf ∈ s.take n then none else some (s.take n, s.drop (n + 2))

/-- What stands behind the next empty line. -/
def skipTrailers : Nat → Bytes → Option Bytes
  | 0, _ => none
  | fuel + 1, s =>
    match takeLine s with
    | none => none
    | some (line, rest) => if line = [] then some rest else skipTrailers fuel rest

/-- The content of the chunked body at the front, and what stands behind the body. -/
def dechunkLoop : Nat → Bytes → Option (Bytes × Bytes)
  | 0, _ => none
  | fuel + 1, s =>
    match takeLine s with
    | none => none
    | some (line, rest) =>
      match chunkSize line with
      | none => none
      | some 0 => (skipTrailers rest.length rest).map fun behind => ([], behind)
      | some size =>
        if size ≤ rest.length ∧ crlf <+: rest.drop size then
          (dechunkLoop fuel (rest.drop (size + 2))).map fun (content, behind) =>
            (rest.take size ++ content, behind)
        else none

def dechunk (s : Bytes) : Option (Bytes × Bytes) := dechunkLoop s.length s

theorem takeLine_eq_some_iff {s line rest : Bytes} :
    takeLine s = some (line, rest) ↔ s = line ++ crlf ++ rest ∧ lf ∉ line := by
  unfold takeLine
  constructor
  · intro h
    cases hf : find crlf s with
    | none => rw [hf] at h; cases h
    | some n =>
      rw [hf] at h
      simp only at h
      split_ifs at h with hlf
      obtain ⟨rfl, rfl⟩ := Prod.mk.inj (Option.some.inj h)
      exact ⟨find_split hf, hlf⟩
  · rintro ⟨rfl, hlf⟩
    have hfind : find crlf (line ++ crlf ++ rest) = some line.length := by
      rw [List.append_assoc]
      exact find_delim cr_ne_lf hlf rest
    rw [hfind]
    simp only [List.append_assoc, List.take_left', if_neg hlf]
    exact congrArg (fun r => some (line, r)) (drop_behind_two line cr lf rest)

/-- The trailers and the empty line behind them. -/
theorem skipTrailers_eq_some_iff : ∀ {fuel : Nat} {s behind : Bytes}, s.length ≤ fuel →
    (skipTrailers fuel s = some behind ↔ ∃ trailers : List Bytes,
      s = joinLines cr lf trailers ++ crlf ++ behind ∧ ∀ t ∈ trailers, t ≠ [] ∧ lf ∉ t)
  | 0, s, behind, hfuel => by
    refine iff_of_false (fun h => by cases h) ?_
    rintro ⟨trailers, rfl, -⟩
    simp [crlf] at hfuel
  | fuel + 1, s, behind, hfuel => by
    unfold skipTrailers
    constructor
    · intro h
      cases hl : takeLine s with
      | none => rw [hl] at h; cases h
      | some p =>
        obtain ⟨line, rest⟩ := p
        obtain ⟨rfl, hlf⟩ := takeLine_eq_some_iff.mp hl
        rw [hl] at h
        simp only at h
        split_ifs at h with hnil
        · subst hnil
          cases h
          exact ⟨[], rfl, List.forall_mem_nil _⟩
        · simp only [List.length_append, crlf, List.length_cons, List.length_nil] at hfuel
          obtain ⟨trailers, rfl, ht⟩ := (skipTrailers_eq_some_iff (by omega)).mp h
          refine ⟨line :: trailers, by simp [crlf], ?_⟩
          exact List.forall_mem_cons.mpr ⟨⟨hnil, hlf⟩, ht⟩
    · rintro ⟨trailers, rfl, ht⟩
      cases trailers with
      | nil =>
        have htake : takeLine (joinLines cr lf [] ++ crlf ++ behind) = some ([], behind) :=
          takeLine_eq_some_iff.mpr ⟨rfl, List.not_mem_nil⟩
        rw [htake]
        exact if_pos rfl
      | cons line trailers =>
        obtain ⟨⟨hnil, hlf⟩, ht⟩ := List.forall_mem_cons.mp ht
        have hs : joinLines cr lf (line :: trailers) ++ crlf ++ behind =
            line ++ crlf ++ (joinLines cr lf trailers ++ crlf ++ behind) := by simp [crlf]
        rw [hs, List.length_append, List.length_append] at hfuel
        have hcrlf : crlf.length = 2 := rfl
        rw [hs, takeLine_eq_some_iff.mpr ⟨rfl, hlf⟩]
        simp only [if_neg hnil]
        exact (skipTrailers_eq_some_iff (by omega)).mpr ⟨trailers, rfl, ht⟩

/-- The walk at a chunk: its data and line end, and the rest. -/
theorem dechunkLoop_chunk {fuel : Nat} {line data rest : Bytes}
    (hsize : chunkSize line = some data.length) (hline : lf ∉ line) (hdata : data ≠ []) :
    dechunkLoop (fuel + 1) (line ++ crlf ++ data ++ crlf ++ rest) =
      (dechunkLoop fuel rest).map fun (content, behind) => (data ++ content, behind) := by
  have htake : takeLine (line ++ crlf ++ data ++ crlf ++ rest) =
      some (line, data ++ crlf ++ rest) :=
    takeLine_eq_some_iff.mpr ⟨by simp only [List.append_assoc], hline⟩
  obtain ⟨k, hk⟩ : ∃ k, data.length = k + 1 :=
    Nat.exists_eq_succ_of_ne_zero fun h0 => hdata (List.length_eq_zero_iff.mp h0)
  have hdrop : (data ++ crlf ++ rest).drop (data.length + 2) = rest := by
    rw [List.append_assoc]
    exact drop_behind_two data cr lf rest
  conv_lhs => unfold dechunkLoop
  rw [htake]
  simp only [hsize, hk]
  have hfits : data.length ≤ (data ++ (crlf ++ rest)).length ∧ crlf <+: crlf ++ rest :=
    ⟨by simp, List.prefix_append _ _⟩
  rw [← hk, hdrop, List.append_assoc, List.take_left, List.drop_left, if_pos hfits]

/-- The walk at the last chunk. -/
theorem dechunkLoop_last {fuel : Nat} {line behind : Bytes} {trailers : List Bytes}
    (hsize : chunkSize line = some 0) (hline : lf ∉ line)
    (htrailers : ∀ t ∈ trailers, t ≠ [] ∧ lf ∉ t) :
    dechunkLoop (fuel + 1) (joinLines cr lf (line :: trailers) ++ crlf ++ behind) =
      some ([], behind) := by
  have htake : takeLine (joinLines cr lf (line :: trailers) ++ crlf ++ behind) =
      some (line, joinLines cr lf trailers ++ crlf ++ behind) :=
    takeLine_eq_some_iff.mpr ⟨by simp [crlf], hline⟩
  unfold dechunkLoop
  rw [htake]
  simp only [hsize]
  rw [(skipTrailers_eq_some_iff (Nat.le_refl _)).mpr ⟨trailers, rfl, htrailers⟩]
  rfl

/-- What the walk has met, if it finds a body. -/
theorem dechunkLoop_cases {fuel : Nat} {s content behind : Bytes}
    (h : dechunkLoop (fuel + 1) s = some (content, behind)) :
    (∃ line trailers, s = joinLines cr lf (line :: trailers) ++ crlf ++ behind ∧
      chunkSize line = some 0 ∧ lf ∉ line ∧ (∀ t ∈ trailers, t ≠ [] ∧ lf ∉ t) ∧ content = []) ∨
    ∃ line data rest content', s = line ++ crlf ++ data ++ crlf ++ rest ∧
      chunkSize line = some data.length ∧ lf ∉ line ∧ data ≠ [] ∧
      dechunkLoop fuel rest = some (content', behind) ∧ content = data ++ content' := by
  unfold dechunkLoop at h
  cases hl : takeLine s with
  | none => rw [hl] at h; cases h
  | some p =>
    obtain ⟨line, rest⟩ := p
    obtain ⟨rfl, hlf⟩ := takeLine_eq_some_iff.mp hl
    rw [hl] at h
    simp only at h
    cases hsize : chunkSize line with
    | none => rw [hsize] at h; cases h
    | some size =>
      rw [hsize] at h
      cases size with
      | zero =>
        obtain ⟨b, hb, he⟩ := Option.map_eq_some_iff.mp h
        obtain ⟨rfl, rfl⟩ := Prod.mk.inj he
        obtain ⟨trailers, rfl, ht⟩ := (skipTrailers_eq_some_iff (Nat.le_refl _)).mp hb
        exact Or.inl ⟨line, trailers, by simp [crlf], hsize, hlf, ht, rfl⟩
      | succ k =>
        simp only at h
        split_ifs at h with hdata
        obtain ⟨⟨c, b⟩, hb, he⟩ := Option.map_eq_some_iff.mp h
        obtain ⟨rfl, rfl⟩ := Prod.mk.inj he
        obtain ⟨t, ht⟩ := hdata.2
        have hrest : rest.drop (k + 1 + 2) = t := by
          rw [← List.drop_drop, ← ht]
          rfl
        have hlen : (rest.take (k + 1)).length = k + 1 := by
          rw [List.length_take]
          omega
        have hsplit : rest = rest.take (k + 1) ++ crlf ++ t := by
          rw [List.append_assoc, ht, List.take_append_drop]
        refine Or.inr ⟨line, rest.take (k + 1), t, c, ?_, by rw [hlen, hsize], hlf,
          fun h0 => ?_, hrest ▸ hb, rfl⟩
        · conv_lhs => rw [hsplit]
          simp only [List.append_assoc]
        · rw [h0] at hlen
          cases hlen

/-- **The walk is the grammar.** -/
theorem dechunkLoop_eq_some_iff : ∀ {fuel : Nat} {s content behind : Bytes}, s.length ≤ fuel →
    (dechunkLoop fuel s = some (content, behind) ↔
      ∃ body, s = body ++ behind ∧ Carries body content)
  | 0, s, content, behind, hfuel => by
    refine iff_of_false (fun h => by cases h) ?_
    rintro ⟨body, rfl, hc⟩
    have := hc.length_lt
    rw [List.length_append] at hfuel
    omega
  | fuel + 1, s, content, behind, hfuel => by
    have hcrlf : crlf.length = 2 := rfl
    constructor
    · intro h
      rcases dechunkLoop_cases h with ⟨line, trailers, rfl, hsize, hlf, ht, rfl⟩ |
        ⟨line, data, rest, content, rfl, hsize, hlf, hdata, hloop, rfl⟩
      · exact ⟨_, rfl, .last hsize hlf ht⟩
      · simp only [List.length_append] at hfuel
        obtain ⟨body, rfl, hc⟩ := (dechunkLoop_eq_some_iff (by omega)).mp hloop
        refine ⟨line ++ crlf ++ data ++ crlf ++ body, ?_, .chunk hsize hlf hdata hc⟩
        simp only [List.append_assoc]
    · rintro ⟨body, rfl, hc⟩
      cases hc with
      | last hsize hline htrailers => exact dechunkLoop_last hsize hline htrailers
      | chunk hsize hline hdata hrest =>
        rename_i line data rest content
        have hs : line ++ crlf ++ data ++ crlf ++ rest ++ behind =
            line ++ crlf ++ data ++ crlf ++ (rest ++ behind) := by simp only [List.append_assoc]
        simp only [List.length_append] at hfuel
        have hle : (rest ++ behind).length ≤ fuel := by
          rw [List.length_append]
          omega
        have hloop := (dechunkLoop_eq_some_iff hle).mpr ⟨rest, rfl, hrest⟩
        rw [hs, dechunkLoop_chunk hsize hline hdata, hloop]
        rfl

theorem dechunk_eq_some_iff {s content behind : Bytes} :
    dechunk s = some (content, behind) ↔ ∃ body, s = body ++ behind ∧ Carries body content :=
  dechunkLoop_eq_some_iff (Nat.le_refl _)

/-- A body carries one content. -/
theorem Carries.unique {body content content' : Bytes} (h : Carries body content)
    (h' : Carries body content') : content = content' := by
  have e := dechunk_eq_some_iff.mpr ⟨body, (List.append_nil body).symm, h⟩
  rw [dechunk_eq_some_iff.mpr ⟨body, (List.append_nil body).symm, h'⟩] at e
  exact (Prod.mk.inj (Option.some.inj e)).1.symm

/-- An extension, two chunks, a trailer and the next response. -/
example : dechunk (ascii "5;x\r\nhello\r\n1\r\n!\r\n0\r\nt: 1\r\n\r\nHTTP/") =
    some (ascii "hello!", ascii "HTTP/") := by decide +kernel

/-! ## Bytes as chunks -/

/-- A chunk of some size: the line that says how much, and the data. -/
structure Chunk where
  line : Bytes
  data : Bytes
  deriving DecidableEq, Repr

namespace Chunk

def text (c : Chunk) : Bytes := c.line ++ crlf ++ c.data ++ crlf

structure WF (c : Chunk) : Prop where
  size : chunkSize c.line = some c.data.length
  line : lf ∉ c.line
  data : c.data ≠ []

end Chunk

/-- The line of a last chunk, and trailers. -/
structure LastChunk (line : Bytes) (trailers : List Bytes) : Prop where
  size     : chunkSize line = some 0
  line     : lf ∉ line
  trailers : ∀ t ∈ trailers, t ≠ [] ∧ lf ∉ t

/-- Bytes as the chunks at their front, and a tail with no further one at its front. -/
structure InChunks (s : Bytes) (chunks : List Chunk) (tail : Bytes) : Prop where
  eq      : s = chunks.flatMap Chunk.text ++ tail
  wf      : ∀ c ∈ chunks, c.WF
  no_more : ∀ c : Chunk, c.WF → ¬ c.text <+: tail

/-- A line ends at its first line end. -/
theorem line_unique {line line' r r' : Bytes} (h : lf ∉ line) (h' : lf ∉ line')
    (heq : line ++ crlf ++ r = line' ++ crlf ++ r') : line = line' ∧ r = r' := by
  have e : takeLine (line ++ crlf ++ r) = some (line, r) := takeLine_eq_some_iff.mpr ⟨rfl, h⟩
  rw [heq, takeLine_eq_some_iff.mpr ⟨rfl, h'⟩] at e
  obtain ⟨hl, hr⟩ := Prod.mk.inj (Option.some.inj e)
  exact ⟨hl.symm, hr.symm⟩

theorem Chunk.WF.unique {c c' : Chunk} {r r' : Bytes} (h : c.WF) (h' : c'.WF)
    (heq : c.text ++ r = c'.text ++ r') : c = c' ∧ r = r' := by
  obtain ⟨line, data⟩ := c
  obtain ⟨line', data'⟩ := c'
  simp only [Chunk.text, List.append_assoc] at heq
  obtain ⟨rfl, hdata⟩ := line_unique h.line h'.line (by simpa only [List.append_assoc] using heq)
  have hlen : data.length = data'.length := Option.some.inj (h.size.symm.trans h'.size)
  obtain ⟨rfl, hrest⟩ := List.append_inj hdata hlen
  exact ⟨rfl, List.append_cancel_left hrest⟩

/-- A last chunk is no chunk with data: its line says 0. -/
theorem LastChunk.not_chunk {line behind r : Bytes} {trailers : List Bytes} {c : Chunk}
    (h : LastChunk line trailers) (hc : c.WF) :
    c.text ++ r ≠ joinLines cr lf (line :: trailers) ++ crlf ++ behind := by
  intro heq
  have hfirst : c.line ++ crlf ++ (c.data ++ crlf ++ r) =
      line ++ crlf ++ (joinLines cr lf trailers ++ crlf ++ behind) := by
    simpa [Chunk.text, crlf] using heq
  have hzero := hc.size
  rw [(line_unique hc.line h.line hfirst).1, h.size] at hzero
  exact absurd (List.length_eq_zero_iff.mp (Option.some.inj hzero).symm) hc.data

theorem exists_inChunks : ∀ (n : Nat) (s : Bytes), s.length ≤ n →
    ∃ chunks tail, InChunks s chunks tail
  | 0, s, hlen => by
    obtain rfl := List.length_eq_zero_iff.mp (Nat.le_zero.mp hlen)
    refine ⟨[], [], rfl, List.forall_mem_nil _, fun c _ hpre => ?_⟩
    have := List.prefix_nil.mp hpre
    simp [Chunk.text, crlf] at this
  | n + 1, s, hlen => by
    by_cases hmore : ∃ c : Chunk, c.WF ∧ c.text <+: s
    · obtain ⟨c, hc, rest, rfl⟩ := hmore
      have hpos : 0 < c.text.length := by simp [Chunk.text, crlf]
      rw [List.length_append] at hlen
      obtain ⟨chunks, tail, hsplit⟩ := exists_inChunks n rest (by omega)
      refine ⟨c :: chunks, tail, ?_, List.forall_mem_cons.mpr ⟨hc, hsplit.wf⟩, hsplit.no_more⟩
      rw [List.flatMap_cons, List.append_assoc, ← hsplit.eq]
    · exact ⟨[], s, rfl, List.forall_mem_nil _, fun c hc hpre => hmore ⟨c, hc, hpre⟩⟩

/-- **A body is chunks and a last chunk**: bytes start with one if the tail behind their chunks
starts with a last chunk. -/
theorem InChunks.body_iff {s tail : Bytes} : ∀ {chunks : List Chunk}, InChunks s chunks tail →
    ((∃ body behind, s = body ++ behind ∧ ChunkedBody body) ↔
      ∃ line trailers behind, LastChunk line trailers ∧
        tail = joinLines cr lf (line :: trailers) ++ crlf ++ behind)
  | [], h => by
    obtain rfl : s = tail := h.eq
    constructor
    · rintro ⟨body, behind, rfl, content, hc⟩
      cases hc with
      | @last line trailers hsize hline htrailers =>
        exact ⟨line, trailers, behind, ⟨hsize, hline, htrailers⟩, rfl⟩
      | @chunk line data rest content hsize hline hdata hrest =>
        refine absurd ?_ (h.no_more ⟨line, data⟩ ⟨hsize, hline, hdata⟩)
        exact ⟨rest ++ behind, by simp only [Chunk.text, List.append_assoc]⟩
    · rintro ⟨line, trailers, behind, hlast, heq⟩
      exact ⟨_, behind, heq, [], .last hlast.size hlast.line hlast.trailers⟩
  | c :: chunks, h => by
    obtain ⟨hc, hwf⟩ := List.forall_mem_cons.mp h.wf
    have hrest : InChunks (chunks.flatMap Chunk.text ++ tail) chunks tail :=
      ⟨rfl, hwf, h.no_more⟩
    have heq := h.eq
    rw [List.flatMap_cons, List.append_assoc] at heq
    rw [← hrest.body_iff, heq]
    constructor
    · rintro ⟨body, behind, hbody, content, hcarries⟩
      cases hcarries with
      | @last line trailers hsize hline htrailers =>
        exact absurd hbody (LastChunk.not_chunk ⟨hsize, hline, htrailers⟩ hc)
      | @chunk line data rest content hsize hline hdata hrest' =>
        have hfirst : c.text ++ (chunks.flatMap Chunk.text ++ tail) =
            (Chunk.mk line data).text ++ (rest ++ behind) := by
          rw [hbody]
          simp only [Chunk.text, List.append_assoc]
        exact ⟨rest, behind, (hc.unique ⟨hsize, hline, hdata⟩ hfirst).2, content, hrest'⟩
    · rintro ⟨body, behind, hbody, content, hcarries⟩
      refine ⟨c.text ++ body, behind, by rw [hbody, List.append_assoc], c.data ++ content, ?_⟩
      exact .chunk hc.size hc.line hc.data hcarries

/-! ## The texts that usually end a body -/

/-- A last chunk without extension and trailers, behind another chunk. -/
def endMark : Bytes := ascii "\r\n0\r\n\r\n"

/-- A last chunk with an extension. -/
def extensionMark : Bytes := ascii "\r\n0;"

def Marked (s : Bytes) : Prop := endMark <:+: s ∨ extensionMark <:+: s

/-- The data of the last of some chunks, between its line ends. -/
def lastData (chunks : List Chunk) : Bytes :=
  (chunks.getLast?.map fun c => crlf ++ c.data ++ crlf).getD []

theorem endMark_eq : endMark = cr :: lf :: ascii "0\r\n\r\n" := by decide

theorem extensionMark_eq : extensionMark = cr :: lf :: ascii "0;" := by decide

theorem chunkSize_nil : chunkSize [] = none := by decide

/-- A line that starts with `0;` says 0. -/
theorem chunkSize_extension (s : Bytes) : chunkSize (ascii "0;" ++ s) = some 0 := by
  have htext : ascii "0;" ++ s = 48 :: 59 :: s := rfl
  have hdigit : (ascii "0;" ++ s).takeWhile (· ≠ 59) = ascii "0" := by
    rw [htext, List.takeWhile_cons_of_pos (by decide), List.takeWhile_cons_of_neg (by decide)]
    rfl
  unfold chunkSize
  rw [hdigit]
  decide

/-- A text starts with `0;` if its first line does. -/
theorem extension_iff (line y : Bytes) :
    ascii "0;" <+: line ++ (crlf ++ y) ↔ ascii "0;" <+: line := by
  have htext : ascii "0;" = [48, 59] := rfl
  rw [htext]
  rcases line with _ | ⟨a, _ | ⟨b, line⟩⟩ <;> simp [crlf, cr]

/-- A text starts with a last chunk written `0` and an empty line. -/
theorem zero_iff {line y : Bytes} (hline : lf ∉ line) :
    ascii "0\r\n\r\n" <+: line ++ (crlf ++ y) ↔ line = ascii "0" ∧ crlf <+: y := by
  have htext : ascii "0\r\n\r\n" = [48, cr, lf, cr, lf] := rfl
  have hzero : ascii "0" = [48] := rfl
  rw [htext, hzero]
  rcases line with _ | ⟨a, _ | ⟨b, _ | ⟨d, line⟩⟩⟩
  · simp [crlf, cr]
  · simp [crlf, eq_comm]
  · simp [crlf, cr, lf]
  · have hd : lf ≠ d := fun h => hline (by simp [h])
    simp [hd]

section

variable {p line y : Bytes}

/-- A line that is not followed by the rest of a mark hides nothing of it. -/
theorem mark_behind_line (hline : lf ∉ line) :
    cr :: lf :: p <:+: line ++ (crlf ++ y) ↔ cr :: lf :: p <:+: crlf ++ y :=
  (delim_infix_iff cr_ne_lf hline).trans (delim_infix_start cr_ne_lf).symm

/-- A mark at the end of a line, or behind the next one. -/
theorem mark_line_iff (hline : lf ∉ line) :
    cr :: lf :: p <:+: crlf ++ (line ++ (crlf ++ y)) ↔
      p <+: line ++ (crlf ++ y) ∨ cr :: lf :: p <:+: crlf ++ y :=
  (delim_infix_start cr_ne_lf).trans (or_congr_right (mark_behind_line hline))

end

theorem extensionMark_middle {p q : Bytes} (hp : p ≠ []) : extensionMark ≠ p ++ (crlf ++ q) := by
  have htext : extensionMark = [13, 10, 48, 59] := rfl
  rw [htext]
  rcases p with _ | ⟨a, _ | ⟨b, _ | ⟨d, _ | ⟨e, p⟩⟩⟩⟩
  · exact absurd rfl hp
  all_goals simp [crlf, cr]

theorem endMark_middle {p q : Bytes} (hp : p ≠ []) (hq : q ≠ [])
    (h : endMark = p ++ (crlf ++ q)) : q = crlf := by
  have htext : endMark = [13, 10, 48, 13, 10, 13, 10] := rfl
  rw [htext] at h
  have hlen := congrArg List.length h
  have hpos : 0 < q.length := List.length_pos_iff.mpr hq
  simp only [crlf, List.length_append, List.length_cons, List.length_nil] at hlen
  -- a line end stands at 3 and at 5, and behind the second one nothing is left
  rcases p with _ | ⟨a, _ | ⟨b, _ | ⟨d, _ | ⟨e, _ | ⟨f, p⟩⟩⟩⟩⟩
  · exact absurd rfl hp
  · simp [crlf, cr, lf] at h
  · simp [crlf, cr, lf] at h
  · simp only [crlf, List.cons_append, List.nil_append, List.cons.injEq] at h
    exact h.2.2.2.2.2.symm
  · simp [crlf, cr, lf] at h
  · simp only [List.length_cons] at hlen
    omega

section

variable {chunks : List Chunk} {tail : Bytes}

theorem Chunk.WF.line_ne_nil {c : Chunk} (h : c.WF) : c.line ≠ [] := by
  intro hnil
  have hsize := h.size
  rw [hnil, chunkSize_nil] at hsize
  cases hsize

/-- The line of a chunk that has data does not start like a last chunk. -/
theorem Chunk.WF.not_last {c : Chunk} (h : c.WF) (y : Bytes) :
    ¬ ascii "0;" <+: c.line ++ (crlf ++ y) ∧ ¬ ascii "0\r\n\r\n" <+: c.line ++ (crlf ++ y) := by
  have hsize : chunkSize c.line ≠ some 0 := by
    rw [h.size]
    exact fun h0 => h.data (List.length_eq_zero_iff.mp (Option.some.inj h0))
  constructor
  · rw [extension_iff]
    rintro ⟨ext, hext⟩
    exact hsize (hext ▸ chunkSize_extension ext)
  · rw [zero_iff h.line]
    rintro ⟨hzero, -⟩
    exact hsize (hzero ▸ by decide)

theorem Chunk.text_append (c : Chunk) (y : Bytes) :
    c.text ++ y = c.line ++ (crlf ++ (c.data ++ (crlf ++ y))) := by
  simp only [Chunk.text, List.append_assoc]

/-- Where the text for a last chunk with an extension lies. -/
theorem extensionMark_chunks (hwf : ∀ c ∈ chunks, c.WF) :
    extensionMark <:+: crlf ++ (chunks.flatMap Chunk.text ++ tail) ↔
      (∃ c ∈ chunks, extensionMark <:+: crlf ++ c.data ++ crlf) ∨
        extensionMark <:+: crlf ++ tail := by
  induction chunks with
  | nil => simp
  | cons c chunks ih =>
    obtain ⟨hc, hwf⟩ := List.forall_mem_cons.mp hwf
    -- the line holds no mark, and none reaches over the end of the data
    have hline : extensionMark <:+: crlf ++ (c.text ++ (chunks.flatMap Chunk.text ++ tail)) ↔
        extensionMark <:+: (crlf ++ c.data) ++ (crlf ++ (chunks.flatMap Chunk.text ++ tail)) := by
      rw [Chunk.text_append, extensionMark_eq, mark_line_iff hc.line,
        or_iff_right (hc.not_last _).1, List.append_assoc]
    have hdata : extensionMark <:+:
          (crlf ++ c.data) ++ (crlf ++ (chunks.flatMap Chunk.text ++ tail)) ↔
        extensionMark <:+: crlf ++ c.data ++ crlf ∨
          extensionMark <:+: crlf ++ (chunks.flatMap Chunk.text ++ tail) := by
      rw [infix_around_iff]
      refine or_congr_right (or_iff_left ?_)
      rintro ⟨p, q, hp, -, heq, -⟩
      exact extensionMark_middle hp heq
    rw [List.flatMap_cons, List.append_assoc, hline, hdata, ih hwf, List.exists_mem_cons_iff,
      or_assoc]

theorem lastData_cons_cons (c c' : Chunk) (chunks : List Chunk) :
    lastData (c :: c' :: chunks) = lastData (c' :: chunks) := by
  rw [lastData, List.getLast?_cons_cons, lastData]

/-- Where the text for a last chunk without one lies, behind the line of a chunk. -/
theorem endMark_behind (c : Chunk) (hwf : ∀ c ∈ chunks, c.WF) :
    endMark <:+: crlf ++ (c.data ++ (crlf ++ (chunks.flatMap Chunk.text ++ tail))) ↔
      (∃ c' ∈ c :: chunks, endMark <:+: crlf ++ c'.data ++ crlf) ∨
        endMark <:+: lastData (c :: chunks) ++ tail := by
  induction chunks generalizing c with
  | nil =>
    have htext : lastData [c] ++ tail = crlf ++ (c.data ++ (crlf ++ tail)) := by
      simp [lastData]
    rw [htext, List.flatMap_nil, List.nil_append, iff_or_self]
    rintro ⟨c', hc', h⟩
    obtain rfl := List.mem_singleton.mp hc'
    exact h.trans ⟨[], tail, by simp⟩
  | cons c' chunks ih =>
    obtain ⟨hc', hwf⟩ := List.forall_mem_cons.mp hwf
    have hline : endMark <:+: crlf ++ (c'.text ++ (chunks.flatMap Chunk.text ++ tail)) ↔
        endMark <:+: crlf ++ (c'.data ++ (crlf ++ (chunks.flatMap Chunk.text ++ tail))) := by
      rw [Chunk.text_append, endMark_eq, mark_line_iff hc'.line, or_iff_right (hc'.not_last _).2]
    have hdata : endMark <:+:
          (crlf ++ c.data) ++ (crlf ++ (c'.text ++ (chunks.flatMap Chunk.text ++ tail))) ↔
        endMark <:+: crlf ++ c.data ++ crlf ∨
          endMark <:+: crlf ++ (c'.text ++ (chunks.flatMap Chunk.text ++ tail)) := by
      rw [infix_around_iff]
      refine or_congr_right (or_iff_left ?_)
      rintro ⟨p, q, hp, hq, heq, -, hpre⟩
      rw [endMark_middle hp hq heq, Chunk.text_append] at hpre
      exact not_delim_prefix cr_ne_lf hc'.line_ne_nil hc'.line _ hpre
    rw [List.flatMap_cons, List.append_assoc, ← List.append_assoc crlf, hdata, hline,
      ih c' hwf, lastData_cons_cons, List.exists_mem_cons_iff _ c (c' :: chunks), or_assoc]

/-- **Where the usual ends lie**: in the data of a chunk, or in the tail. -/
theorem marked_iff (hwf : ∀ c ∈ chunks, c.WF) :
    (endMark <:+: chunks.flatMap Chunk.text ++ tail ∨
        extensionMark <:+: crlf ++ (chunks.flatMap Chunk.text ++ tail)) ↔
      (∃ c ∈ chunks, Marked (crlf ++ c.data ++ crlf)) ∨
        endMark <:+: lastData chunks ++ tail ∨ extensionMark <:+: crlf ++ tail := by
  have hend : endMark <:+: chunks.flatMap Chunk.text ++ tail ↔
      (∃ c ∈ chunks, endMark <:+: crlf ++ c.data ++ crlf) ∨
        endMark <:+: lastData chunks ++ tail := by
    cases chunks with
    | nil => simp [lastData]
    | cons c chunks =>
      obtain ⟨hc, hwf⟩ := List.forall_mem_cons.mp hwf
      rw [← endMark_behind c hwf, List.flatMap_cons, List.append_assoc, Chunk.text_append,
        endMark_eq, mark_behind_line hc.line]
  rw [hend, extensionMark_chunks hwf]
  unfold Marked
  simp only [and_or_left, exists_or]
  exact or_or_or_comm

/-- A last chunk that ends in one of the usual ways: with an extension, or written `0` behind
another chunk and without trailers. -/
def UsualEnd (chunks : List Chunk) (line : Bytes) (trailers : List Bytes) : Prop :=
  ascii "0;" <+: line ∨ chunks ≠ [] ∧ line = ascii "0" ∧ trailers = []

/-- Trailers are lines that are not empty. -/
theorem crlf_prefix_trailers {trailers : List Bytes} {behind : Bytes}
    (h : ∀ t ∈ trailers, t ≠ [] ∧ lf ∉ t) :
    crlf <+: joinLines cr lf trailers ++ (crlf ++ behind) ↔ trailers = [] := by
  cases trailers with
  | nil => exact iff_of_true (List.prefix_append _ _) rfl
  | cons t trailers =>
    obtain ⟨⟨hnil, hlf⟩, -⟩ := List.forall_mem_cons.mp h
    refine iff_of_false (fun hpre => ?_) (List.cons_ne_nil _ _)
    rw [joinLines_cons, List.append_assoc] at hpre
    exact not_delim_prefix cr_ne_lf hnil hlf _ hpre

/-- **The usual ends in a tail that starts with a last chunk.** -/
theorem marked_last {line : Bytes} {trailers : List Bytes} {behind : Bytes}
    (h : LastChunk line trailers) :
    (endMark <:+: lastData chunks ++ (joinLines cr lf (line :: trailers) ++ crlf ++ behind) ∨
        extensionMark <:+: crlf ++ (joinLines cr lf (line :: trailers) ++ crlf ++ behind)) ↔
      endMark <:+: lastData chunks ∨ UsualEnd chunks line trailers ∨
        Marked (crlf ++ (joinLines cr lf trailers ++ (crlf ++ behind))) := by
  obtain ⟨y, hy⟩ : ∃ y, y = joinLines cr lf trailers ++ (crlf ++ behind) := ⟨_, rfl⟩
  have htext : joinLines cr lf (line :: trailers) ++ crlf ++ behind = line ++ (crlf ++ y) := by
    rw [hy]
    simp [crlf]
  have hempty : crlf <+: y ↔ trailers = [] := hy ▸ crlf_prefix_trailers h.trailers
  have hne : line ≠ [] := fun hnil => by
    have hsize := h.size
    rw [hnil, chunkSize_nil] at hsize
    cases hsize
  have hext : extensionMark <:+: crlf ++ (line ++ (crlf ++ y)) ↔
      ascii "0;" <+: line ∨ extensionMark <:+: crlf ++ y := by
    rw [extensionMark_eq, mark_line_iff h.line, extension_iff]
  have hend : endMark <:+: lastData chunks ++ (line ++ (crlf ++ y)) ↔ endMark <:+: lastData chunks ∨
      (chunks ≠ [] ∧ line = ascii "0" ∧ trailers = []) ∨ endMark <:+: crlf ++ y := by
    rcases List.eq_nil_or_concat' chunks with rfl | ⟨cs, c, rfl⟩
    · have hnil : ¬ endMark <:+: ([] : Bytes) := by decide
      simp only [lastData, List.getLast?_nil, Option.map_none, Option.getD_none, List.nil_append,
        ne_eq, not_true_eq_false, false_and, false_or, hnil]
      rw [endMark_eq, mark_behind_line h.line]
    · have hlast : lastData (cs ++ [c]) = (crlf ++ c.data) ++ crlf := by simp [lastData]
      rw [hlast, List.append_assoc, infix_around_iff, endMark_eq, mark_line_iff h.line,
        zero_iff h.line, hempty]
      simp only [ne_eq, List.append_eq_nil_iff, List.cons_ne_nil, and_false, not_false_eq_true,
        true_and]
      refine or_congr_right (or_iff_left ?_)
      rintro ⟨p, q, hp, hq, heq, -, hpre⟩
      rw [endMark_middle hp hq (endMark_eq.trans heq)] at hpre
      exact not_delim_prefix cr_ne_lf hne h.line _ hpre
  rw [htext, ← hy, hend, hext, or_assoc, or_or_or_comm]
  exact or_congr_right (or_congr_left or_comm)

/-- The end of a body is seen: the last chunk is a usual one, or something looks like one in the
data, in the trailers or behind the body. -/
def EndSeen (chunks : List Chunk) (line : Bytes) (trailers : List Bytes) (behind : Bytes) : Prop :=
  UsualEnd chunks line trailers ∨ (∃ c ∈ chunks, Marked (crlf ++ c.data ++ crlf)) ∨
    Marked (crlf ++ (joinLines cr lf trailers ++ (crlf ++ behind)))

/-- Nothing looks like an end: not in the data, and not in the tail. -/
def Unmarked (chunks : List Chunk) (tail : Bytes) : Prop :=
  (∀ c ∈ chunks, ¬ Marked (crlf ++ c.data ++ crlf)) ∧
    ¬ endMark <:+: lastData chunks ++ tail ∧ ¬ extensionMark <:+: crlf ++ tail

theorem marked_of_lastData (h : endMark <:+: lastData chunks) :
    ∃ c ∈ chunks, Marked (crlf ++ c.data ++ crlf) := by
  rcases List.eq_nil_or_concat' chunks with rfl | ⟨cs, c, rfl⟩
  · exact absurd (List.infix_nil.mp h) (by decide)
  · refine ⟨c, by simp, Or.inl ?_⟩
    simpa [lastData] using h

/-- **The search for the usual ends finds bodies** exactly if the last chunk of a body is seen, and
nothing else is taken for one. -/
theorem InChunks.search_iff {s : Bytes} (h : InChunks s chunks tail) :
    ((endMark <:+: s ∨ extensionMark <:+: crlf ++ s) ↔
      ∃ body behind, s = body ++ behind ∧ ChunkedBody body) ↔
      (∀ line trailers behind, LastChunk line trailers →
        tail = joinLines cr lf (line :: trailers) ++ crlf ++ behind →
          EndSeen chunks line trailers behind) ∧
      ((∀ line trailers behind, LastChunk line trailers →
        tail ≠ joinLines cr lf (line :: trailers) ++ crlf ++ behind) → Unmarked chunks tail) := by
  have hsearch : (endMark <:+: s ∨ extensionMark <:+: crlf ++ s) ↔ ¬ Unmarked chunks tail := by
    rw [h.eq, marked_iff h.wf]
    unfold Unmarked
    simp only [not_and_or, not_forall, not_not, exists_prop]
  have hseen : ∀ line trailers behind, LastChunk line trailers →
      tail = joinLines cr lf (line :: trailers) ++ crlf ++ behind →
        (¬ Unmarked chunks tail ↔ EndSeen chunks line trailers behind) := by
    rintro line trailers behind hlast rfl
    rw [← hsearch, h.eq, marked_iff h.wf, marked_last hlast]
    unfold EndSeen
    constructor
    · rintro (hdata | hdata | hend | hbehind)
      · exact Or.inr (Or.inl hdata)
      · exact Or.inr (Or.inl (marked_of_lastData hdata))
      · exact Or.inl hend
      · exact Or.inr (Or.inr hbehind)
    · rintro (hend | hdata | hbehind)
      · exact Or.inr (Or.inr (Or.inl hend))
      · exact Or.inl hdata
      · exact Or.inr (Or.inr (Or.inr hbehind))
  rw [hsearch, h.body_iff]
  by_cases hbody : ∃ line trailers behind, LastChunk line trailers ∧
      tail = joinLines cr lf (line :: trailers) ++ crlf ++ behind
  · rw [iff_true_right hbody]
    obtain ⟨line, trailers, behind, hlast, heq⟩ := hbody
    constructor
    · exact fun hm => ⟨fun line' trailers' behind' hl' he' => (hseen _ _ _ hl' he').mp hm,
        fun hnone => absurd heq (hnone _ _ _ hlast)⟩
    · exact fun hall => (hseen _ _ _ hlast heq).mpr (hall.1 _ _ _ hlast heq)
  · have hnone : ∀ line trailers behind, LastChunk line trailers →
        tail ≠ joinLines cr lf (line :: trailers) ++ crlf ++ behind :=
      fun line trailers behind hl he => hbody ⟨line, trailers, behind, hl, he⟩
    rw [iff_false_right hbody, not_not]
    exact ⟨fun hu => ⟨fun _ _ _ hl he => absurd he (hnone _ _ _ hl), fun _ => hu⟩,
      fun hall => hall.2 hnone⟩

end

end Uproxy
