import Uproxy.Http1.Parser

/-!
# The request grammar

`Head` is a request head as a grammar writes it: method, target, version and raw field lines.
`Head.render` spells it, `Head.WF` are the side conditions (lengths, characters, the framing
fields) and `Head.request` is the request it stands for. None of this mentions a search.

* `requestLine_eq_some_iff`, `fieldLine_eq_some_iff`: the cuts at spaces and at the first colon
  find exactly the parts the grammar names;
* `foldlM_addField_iff`, `foldl_stepFields`: storing the fields succeeds exactly under the
  conditions on their number and on `content-length` (`LengthsOk`), and computes the flags from the
  whole list;
* `parseRequestHeaders_eq_complete_iff`: the stages of an accepting run;
* `parseRequest_complete_iff`: a buffer that starts with a well-formed head parses to its request,
  and a buffer that parses starts with one;
* `Head.render_unique`: a buffer starts with at most one well-formed head.

**`parse_request_accepts_grammar`** puts them together: acceptance is exactly the grammar.
-/

namespace Uproxy

open Lib.Search

/-! ## Field values by name -/

/-- The values of the fields with a name, case-insensitively, in order. -/
def values (name : String) (hs : List HttpHeader) : List Bytes :=
  (hs.filter fun h => lower h.name = ascii name).map HttpHeader.value

/-- Some value of a name contains a word, case-insensitively. -/
def saysWord (name word : String) (hs : List HttpHeader) : Bool :=
  (values name hs).any fun v => contains (ascii word) (lower v)

theorem values_cons (name : String) (h : HttpHeader) (hs : List HttpHeader) :
    values name (h :: hs) =
      if lower h.name = ascii name then h.value :: values name hs else values name hs := by
  unfold values
  rw [List.filter_cons]
  split_ifs <;> simp_all

theorem saysWord_cons (name word : String) (h : HttpHeader) (hs : List HttpHeader) :
    saysWord name word (h :: hs) =
      ((decide (lower h.name = ascii name) && contains (ascii word) (lower h.value)) ||
        saysWord name word hs) := by
  unfold saysWord
  rw [values_cons]
  split_ifs with hn <;> simp [hn]

theorem mem_values {name : String} {hs : List HttpHeader} {v : Bytes} :
    v ∈ values name hs ↔ ∃ h ∈ hs, lower h.name = ascii name ∧ h.value = v := by
  simp [values, and_assoc]

/-! ## The grammar -/

/-- A field line `name ':' raw`. -/
structure Field where
  name : Bytes
  raw  : Bytes
  deriving DecidableEq, Repr

def Field.line (f : Field) : Bytes := f.name ++ colon :: f.raw

/-- The stored field: surrounding blanks are not part of the value. -/
def Field.header (f : Field) : HttpHeader := ⟨f.name, trimOws f.raw⟩

structure Field.WF (f : Field) : Prop where
  name_ne    : f.name ≠ []
  name_len   : f.name.length ≤ maxHeaderName
  name_token : f.name.all isTokenChar = true
  raw_valid  : ∀ c ∈ f.raw, 0x20 ≤ c ∨ c = htab
  value_len  : (trimOws f.raw).length ≤ maxHeaderValue

/-- The conditions on the field lines of a head. -/
structure FieldsWF (fs : List Field) : Prop where
  count_le     : fs.length ≤ maxHeaderCount
  fields_wf    : ∀ f ∈ fs, f.WF
  lengths      : ∀ v ∈ values "content-length" (fs.map Field.header),
    isNumeral v = true ∧ digitsVal 10 v < sizeMod
  lengths_same : ∀ v ∈ values "content-length" (fs.map Field.header),
    ∀ w ∈ values "content-length" (fs.map Field.header), digitsVal 10 v = digitsVal 10 w
  one_framing  : values "content-length" (fs.map Field.header) ≠ [] →
    saysWord "transfer-encoding" "chunked" (fs.map Field.header) = false

/-- The common content length of the fields, 0 if there is none. -/
def commonLength (hs : List HttpHeader) : Nat :=
  ((values "content-length" hs).head?.map (digitsVal 10)).getD 0

/-- A request head. -/
structure Head where
  method  : Bytes
  target  : Bytes
  version : Bytes
  fields  : List Field
  deriving DecidableEq, Repr

namespace Head

def startLine (h : Head) : Bytes := h.method ++ sp :: (h.target ++ sp :: h.version)

def headers (h : Head) : List HttpHeader := h.fields.map Field.header

/-- `method SP target SP version CRLF (name ':' raw CRLF)* CRLF`. -/
def render (h : Head) : Bytes :=
  joinLines cr lf (h.startLine :: h.fields.map Field.line) ++ crlf

/-- The conditions on the start line. -/
structure StartWF (h : Head) : Prop where
  method_ne    : h.method ≠ []
  method_len   : h.method.length ≤ maxMethodLen
  method_token : h.method.all isTokenChar = true
  target_ne    : h.target ≠ []
  target_len   : h.target.length ≤ maxTargetLen
  target_sp    : sp ∉ h.target
  target_lf    : lf ∉ h.target
  version_eq   : h.version = ascii "HTTP/1.1" ∨ h.version = ascii "HTTP/1.0"

/-- The conditions on a whole head. -/
structure WF (h : Head) : Prop extends StartWF h, FieldsWF h.fields

def contentLength (h : Head) : Nat := commonLength h.headers

/-- The request a head stands for. -/
def request (h : Head) : HttpRequest where
  method := h.method
  target := h.target
  version := h.version
  headers := h.headers
  keepAlive := h.version == ascii "HTTP/1.1" && !saysWord "connection" "close" h.headers
  contentLength := h.contentLength
  chunked := saysWord "transfer-encoding" "chunked" h.headers
  headerBytes := h.render.length

end Head

/-! ## The start line -/

/-- What the three searches see in a line cut at its first two spaces. -/
theorem cut_at_spaces {a b : Bytes} (c : Bytes) (ha : sp ∉ a) (hb : sp ∉ b) :
    find [sp] (a ++ sp :: (b ++ sp :: c)) = some a.length ∧
    findFrom [sp] (a ++ sp :: (b ++ sp :: c)) (a.length + 1) = some (b.length + (a.length + 1)) ∧
    findFrom [sp] (a ++ sp :: (b ++ sp :: c)) (b.length + (a.length + 1) + 1) =
      (find [sp] c).map (· + (b.length + (a.length + 1) + 1)) ∧
    (a ++ sp :: (b ++ sp :: c)).drop (b.length + (a.length + 1) + 1) = c := by
  have hdrop : (a ++ sp :: (b ++ sp :: c)).drop (b.length + (a.length + 1) + 1) = c := by
    rw [show b.length + (a.length + 1) + 1 = (a.length + 1) + (b.length + 1) by omega,
      ← List.drop_drop, drop_behind, drop_behind]
  refine ⟨find_singleton.mpr ⟨a, _, rfl, ha, rfl⟩, ?_, ?_, hdrop⟩
  · unfold findFrom
    rw [drop_behind, find_singleton.mpr ⟨b, c, rfl, hb, rfl⟩, Option.map_some]
  · unfold findFrom
    rw [hdrop]

theorem requestLine_eq_some_iff {start m t v : Bytes} :
    requestLine start = some (m, t, v) ↔
      start = m ++ sp :: (t ++ sp :: v) ∧ m ≠ [] ∧ m.length ≤ maxMethodLen ∧
        m.all isTokenChar = true ∧ t ≠ [] ∧ t.length ≤ maxTargetLen ∧ sp ∉ t ∧
        (v = ascii "HTTP/1.1" ∨ v = ascii "HTTP/1.0") := by
  unfold requestLine
  constructor
  · intro h
    cases hf : find [sp] start with
    | none => rw [hf] at h; cases h
    | some n =>
      rw [hf] at h
      obtain ⟨a, r, rfl, ha, rfl⟩ := find_singleton.mp hf
      simp only at h
      cases hf2 : find [sp] r with
      | none => simp [findFrom, drop_behind, hf2] at h
      | some n =>
        obtain ⟨b, c, rfl, hb, rfl⟩ := find_singleton.mp hf2
        obtain ⟨-, e2, e3, e4⟩ := cut_at_spaces c ha hb
        simp only [e2, e3, e4, drop_behind, List.take_left', Option.isSome_map] at h
        rw [show b.length + (a.length + 1) - a.length - 1 = b.length by omega, List.take_left] at h
        split_ifs at h with h1 h2 h3
        obtain ⟨rfl, hbc⟩ := Prod.mk.inj (Option.some.inj h)
        obtain ⟨rfl, rfl⟩ := Prod.mk.inj hbc
        simp only [not_or, Decidable.not_not, Nat.not_lt, not_and_or] at h2 h3
        exact ⟨rfl, h2.1, h2.2.1, h2.2.2, h3.1, h3.2.1, hb, h3.2.2⟩
  · rintro ⟨rfl, hm0, hm1, hm2, ht0, ht1, ht2, hv⟩
    have hm : sp ∉ m := token_not_mem hm2 (by decide)
    have hvs : find [sp] v = none := by
      rw [find_singleton_none]
      rcases hv with rfl | rfl <;> decide
    obtain ⟨e1, e2, e3, e4⟩ := cut_at_spaces v hm ht2
    simp only [e1, e2, e3, e4, drop_behind, hvs, List.take_left', Option.map_none,
      Option.isSome_none]
    rw [show t.length + (m.length + 1) - m.length - 1 = t.length by omega, List.take_left,
      if_neg Bool.false_ne_true,
      if_neg (by simp only [not_or, Decidable.not_not, Nat.not_lt]; exact ⟨hm0, hm1, hm2⟩),
      if_neg (by
        simp only [not_or, Decidable.not_not, Nat.not_lt, not_and_or]
        exact ⟨ht0, ht1, hv⟩)]

/-! ## The field lines -/

theorem token_not_ows {name : Bytes} (h : name.all isTokenChar = true) :
    ∀ c ∈ name, isOws c = false := by
  intro c hc
  have ht := List.all_eq_true.mp h c hc
  unfold isOws
  rw [Bool.or_eq_false_iff, beq_eq_false_iff_ne, beq_eq_false_iff_ne]
  exact ⟨isTokenChar_ne ht (by decide), isTokenChar_ne ht (by decide)⟩

theorem fieldLine_eq_some_iff {line : Bytes} {h : HttpHeader} :
    fieldLine line = some h ↔ ∃ f : Field, line = f.line ∧ h = f.header ∧ f.WF := by
  unfold fieldLine
  constructor
  · intro hl
    split_ifs at hl with h0
    cases hf : find [colon] line with
    | none => rw [hf] at hl; cases hl
    | some c =>
      rw [hf] at hl
      obtain ⟨name, raw, rfl, -, rfl⟩ := find_singleton.mp hf
      simp only [drop_behind, List.take_left'] at hl
      split_ifs at hl with h1 h2 h3 h4
      simp only [not_or, Decidable.not_not, Nat.not_lt] at h3 h4
      refine ⟨⟨name, raw⟩, rfl, (Option.some.inj hl).symm, fun hn => h1 ?_, h3.1, h3.2, ?_, h4.1⟩
      · exact List.length_eq_zero_iff.mpr hn
      · exact validHeaderValue_iff.mp (validHeaderValue_trimOws.mp h4.2)
  · rintro ⟨⟨name, raw⟩, rfl, rfl, hwf⟩
    have hne : name ≠ [] := hwf.name_ne
    have htok : name.all isTokenChar = true := hwf.name_token
    have hlen : name.length ≤ maxHeaderName := hwf.name_len
    have hows := token_not_ows htok
    have hfind : find [colon] (name ++ colon :: raw) = some name.length :=
      find_singleton.mpr ⟨name, raw, rfl, token_not_mem htok (by decide), rfl⟩
    have hpos : name.length ≠ 0 := fun h0 => hne (List.length_eq_zero_iff.mp h0)
    have hfront : ¬ (name ++ colon :: raw).head?.any isOws = true := by
      obtain ⟨x, xs, rfl⟩ := List.exists_cons_of_ne_nil hne
      simp [hows x List.mem_cons_self]
    have hlast : ¬ ((name ++ colon :: raw)[name.length - 1]?).any isOws = true := by
      rw [List.getElem?_append_left (by omega)]
      intro hc
      obtain ⟨x, hx, hxo⟩ := (Option.any_eq_true _ _).mp hc
      rw [hows x (List.mem_of_getElem? hx)] at hxo
      exact Bool.noConfusion hxo
    show (if (name ++ colon :: raw).head?.any isOws = true then none else _) = _
    unfold Field.line
    simp only [if_neg hfront, hfind, if_neg hpos, if_neg hlast, List.take_left', drop_behind]
    rw [if_neg (by simp only [not_or, Decidable.not_not, Nat.not_lt]; exact ⟨hlen, htok⟩),
      if_neg (by
        simp only [not_or, Decidable.not_not, Nat.not_lt]
        exact ⟨hwf.value_len,
          validHeaderValue_trimOws.mpr (validHeaderValue_iff.mpr hwf.raw_valid)⟩)]
    rfl

/-- A field line is not empty and has no LF. -/
theorem Field.WF.line_ok {f : Field} (h : f.WF) : f.line ≠ [] ∧ lf ∉ f.line := by
  refine ⟨by simp [Field.line], fun hm => ?_⟩
  rcases List.mem_append.mp hm with hm | hm
  · exact token_not_mem h.name_token (by decide) hm
  · rcases List.mem_cons.mp hm with hm | hm
    · exact absurd hm (by decide)
    · exact absurd (h.raw_valid _ hm) (by decide)

/-- The lines are field lines exactly when each comes from a well-formed field. -/
theorem forall₂_fieldLine_iff : ∀ {ls : List Bytes} {hs : List HttpHeader},
    List.Forall₂ (fun l h => fieldLine l = some h) ls hs ↔
      ∃ fs : List Field, ls = fs.map Field.line ∧ hs = fs.map Field.header ∧ ∀ f ∈ fs, f.WF
  | [], hs => by
    constructor
    · rintro ⟨⟩
      exact ⟨[], rfl, rfl, List.forall_mem_nil _⟩
    · rintro ⟨fs, hl, rfl, -⟩
      rw [List.map_eq_nil_iff.mp hl.symm]
      exact .nil
  | l :: ls, hs => by
    constructor
    · rintro (_ | ⟨hl, ht⟩)
      obtain ⟨f, rfl, rfl, hf⟩ := fieldLine_eq_some_iff.mp hl
      obtain ⟨fs, rfl, rfl, hfs⟩ := forall₂_fieldLine_iff.mp ht
      refine ⟨f :: fs, rfl, rfl, fun g hg => ?_⟩
      rcases List.mem_cons.mp hg with rfl | hg
      · exact hf
      · exact hfs g hg
    · rintro ⟨fs, hl, rfl, hfs⟩
      cases fs with
      | nil => cases hl
      | cons f fs =>
        obtain ⟨rfl, rfl⟩ := List.cons.inj hl
        exact .cons (fieldLine_eq_some_iff.mpr ⟨f, rfl, rfl, hfs f List.mem_cons_self⟩)
          (forall₂_fieldLine_iff.mpr ⟨fs, rfl, rfl, fun g hg => hfs g (List.mem_cons_of_mem f hg)⟩)

/-! ## Storing the fields -/

/-- What storing `h` makes of the loop's variables. -/
def stepFields (f : Fields) (h : HttpHeader) : Fields where
  headers := f.headers ++ [h]
  keepAlive := f.keepAlive && !saysWord "connection" "close" [h]
  chunked := f.chunked || saysWord "transfer-encoding" "chunked" [h]
  sawContentLength := f.sawContentLength || decide (lower h.name = ascii "content-length")
  contentLength :=
    if lower h.name = ascii "content-length" then digitsVal 10 h.value else f.contentLength

/-- When `h` may be stored. -/
def okField (f : Fields) (h : HttpHeader) : Prop :=
  f.headers.length < maxHeaderCount ∧
    (lower h.name = ascii "content-length" →
      isNumeral h.value = true ∧ digitsVal 10 h.value < sizeMod ∧
        (f.sawContentLength = true → digitsVal 10 h.value = f.contentLength))

theorem saysWord_singleton (name word : String) (h : HttpHeader) :
    saysWord name word [h] =
      (decide (lower h.name = ascii name) && contains (ascii word) (lower h.value)) := by
  rw [saysWord_cons]
  exact Bool.or_false _

theorem addField_eq_some_iff {f f' : Fields} {h : HttpHeader} :
    addField f h = some f' ↔ okField f h ∧ f' = stepFields f h := by
  have hte : (ascii "content-length" = ascii "transfer-encoding") = False := by decide
  have hco : (ascii "content-length" = ascii "connection") = False := by decide
  have htc : (ascii "transfer-encoding" = ascii "connection") = False := by decide
  unfold addField okField stepFields
  simp only [saysWord_singleton]
  by_cases hc : maxHeaderCount ≤ f.headers.length
  · rw [if_pos hc]
    constructor
    · intro h; cases h
    · rintro ⟨⟨h1, -⟩, -⟩; omega
  rw [if_neg hc]
  have hlt : f.headers.length < maxHeaderCount := by omega
  generalize lower h.name = n
  by_cases hcl : n = ascii "content-length"
  · subst hcl
    simp only [hte, hco, hlt, decide_true, decide_false, Bool.false_and, Bool.not_false,
      Bool.and_true, Bool.or_false, Bool.or_true, true_and, true_imp_iff, if_true]
    constructor
    · intro hs
      split at hs
      · rename_i hn
        obtain ⟨h1, h2, rfl⟩ := fromChars_eq_some_nil.mp hn
        split_ifs at hs with hsaw
        refine ⟨⟨h1, h2, fun h3 => ?_⟩, (Option.some.inj hs).symm⟩
        by_contra hne
        exact hsaw ⟨h3, hne⟩
      · cases hs
    · rintro ⟨⟨h1, h2, h3⟩, rfl⟩
      rw [fromChars_eq_some_nil.mpr ⟨h1, h2, rfl⟩]
      exact if_neg fun hs => hs.2 (h3 hs.1)
  · simp only [hcl, hlt, false_imp_iff, and_true, true_and, decide_false, Bool.or_false, if_false]
    rw [eq_comm (a := f')]
    by_cases ht : n = ascii "transfer-encoding"
    · subst ht
      cases contains (ascii "chunked") (lower h.value) <;> simp [htc]
    · simp only [ht, false_and, decide_false, Bool.false_and, Bool.or_false, if_false]
      by_cases hn : n = ascii "connection" <;> simp [hn]

/-- Lengths that may be stored: numerals in range, all equal, and equal to `n` if one was seen. -/
def LengthsOk (saw : Bool) (n : Nat) (vs : List Bytes) : Prop :=
  (∀ v ∈ vs, isNumeral v = true ∧ digitsVal 10 v < sizeMod) ∧
    (∀ v ∈ vs, saw = true → digitsVal 10 v = n) ∧
    ∀ v ∈ vs, ∀ w ∈ vs, digitsVal 10 v = digitsVal 10 w

theorem lengthsOk_cons {saw : Bool} {n : Nat} {v : Bytes} {vs : List Bytes} :
    LengthsOk saw n (v :: vs) ↔
      (isNumeral v = true ∧ digitsVal 10 v < sizeMod ∧ (saw = true → digitsVal 10 v = n)) ∧
        LengthsOk true (digitsVal 10 v) vs := by
  unfold LengthsOk
  simp only [List.forall_mem_cons, true_imp_iff, true_and]
  constructor
  · rintro ⟨⟨hv, hnum⟩, ⟨hn, -⟩, -, hsame⟩
    exact ⟨⟨hv.1, hv.2, hn⟩, hnum, fun w hw => (hsame w hw).1, fun w hw => (hsame w hw).2⟩
  · rintro ⟨⟨h1, h2, hn⟩, hnum, heq, hsame⟩
    exact ⟨⟨⟨h1, h2⟩, hnum⟩, ⟨hn, fun w hw hs => (heq w hw).trans (hn hs)⟩,
      fun w hw => (heq w hw).symm, fun w hw => ⟨heq w hw, hsame w hw⟩⟩

/-- One field and then the lengths of the others, as the loop goes. -/
theorem lengthsOk_stepFields (f : Fields) (h : HttpHeader) (hs : List HttpHeader)
    (hf : f.headers.length < maxHeaderCount) :
    LengthsOk f.sawContentLength f.contentLength (values "content-length" (h :: hs)) ↔
      okField f h ∧ LengthsOk (stepFields f h).sawContentLength (stepFields f h).contentLength
        (values "content-length" hs) := by
  unfold okField
  rw [values_cons, and_iff_right hf]
  by_cases hcl : lower h.name = ascii "content-length"
  · rw [if_pos hcl, lengthsOk_cons]
    simp [stepFields, hcl]
  · rw [if_neg hcl]
    simp [stepFields, hcl]

/-- **Storing all fields.** From a state with room, storing `hs` succeeds exactly when they fit and
their content lengths may be stored; what is stored is what the steps make of them. -/
theorem foldlM_addField_iff : ∀ {hs : List HttpHeader} {f f' : Fields},
    f.headers.length ≤ maxHeaderCount →
    (hs.foldlM addField f = some f' ↔
      f.headers.length + hs.length ≤ maxHeaderCount ∧
      LengthsOk f.sawContentLength f.contentLength (values "content-length" hs) ∧
      f' = hs.foldl stepFields f)
  | [], f, f', hf => by
    have hnil : LengthsOk f.sawContentLength f.contentLength (values "content-length" []) := by
      simp [LengthsOk, values]
    simp only [List.foldlM_nil, List.foldl_nil, List.length_nil, Nat.add_zero, hf, hnil, true_and]
    exact ⟨fun h => (Option.some.inj h).symm, fun h => congrArg some h.symm⟩
  | h :: hs, f, f', hf => by
    have hlen : (stepFields f h).headers.length = f.headers.length + 1 := by simp [stepFields]
    rw [List.foldlM_cons, List.length_cons, List.foldl_cons]
    constructor
    · intro hfold
      obtain ⟨f₁, ha, hfold⟩ := Option.bind_eq_some_iff.mp hfold
      obtain ⟨hok, rfl⟩ := addField_eq_some_iff.mp ha
      obtain ⟨hcount, hlengths, rfl⟩ :=
        (foldlM_addField_iff (by rw [hlen]; exact hok.1)).mp hfold
      exact ⟨by omega, (lengthsOk_stepFields f h hs hok.1).mpr ⟨hok, hlengths⟩, rfl⟩
    · rintro ⟨hcount, hlengths, rfl⟩
      obtain ⟨hok, hlengths⟩ := (lengthsOk_stepFields f h hs (by omega)).mp hlengths
      exact Option.bind_eq_some_iff.mpr ⟨_, addField_eq_some_iff.mpr ⟨hok, rfl⟩,
        (foldlM_addField_iff (by omega)).mpr ⟨by omega, hlengths, rfl⟩⟩

/-- The flags after storing all fields. -/
theorem foldl_stepFields : ∀ (hs : List HttpHeader) (f : Fields),
    hs.foldl stepFields f =
      ⟨f.headers ++ hs, f.keepAlive && !saysWord "connection" "close" hs,
        f.chunked || saysWord "transfer-encoding" "chunked" hs,
        f.sawContentLength || decide (values "content-length" hs ≠ []),
        ((values "content-length" hs).getLast?.map (digitsVal 10)).getD f.contentLength⟩
  | [], f => by simp [saysWord, values]
  | h :: hs, f => by
    rw [List.foldl_cons, foldl_stepFields hs, saysWord_cons, saysWord_cons, values_cons]
    unfold stepFields
    simp only [saysWord_cons, Fields.mk.injEq]
    refine ⟨by simp, by simp [saysWord, values, Bool.and_assoc], by simp [saysWord, values,
      Bool.or_assoc], ?_, ?_⟩
    · by_cases hcl : lower h.name = ascii "content-length" <;> simp [hcl]
    · by_cases hcl : lower h.name = ascii "content-length"
      · simp only [hcl, if_true]
        cases hv : values "content-length" hs with
        | nil => simp
        | cons v vs => simp [List.getLast?_cons]
      · simp [hcl]

/-- What the header loop makes of the fields. -/
def storedFields (keepAlive : Bool) (hs : List HttpHeader) : Fields where
  headers := hs
  keepAlive := keepAlive && !saysWord "connection" "close" hs
  chunked := saysWord "transfer-encoding" "chunked" hs
  sawContentLength := decide (values "content-length" hs ≠ [])
  contentLength := commonLength hs

/-- With agreeing lengths the last one is the common one. -/
theorem getLast_length {hs : List HttpHeader} (hsame : ∀ v ∈ values "content-length" hs,
    ∀ w ∈ values "content-length" hs, digitsVal 10 v = digitsVal 10 w) :
    ((values "content-length" hs).getLast?.map (digitsVal 10)).getD 0 = commonLength hs := by
  unfold commonLength
  cases hv : values "content-length" hs with
  | nil => rfl
  | cons v vs =>
    rw [hv] at hsame
    rw [List.getLast?_eq_some_getLast (by simp)]
    exact hsame _ (List.getLast_mem (by simp)) v List.mem_cons_self

/-- **The header loop and the check behind it** accept exactly the field lines of a well-formed
list of fields. -/
theorem headerLoop_complete_iff {ls : List Bytes} (hls : ∀ s ∈ ls, s ≠ [] ∧ lf ∉ s)
    {keepAlive : Bool} {f : Fields} :
    (headerLoop (joinLines cr lf ls).length (joinLines cr lf ls) ⟨[], keepAlive, false, false, 0⟩ =
        (.complete, f) ∧ ¬ (f.chunked = true ∧ f.sawContentLength = true)) ↔
      ∃ fs : List Field, ls = fs.map Field.line ∧ FieldsWF fs ∧
        f = storedFields keepAlive (fs.map Field.header) := by
  rw [headerLoop_lines hls (Nat.le_refl _)]
  constructor
  · rintro ⟨hloop, hch⟩
    obtain ⟨hs, hf2, hstore⟩ := foldLines_complete_iff.mp hloop
    obtain ⟨fs, rfl, rfl, hfs⟩ := forall₂_fieldLine_iff.mp hf2
    obtain ⟨hcount, hlengths, rfl⟩ := (foldlM_addField_iff (Nat.zero_le _)).mp hstore
    rw [foldl_stepFields, getLast_length hlengths.2.2] at hch ⊢
    simp only [List.nil_append, Bool.false_or, decide_eq_true_eq, not_and_or, Decidable.not_not,
      Bool.not_eq_true] at hch ⊢
    exact ⟨fs, rfl, ⟨by simpa using hcount, hfs, hlengths.1, hlengths.2.2,
      fun hne => hch.resolve_right hne⟩, rfl⟩
  · rintro ⟨fs, rfl, hwf, rfl⟩
    refine ⟨foldLines_complete_iff.mpr ⟨_, forall₂_fieldLine_iff.mpr
      ⟨fs, rfl, rfl, hwf.fields_wf⟩, (foldlM_addField_iff (Nat.zero_le _)).mpr
      ⟨by simpa using hwf.count_le,
        ⟨hwf.lengths, fun _ _ hc => absurd hc Bool.false_ne_true, hwf.lengths_same⟩, ?_⟩⟩, ?_⟩
    · rw [foldl_stepFields, getLast_length hwf.lengths_same]
      simp only [List.nil_append, Bool.false_or]
      rfl
    · rintro ⟨h1, h2⟩
      have h0 := hwf.one_framing (of_decide_eq_true h2)
      rw [show saysWord "transfer-encoding" "chunked" (fs.map Field.header) = true from h1] at h0
      cases h0

/-! ## Acceptance -/

theorem Head.StartWF.lf_not_mem {h : Head} (hwf : h.StartWF) : lf ∉ h.startLine := by
  intro hm
  rcases List.mem_append.mp hm with hm | hm
  · exact token_not_mem hwf.method_token (by decide) hm
  rcases List.mem_cons.mp hm with hm | hm
  · exact absurd hm (by decide)
  rcases List.mem_append.mp hm with hm | hm
  · exact hwf.target_lf hm
  rcases List.mem_cons.mp hm with hm | hm
  · exact absurd hm (by decide)
  · rcases hwf.version_eq with e | e <;> rw [e] at hm <;> exact absurd hm (by decide)

/-- The start line is cut at its spaces. -/
theorem Head.StartWF.requestLine {h : Head} (hwf : h.StartWF) :
    requestLine h.startLine = some (h.method, h.target, h.version) :=
  requestLine_eq_some_iff.mpr ⟨rfl, hwf.method_ne, hwf.method_len, hwf.method_token, hwf.target_ne,
    hwf.target_len, hwf.target_sp, hwf.version_eq⟩

theorem FieldsWF.lines_ok {fs : List Field} (hwf : FieldsWF fs) :
    ∀ s ∈ fs.map Field.line, s ≠ [] ∧ lf ∉ s := by
  intro s hs
  obtain ⟨f, hf, rfl⟩ := List.mem_map.mp hs
  exact (hwf.fields_wf f hf).line_ok

/-- The lines of a well-formed head have no LF, and its field lines are not empty. -/
theorem Head.WF.lines_ok {h : Head} (hwf : h.WF) :
    lf ∉ h.startLine ∧ ∀ s ∈ h.fields.map Field.line, s ≠ [] ∧ lf ∉ s :=
  ⟨hwf.toStartWF.lf_not_mem, hwf.toFieldsWF.lines_ok⟩

theorem Head.length_render (h : Head) :
    h.render.length = (joinLines cr lf (h.startLine :: h.fields.map Field.line)).length + 2 := by
  rw [render, List.length_append]; rfl

/-- The head up to the end of its request line is a strict prefix of it. -/
theorem Head.startLine_prefix (h : Head) :
    h.startLine ++ crlf <+: h.render ∧ h.startLine ++ crlf ≠ h.render := by
  have e : h.render =
      (h.startLine ++ crlf) ++ (joinLines cr lf (h.fields.map Field.line) ++ crlf) := by
    rw [render, joinLines_cons]
    simp [crlf]
  refine ⟨⟨_, e.symm⟩, fun hc => ?_⟩
  have hnil := List.self_eq_append_right.mp (hc.trans e)
  exact absurd (List.append_eq_nil_iff.mp hnil).2 (by decide)

/-- The stages of an accepting run of `parse_headers`. -/
theorem parseRequestHeaders_eq_complete_iff {bytes : Bytes} {req req' : HttpRequest} :
    parseRequestHeaders bytes req = (.complete, req') ↔
      ∃ start rest n m t v f, splitHead bytes = .ok (start, rest, n) ∧
        requestLine start = some (m, t, v) ∧
        headerLoop rest.length rest ⟨[], v == ascii "HTTP/1.1", false, false, 0⟩ =
          (.complete, f) ∧
        ¬ (f.chunked = true ∧ f.sawContentLength = true) ∧
        req' = ⟨m, t, v, f.headers, f.keepAlive, f.contentLength, f.chunked, n⟩ := by
  unfold parseRequestHeaders
  constructor
  · intro hp
    cases hsp : splitHead bytes with
    | error r =>
      rw [hsp] at hp
      rw [(Prod.mk.inj hp).1] at hsp
      exact absurd hsp (splitHead_ne_complete bytes)
    | ok p =>
      obtain ⟨start, rest, n⟩ := p
      rw [hsp] at hp
      simp only at hp
      cases hr : requestLine start with
      | none => rw [hr] at hp; cases hp
      | some q =>
        obtain ⟨m, t, v⟩ := q
        rw [hr] at hp
        simp only at hp
        cases hloop : headerLoop rest.length rest ⟨[], v == ascii "HTTP/1.1", false, false, 0⟩ with
        | mk r f =>
          rw [hloop] at hp
          simp only at hp
          split_ifs at hp with hc hch
          · exact absurd (Prod.mk.inj hp).1 hc
          · cases hp
          · rw [Decidable.not_not] at hc
            exact ⟨start, rest, n, m, t, v, f, rfl, hr, hc ▸ hloop, hch, (Prod.mk.inj hp).2.symm⟩
  · rintro ⟨start, rest, n, m, t, v, f, hsp, hr, hloop, hch, rfl⟩
    rw [hsp]
    simp only [hr, hloop]
    rw [if_neg (by simp), if_neg hch]

/-- **`parse_headers` accepts a request exactly when a well-formed head starts the bytes**, and
stores the request of that head. -/
theorem parseRequestHeaders_complete_iff {bytes : Bytes} {req req' : HttpRequest} :
    parseRequestHeaders bytes req = (.complete, req') ↔
      ∃ h : Head, h.render <+: bytes ∧ h.render.length ≤ maxHeaderBytes ∧ h.WF ∧
        req' = h.request := by
  rw [parseRequestHeaders_eq_complete_iff]
  constructor
  · rintro ⟨start, rest, n, m, t, v, f, hsp, hr, hloop, hch, rfl⟩
    obtain ⟨ls, tail, rfl, rfl, rfl, hmax, hs, hls⟩ := splitHead_eq_ok_iff.mp hsp
    obtain ⟨rfl, hm0, hm1, hm2, ht0, ht1, ht2, hv⟩ := requestLine_eq_some_iff.mp hr
    obtain ⟨fs, rfl, hfs, rfl⟩ := (headerLoop_complete_iff hls).mp ⟨hloop, hch⟩
    have hwf : Head.WF ⟨m, t, v, fs⟩ :=
      { toFieldsWF := hfs, method_ne := hm0, method_len := hm1, method_token := hm2,
        target_ne := ht0, target_len := ht1, target_sp := ht2,
        target_lf := fun hm => hs (by simp [hm]), version_eq := hv }
    refine ⟨⟨m, t, v, fs⟩, ⟨tail, rfl⟩, ?_, hwf, ?_⟩
    · rw [Head.length_render]
      exact hmax
    · unfold Head.request
      rw [Head.length_render]
      rfl
  · rintro ⟨h, ⟨tail, rfl⟩, hmax, hwf, rfl⟩
    obtain ⟨hstart, hlines⟩ := hwf.lines_ok
    obtain ⟨hloop, hch⟩ := (headerLoop_complete_iff hlines).mpr ⟨h.fields, rfl, hwf.toFieldsWF, rfl⟩
    exact ⟨h.startLine, joinLines cr lf (h.fields.map Field.line), h.render.length, h.method,
      h.target, h.version, _,
      splitHead_eq_ok_iff.mpr ⟨_, tail, rfl, rfl, h.length_render, hmax, hstart, hlines⟩,
      hwf.toStartWF.requestLine, hloop, hch, rfl⟩

/-- The same on a buffer, whose first `65537` bytes are what the parser sees. -/
theorem parseRequest_complete_iff {b : Buffer} {req req' : HttpRequest} :
    parseRequest b.toRingBuffer req = (.complete, req') ↔
      ∃ h : Head, h.render <+: b.contents ∧ h.render.length ≤ maxHeaderBytes ∧ h.WF ∧
        req' = h.request := by
  unfold parseRequest
  rw [peek_head, parseRequestHeaders_complete_iff]
  refine exists_congr fun h => ⟨fun hp => ⟨?_, hp.2⟩, fun hp => ⟨?_, hp.2⟩⟩
  · exact hp.1.trans (List.take_prefix _ _)
  · exact List.prefix_take_iff.mpr ⟨hp.1, by have := hp.2.1; omega⟩

/-- Where the blank line of a head is. -/
theorem Head.WF.find_blank {h : Head} (hwf : h.WF) (tail : Bytes) :
    find crlfcrlf (h.render ++ tail) = some (h.render.length - 4) := by
  obtain ⟨hstart, hlines⟩ := hwf.lines_ok
  have := Lib.Search.find_blank cr_ne_lf tail hstart hlines
  rw [h.length_render, render, List.append_assoc]
  exact this.trans (by congr 1)

/-- A field is determined by its line. -/
theorem Field.line_injective {f g : Field} (hf : colon ∉ f.name) (hg : colon ∉ g.name)
    (h : f.line = g.line) : f = g := by
  have e₁ : find [colon] f.line = some f.name.length := find_singleton.mpr ⟨_, _, rfl, hf, rfl⟩
  have e₂ : find [colon] g.line = some g.name.length := find_singleton.mpr ⟨_, _, rfl, hg, rfl⟩
  rw [h, e₂] at e₁
  obtain ⟨hn, hr⟩ := List.append_inj h (Option.some.inj e₁).symm
  cases f; cases g
  simp_all

theorem map_line_injective : ∀ {fs gs : List Field}, (∀ f ∈ fs, colon ∉ f.name) →
    (∀ g ∈ gs, colon ∉ g.name) → fs.map Field.line = gs.map Field.line → fs = gs
  | [], [], _, _, _ => rfl
  | [], _ :: _, _, _, h => by cases h
  | _ :: _, [], _, _, h => by cases h
  | f :: fs, g :: gs, hf, hg, h => by
    obtain ⟨h1, h2⟩ := List.cons.inj h
    rw [Field.line_injective (hf f List.mem_cons_self) (hg g List.mem_cons_self) h1,
      map_line_injective (fun x hx => hf x (List.mem_cons_of_mem f hx))
        (fun x hx => hg x (List.mem_cons_of_mem g hx)) h2]

/-- The name and the line of a field can be told apart from what is around them. -/
def Field.Delimited (f : Field) : Prop := colon ∉ f.name ∧ lf ∉ f.line

theorem Field.WF.delimited {f : Field} (h : f.WF) : f.Delimited :=
  ⟨token_not_mem h.name_token (by decide), h.line_ok.2⟩

/-- **Start line and fields are determined by the bytes** they are at the front of. -/
theorem fields_of_render {s t : Bytes} {fs gs : List Field} {r r' : Bytes} (hs : lf ∉ s)
    (hfs : ∀ f ∈ fs, f.Delimited) (ht : lf ∉ t) (hgs : ∀ f ∈ gs, f.Delimited)
    (he : joinLines cr lf (s :: fs.map Field.line) ++ crlf ++ r =
      joinLines cr lf (t :: gs.map Field.line) ++ crlf ++ r') : s = t ∧ fs = gs ∧ r = r' := by
  have hlines : ∀ {fs : List Field}, (∀ f ∈ fs, f.Delimited) →
      ∀ x ∈ fs.map Field.line, x ≠ [] ∧ lf ∉ x := by
    intro fs hfs x hx
    obtain ⟨f, hf, rfl⟩ := List.mem_map.mp hx
    exact ⟨by simp [Field.line], (hfs f hf).2⟩
  rw [List.append_assoc, List.append_assoc] at he
  obtain ⟨hst, hmap, hr⟩ := lines_unique cr_ne_lf hs (hlines hfs) ht (hlines hgs) he
  exact ⟨hst, map_line_injective (fun f hf => (hfs f hf).1) (fun f hf => (hgs f hf).1) hmap, hr⟩

/-- **The head at the front is determined by the bytes**, by its start line and the names of its
fields. -/
theorem Head.eq_of_prefix {h g : Head} (hh : h.StartWF) (hhf : ∀ f ∈ h.fields, f.Delimited)
    (hg : g.StartWF) (hgf : ∀ f ∈ g.fields, f.Delimited) {r r' : Bytes}
    (he : h.render ++ r = g.render ++ r') : h = g ∧ r = r' := by
  obtain ⟨hs, hf, hr⟩ := fields_of_render hh.lf_not_mem hhf hg.lf_not_mem hgf he
  have hcut := hh.requestLine
  rw [hs, hg.requestLine] at hcut
  cases h; cases g
  simp_all

/-- **At most one well-formed head starts a byte string.** -/
theorem Head.render_unique {h h' : Head} (hwf : h.WF) (hwf' : h'.WF) {r r' : Bytes}
    (he : h.render ++ r = h'.render ++ r') : h = h' ∧ r = r' :=
  eq_of_prefix hwf.toStartWF (fun f hf => (hwf.fields_wf f hf).delimited) hwf'.toStartWF
    (fun f hf => (hwf'.fields_wf f hf).delimited) he

/-- **`parse_request` accepts exactly its grammar.** -/
theorem parse_request_accepts_grammar (b : Buffer) (req : HttpRequest) :
    ((parseRequest b.toRingBuffer req).1 = .complete ↔
      ∃ (head : Head) (rest : Bytes), b.contents = head.render ++ rest ∧
        head.render.length ≤ maxHeaderBytes ∧ head.WF) ∧
    ∀ (head : Head) (rest : Bytes), b.contents = head.render ++ rest →
      head.render.length ≤ maxHeaderBytes → head.WF →
        parseRequest b.toRingBuffer req = (.complete, head.request) ∧
        ∀ (head' : Head) (rest' : Bytes), b.contents = head'.render ++ rest' → head'.WF →
          head' = head ∧ rest' = rest := by
  refine ⟨⟨fun h => ?_, ?_⟩, fun head rest he hmax hwf => ⟨?_, fun head' rest' he' hwf' => ?_⟩⟩
  · obtain ⟨head, ⟨rest, hr⟩, hmax, hwf, -⟩ :=
      parseRequest_complete_iff.mp
        (Prod.ext h rfl : parseRequest b.toRingBuffer req = (.complete, _))
    exact ⟨head, rest, hr.symm, hmax, hwf⟩
  · rintro ⟨head, rest, he, hmax, hwf⟩
    rw [parseRequest_complete_iff.mpr ⟨head, ⟨rest, he.symm⟩, hmax, hwf, rfl⟩]
  · exact parseRequest_complete_iff.mpr ⟨head, ⟨rest, he.symm⟩, hmax, hwf, rfl⟩
  · exact Head.render_unique hwf' hwf (he'.symm.trans he)

/-- `GET / HTTP/1.1` with one field whose value has blanks around it. -/
theorem parse_request_accepts_grammar_get :
    let head : Head := ⟨ascii "GET", ascii "/", ascii "HTTP/1.1", [⟨ascii "Host", ascii " x "⟩]⟩
    head.WF ∧ head.render = ascii "GET / HTTP/1.1\r\nHost: x \r\n\r\n" ∧
      (parseRequest (Buffer.ofBytes (head.render ++ ascii "body")).toRingBuffer {}).2.headers =
        [⟨ascii "Host", ascii "x"⟩] := by
  intro head
  have hf : ∀ f ∈ head.fields, f.WF := by
    intro f hf
    rw [List.mem_singleton.mp hf]
    exact ⟨by decide, by decide, by decide, by decide +kernel, by decide +kernel⟩
  have hwf : head.WF :=
    { method_ne := by decide, method_len := by decide, method_token := by decide,
      target_ne := by decide, target_len := by decide, target_sp := by decide,
      target_lf := by decide, version_eq := Or.inl rfl, count_le := by decide, fields_wf := hf,
      lengths := by decide, lengths_same := by decide, one_framing := by decide }
  refine ⟨hwf, by decide, ?_⟩
  have h := ((parse_request_accepts_grammar (Buffer.ofBytes (head.render ++ ascii "body")) {}).2
    head (ascii "body") (Buffer.contents_ofBytes _) (by decide) hwf).1
  rw [h]
  decide

end Uproxy
