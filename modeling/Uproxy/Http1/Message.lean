import Uproxy.Basic
import Uproxy.Lib.Search
import Mathlib.Data.List.DropRight
import Mathlib.Data.List.TakeWhile

/-!
# HTTP/1 messages and character classes (`http1.h`, first part of `http1.cpp`)

The request and response records, the limits, and the helpers of `http1.cpp` on byte strings.
`std::isalnum` and `std::tolower` are those of the "C" locale, the one the program runs in (it
never calls `setlocale`): ASCII only.

`std::from_chars` reads the longest run of digits; it fails on an empty run
(`invalid_argument`) and on a value outside the type (`result_out_of_range`).
-/

namespace Uproxy

open Lib.Search

/-- `HttpHeader`. -/
structure HttpHeader where
  name  : Bytes
  value : Bytes
  deriving DecidableEq, Repr

/-- `HttpRequest`. -/
structure HttpRequest where
  method        : Bytes := []
  target        : Bytes := []
  version       : Bytes := []
  headers       : List HttpHeader := []
  keepAlive     : Bool := true
  contentLength : Nat := 0
  chunked       : Bool := false
  headerBytes   : Nat := 0
  deriving DecidableEq, Repr

/-- `HttpResponse`. -/
structure HttpResponse where
  status        : Int := 200
  reason        : Bytes := ascii "OK"
  headers       : List HttpHeader := []
  contentLength : Nat := 0
  chunked       : Bool := false
  headerBytes   : Nat := 0
  deriving DecidableEq, Repr

def maxMethodLen : Nat := 16
def maxTargetLen : Nat := 8192
def maxHeaderName : Nat := 256
def maxHeaderValue : Nat := 8192
def maxHeaderCount : Nat := 100
def maxHeaderBytes : Nat := 65536

/-- `ParseResult`. -/
inductive ParseResult where
  | complete | incomplete | error
  deriving DecidableEq, Repr

/-! ## Bytes with a role -/

def cr : UInt8 := 13
def lf : UInt8 := 10
def sp : UInt8 := 32
def htab : UInt8 := 9
def colon : UInt8 := 58

def crlf : Bytes := [cr, lf]
def crlfcrlf : Bytes := [cr, lf, cr, lf]

theorem cr_ne_lf : cr ≠ lf := by decide

/-- `find(pat, pos)`: the first occurrence at or behind `pos`. -/
def findFrom (pat s : Bytes) (pos : Nat) : Option Nat := (find pat (s.drop pos)).map (· + pos)

/-- `find(pat) != npos`. -/
def contains (pat s : Bytes) : Bool := (find pat s).isSome

/-! ## Character classes -/

def isDigit (c : UInt8) : Bool := 48 ≤ c && c ≤ 57

/-- `std::isalnum`. -/
def isAlnum (c : UInt8) : Bool :=
  isDigit c || (65 ≤ c && c ≤ 90) || (97 ≤ c && c ≤ 122)

/-- `is_token_char`. -/
def isTokenChar (c : UInt8) : Bool := isAlnum c || (ascii "!#$%&'*+-.^_`|~").contains c

/-- `std::tolower`. -/
def toLower (c : UInt8) : UInt8 := if 65 ≤ c ∧ c ≤ 90 then c + 32 else c

/-- `lower`. -/
def lower (s : Bytes) : Bytes := s.map toLower

def isOws (c : UInt8) : Bool := c == sp || c == htab

/-- `trim_ows`: the leading blanks go first, then the trailing ones. -/
def trimOws (s : Bytes) : Bytes := ((s.dropWhile isOws).reverse.dropWhile isOws).reverse

/-- `valid_header_value`. -/
def validHeaderValue (value : Bytes) : Bool :=
  value.all fun c => !(c == cr || c == lf) && !(c < 0x20 && c != htab)

/-! ## `std::from_chars` -/

/-- The value of a digit in a base up to 36. -/
def digitVal (base : Nat) (c : UInt8) : Option Nat :=
  let v :=
    if isDigit c then some (c.toNat - 48)
    else if 97 ≤ c ∧ c ≤ 122 then some (c.toNat - 87)
    else if 65 ≤ c ∧ c ≤ 90 then some (c.toNat - 55)
    else none
  v.filter (· < base)

/-- The number written by digits, most significant first. -/
def digitsVal (base : Nat) (s : Bytes) : Nat :=
  s.foldl (fun n c => n * base + (digitVal base c).getD 0) 0

/-- `std::from_chars` into `uint64_t`: the value and what is left behind the digits, or `none` for
either error. -/
def fromChars (base : Nat) (s : Bytes) : Option (Nat × Bytes) :=
  let digits := s.takeWhile fun c => (digitVal base c).isSome
  if digits = [] then none
  else if digitsVal base digits < sizeMod then
    some (digitsVal base digits, s.drop digits.length)
  else none

/-- `std::from_chars` into `int`, which also reads a minus sign. -/
def fromCharsInt (s : Bytes) : Option (Int × Bytes) :=
  let neg := s.head? == some 45
  let s := if neg then s.drop 1 else s
  let digits := s.takeWhile fun c => (digitVal 10 c).isSome
  let n : Int := if neg then -(digitsVal 10 digits) else digitsVal 10 digits
  if digits = [] then none
  else if -(2 ^ 31) ≤ n ∧ n < 2 ^ 31 then some (n, s.drop digits.length)
  else none

/-! ## Facts about the classes -/

theorem isTokenChar_ne {c d : UInt8} (h : isTokenChar c = true) (hd : isTokenChar d = false) :
    c ≠ d := by
  rintro rfl
  rw [h] at hd
  exact Bool.noConfusion hd

/-- A token has no byte outside the token characters. -/
theorem token_not_mem {s : Bytes} (h : s.all isTokenChar = true) {d : UInt8}
    (hd : isTokenChar d = false) : d ∉ s :=
  fun hm => isTokenChar_ne (List.all_eq_true.mp h d hm) hd rfl

theorem contains_iff {pat s : Bytes} : contains pat s = true ↔ pat <:+: s := find_isSome_iff

theorem contains_singleton {c : UInt8} {s : Bytes} : contains [c] s = true ↔ c ∈ s := by
  unfold contains
  rw [Option.isSome_iff_ne_none, ne_eq, find_singleton_none, Decidable.not_not]

theorem validHeaderValue_iff {s : Bytes} :
    validHeaderValue s = true ↔ ∀ c ∈ s, 0x20 ≤ c ∨ c = htab := by
  unfold validHeaderValue
  rw [List.all_eq_true]
  refine forall_congr' fun c => imp_congr_right fun _ => ?_
  simp only [Bool.and_eq_true, Bool.not_eq_true', Bool.or_eq_false_iff, beq_eq_false_iff_ne,
    Bool.and_eq_false_imp, decide_eq_true_eq, bne_eq_false_iff_eq]
  constructor
  · rintro ⟨-, h⟩
    by_cases hc : c < 0x20
    · exact Or.inr (h hc)
    · exact Or.inl (UInt8.not_lt.mp hc)
  · rintro (h | rfl)
    · refine ⟨⟨?_, ?_⟩, fun hc => absurd hc (UInt8.not_lt.mpr h)⟩ <;>
        (rintro rfl; exact absurd h (by decide))
    · exact ⟨⟨by decide, by decide⟩, fun _ => rfl⟩

theorem validHeaderValue_not_mem {s : Bytes} (h : validHeaderValue s = true) :
    cr ∉ s ∧ lf ∉ s := by
  rw [validHeaderValue_iff] at h
  constructor <;> intro hm <;> exact absurd (h _ hm) (by decide)

theorem mem_trimOws {s : Bytes} {c : UInt8} (h : c ∈ trimOws s) : c ∈ s := by
  unfold trimOws at h
  have h1 := List.mem_reverse.mp h
  have h2 := List.mem_reverse.mp ((List.dropWhile_sublist isOws).subset h1)
  exact (List.dropWhile_sublist isOws).subset h2

/-- What `trim_ows` removes is blanks. -/
theorem mem_of_mem_trimOws {s : Bytes} {c : UInt8} (h : c ∈ s) :
    c ∈ trimOws s ∨ isOws c = true := by
  have key : ∀ t : Bytes, c ∈ t → c ∈ t.dropWhile isOws ∨ isOws c = true := by
    intro t ht
    rw [← List.takeWhile_append_dropWhile (p := isOws) (l := t)] at ht
    rcases List.mem_append.mp ht with h | h
    · exact Or.inr (List.mem_takeWhile_imp h)
    · exact Or.inl h
  rcases key s h with h | h
  · rcases key _ (List.mem_reverse.mpr h) with h | h
    · exact Or.inl (List.mem_reverse.mpr h)
    · exact Or.inr h
  · exact Or.inr h

theorem trimOws_sp (s : Bytes) : trimOws (sp :: s) = trimOws s := rfl

theorem trimOws_eq_self {s : Bytes} (hsp : sp ∉ s) (htab : Uproxy.htab ∉ s) : trimOws s = s := by
  have hows : ∀ c ∈ s, isOws c = false := by
    intro c hc
    unfold isOws
    rw [Bool.or_eq_false_iff, beq_eq_false_iff_ne, beq_eq_false_iff_ne]
    exact ⟨fun he => hsp (he ▸ hc), fun he => htab (he ▸ hc)⟩
  have hdrop : ∀ t : Bytes, (∀ c ∈ t, isOws c = false) → t.dropWhile isOws = t := by
    intro t ht
    rw [List.dropWhile_eq_self_iff]
    intro hl hp
    rw [ht _ (List.getElem_mem hl)] at hp
    exact Bool.noConfusion hp
  unfold trimOws
  rw [hdrop s hows, hdrop s.reverse fun c hc => hows c (List.mem_reverse.mp hc),
    List.reverse_reverse]

/-- `trim_ows` leaves nothing to trim. -/
theorem trimOws_trimOws (s : Bytes) : trimOws (trimOws s) = trimOws s := by
  have key : ∀ t : Bytes, t.dropWhile isOws = t →
      (t.rdropWhile isOws).dropWhile isOws = t.rdropWhile isOws := by
    intro t ht
    rw [List.dropWhile_eq_self_iff] at ht ⊢
    intro hl
    have hp := List.rdropWhile_prefix isOws (l := t)
    have hlt : 0 < t.length := Nat.lt_of_lt_of_le hl hp.length_le
    rw [hp.getElem hl]
    exact ht hlt
  show ((List.rdropWhile isOws (s.dropWhile isOws)).dropWhile isOws).rdropWhile isOws = _
  rw [key _ (List.dropWhile_idempotent isOws s), List.rdropWhile_idempotent]
  rfl

/-- A value is valid iff it is valid with its surrounding blanks. -/
theorem validHeaderValue_trimOws {s : Bytes} :
    validHeaderValue (trimOws s) = true ↔ validHeaderValue s = true := by
  rw [validHeaderValue_iff, validHeaderValue_iff]
  constructor
  · intro h c hc
    rcases mem_of_mem_trimOws hc with hc | hc
    · exact h c hc
    · unfold isOws at hc
      rcases Bool.or_eq_true_iff.mp hc with hc | hc
      · rw [eq_of_beq hc]; exact Or.inl (by decide)
      · exact Or.inr (eq_of_beq hc)
  · exact fun h c hc => h c (mem_trimOws hc)

/-! ## Numerals -/

/-- A decimal numeral: digits, at least one. -/
def isNumeral (s : Bytes) : Bool := s ≠ [] && s.all isDigit

theorem digitVal_ten_isSome (c : UInt8) : (digitVal 10 c).isSome = isDigit c := by
  unfold digitVal
  by_cases h : isDigit c = true
  · have hc : c.toNat - 48 < 10 := by
      simp only [isDigit, Bool.and_eq_true, decide_eq_true_eq, UInt8.le_iff_toNat_le] at h
      have h57 : (57 : UInt8).toNat = 57 := rfl
      omega
    simp [h, Option.filter, hc]
  · have hf : isDigit c = false := by simpa using h
    rw [hf]
    simp only [Bool.false_eq_true, if_false]
    split_ifs with h1 h2
    · have : 97 ≤ c.toNat := UInt8.le_iff_toNat_le.mp h1.1
      simp [Option.filter, show ¬ c.toNat - 87 < 10 by omega]
    · have : 65 ≤ c.toNat := UInt8.le_iff_toNat_le.mp h2.1
      simp [Option.filter, show ¬ c.toNat - 55 < 10 by omega]
    · rfl

/-- A numeral in a base. -/
def Numeral (base : Nat) (s : Bytes) : Prop :=
  s ≠ [] ∧ ∀ c ∈ s, (digitVal base c).isSome = true

theorem isNumeral_iff {s : Bytes} : isNumeral s = true ↔ s ≠ [] ∧ ∀ c ∈ s, isDigit c = true := by
  rw [isNumeral, Bool.and_eq_true, decide_eq_true_eq, List.all_eq_true]

theorem numeral_ten_iff {s : Bytes} : Numeral 10 s ↔ isNumeral s = true := by
  simp only [Numeral, digitVal_ten_isSome, isNumeral_iff]

/-- A class of bytes at the front is all there is. -/
theorem takeWhile_all_iff {p : UInt8 → Bool} {s : Bytes} :
    s.takeWhile p ≠ [] ∧ s.drop (s.takeWhile p).length = [] ↔
      (s ≠ [] ∧ ∀ c ∈ s, p c = true) ∧ s.takeWhile p = s := by
  have hall : s.drop (s.takeWhile p).length = [] ↔ s.takeWhile p = s := by
    rw [List.drop_eq_nil_iff]
    constructor
    · intro hle
      exact (List.takeWhile_prefix p).eq_of_length_le hle
    · intro he
      rw [he]
  rw [hall, List.takeWhile_eq_self_iff]
  constructor
  · rintro ⟨hne, hp⟩
    rw [List.takeWhile_eq_self_iff.mpr hp] at hne
    exact ⟨⟨hne, hp⟩, hp⟩
  · rintro ⟨⟨hne, -⟩, hp⟩
    rw [List.takeWhile_eq_self_iff.mpr hp]
    exact ⟨hne, hp⟩

/-- The digits at the front are all there is exactly if it is a numeral. -/
theorem takeWhile_isDigit_iff {s : Bytes} :
    s.takeWhile isDigit ≠ [] ∧ s.drop (s.takeWhile isDigit).length = [] ↔
      isNumeral s = true ∧ s.takeWhile isDigit = s := by
  rw [takeWhile_all_iff, isNumeral_iff]

/-- `from_chars` consumes a whole string exactly when it is a numeral in range. -/
theorem fromChars_numeral {base : Nat} {s : Bytes} {n : Nat} :
    fromChars base s = some (n, []) ↔
      Numeral base s ∧ digitsVal base s < sizeMod ∧ n = digitsVal base s := by
  unfold fromChars
  dsimp only
  constructor
  · intro h
    split_ifs at h with hne hlt
    obtain ⟨rfl, hrest⟩ := Prod.mk.inj (Option.some.inj h)
    obtain ⟨hnum, heq⟩ := takeWhile_all_iff.mp ⟨hne, hrest⟩
    rw [heq] at hlt ⊢
    exact ⟨hnum, hlt, rfl⟩
  · rintro ⟨hn, hlt, rfl⟩
    rw [List.takeWhile_eq_self_iff.mpr hn.2, if_neg hn.1, if_pos hlt, List.drop_length]

theorem fromChars_eq_some_nil {s : Bytes} {n : Nat} :
    fromChars 10 s = some (n, []) ↔
      isNumeral s = true ∧ digitsVal 10 s < sizeMod ∧ n = digitsVal 10 s := by
  rw [fromChars_numeral, numeral_ten_iff]

end Uproxy
